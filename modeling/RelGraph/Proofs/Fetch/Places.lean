import RelGraph.Proofs.Fetch.Agreement
import RelGraph.Proofs.Hydration
/-!
Places in fetched rows. Callers find a row below another under the key of a relation, and in a list
at a number. At every place where a fetched value has a row, the plan has one: the same steps lead
to it through the tables.
-/
namespace RelGraph.Direct

open Store Sql Outcome

/-! ## Steps -/

/-- Where to find a row below another: for every level the key of a relation and the number of a row
of it. -/
abbrev Path := List (String × Nat)

/-- The value at a number of what a relation shows; one that shows a single row has it first. -/
def itemAt (v : Value) (i : Nat) : Option Value :=
  match v with
  | .list items => items[i]?
  | .null => none
  | v => if i = 0 then some v else none

/-- The value at a place below a row, with its plan. -/
def shownBelow (n : Node) (v : Value) : Path → Option (Node × Value)
  | [] => some (n, v)
  | (key, i) :: path => do
    let child ← Members.get? n.relations key
    let w ← itemAt (v.field key) i
    shownBelow child w path

/-- The value at a place in fetched rows, with its plan. -/
def shownAt (n : Node) (rows : List Value) (i : Nat) (path : Path) : Option (Node × Value) := do
  shownBelow n (← rows[i]?) path

/-- The row at a place below a row of a table, with its plan and its table. -/
def rowBelow (scan : Scan) (r : Registry) (db : Database) (n : Node) (t : Table)
    (row : StoredRow) : Path → Option (Node × Table × StoredRow)
  | [] => some (n, t, row)
  | (key, i) :: path => do
    let child ← Members.get? n.relations key
    let rel ← child.relation
    let target ← r.table? child.table
    let below ← (relatedRows scan db t row target rel child)[i]?
    rowBelow scan r db child target below path

/-- The row at a place of what a plan asks for, with its plan and its table. -/
def rowAt (scan : Scan) (r : Registry) (db : Database) (n : Node) (i : Nat) (path : Path) :
    Option (Node × Table × StoredRow) := do
  let t ← r.table? n.table
  let row ← (rootRows scan db t n)[i]?
  rowBelow scan r db n t row path

/-! ## What leaves the database -/

theorem jsonCells_eq_mapM (row : StoredRow) (columns : List Column) :
    jsonCells row columns = columns.mapM fun c => do return (c.name, ← jsonOf c (row.cell c)) := by
  induction columns with
  | nil => rfl
  | cons c rest ih =>
    rw [jsonCells, ih, List.mapM_cons]
    simp only [bind_assoc, pure_bind]

theorem resultMembers_eq_mapM (read : Column → Cell) (columns : List Column) :
    resultMembers read columns = columns.mapM fun c => do
      return (c.name, ← Binding.result c.declaration.type (read c)) := by
  induction columns with
  | nil => rfl
  | cons c rest ih =>
    rw [resultMembers, ih, List.mapM_cons]
    simp only [bind_assoc, pure_bind]

theorem values_eq_mapM (scan : Scan) (r : Registry) (db : Database) (t : Table) (row : StoredRow)
    (relations : List (String × Node)) :
    values scan r db t row relations = relations.mapM fun kv => do
      return (kv.1, ← value scan r db t row kv.2 >>= embedded) := by
  induction relations with
  | nil => rfl
  | cons kv rest ih =>
    rw [values, ih, List.mapM_cons]
    simp only [bind_assoc, pure_bind]

/-- What a fetched row holds for a plan: the cells of its columns, each read in some way, and the
values of its relations. -/
structure Carries (read : Column → Cell → Except Refusal Value) (scan : Scan) (r : Registry)
    (db : Database) (n : Node) (t : Table) (row : StoredRow) (ms : Members Value) : Prop where
  column : ∀ c ∈ columnsOf t n.columns, c.name ∉ Members.names n.relations →
    ∃ x, read c (row.cell c) = .ok x ∧ Members.get? ms c.name = some x
  relation : ∀ kv ∈ n.relations, ∃ w, value scan r db t row kv.2 = .ok w ∧
    Members.get? ms kv.1 = some w

variable {scan : Scan} {r : Registry} {db : Database} {n : Node} {t : Table} {row : StoredRow}

theorem embedded_eq_ok {v w : Value} (h : embedded v = .ok w) : w = v := by
  rw [embedded] at h
  split at h
  · cases h
  · exact (Except.ok.inj h).symm

theorem leaving_eq_ok {v w : Value} (h : leaving v = .ok w) : w = v := by
  rw [leaving] at h
  split at h
  · split at h
    · cases h
    · exact (Except.ok.inj h).symm
  · exact (Except.ok.inj h).symm

theorem column?_of_mem_columnsOf {names : List String} {c : Column} (h : c ∈ columnsOf t names) :
    t.column? c.name = some c ∧ c.name ∈ names := by
  obtain ⟨name, hname, hc⟩ := List.mem_filterMap.mp h
  obtain rfl := Table.column?_name hc
  exact ⟨hc, hname⟩

/-- Members that were read for columns of one table agree wherever they share a name. -/
theorem get?_columnMembers {names : List String} {f : Column → Except Refusal Value}
    {own : Members Value}
    (h : ((columnsOf t names).mapM fun c => do return (c.name, ← f c)) = .ok own)
    {c : Column} (hc : c ∈ columnsOf t names) :
    ∃ x, f c = .ok x ∧ (c.name, x) ∈ own ∧ ∀ y, (c.name, y) ∈ own → y = x := by
  obtain ⟨-, hthere, hback⟩ := mapM_named_eq_ok h
  obtain ⟨x, hx, hmem⟩ := hthere c hc
  refine ⟨x, hx, hmem, fun y hy => ?_⟩
  obtain ⟨e, he, hname, hfound⟩ := hback _ hy
  -- A table has one column of a name, so the two members were read for the same.
  have hsame : e = c := by
    have hboth := (column?_of_mem_columnsOf he).1
    rw [hname, (column?_of_mem_columnsOf hc).1] at hboth
    exact (Option.some.inj hboth).symm
  rw [hsame, hx] at hfound
  exact (Except.ok.inj hfound).symm

/-- The object of a row below the root carries what its plan asks for. -/
theorem carries_object {own below : Members Value}
    (hkeys : (Members.names n.relations).Nodup)
    (hown : jsonCells row (columnsOf t n.columns) = .ok own)
    (hbelow : values scan r db t row n.relations = .ok below) :
    Carries jsonOf scan r db n t row (Members.ofPairs (own ++ below)) := by
  rw [jsonCells_eq_mapM] at hown
  rw [values_eq_mapM] at hbelow
  obtain ⟨hnames, hthere, -⟩ := mapM_named_eq_ok hbelow
  rw [Members.ofPairs, Members.update_append]
  constructor
  · intro c hc hapart
    obtain ⟨x, hx, hmem, honly⟩ := get?_columnMembers hown hc
    refine ⟨x, hx, ?_⟩
    rw [Members.get?_update_of_not_mem (by rw [hnames]; exact hapart)]
    exact Members.get?_update_of_forall (Members.mem_names_of_mem hmem) honly
  · intro kv hkv
    obtain ⟨w, hw, hmem⟩ := hthere kv hkv
    obtain ⟨v, hv, hw⟩ := bind_eq_ok.mp hw
    obtain rfl := embedded_eq_ok hw
    exact ⟨w, hv, Members.get?_update_of_mem (by rw [hnames]; exact hkeys) hmem⟩

theorem repeatedName?_eq_none {names : List String} :
    repeatedName? names = none ↔ names.Nodup := by
  induction names with
  | nil => simp [repeatedName?]
  | cons name rest ih =>
    rw [repeatedName?, List.nodup_cons, ← ih]
    by_cases h : rest.contains name <;> simp_all

theorem resultRow_eq_ok {ms : Members Value} {v : Value} :
    resultRow ms = .ok v ↔ (Members.names ms).Nodup ∧ v = .object ms := by
  rw [resultRow, ← repeatedName?_eq_none]
  cases repeatedName? (Members.names ms) <;> simp [eq_comm]

/-- A row of the root carries what its plan asks for. -/
theorem carries_resultRow {below own left : Members Value} {v : Value}
    (hbelow : (n.relations.mapM fun kv => do
      return (kv.1, ← value scan r db t row kv.2)) = .ok below)
    (hown : resultMembers row.cell (rootColumns t n) = .ok own)
    (hleft : (below.mapM fun kv => do return (kv.1, ← leaving kv.2)) = .ok left)
    (hrow : resultRow (own ++ left) = .ok v) :
    ∃ ms, v = .object ms ∧
      Carries (fun c cell => Binding.result c.declaration.type cell) scan r db n t row ms := by
  rw [resultMembers_eq_mapM] at hown
  obtain ⟨-, hthere, -⟩ := mapM_named_eq_ok hbelow
  obtain ⟨-, hleft, -⟩ := mapM_named_eq_ok hleft
  obtain ⟨hnames, rfl⟩ := resultRow_eq_ok.mp hrow
  refine ⟨own ++ left, rfl, ?_, ?_⟩
  · intro c hc _
    obtain ⟨-, hmembers, -⟩ := mapM_named_eq_ok hown
    -- Some column is asked for, and so the root shows what is asked for and no fallback.
    have hshown : c ∈ rootColumns t n := by
      have hasked : n.columns ≠ [] := List.ne_nil_of_mem (column?_of_mem_columnsOf hc).2
      simpa [rootColumns, hasked] using hc
    obtain ⟨x, hx, hmem⟩ := hmembers c hshown
    exact ⟨x, hx, Members.get?_of_mem hnames (List.mem_append_left _ hmem)⟩
  · intro kv hkv
    obtain ⟨w, hw, hmem⟩ := hthere kv hkv
    obtain ⟨w', hw', hmem'⟩ := hleft _ hmem
    obtain rfl := leaving_eq_ok hw'
    exact ⟨_, hw, Members.get?_of_mem hnames (List.mem_append_right _ hmem')⟩

/-- An object is empty where nothing is asked for. -/
theorem object_eq_nil {own below : Members Value}
    (hown : jsonCells row (columnsOf t n.columns) = .ok own)
    (hbelow : values scan r db t row n.relations = .ok below) :
    Members.ofPairs (own ++ below) = [] ↔ columnsOf t n.columns = [] ∧ n.relations = [] := by
  rw [jsonCells_eq_mapM] at hown
  rw [values_eq_mapM] at hbelow
  have hcolumns := (mapM_eq_ok.mp hown).length_eq
  have hrelations := (mapM_eq_ok.mp hbelow).length_eq
  rw [Members.ofPairs_eq_nil, List.append_eq_nil_iff]
  simp only [← List.length_eq_zero_iff, hcolumns, hrelations]

/-- What the value of a relation is made of: an object for each of its rows. -/
theorem value_eq_ok {above target : Table} {parent : StoredRow} {rel : Relation} {child : Node}
    {w : Value} (htarget : r.table? child.table = some target) (hrel : child.relation = some rel)
    (hkeys : (Members.names child.relations).Nodup)
    (h : value scan r db above parent child = .ok w) :
    ∃ objects, List.Forall₂ (fun crow ms => Carries jsonOf scan r db child target crow ms ∧
          (ms = [] ↔ columnsOf target child.columns = [] ∧ child.relations = []))
        (relatedRows scan db above parent target rel child) objects ∧
      w = if rel.toMany then .list (objects.map .object)
        else ((objects.head?).map Value.object).getD .null := by
  rw [value_eq scan above parent htarget hrel] at h
  obtain ⟨-, -, h⟩ := bind_eq_ok.mp h
  obtain ⟨shown, hshown, h⟩ := bind_eq_ok.mp h
  suffices hobjects : ∃ objects, List.Forall₂ (fun crow ms =>
      Carries jsonOf scan r db child target crow ms ∧
        (ms = [] ↔ columnsOf target child.columns = [] ∧ child.relations = []))
      (relatedRows scan db above parent target rel child) objects ∧
        shown = objects.map .object by
    obtain ⟨objects, hobjects, rfl⟩ := hobjects
    refine ⟨objects, hobjects, ?_⟩
    rw [← pure_eq_ok.mp h]
    cases objects <;> rfl
  clear h
  generalize relatedRows scan db above parent target rel child = found at hshown
  replace hshown := mapM_eq_ok.mp hshown
  induction hshown with
  | nil => exact ⟨[], .nil, rfl⟩
  | @cons crow v found shown hv _ ih =>
    obtain ⟨objects, hobjects, rfl⟩ := ih
    obtain ⟨own, hown, hv⟩ := bind_eq_ok.mp hv
    obtain ⟨below, hbelow, hv⟩ := bind_eq_ok.mp hv
    have hobject : v = .object (Members.ofPairs (own ++ below)) := by
      dsimp only at hv
      split at hv
      · exact embedded_eq_ok hv
      · exact (Except.ok.inj hv).symm
    refine ⟨_ :: objects, .cons ⟨carries_object hkeys hown hbelow, object_eq_nil hown hbelow⟩
      hobjects, ?_⟩
    rw [hobject]
    rfl

/-! ## What callers see -/

/-- A fetched row that carries what its plan asks for, and the value that callers see of it. -/
structure SeenAs (read : Column → Cell → Except Refusal Value) (scan : Scan) (r : Registry)
    (db : Database) (n : Node) (t : Table) (row : StoredRow) (v : Value) : Prop where
  planned : n.Planned
  fetchable : Fetch.Fetchable r n
  table : r.table? n.table = some t
  carried : ∃ ms, Carries read scan r db n t row ms ∧ Hydration.row r n (.object ms) = .ok v

theorem decode_of_value {w : Value} {objects : List (Members Value)} {isMany : Bool}
    (h : w = if isMany then .list (objects.map .object)
      else ((objects.head?).map Value.object).getD .null) : Hydration.decode w = .ok w := by
  subst h
  cases isMany with
  | true => rfl
  | false => cases objects <;> rfl

/-- What callers see of a relation: a row for each of the rows that it carries, or the one row if
it has anything to show, or null. -/
theorem SeenAs.relation {read : Column → Cell → Except Refusal Value} {v : Value}
    (h : SeenAs read scan r db n t row v) {key : String} {child : Node}
    (hkey : (key, child) ∈ n.relations) :
    ∃ rel target objects, child.relation = some rel ∧ r.table? child.table = some target ∧
      (rel.toMany = false → child.offset = none) ∧ child.Planned ∧ Fetch.Fetchable r child ∧
      List.Forall₂ (fun crow ms => Carries jsonOf scan r db child target crow ms ∧
          (ms = [] ↔ child.columns = [] ∧ child.relations = []))
        (relatedRows scan db t row target rel child) objects ∧
      Hydration.relationValue r child (if rel.toMany then .list (objects.map .object)
        else ((objects.head?).map Value.object).getD .null) = .ok (v.field key) := by
  obtain ⟨hplanned, hfetchable, ht, ms, hcarries, hrow⟩ := h
  obtain ⟨rel, hrel, hone⟩ := hplanned.attached _ hkey
  obtain ⟨target, own, htarget, hown⟩ := (hfetchable.of_mem _ hkey).table_columns
  obtain ⟨w, hw, hfound⟩ := hcarries.relation _ hkey
  obtain ⟨objects, hobjects, hvalue⟩ :=
    value_eq_ok htarget hrel (hplanned.of_mem _ hkey).keys hw
  have hcolumns : columnsOf target child.columns = [] ↔ child.columns = [] := by
    have hlength : child.columns.length = own.length := (mapM_eq_ok.mp hown).length_eq
    rw [columnsOf_of_mapM hown, ← List.length_eq_zero_iff, ← hlength, List.length_eq_zero_iff]
  rw [hcolumns] at hobjects
  refine ⟨rel, target, objects, hrel, htarget, hone, hplanned.of_mem _ hkey,
    hfetchable.of_mem _ hkey, hobjects, ?_⟩
  have hfield := Hydration.field_relation hplanned hrow hkey
  rw [Hydration.shownRelation, hfound, Option.getD_some, decode_of_value hvalue] at hfield
  rw [← hvalue]
  exact hfield

/-- Where callers see a row below another, the relation has it. -/
theorem SeenAs.item {read : Column → Cell → Except Refusal Value} {v w : Value}
    (h : SeenAs read scan r db n t row v) {key : String} {child : Node} {i : Nat}
    (hkey : Members.get? n.relations key = some child) (hitem : itemAt (v.field key) i = some w) :
    ∃ rel target crow, child.relation = some rel ∧ r.table? child.table = some target ∧
      (relatedRows scan db t row target rel child)[i]? = some crow ∧
      SeenAs jsonOf scan r db child target crow w := by
  obtain ⟨rel, target, objects, hrel, htarget, -, hplanned, hfetchable, hobjects, hvalue⟩ :=
    h.relation (Members.mem_of_get? hkey)
  suffices hfound : ∃ ms, objects[i]? = some ms ∧ Hydration.row r child (.object ms) = .ok w by
    obtain ⟨ms, hms, hrow⟩ := hfound
    obtain ⟨crow, hcrow, hcarries, -⟩ := getElem?_of_forall₂ hobjects hms
    exact ⟨rel, target, crow, hrel, htarget, hcrow,
      ⟨hplanned, hfetchable, htarget, ms, hcarries, hrow⟩⟩
  cases hmany : rel.toMany with
  | true =>
    rw [hmany, if_pos rfl] at hvalue
    obtain ⟨rows, hfield, hrows⟩ := Hydration.relationValue_toMany hrel hmany hvalue
    rw [hfield] at hitem
    obtain ⟨item, hmem, hrow⟩ := getElem?_of_forall₂ (mapM_eq_ok.mp hrows) hitem
    rw [List.getElem?_map, Option.map_eq_some_iff] at hmem
    obtain ⟨ms, hms, rfl⟩ := hmem
    exact ⟨ms, hms, hrow⟩
  | false =>
    rw [hmany, if_neg (by decide)] at hvalue
    have hshown := Hydration.relationValue_toOne hrel hmany hvalue
    cases objects with
    | nil =>
      rw [show v.field key = .null from hshown] at hitem
      cases hitem
    | cons ms rest =>
      -- A row without members is shown as null, and nothing is seen below that.
      by_cases htruthy : (Value.object ms).truthy = true
      · have hrow : Hydration.row r child (.object ms) = .ok (v.field key) := by
          simpa [htruthy] using hshown
        obtain ⟨shown, hfield⟩ := Hydration.isObject_of_row hrow
        rw [hfield] at hitem hrow
        by_cases hi : i = 0
        · subst hi
          obtain rfl : Value.object shown = w := by simpa [itemAt] using hitem
          exact ⟨ms, rfl, hrow⟩
        · simp [itemAt, hi] at hitem
      · have hfield : v.field key = .null := by simpa [htruthy] using hshown
        rw [hfield] at hitem
        cases hitem

/-- Below a row that callers see, they see what the plan has there. -/
theorem SeenAs.below {read : Column → Cell → Except Refusal Value} {v w : Value} {m : Node}
    (h : SeenAs read scan r db n t row v) {path : Path}
    (hpath : shownBelow n v path = some (m, w)) :
    ∃ u crow, rowBelow scan r db n t row path = some (m, u, crow) ∧
      SeenAs (if path = [] then read else jsonOf) scan r db m u crow w := by
  induction path generalizing read n t row v with
  | nil =>
    obtain ⟨rfl, rfl⟩ := Prod.mk.inj (Option.some.inj hpath)
    exact ⟨t, row, rfl, h⟩
  | cons step path ih =>
    obtain ⟨key, i⟩ := step
    simp only [shownBelow, Option.bind_eq_bind, Option.bind_eq_some_iff] at hpath
    obtain ⟨child, hkey, item, hitem, hpath⟩ := hpath
    obtain ⟨rel, target, crow, hrel, htarget, hcrow, hseen⟩ := h.item hkey hitem
    obtain ⟨u, crow', hrow, hseen⟩ := ih hseen hpath
    refine ⟨u, crow', ?_, ?_⟩
    · simp [rowBelow, hkey, hrel, htarget, hcrow, hrow]
    · simpa using hseen

/-! ## Whole fetches -/

/-- Where callers see a row in what a fetch gives, the plan has one, and what they see of it is what
was fetched of it. -/
theorem seen_at {f : Fetch} {fetched rows : List Value} {i : Nat} {path : Path} {m : Node}
    {v : Value} (hplanned : n.Planned) (hf : Fetch.ofNode r n = .ok f)
    (hapart : Scoping.byName.TellsApart f.sources)
    (hfetched : Fetch.result .byName db f = .ok fetched)
    (hrows : Hydration.rows r n fetched = .ok rows) (hat : shownAt n rows i path = some (m, v)) :
    ∃ u crow, rowAt (scanOf r) r db n i path = some (m, u, crow) ∧
      SeenAs (if path = [] then fun c cell => Binding.result c.declaration.type cell else jsonOf)
        (scanOf r) r db m u crow v := by
  have hfetchable := Fetch.fetchable_of_ofNode hf
  obtain ⟨t, -, ht, -⟩ := hfetchable.table_columns
  rw [result_eq hf hapart, result, ht] at hfetched
  obtain ⟨-, -, hfetched⟩ := bind_eq_ok.mp hfetched
  obtain ⟨found, hfound, hfetched⟩ := bind_eq_ok.mp hfetched
  simp only [shownAt, Option.bind_eq_bind, Option.bind_eq_some_iff] at hat
  obtain ⟨shown, hshown, hpath⟩ := hat
  -- Back from what is shown, over what was fetched, to the row: the number stays the same.
  obtain ⟨item, hitem, hrow⟩ := getElem?_of_forall₂ (mapM_eq_ok.mp hrows) hshown
  obtain ⟨⟨row, below⟩, hbelow, hresult⟩ := getElem?_of_forall₂ (mapM_eq_ok.mp hfetched) hitem
  obtain ⟨row', hroot, hpair⟩ := getElem?_of_forall₂ (mapM_eq_ok.mp hfound) hbelow
  obtain ⟨below', hvalues, hpair⟩ := bind_eq_ok.mp hpair
  obtain ⟨rfl, rfl⟩ := Prod.mk.inj (pure_eq_ok.mp hpair)
  obtain ⟨own, hown, hresult⟩ := bind_eq_ok.mp hresult
  obtain ⟨left, hleft, hresult⟩ := bind_eq_ok.mp hresult
  obtain ⟨ms, rfl, hcarries⟩ := carries_resultRow hvalues hown hleft hresult
  have hseen : SeenAs _ (scanOf r) r db n t row' shown :=
    ⟨hplanned, hfetchable, ht, ms, hcarries, hrow⟩
  obtain ⟨u, crow, hat, hseen⟩ := hseen.below hpath
  exact ⟨u, crow, by simp [rowAt, ht, hroot, hat], hseen⟩

end RelGraph.Direct
