import RelGraph.Proofs.Fetch.Places
import RelGraph.Proofs.Store.KeyColumns
import RelGraph.Proofs.Store.Storage
import Mathlib.Data.List.Perm.Basic
/-!
Rows selected by their keys. Of the rows of a table those that were just added are found by their
keys, each by its own and all of them by all keys; and what callers see of a row when it is selected
by its own key they see when it is selected among others, with the key besides.
-/
namespace RelGraph.Direct

open Store Sql Outcome

/-! ## Which rows have a key -/

section Truth

variable {t : Table} {c : Column} {new row : StoredRow} {news : List StoredRow} {key : Value}
  {keys : List Value}

/-- A cell is compared with a key that was read from a cell as it is compared with that cell. -/
theorem operandOrder?_of_keepsKey (h : KeepsKey c new key) (other : Cell) :
    operandOrder? c other (new.cell c) = some .eq ↔ other.order (new.cell c) = .eq := by
  have hnull := h.2.isNull_eq_false
  rw [operandOrder?, Affinity.compare?, Affinity.meet_of_stored h.1, hnull]
  cases other with
  | null => exact iff_of_false (by simp [Cell.isNull]) (Cell.order_null_ne_eq hnull)
  | _ => simp [Cell.isNull]

theorem itemCells_of_keepsKey (h : List.Forall₂ (KeepsKey c) news keys) :
    itemCells c (.tuple keys) = news.map (·.cell c) := by
  show keys.map (Binding.accepted (itemType c keys)) = _
  -- All keys are of the column's own type, and so is the first, by which all of them bind.
  have htype : keys ≠ [] → itemType c keys = c.declaration.type := by
    intro hne
    cases h with
    | nil => exact absurd rfl hne
    | cons hfirst _ => exact hfirst.2.operandType_eq rfl
  cases keys with
  | nil => cases h; rfl
  | cons first rest =>
    rw [htype (by simp)]
    exact (map_eq_of_forall₂ (h.imp fun _ _ hkey => hkey.2.accepted)).symm

theorem operand_of_single {op : Operator} (h : key.items? = none) :
    Condition.operand c op key = .ok key := by
  rw [Condition.operand, h]

theorem operand_of_keys {op : Operator} (h : List.Forall₂ (KeepsKey c) news keys) :
    Condition.operand c op (.tuple keys) = .ok (.tuple keys) := by
  have hrows : listsRows c keys = false := by
    cases h with
    | nil => cases htype : c.declaration.type.bare <;> simp [listsRows, htype]
    | @cons _ first _ _ hfirst _ =>
      have hitems := hfirst.2.items?_eq_none
      cases htype : c.declaration.type.bare <;> simp [listsRows, htype, hitems]
  simp [Condition.operand, Value.items?, hrows]

/-- The rows that are found by a key are those whose cell is that of the key. -/
theorem meets_key (hc : t.column? c.name = some c) (h : KeepsKey c new key) :
    meets t (some (.compare c.name .eq key)) row = true ↔
      (row.cell c).order (new.cell c) = .eq := by
  rw [meets, Option.all_some, truth, hc]
  dsimp only
  rw [operandOf_eq (operand_of_single h.2.items?_eq_none), comparisonTruth,
    h.2.operandCell_eq rfl]
  dsimp only
  rw [equalTruth_holds, beq_iff_eq, operandOrder?_of_keepsKey h]

/-- The rows that are found by some keys are those whose cell is that of one of them. -/
theorem meets_keys (hc : t.column? c.name = some c) (h : List.Forall₂ (KeepsKey c) news keys) :
    meets t (some (.compare c.name .inArray (.tuple keys))) row = true ↔
      ∃ new ∈ news, (row.cell c).order (new.cell c) = .eq := by
  rw [meets, Option.all_some, truth, hc]
  dsimp only
  rw [operandOf_eq (operand_of_keys h), comparisonTruth, memberTruth, itemCells_of_keepsKey h,
    any_holds]
  simp only [List.map_map, List.any_map, List.any_eq_true, Function.comp, equalTruth_holds,
    beq_iff_eq]
  refine exists_congr fun new => and_congr_right fun hnew => ?_
  obtain ⟨key, -, hkey⟩ := exists_of_forall₂ h hnew
  exact operandOrder?_of_keepsKey hkey _

end Truth

/-! ## New rows -/

/-- Rows that were added to a table and are known by their keys: no other row has the cell of one of
them. -/
structure Keyed (c : Column) (rows news : List StoredRow) (keys : List Value) : Prop where
  kept : List.Forall₂ (KeepsKey c) news keys
  added : ∃ before, rows.Perm (before ++ news) ∧
    ∀ old ∈ before, ∀ new ∈ news, (old.cell c).order (new.cell c) ≠ .eq
  apart : news.Pairwise fun a b => (a.cell c).order (b.cell c) ≠ .eq

section Keyed

variable {t : Table} {c : Column} {before news rows : List StoredRow} {keys : List Value}

theorem mem_uniqueGroups (hkey : t.KeyColumn c) : [c] ∈ uniqueGroups t := by
  simp only [uniqueGroups, hkey.only]
  split
  · contradiction
  · split <;> simp

theorem order_of_repeats {a b : StoredRow} (ha : (a.cell c).isNull = false)
    (h : repeats [c] a b = false) : (a.cell c).order (b.cell c) ≠ .eq := by
  simpa [repeats, ha] using h

/-- What inserts add is known by its keys. -/
theorem keyed_of_adds (hkey : t.KeyColumn c) (h : Insert.Adds t before news rows)
    (hkept : List.Forall₂ (KeepsKey c) news keys) : Keyed c rows news keys := by
  have hpresent : ∀ new ∈ news, (new.cell c).isNull = false := by
    intro new hnew
    obtain ⟨key, -, hnew⟩ := exists_of_forall₂ hkept hnew
    exact hnew.2.isNull_eq_false
  refine ⟨hkept, ⟨before, h.perm, fun old hold new hnew => ?_⟩, ?_⟩
  · rw [Ne, Cell.order_eq_comm]
    exact order_of_repeats (hpresent new hnew)
      (h.apart [c] (mem_uniqueGroups hkey) new hnew old hold)
  · refine (h.pairwise [c] (mem_uniqueGroups hkey)).imp_of_mem fun _ hb hrepeats => ?_
    rw [Ne, Cell.order_eq_comm]
    exact order_of_repeats (hpresent _ hb) hrepeats

/-- The new rows are what is found by their keys. -/
theorem Keyed.filter_keys (hc : t.column? c.name = some c) (h : Keyed c rows news keys) :
    (rows.filter (meets t (some (.compare c.name .inArray (.tuple keys))))).Perm news := by
  obtain ⟨before, hperm, hothers⟩ := h.added
  have hbefore : before.filter (meets t (some (.compare c.name .inArray (.tuple keys)))) = [] := by
    refine List.filter_eq_nil_iff.mpr fun old hold hmeets => ?_
    obtain ⟨new, hnew, hsame⟩ := (meets_keys hc h.kept).mp hmeets
    exact hothers old hold new hnew hsame
  have hnews : news.filter (meets t (some (.compare c.name .inArray (.tuple keys)))) = news :=
    List.filter_eq_self.mpr fun new hnew =>
      (meets_keys hc h.kept).mpr ⟨new, hnew, Cell.order_self _⟩
  have hfound := hperm.filter (meets t (some (.compare c.name .inArray (.tuple keys))))
  rwa [List.filter_append, hbefore, hnews, List.nil_append] at hfound

/-- A new row is all that is found by its key. -/
theorem Keyed.filter_key (hc : t.column? c.name = some c) (h : Keyed c rows news keys)
    {new : StoredRow} {key : Value} (hmem : new ∈ news) (hnew : KeepsKey c new key) :
    rows.filter (meets t (some (.compare c.name .eq key))) = [new] := by
  obtain ⟨before, hperm, hothers⟩ := h.added
  obtain ⟨earlier, later, rfl⟩ := List.append_of_mem hmem
  obtain ⟨-, htail, hearlier⟩ := List.pairwise_append.mp h.apart
  have hnone : ∀ others : List StoredRow,
      (∀ other ∈ others, (other.cell c).order (new.cell c) ≠ .eq) →
      others.filter (meets t (some (.compare c.name .eq key))) = [] := fun others hne =>
    List.filter_eq_nil_iff.mpr fun other hother hmeets =>
      hne other hother ((meets_key hc hnew).mp hmeets)
  have hself : meets t (some (.compare c.name .eq key)) new = true :=
    (meets_key hc hnew).mpr (Cell.order_self _)
  have hfound := hperm.filter (meets t (some (.compare c.name .eq key)))
  rw [List.filter_append, List.filter_append, List.filter_cons_of_pos hself,
    hnone before fun old hold => hothers old hold new (by simp),
    hnone earlier fun other hother => hearlier other hother new (by simp),
    hnone later fun other hother => by
      rw [Ne, Cell.order_eq_comm]
      exact (List.pairwise_cons.mp htail).1 other hother] at hfound
  exact List.perm_singleton.mp hfound

/-- No key is the same as one before it. -/
theorem Keyed.keys_apart (h : Keyed c rows news keys) :
    keys.Pairwise fun a b => Value.same b a = false := by
  have hkept := h.kept
  have hapart := h.apart
  clear h
  induction hkept with
  | nil => exact .nil
  | cons hfirst hrest ih =>
    obtain ⟨hothers, hapart⟩ := List.pairwise_cons.mp hapart
    refine .cons (fun key hkey => ?_) (ih hapart)
    obtain ⟨new, hnew, hkept⟩ := exists_of_forall₂ hrest.flip hkey
    refine Bool.eq_false_iff.mpr fun hsame => hothers new hnew ?_
    rw [Cell.order_eq_comm]
    exact hkept.2.order_of_same hfirst.2 hsame

end Keyed

/-! ## Rows one by one -/

/-- What a statement gives for a row of its root. -/
def fetchedRow (db : Database) (f : Fetch) (row : StoredRow) : Except Refusal Value := do
  let below ← rootMembers .byName db [frameOf f.rows.source row] f.nested
  let own ← resultMembers row.cell f.columns
  let left ← below.mapM fun (key, v) => do return (key, ← leaving v)
  resultRow (own ++ left)

section Rows

variable {r : Registry} {db : Database} {n : Node} {t : Table} {f : Fetch} {fetched : List Value}

/-- A statement gives what it gives for each row of its root. -/
theorem result_eq_ok_iff (h : Fetch.ofNode r n = .ok f) (ht : r.table? n.table = some t)
    (hcheck : checkMatches t n.condition (db.rows t) = .ok ()) :
    Fetch.result .byName db f = .ok fetched ↔
      (rootRows (scanOf r) db t n).mapM (fetchedRow db f) = .ok fetched := by
  have hroute := routeOf_root h
  obtain ⟨t', own, nested, next, rows, ht', -, -, hrows, rfl⟩ := Fetch.ofNode_eq_ok h
  obtain rfl : t = t' := Option.some.inj (ht.symm.trans ht')
  obtain ⟨hchecked, hchosen⟩ : checkRows .byName db [] rows = _ ∧ chosenRows .byName db [] rows _ =
    _ := rootLevel_eq hrows hroute
  have hsource : rows.source = .table t.declaration.name := by
    obtain ⟨_, _, -, -, rfl⟩ := Fetch.rowsOf_eq_ok hrows
    rfl
  have hread : ∀ row, cellIn .byName [frameOf rows.source row] rows.source = row.cell :=
    fun row => funext fun c => cellIn_row (by simp [hsource]) (by simp) c
  rw [Fetch.result, hchecked, hcheck, hchosen, List.mapM_map, ← hsource]
  refine mapM_mapM_eq_ok.trans (Eq.to_iff (congrArg (· = .ok fetched) (mapM_congr fun row _ => ?_)))
  simp only [Function.comp_apply, bind_assoc, pure_bind, fetchedRow, hread]

/-- Without a window a plan is about the rows that meet its condition. -/
theorem rootRows_perm (scan : Scan) (hlimit : n.limit = none) (hoffset : n.offset = none) :
    (rootRows scan db t n).Perm ((db.rows t).filter (meets t n.condition)) := by
  rw [rootRows, hlimit, hoffset]
  exact (List.mergeSort_perm _ _).trans ((scan.perm none n (db.rows t)).filter _)

theorem checkMatches_compare {name : String} {op : Operator} {v : Value} {rows : List StoredRow}
    (hop : op = .eq ∨ op = .inArray) :
    checkMatches t (some (.compare name op v)) rows = .ok () := by
  have hlong : hasLongMatch t (.compare name op v) = false := by
    rw [hasLongMatch]
    rcases hop with rfl | rfl <;> split <;> rfl
  rw [checkMatches, Option.any_some, hlong, Bool.and_false]
  rfl

end Rows

/-! ## Selecting by keys -/

/-- The plan for the row that has a key. -/
def withKey (n : Node) (c : Column) (key : Value) : Node :=
  { n with condition := some (.compare c.name .eq key) }

/-- The plan for the rows that have one of some keys, with the key among their columns. -/
def withKeys (n : Node) (c : Column) (keys : List Value) : Node :=
  Plan.addColumn { n with condition := some (.compare c.name .inArray (.tuple keys)) } c.name

section Selecting

variable {r : Registry} {db : Database} {n : Node} {t : Table} {c : Column} {keys : List Value}
  {f f' : Fetch}

theorem withKeys_eq : withKeys n c keys = { n with
    condition := some (.compare c.name .inArray (.tuple keys))
    columns := if c.name ∈ n.columns then n.columns else n.columns ++ [c.name] } := by
  by_cases h : c.name ∈ n.columns <;> simp [withKeys, Plan.addColumn, h]

/-- Where the key is not shown already, it is shown behind the other columns. -/
theorem rootColumns_withKeys (hkey : t.KeyColumn c) :
    (rootColumns t (withKeys n c keys) = rootColumns t n ∧ c ∈ rootColumns t n) ∨
      (c.name ∉ n.columns ∧ rootColumns t (withKeys n c keys) = rootColumns t n ++ [c] ∧
        rootColumns t n = columnsOf t n.columns) := by
  by_cases hmem : c.name ∈ n.columns
  · have hne : n.columns ≠ [] := List.ne_nil_of_mem hmem
    refine .inl ⟨by rw [withKeys_eq, if_pos hmem]; rfl, ?_⟩
    have hshown : c ∈ columnsOf t n.columns := List.mem_filterMap.mpr ⟨c.name, hmem, hkey.found⟩
    simpa [rootColumns, hne] using hshown
  · rw [withKeys_eq, if_neg hmem]
    by_cases hempty : n.columns = [] ∧ n.relations = []
    · -- The key stands for the row where nothing is asked for, and is shown then, too.
      have hfallback : Fetch.fallback t = .ok c := by
        rw [Fetch.fallback.eq_def, hkey.key]
        exact Table.column_eq_ok.mpr hkey.found
      refine .inl ?_
      simp [rootColumns, hempty, columnsOf, hkey.found, hfallback, Except.toOption]
    · refine .inr ⟨hmem, ?_, ?_⟩
      · simp [rootColumns, hempty, columnsOf, hkey.found]
      · simp [rootColumns, hempty]

theorem names_gatheredAll {above : Table} {source : Source} {number next : Nat}
    {relations : List (String × Node)} {nested : List (String × Gathered)}
    (h : Fetch.gatheredAll r above source number relations = .ok (nested, next)) :
    nested.map Prod.fst = relations.map Prod.fst := by
  induction relations generalizing number nested with
  | nil =>
    obtain ⟨rfl, -⟩ := Prod.mk.inj (pure_eq_ok.mp h)
    rfl
  | cons kv rest ih =>
    obtain ⟨g, middle, others, -, hothers, rfl⟩ := Fetch.gatheredAll_cons_eq_ok h
    rw [List.map_cons, List.map_cons, ih hothers]

/-- The parts of what a statement gives for a row. -/
theorem fetchedRow_eq_ok {row : StoredRow} {v : Value} :
    fetchedRow db f row = .ok v ↔ ∃ below own left,
      rootMembers .byName db [frameOf f.rows.source row] f.nested = .ok below ∧
      resultMembers row.cell f.columns = .ok own ∧
      (below.mapM fun kv => do return (kv.1, ← leaving kv.2)) = .ok left ∧
      (Members.names (own ++ left)).Nodup ∧ v = .object (own ++ left) := by
  simp only [fetchedRow, bind_eq_ok, resultRow_eq_ok]
  constructor
  · rintro ⟨below, hbelow, own, hown, left, hleft, hnames, rfl⟩
    exact ⟨below, own, left, hbelow, hown, hleft, hnames, rfl⟩
  · rintro ⟨below, own, left, hbelow, hown, hleft, hnames, rfl⟩
    exact ⟨below, hbelow, own, hown, left, hleft, hnames, rfl⟩

/-- The statements of plans that ask for the same relations read them from the same source. -/
theorem nested_eq_of_ofNode {m : Node} (htable : m.table = n.table)
    (hrelations : m.relations = n.relations) (hf : Fetch.ofNode r n = .ok f)
    (hf' : Fetch.ofNode r m = .ok f') :
    f'.rows.source = f.rows.source ∧ f'.nested = f.nested := by
  obtain ⟨t, _, nested, _, rows, ht, -, hnested, hrows, rfl⟩ := Fetch.ofNode_eq_ok hf
  obtain ⟨t', _, nested', _, rows', ht', -, hnested', hrows', rfl⟩ := Fetch.ofNode_eq_ok hf'
  rw [htable] at ht'
  obtain rfl := Option.some.inj (ht.symm.trans ht')
  rw [hrelations] at hnested'
  obtain ⟨_, _, -, -, rfl⟩ := Fetch.rowsOf_eq_ok hrows
  obtain ⟨_, _, -, -, rfl⟩ := Fetch.rowsOf_eq_ok hrows'
  exact ⟨rfl, (Prod.mk.inj (Except.ok.inj (hnested'.symm.trans hnested))).1⟩

theorem columns_of_ofNode (ht : r.table? n.table = some t) (hf : Fetch.ofNode r n = .ok f) :
    f.columns = rootColumns t n := by
  obtain ⟨t', _, _, _, _, ht', -, -, -, rfl⟩ := Fetch.ofNode_eq_ok hf
  rw [Option.some.inj (ht'.symm.trans ht)]

/-- The statement that selects by some keys gives for a row what the one that selects it by its own
key gives, and its key besides. -/
theorem fetchedRow_withKeys (hkey : t.KeyColumn c) (ht : r.table? n.table = some t)
    (hfree : c.name ∉ Members.names n.relations) {key : Value} {row : StoredRow} {v : Value}
    (hf : Fetch.ofNode r (withKey n c key) = .ok f)
    (hf' : Fetch.ofNode r (withKeys n c keys) = .ok f')
    (hread : Binding.result c.declaration.type (row.cell c) = .ok key)
    (h : fetchedRow db f row = .ok v) :
    ∃ ms ms', v = .object ms ∧ fetchedRow db f' row = .ok (.object ms') ∧
      Members.get? ms' c.name = some key ∧
      (∀ name, name ≠ c.name → Members.get? ms' name = Members.get? ms name) ∧
      (c.name ∈ n.columns → ms' = ms) := by
  obtain ⟨below, own, left, hbelow, hown, hleft, hnodup, rfl⟩ := fetchedRow_eq_ok.mp h
  -- Both statements read the same relations, from the same source.
  obtain ⟨hsource, hnested⟩ := nested_eq_of_ofNode (by rw [withKeys_eq]; rfl)
    (by rw [withKeys_eq]; rfl) hf hf'
  have hcolumns : f.columns = rootColumns t n :=
    columns_of_ofNode (n := withKey n c key) ht hf
  have hcolumns' : f'.columns = rootColumns t (withKeys n c keys) :=
    columns_of_ofNode (by rw [withKeys_eq]; exact ht) hf'
  have hnames : f.nested.map Prod.fst = Members.names n.relations := by
    obtain ⟨_, _, _, _, _, -, -, hgathered, -, rfl⟩ := Fetch.ofNode_eq_ok hf
    exact names_gatheredAll hgathered
  have hleftNames : Members.names left = Members.names n.relations := by
    have hbelowNames : below.map Prod.fst = f.nested.map Prod.fst :=
      (mapM_named_eq_ok hbelow).1
    rw [(mapM_named_eq_ok hleft).1, hbelowNames, hnames]
  rw [resultMembers_eq_mapM, hcolumns] at hown
  have hbelow' : rootMembers .byName db [frameOf f'.rows.source row] f'.nested = .ok below := by
    rw [hsource, hnested]
    exact hbelow
  rcases @rootColumns_withKeys n t c keys hkey with ⟨hsame, hmem⟩ | ⟨hnew, hmore, hall⟩
  · refine ⟨own ++ left, own ++ left, rfl, fetchedRow_eq_ok.mpr ⟨below, own, left, hbelow', ?_,
      hleft, hnodup, rfl⟩, ?_, fun _ _ => rfl, fun _ => rfl⟩
    · rw [hcolumns', hsame, resultMembers_eq_mapM]
      exact hown
    · obtain ⟨-, hthere, -⟩ := mapM_named_eq_ok hown
      obtain ⟨x, hx, hx'⟩ := hthere c hmem
      rw [hread] at hx
      obtain rfl := Except.ok.inj hx
      exact Members.get?_of_mem hnodup (List.mem_append_left _ hx')
  · have hfresh : c.name ∉ Members.names own := by
      rw [(mapM_named_eq_ok hown).1, hall, List.mem_map]
      rintro ⟨c', hc', hname⟩
      exact hnew (hname ▸ (column?_of_mem_columnsOf hc').2)
    have hnodup' : (Members.names (own ++ (c.name, key) :: left)).Nodup := by
      rw [Members.names, List.map_append] at hnodup ⊢
      refine (List.perm_middle.nodup_iff).mpr (List.nodup_cons.mpr ⟨?_, hnodup⟩)
      simp only [List.mem_append, not_or]
      exact ⟨hfresh, by rw [← Members.names, hleftNames]; exact hfree⟩
    refine ⟨own ++ left, own ++ (c.name, key) :: left, rfl, fetchedRow_eq_ok.mpr
      ⟨below, own ++ [(c.name, key)], left, hbelow', ?_, hleft, by simpa using hnodup', by simp⟩,
      Members.get?_of_mem hnodup' (by simp), fun name hname => Members.get?_insert hname,
      fun hmem => absurd hmem hnew⟩
    rw [hcolumns', hmore, resultMembers_eq_mapM, List.mapM_append, hown]
    simp only [List.mapM_cons, List.mapM_nil, hread]
    rfl

open Hydration in
/-- A row that was selected by its key is seen with the key, and without it as the plan asks for
it. -/
theorem row_withKeys (hkey : t.KeyColumn c) (ht : r.table? n.table = some t)
    (hrelations : c.name ∉ Members.names n.relations)
    (htruncated : c.name ∉ Members.names n.truncated) {ms ms' : Members Value}
    {key shown v : Value} (hrow : row r n (.object ms) = .ok v)
    (hget : Members.get? ms' c.name = some key)
    (hothers : ∀ name, name ≠ c.name → Members.get? ms' name = Members.get? ms name)
    (hsame : c.name ∈ n.columns → ms' = ms) (hshown : Conversion.showValue c key = .ok shown) :
    ∃ v', row r (withKeys n c keys) (.object ms') = .ok v' ∧ v'.field c.name = shown ∧
      (c.name ∈ n.columns → v' = v) ∧
      (c.name ∉ n.columns →
        ∃ members, v' = .object members ∧ v = .object (Members.erase members c.name)) := by
  obtain ⟨t', own, below, ht', hown, hbelow, rfl⟩ := row_eq_ok hrow
  obtain rfl : t' = t := Option.some.inj (ht'.symm.trans ht)
  have hcolumn : shownColumn t' ms' c.name = .ok shown := by
    rw [shownColumn, Table.column_eq_ok.mpr hkey.found]
    dsimp only [bind, Except.bind]
    rw [hget, Option.getD_some, hshown]
    rfl
  have hrest : (n.relations.mapM fun kv => do return (kv.1, ← shownRelation r ms' kv)) =
      .ok below := by
    rw [← hbelow]
    refine mapM_congr fun kv hkv => ?_
    rw [shownRelation, hothers kv.1 fun heq => hrelations (heq ▸ List.mem_map_of_mem hkv)]
    rfl
  have hfield : ∀ v', row r (withKeys n c keys) (.object ms') = .ok v' →
      v'.field c.name = shown := by
    intro v' hrow'
    rw [withKeys_eq] at hrow'
    have hshown : c.name ∈ if c.name ∈ n.columns then n.columns else n.columns ++ [c.name] := by
      split <;> simp_all
    obtain ⟨t'', ht'', hfield⟩ := field_column hrow' hshown hrelations htruncated
    obtain rfl : t'' = t' := Option.some.inj (ht''.symm.trans ht)
    exact (Except.ok.inj (hcolumn.symm.trans hfield)).symm
  have hnames : Members.names own = n.columns := by
    simpa using (mapM_named_eq_ok hown).1
  have hbelowNames : c.name ∉ Members.names below := by
    rw [(mapM_named_eq_ok hbelow).1]
    exact hrelations
  by_cases hmem : c.name ∈ n.columns
  · obtain rfl := hsame hmem
    have hrow' : row r (withKeys n c keys) (.object ms') = .ok (.object (Members.update
        (Members.update (Members.ofPairs own) below)
        (Members.mapValues emptyValue n.truncated))) := by
      rw [withKeys_eq, if_pos hmem]
      exact row_of_parts ht hown hrest
    exact ⟨_, hrow', hfield _ hrow', fun _ => rfl, fun h => absurd hmem h⟩
  · have hown' : ((n.columns ++ [c.name]).mapM fun name => do
        return (name, ← shownColumn t' ms' name)) = .ok (own ++ [(c.name, shown)]) := by
      have hbefore : (n.columns.mapM fun name => do return (name, ← shownColumn t' ms' name)) =
          .ok own := by
        rw [← hown]
        refine mapM_congr fun name hname => ?_
        rw [shownColumn, hothers name fun heq => hmem (heq ▸ hname)]
        rfl
      rw [List.mapM_append, hbefore, List.mapM_cons, List.mapM_nil, hcolumn]
      rfl
    have hrow' : row r (withKeys n c keys) (.object ms') = .ok (.object (Members.update
        (Members.update (Members.ofPairs (own ++ [(c.name, shown)])) below)
        (Members.mapValues emptyValue n.truncated))) := by
      rw [withKeys_eq, if_neg hmem]
      exact row_of_parts ht hown' hrest
    refine ⟨_, hrow', hfield _ hrow', fun h => absurd h hmem, fun _ => ⟨_, rfl, ?_⟩⟩
    have hfresh : c.name ∉ Members.names own := by rwa [hnames]
    rw [Members.erase_update (by rw [Members.names_mapValues]; exact htruncated),
      Members.erase_update hbelowNames, Members.erase_ofPairs_append hfresh]

/-! ### Through the storage -/

variable {s : Storage} {access : Access} {news : List StoredRow}

/-- What a caller sees of a row of the root of a statement. -/
def Seen (r : Registry) (db : Database) (f : Fetch) (n : Node) (row : StoredRow) (v : Value) :
    Prop :=
  ∃ fetched, fetchedRow db f row = .ok fetched ∧ Hydration.row r n fetched = .ok v

theorem hasFields_of_seen {row : StoredRow} {v : Value} (h : Seen r db f n row v) :
    Hydration.HasFields n v := by
  obtain ⟨fetched, hfetched, hrow⟩ := h
  obtain ⟨-, own, left, -, -, -, -, rfl⟩ := fetchedRow_eq_ok.mp hfetched
  exact Hydration.hasFields_of_row hrow

/-- Selecting a new row by its key gives that row. -/
theorem fetch_withKey (hkey : t.KeyColumn c) (ht : r.table? n.table = some t)
    (hlimit : n.limit = none) (hoffset : n.offset = none)
    (hkeyed : Keyed c ((s.seen access).rows t) news keys) {new : StoredRow} {key : Value}
    (hmem : new ∈ news) (hnew : KeepsKey c new key) {vs : List Value}
    (h : (Storage.fetch r access (withKey n c key) s).1 = .ok vs) :
    ∃ f v, Fetch.ofNode r (withKey n c key) = .ok f ∧ Seen r (s.seen access) f n new v ∧
      vs = [v] := by
  obtain ⟨f, fetched, hf, hresult, hrows⟩ := Storage.fetch_eq_ok h
  have hroot : rootRows (scanOf r) (s.seen access) t (withKey n c key) = [new] := by
    refine List.perm_singleton.mp ?_
    rw [← hkeyed.filter_key hkey.found hmem hnew]
    exact rootRows_perm _ hlimit hoffset
  rw [result_eq_ok_iff hf ht (checkMatches_compare (.inl rfl)), hroot] at hresult
  obtain ⟨v, hv, hresult⟩ := bind_eq_ok.mp (List.mapM_cons.symm.trans hresult)
  obtain rfl : [v] = fetched := pure_eq_ok.mp hresult
  obtain ⟨shown, hshown, hrows⟩ := bind_eq_ok.mp (List.mapM_cons.symm.trans hrows)
  obtain rfl : [shown] = vs := pure_eq_ok.mp hrows
  have hsame : Hydration.AsksSame n (withKey n c key) := ⟨rfl, rfl, rfl, rfl⟩
  rw [hsame.row_eq] at hshown
  exact ⟨f, shown, hf, ⟨v, hv, hshown⟩, rfl⟩

/-- Selecting rows by the keys of all new rows gives these in some order. -/
theorem fetch_withKeys (hsession : access.hasSession = true) (hkey : t.KeyColumn c)
    (ht : r.table? n.table = some t) (hlimit : n.limit = none) (hoffset : n.offset = none)
    (hkeyed : Keyed c ((s.seen access).rows t) news keys)
    (hf : Fetch.ofNode r (withKeys n c keys) = .ok f)
    (hsent : (Storage.boundCells (Fetch.checkSize f) (Dialect.sqlite.fetch f)).toOption.isSome)
    {shown : List Value}
    (hshown : List.Forall₂ (Seen r (s.seen access) f (withKeys n c keys)) news shown) :
    ∃ out, (Storage.fetch r access (withKeys n c keys) s).1 = .ok out ∧ out.Perm shown := by
  have hroot : (rootRows (scanOf r) (s.seen access) t (withKeys n c keys)).Perm news := by
    refine List.Perm.trans ?_ (hkeyed.filter_keys hkey.found)
    rw [withKeys_eq]
    exact rootRows_perm _ hlimit hoffset
  obtain ⟨out, hout, hperm⟩ := List.perm_comp_forall₂ hroot hshown
  obtain ⟨fetched, hfetched, hrows⟩ := forall₂_exists.mp hout
  have hresult : Fetch.result .byName (s.seen access) f = .ok fetched := by
    rw [result_eq_ok_iff hf (by rw [withKeys_eq]; exact ht)
      (by rw [withKeys_eq]; exact checkMatches_compare (.inr rfl))]
    exact mapM_eq_ok.mpr hfetched
  exact ⟨out, Storage.fetch_of_seen hsession hf hsent hresult (mapM_eq_ok.mpr hrows), hperm⟩

/-- What selecting a new row by its own key gives, selecting it among others gives with its key. -/
theorem seen_withKeys (hkey : t.KeyColumn c) (ht : r.table? n.table = some t)
    (hrelations : c.name ∉ Members.names n.relations)
    (htruncated : c.name ∉ Members.names n.truncated) {new : StoredRow} {key v : Value}
    (hnew : KeepsKey c new key) (hf : Fetch.ofNode r (withKey n c key) = .ok f)
    (hf' : Fetch.ofNode r (withKeys n c keys) = .ok f') (h : Seen r db f n new v) :
    ∃ v', Seen r db f' (withKeys n c keys) new v' ∧
      Conversion.showValue c key = .ok (v'.field c.name) ∧ (c.name ∈ n.columns → v' = v) ∧
      (c.name ∉ n.columns →
        ∃ members, v' = .object members ∧ v = .object (Members.erase members c.name)) := by
  obtain ⟨fetched, hfetched, hv⟩ := h
  obtain ⟨ms, ms', rfl, hfetched', hget, hothers, hsame⟩ :=
    fetchedRow_withKeys hkey ht hrelations hf hf' hnew.2.read hfetched
  obtain ⟨shown, hshown, -, -⟩ := hnew.2.showValue_eq_ok hkey.kind
  obtain ⟨v', hrow, rfl, hin, hout⟩ :=
    row_withKeys hkey ht hrelations htruncated hv hget hothers hsame hshown
  exact ⟨v', ⟨_, hfetched', hrow⟩, hshown, hin, hout⟩

end Selecting

end RelGraph.Direct
