import RelGraph.Proofs.Fetch.Scope
import RelGraph.Proofs.Store.Arrangement
/-!
One statement against the meaning of its plan. A level of the statement, in a scope in which the
level above is in sight, reads the rows that the plan asks for and shows them to the levels below;
by induction on the plan, the statement gives what the plan says.
-/
namespace RelGraph.Direct

open Store Sql Outcome

/-! ## Scanning -/

/-- The route to the rows of a plan, under a table above or at the root. It depends on what is asked
for, not on what the tables hold nor on the row above. -/
def routeOf (r : Registry) : Option Table → Node → Attempt Route
  | none, n => do
    let f ← Fetch.ofNode r n
    return Rows.route f.rows (Fetch.shown f)
  | some above, n => do
    let target ← r.table n.table
    match n.relation with
    | none => Attempt.mishap (.keyMissing n.table)
    | some rel =>
      let exposed ← Fetch.exposedColumns target (Fetch.neededNames n)
      let rows ← Fetch.relatedRows above (.again 0) target (.again 0) rel n
      return Rows.route rows exposed

/-- The order in which the one statement comes by rows. -/
def scanOf (r : Registry) : Scan where
  arrange above n rows :=
    match routeOf r above n with
    | .ok route => route.arrange rows
    | .error _ => rows
  perm above n rows := by
    cases routeOf r above n with
    | ok route => exact Route.arrange_perm rows route
    | error _ => exact .refl rows

theorem scanOf_arrange {r : Registry} {above : Option Table} {n : Node} {route : Route}
    (h : routeOf r above n = .ok route) (rows : List StoredRow) :
    (scanOf r).arrange above n rows = route.arrange rows := by
  simp only [scanOf, h]

theorem routeOf_root {r : Registry} {n : Node} {f : Fetch} (h : Fetch.ofNode r n = .ok f) :
    routeOf r none n = .ok (Rows.route f.rows (Fetch.shown f)) := by
  simp [routeOf, h, bind, Except.bind, pure, Except.pure]

/-- The route of a relation is the same whatever its sources are numbered. -/
theorem routeOf_related {r : Registry} {above target : Table} {aboveSource source : Source}
    {rel : Relation} {n : Node} {exposed : List Column} {rows : Rows}
    (htarget : r.table? n.table = some target) (hrel : n.relation = some rel)
    (hexposed : Fetch.exposedColumns target (Fetch.neededNames n) = .ok exposed)
    (hrows : Fetch.relatedRows above aboveSource target source rel n = .ok rows) :
    routeOf r (some above) n = .ok (Rows.route rows exposed) := by
  obtain ⟨pairs, condition, orderBy, hpairs, hcondition, horderBy, rfl⟩ :=
    Fetch.relatedRows_eq_ok.mp hrows
  have hzero : Fetch.relatedRows above (.again 0) target (.again 0) rel n = .ok _ :=
    Fetch.relatedRows_eq_ok.mpr ⟨pairs, condition, orderBy, hpairs, hcondition, horderBy, rfl⟩
  simp only [routeOf, Registry.table_eq_ok.mpr htarget, hrel, hexposed, hzero, bind,
    Except.bind, pure, Except.pure]
  rfl

/-! ## The rows of a level -/

/-- A row of a table as a row of a source. -/
def frameOf (s : Source) (row : StoredRow) : Frame := ⟨s, row.cells⟩

theorem map_window {α β : Type} (f : α → β) (limit offset : Option Nat) (items : List α) :
    window limit offset (items.map f) = (window limit offset items).map f := by
  cases limit <;> simp [window, List.map_drop, List.map_take]

/-- A level whose own rows are read as they are stored, and whose conditions keep the rows that a
test keeps, reads these rows in the order of its plan. -/
theorem chosenRows_eq {how : Scoping} {db : Database} {scope : Scope} {rows : Rows} {n : Node}
    {shown : List Column} {keep : StoredRow → Bool}
    (horder : SortKey.ofOrder rows.table (n.orderBy.getD []) = .ok rows.orderBy)
    (hread : ∀ row c, cellIn how (frameOf rows.source row :: scope) rows.source c = row.cell c)
    (hkeep : ∀ row, (rowsTruth how (frameOf rows.source row :: scope) rows).holds = keep row) :
    chosenRows how db scope rows shown =
      (window rows.limit rows.offset (sorted rows.table n
        (((Rows.route rows shown).arrange (db.rows rows.table)).filter keep))).map
          (frameOf rows.source) := by
  -- Rows are filtered and sorted by what is read of them, in the frame of the source or out of it.
  rw [chosenRows, ← map_window, sorted, List.map_mergeSort
    (s := fun a b => (orderByKeys (fun f c => cellIn how (f :: scope) rows.source c) rows.orderBy
      a b).isLE)]
  · have hfilter : (fun row => (rowsTruth how (frameOf rows.source row :: scope) rows).holds) =
        keep := funext hkeep
    rw [← hfilter]
    simp only [List.filter_map]
    rfl
  · intro a _ b _
    rw [orderByKeys_of_ofOrder horder (hread a) (hread b)]

/-- All that rows have to meet is met where they are joined to the row above and meet the condition
of the plan. -/
theorem rowsTruth_holds {how : Scoping} {scope : Scope} {rows : Rows} {p : Option Predicate}
    (hcondition : Condition.ofPredicate? rows.table p = .ok rows.condition) (row : StoredRow)
    (hread : ∀ c, cellIn how (frameOf rows.source row :: scope) rows.source c = row.cell c) :
    (rowsTruth how (frameOf rows.source row :: scope) rows).holds =
      ((joinsTruth how (frameOf rows.source row :: scope) rows).holds &&
        meets rows.table p row) := by
  have hread : cellIn how (frameOf rows.source row :: scope) rows.source = row.cell :=
    funext hread
  rw [rowsTruth, both_holds, hread, ← holds_of_ofPredicate? hcondition row]
  cases rows.condition <;> rfl

/-- Rows are joined to the row above where they are linked to it. -/
theorem joinsTruth_holds {how : Scoping} {scope : Scope} {rows : Rows} {above : Table}
    {aboveSource : Source} {rel : Relation} {parent row : StoredRow}
    (habove : rows.above = some aboveSource)
    (hjoins : Fetch.joins above rows.table rel = .ok rows.joins)
    (hread : ∀ c, cellIn how (frameOf rows.source row :: scope) rows.source c = row.cell c)
    (hshown : ∀ field ∈ rel.fields, ∀ c, above.column? field = some c →
      cellIn how (frameOf rows.source row :: scope) aboveSource c = parent.cell c) :
    (joinsTruth how (frameOf rows.source row :: scope) rows).holds =
      linked above rows.table rel parent row := by
  rw [joinsTruth, habove, linked_eq hjoins]
  rw [all_holds, List.all_map, Bool.eq_iff_iff, List.all_eq_true, List.all_eq_true]
  refine forall₂_congr fun j hj => ?_
  obtain ⟨field, hfield, houter⟩ := outer_of_mem_joins hjoins hj
  rw [Function.comp, joinTruth, equalTruth_holds, hread, hshown field hfield _ houter, sameCell]

/-! ## Relations -/

/-- In a scope a source shows the cells of a row that stand under some names. -/
def Shows (how : Scoping) (scope : Scope) (s : Source) (t : Table) (row : StoredRow)
    (names : List String) : Prop :=
  ∀ name ∈ names, ∀ c, t.column? name = some c → cellIn how scope s c = row.cell c

variable {how : Scoping} {sources : List Source} {scope : Scope} {r : Registry} {db : Database}

/-- A level of a relation reads the rows that the plan asks for, and refuses to where the plan has
it refuse. -/
theorem relatedLevel_eq {above target : Table} {aboveSource : Source} {number : Nat}
    {rel : Relation} {n : Node} {exposed : List Column} {rows : Rows} {parent : StoredRow}
    (htarget : r.table? n.table = some target) (hrel : n.relation = some rel)
    (hexposed : Fetch.exposedColumns target (Fetch.neededNames n) = .ok exposed)
    (hrows : Fetch.relatedRows above aboveSource target (.again number) rel n = .ok rows)
    (hread : ∀ row c,
      cellIn how (frameOf (.again number) row :: scope) (.again number) c = row.cell c)
    (hshown : ∀ row,
      Shows how (frameOf (.again number) row :: scope) aboveSource above parent rel.fields) :
    checkRows how db scope rows =
        checkMatches target n.condition ((db.rows target).filter (linked above target rel parent)) ∧
      chosenRows how db scope rows exposed =
        (relatedRows (scanOf r) db above parent target rel n).map (frameOf (.again number)) := by
  have hroute := routeOf_related htarget hrel hexposed hrows
  obtain ⟨pairs, condition, orderBy, hpairs, hcondition, horderBy, hlevel⟩ :=
    Fetch.relatedRows_eq_ok.mp hrows
  have hjoins : ∀ row, (joinsTruth how (frameOf rows.source row :: scope) rows).holds =
      linked above target rel parent row := by
    subst hlevel
    exact fun row => joinsTruth_holds rfl hpairs (hread row) (hshown row)
  have hkeep : ∀ row, (rowsTruth how (frameOf rows.source row :: scope) rows).holds =
      (linked above target rel parent row && meets target n.condition row) := by
    intro row
    rw [← hjoins row]
    subst hlevel
    exact rowsTruth_holds hcondition row (hread row)
  constructor
  · have hfilter : (fun row => (joinsTruth how (frameOf rows.source row :: scope) rows).holds) =
        linked above target rel parent := funext hjoins
    rw [← hfilter]
    subst hlevel
    exact checkPatterns_of_ofPredicate? hcondition _ _ rfl
  · subst hlevel
    rw [chosenRows_eq horderBy hread hkeep, relatedRows, scanOf_arrange hroute]

/-- The members of an object show the columns that a subquery exposes. -/
theorem jsonMembers_eq {s : Source} {row : StoredRow} {columns : List Column}
    (hread : ∀ c ∈ columns, cellIn how scope s c = row.cell c) :
    jsonMembers how scope s columns = jsonCells row columns := by
  induction columns with
  | nil => rfl
  | cons c rest ih =>
    rw [jsonMembers, jsonCells, hread c (by simp), ih fun c hc => hread c (by simp [hc])]

theorem value_eq (scan : Scan) (above : Table) (parent : StoredRow) {n : Node} {target : Table}
    {rel : Relation} (htarget : r.table? n.table = some target) (hrel : n.relation = some rel) :
    value scan r db above parent n = do
      checkMatches target n.condition ((db.rows target).filter (linked above target rel parent))
      let objects ← (relatedRows scan db above parent target rel n).mapM fun row => do
        let own ← jsonCells row (columnsOf target n.columns)
        let below ← values scan r db target row n.relations
        let object := Value.object (Members.ofPairs (own ++ below))
        if rel.toMany then embedded object else .ok object
      return if rel.toMany then .list objects else (objects.head?).getD .null := by
  obtain ⟨table, names, condition, orderBy, limit, offset, relation, relations, truncated⟩ := n
  simp only at htarget hrel
  subst hrel
  simp only [value, htarget]

/-- A relation to one row has at most one. -/
theorem take_relatedRows (scan : Scan) (above : Table) (parent : StoredRow) (target : Table)
    {rel : Relation} (n : Node) (h : rel.toMany = false) :
    (relatedRows scan db above parent target rel n).take 1 =
      relatedRows scan db above parent target rel n := by
  simp [relatedRows, window, h, List.take_take]

/-- A row of a related table as its subquery shows it to the levels below. -/
def shownRow (how : Scoping) (scope : Scope) (number : Nat) (exposed : List Column)
    (row : StoredRow) : Frame :=
  exposedFrame how scope (.again number) (.derived (number + 1)) exposed
    (frameOf (.again number) row)

/-- The value of a relation whose rows are known: one object for each. -/
theorem gatheredValue_eq_mapM {rows : Rows} {exposed columns : List Column} {number : Nat}
    {toMany : Bool} {nested : List (String × Gathered)} {found : List StoredRow}
    (hsource : rows.source = .again number)
    (hchosen : chosenRows how db scope rows exposed = found.map (frameOf (.again number)))
    (hone : toMany = false → found.take 1 = found) :
    gatheredValue how db scope
        ⟨toMany, rows, exposed, .derived (number + 1), columns, nested⟩ = do
      checkRows how db scope rows
      let objects ← found.mapM fun row => do
        let own ← jsonMembers how (shownRow how scope number exposed row :: scope)
          (.derived (number + 1)) columns
        let below ← gatheredMembers how db (shownRow how scope number exposed row :: scope) nested
        let object := Value.object (Members.ofPairs (own ++ below))
        if toMany then embedded object else .ok object
      return if toMany then .list objects else (objects.head?).getD .null := by
  rw [gatheredValue, hchosen, hsource]
  dsimp only
  cases toMany with
  | true => simp only [if_true, List.map_map, List.mapM_map]; rfl
  | false =>
    simp only [Bool.false_eq_true, if_false, List.map_map, ← List.map_take, hone rfl,
      List.mapM_map]
    rfl

/-- The value of a relation is what the plan says of it, if the values below it are. -/
theorem gatheredValue_of_nested (hapart : how.TellsApart sources) (hscope : Standing sources scope)
    {above : Table} {aboveSource : Source} {number next : Nat} {n : Node} {g : Gathered}
    {parent : StoredRow} (h : Fetch.gathered r above aboveSource number n = .ok (g, next))
    (hmem : ∀ s ∈ g.sources, s ∈ sources) (habove : aboveSource ∈ sources)
    (hsight : aboveSource.staysInSight)
    (hshown : ∀ rel, n.relation = some rel → Shows how scope aboveSource above parent rel.fields)
    (hnested : ∀ (target : Table) (row : StoredRow) (f : Frame) (nested : List (String × Gathered)),
      Fetch.gatheredAll r target (.derived (number + 1)) (number + 2) n.relations =
        .ok (nested, next) →
      (∀ s ∈ sourcesOf nested, s ∈ sources) → .derived (number + 1) ∈ sources →
      Standing sources (f :: scope) →
      (∀ kv ∈ n.relations, ∀ rel, kv.2.relation = some rel →
        Shows how (f :: scope) (.derived (number + 1)) target row rel.fields) →
      gatheredMembers how db (f :: scope) nested =
        values (scanOf r) r db target row n.relations) :
    gatheredValue how db scope g = value (scanOf r) r db above parent n := by
  obtain ⟨target, rel, exposed, rows, columns, nested, htarget, hrel, hexposed, hrows, hcolumns,
    hbelow, rfl⟩ := Fetch.gathered_eq_ok h
  have hsource : rows.source = .again number := by
    obtain ⟨_, _, _, -, -, -, rfl⟩ := Fetch.relatedRows_eq_ok.mp hrows
    rfl
  simp only [Gathered.sources, hsource, List.forall_mem_cons] at hmem
  obtain ⟨hown, hderived, hmem⟩ := hmem
  have hread := fun row c => hscope.cellIn_again hapart hown row c
  have hjoined : ∀ row,
      Shows how (frameOf (.again number) row :: scope) aboveSource above parent rel.fields := by
    intro row field hfield c hc
    rw [frameOf, hapart.cellIn_below hown habove hsight]
    exact hshown rel hrel field hfield c hc
  obtain ⟨hcheck, hchosen⟩ := relatedLevel_eq htarget hrel hexposed hrows hread hjoined
  -- The subquery shows what the object and the levels below are going to read.
  have hshows : ∀ row, Shows how (shownRow how scope number exposed row :: scope)
      (.derived (number + 1)) target row (Fetch.neededNames n) := by
    intro row name hname c hc
    obtain ⟨hmem, honly⟩ := Fetch.exposedColumns_of_mem hexposed hname hc
    rw [shownRow, cellIn_exposed hmem honly]
    exact hread row c
  rw [gatheredValue_eq_mapM hsource hchosen (take_relatedRows _ _ _ _ _),
    value_eq (scanOf r) above parent htarget hrel, hcheck]
  refine congrArg _ (funext fun _ => congrArg (· >>= _) (mapM_congr fun row _ => ?_))
  rw [jsonMembers_eq fun c hc => ?_, columnsOf_of_mapM hcolumns,
    hnested target row _ nested hbelow hmem hderived (hscope.cons hderived rfl) ?_]
  · intro kv hkv childRel hchild field hfield
    exact hshows row field (Fetch.mem_neededNames_of_field hkv hchild hfield)
  · obtain ⟨hfound, hname⟩ := column?_of_mem hcolumns hc
    exact hshows row _ (Fetch.mem_neededNames_of_mem hname) c hfound

mutual

/-- The value of a relation is what the plan says of it. -/
theorem gatheredValue_eq (hapart : how.TellsApart sources) {scope : Scope}
    (hscope : Standing sources scope) {above : Table} {aboveSource : Source} {number next : Nat}
    {g : Gathered} {parent : StoredRow} (n : Node)
    (h : Fetch.gathered r above aboveSource number n = .ok (g, next))
    (hmem : ∀ s ∈ g.sources, s ∈ sources) (habove : aboveSource ∈ sources)
    (hsight : aboveSource.staysInSight)
    (hshown : ∀ rel, n.relation = some rel →
      Shows how scope aboveSource above parent rel.fields) :
    gatheredValue how db scope g = value (scanOf r) r db above parent n := by
  refine gatheredValue_of_nested hapart hscope h hmem habove hsight hshown ?_
  intro target row f nested hbelow hmem hderived hscope hshows
  -- The plan is opened here, so that what follows is an induction on its relations.
  match n, hbelow, hshows with
  | ⟨_, _, _, _, _, _, _, relations, _⟩, hbelow, hshows =>
    exact gatheredMembers_eq hapart hscope relations hbelow hmem hderived rfl hshows

/-- The values of relations are what the plan says of them. -/
theorem gatheredMembers_eq (hapart : how.TellsApart sources) {scope : Scope}
    (hscope : Standing sources scope) {above : Table} {aboveSource : Source} {number next : Nat}
    {nested : List (String × Gathered)} {parent : StoredRow} (relations : List (String × Node))
    (h : Fetch.gatheredAll r above aboveSource number relations = .ok (nested, next))
    (hmem : ∀ s ∈ sourcesOf nested, s ∈ sources) (habove : aboveSource ∈ sources)
    (hsight : aboveSource.staysInSight)
    (hshown : ∀ kv ∈ relations, ∀ rel, kv.2.relation = some rel →
      Shows how scope aboveSource above parent rel.fields) :
    gatheredMembers how db scope nested = values (scanOf r) r db above parent relations := by
  match relations with
  | [] =>
    obtain ⟨rfl, -⟩ := Prod.mk.inj (pure_eq_ok.mp h)
    rfl
  | (key, child) :: rest =>
    obtain ⟨g, middle, others, hg, hothers, rfl⟩ := Fetch.gatheredAll_cons_eq_ok h
    simp only [sourcesOf, List.forall_mem_append] at hmem
    have hvalue := gatheredValue_eq hapart hscope child hg hmem.1 habove hsight
      (hshown (key, child) (by simp))
    have hrest := gatheredMembers_eq hapart hscope rest hothers hmem.2 habove hsight
      fun kv hkv => hshown kv (by simp [hkv])
    rw [gatheredMembers, values, hvalue, hrest]

end

/-! ## The root -/

theorem rootMembers_eq (hapart : how.TellsApart sources) {scope : Scope}
    (hscope : Standing sources scope) {above : Table} {aboveSource : Source} {number next : Nat}
    {nested : List (String × Gathered)} {parent : StoredRow} {relations : List (String × Node)}
    (h : Fetch.gatheredAll r above aboveSource number relations = .ok (nested, next))
    (hmem : ∀ s ∈ sourcesOf nested, s ∈ sources) (habove : aboveSource ∈ sources)
    (hsight : aboveSource.staysInSight)
    (hshown : ∀ kv ∈ relations, ∀ rel, kv.2.relation = some rel →
      Shows how scope aboveSource above parent rel.fields) :
    rootMembers how db scope nested = relations.mapM fun (key, child) => do
      return (key, ← value (scanOf r) r db above parent child) := by
  induction relations generalizing number nested with
  | nil =>
    obtain ⟨rfl, -⟩ := Prod.mk.inj (pure_eq_ok.mp h)
    rfl
  | cons kv rest ih =>
    obtain ⟨g, middle, others, hg, hothers, rfl⟩ := Fetch.gatheredAll_cons_eq_ok h
    simp only [sourcesOf, List.forall_mem_append] at hmem
    have hvalue : gatheredValue how db scope g = _ :=
      gatheredValue_eq hapart hscope kv.2 hg hmem.1 habove hsight (hshown kv (by simp))
    have hrest := ih hothers hmem.2 fun kv hkv => hshown kv (by simp [hkv])
    rw [rootMembers] at hrest ⊢
    rw [List.mapM_cons, List.mapM_cons, hrest]
    dsimp only
    rw [hvalue]

/-- The root reads the rows that the plan asks for, and refuses to where the plan has it refuse. -/
theorem rootLevel_eq {n : Node} {t : Table} {name : String} {rows : Rows} {shown : List Column}
    (hrows : Fetch.rowsOf t (.table name) n = .ok rows)
    (hroute : routeOf r none n = .ok (Rows.route rows shown)) :
    checkRows how db [] rows = checkMatches t n.condition (db.rows t) ∧
      chosenRows how db [] rows shown =
        (rootRows (scanOf r) db t n).map (frameOf (.table name)) := by
  obtain ⟨condition, orderBy, hcondition, horderBy, hlevel⟩ := Fetch.rowsOf_eq_ok hrows
  have hread : ∀ row c, cellIn how [frameOf (.table name) row] (.table name) c = row.cell c :=
    fun row c => cellIn_row (by simp) (by simp) c
  have hjoins : ∀ row, (joinsTruth how [frameOf rows.source row] rows).holds = true := by
    intro row
    rw [joinsTruth, hlevel]
    rfl
  have hkeep : ∀ row, (rowsTruth how [frameOf rows.source row] rows).holds =
      meets t n.condition row := by
    intro row
    rw [← Bool.true_and (meets t n.condition row), ← hjoins row]
    subst hlevel
    exact rowsTruth_holds hcondition row (hread row)
  constructor
  · have hall : (db.rows rows.table).filter (fun row =>
        (joinsTruth how [frameOf rows.source row] rows).holds) = db.rows rows.table :=
      List.filter_eq_self.mpr fun row _ => hjoins row
    rw [checkRows]
    simp only [frameOf] at hall
    rw [hall]
    subst hlevel
    exact checkPatterns_of_ofPredicate? hcondition _ _ rfl
  · subst hlevel
    rw [chosenRows_eq horderBy hread hkeep, rootRows, scanOf_arrange hroute]

/-- Whatever tells the sources of a statement apart, the statement gives what its plan says. -/
theorem result_eq {n : Node} {f : Fetch} (h : Fetch.ofNode r n = .ok f)
    (hapart : how.TellsApart f.sources) :
    Fetch.result how db f = result (scanOf r) r db n := by
  have hroute := routeOf_root h
  obtain ⟨t, own, nested, next, rows, ht, -, hnested, hrows, rfl⟩ := Fetch.ofNode_eq_ok h
  obtain ⟨hcheck, hchosen⟩ : checkRows how db [] rows = _ ∧ chosenRows how db [] rows _ = _ :=
    rootLevel_eq hrows hroute
  have hsource : rows.source = .table t.declaration.name := by
    obtain ⟨_, _, -, -, rfl⟩ := Fetch.rowsOf_eq_ok hrows
    rfl
  have hread : ∀ row, cellIn how [frameOf rows.source row] rows.source = row.cell :=
    fun row => funext fun c => cellIn_row (by simp [hsource]) (by simp) c
  have hroot : ∀ row, Standing (Fetch.sources ⟨rows, rootColumns t n, nested⟩)
      [frameOf rows.source row] := fun row =>
    (Standing.nil _).cons (by simp [Fetch.sources, frameOf])
      (by simp [frameOf, hsource, Source.staysInSight])
  have hbelow : ∀ row, rootMembers how db [frameOf rows.source row] nested =
      n.relations.mapM fun (key, child) => do
        return (key, ← value (scanOf r) r db t row child) := fun row =>
    rootMembers_eq hapart (hroot row) hnested (fun s hs => by simp [Fetch.sources, hs])
      (by simp [Fetch.sources, hsource]) rfl fun kv hkv rel hrel field hfield c hc => by
        rw [← hsource, hread]
  have hfound : ∀ row, (do
      return (frameOf rows.source row, ← rootMembers how db [frameOf rows.source row] nested) :
        Except Refusal (Frame × Members Value)) =
      (fun p : StoredRow × Members Value => (frameOf rows.source p.1, p.2)) <$> (do
        let below ← n.relations.mapM fun (key, child) => do
          return (key, ← value (scanOf r) r db t row child)
        return (row, below)) := by
    intro row
    rw [hbelow row, map_bind]
    rfl
  -- Both sides read the same rows, look for the same values below each, and show them alike.
  rw [Fetch.result, result, ht]
  dsimp only
  rw [hcheck, hchosen, List.mapM_map, ← hsource]
  simp only [Function.comp_def, hfound, mapM_map_bind, List.mapM_map, hread]

/-- On every database the one statement of a plan gives, each reference taken for the source that it
is meant for, what the plan asks for: at every level the rows for which the condition is true and
which are joined to the row above, sorted and then cut, with the values below them. Only in which
order the database comes by rows that no sort key tells apart is left open, and that does not depend
on what the database holds. -/
theorem result_bySource_eq_direct (r : Registry) (n : Node) (f : Fetch)
    (h : Fetch.ofNode r n = .ok f) :
    ∃ scan : Scan, ∀ db, Fetch.result .bySource db f = result scan r db n :=
  ⟨scanOf r, fun _ => result_eq h (Scoping.tellsApart_bySource f.sources)⟩

/-! ## A family -/

namespace Family

/-- A column that is declared with a type and no more. -/
def column (name : String) (type : ColumnType) (primary : Bool) : Column :=
  { name := name, kind := type.kind, nullable := !primary, hasDefault := primary,
    declaration := { key := name, name := name, type := type, primary := primary,
                     nullable := !primary } }

/-- A table whose rows are known by their `id`. -/
def table (name : String) (columns : List Column) (relations : Members Relation) : Table :=
  { name := name, columns := columns, rowKey := some "id", relations := relations,
    declaration := { name := name, columns := columns.map (·.declaration) } }

def toChildren : Relation := ⟨"children", true, "parent", "child", ["id"], ["parent_id"]⟩

def toParent : Relation := ⟨"parent", false, "child", "parent", ["parent_id"], ["id"]⟩

def parent : Table :=
  table "parent" [column "id" .integer true, column "mark" (.uuid false) false]
    [("children", toChildren)]

def child : Table :=
  table "child" [column "id" .integer true, column "parent_id" .integer false]
    [("parent", toParent)]

/-- Parents and the children that belong to them. -/
def registry : Registry := { tables := [("parent", parent), ("child", child)] }

/-- Every parent with the first of its children, and with the parent of each of these. -/
def generations : Node :=
  { table := "parent", columns := ["mark"],
    relations := [("children",
      { table := "child", columns := ["id"], limit := some 1, relation := some toChildren,
        relations := [("parent",
          { table := "parent", columns := ["mark"], relation := some toParent })] })] }

theorem result_bySource_generations :
    ∃ f, Fetch.ofNode registry generations = .ok f ∧
      ∃ scan : Scan, ∀ db, Fetch.result .bySource db f = result scan registry db generations :=
  ⟨_, rfl, result_bySource_eq_direct registry generations _ rfl⟩

end Family

end RelGraph.Direct
