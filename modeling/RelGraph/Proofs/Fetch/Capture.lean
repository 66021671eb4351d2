import RelGraph.Proofs.Fetch.References
import RelGraph.Proofs.Fetch.Presence
/-!
What comes of references that find what they mean. A level looks at nothing but the cells that its
references find; so a statement whose references all find by name what they mean gives, on rows that
have a cell for each of their columns, what it gives with each reference taken for its source.

The names of the relations' sources are all apart. That of the root is the only one that others
choose, and where it is the name of a relation right below, the join of that relation compares the
related table with itself.
-/
namespace RelGraph.Store

open Sql Outcome

/-- Every row of a table has a cell for each column of the table, and no others. -/
def Database.Complete (db : Database) (t : Table) : Prop :=
  ∀ row ∈ db.rows t, Members.names row.cells = t.columns.map (·.declaration.name)

/-- The rows of a scope have the columns that are in sight. -/
def Sees (scope : Scope) (views : List View) : Prop :=
  List.Forall₂ (fun f v => f.source = v.source ∧ Members.names f.cells = v.columns) scope views

/-! ## Cells -/

variable {scope : Scope} {views : List View} {db : Database}

theorem cellIn_cons {how : Scoping} {f : Frame} {s : Source} {c : Column} :
    cellIn how (f :: scope) s c =
      if how.admits s f.source = true ∧ s.columnName c ∈ Members.names f.cells then
        (Members.get? f.cells (s.columnName c)).getD .null
      else cellIn how scope s c := by
  rw [cellIn, cellIn, List.findSome?_cons]
  cases hcell : Members.get? f.cells (s.columnName c) with
  | none => simp [Members.get?_eq_none.mp hcell]
  | some cell =>
    have hmem := Members.mem_names_of_mem (Members.mem_of_get? hcell)
    cases how.admits s f.source <;> simp [hmem]

/-- A reference that finds by name what it means reads the cell that is meant. -/
theorem cellIn_of_found (hsees : Sees scope views) {s : Source} {c : Column}
    (h : findSource .byName s c views = some s) :
    cellIn .byName scope s c = cellIn .bySource scope s c := by
  induction hsees with
  | nil => cases h
  | @cons f v scope views hfv _ ih =>
    obtain ⟨hsource, hnames⟩ := hfv
    rw [cellIn_cons, cellIn_cons, hsource, hnames]
    by_cases hcolumn : s.columnName c ∈ v.columns
    · cases hname : Scoping.byName.admits s v.source with
      | true =>
        -- The first source of the name with the column is the one that is meant.
        rw [findSource_cons_of_admits hname hcolumn] at h
        simp [Option.some.inj h, Scoping.admits_self, hcolumn]
      | false =>
        have hother : Scoping.bySource.admits s v.source = false := by
          rw [Bool.eq_false_iff]
          intro hsame
          rw [Scoping.tellsApart_bySource [s, v.source] s (by simp) v.source (by simp) hsame,
            Scoping.admits_self] at hname
          cases hname
        rw [findSource_cons_of_not_admits hname] at h
        simpa [hother] using ih h
    · rw [findSource_cons_of_not_mem hcolumn] at h
      simpa [hcolumn] using ih h

/-! ## Levels -/

mutual

/-- A condition looks at the cells of the columns that it is about. -/
theorem conditionTruth_congr {read read' : Column → Cell} (c : Condition)
    (h : ∀ column ∈ c.mentioned, read column = read' column) :
    conditionTruth read c = conditionTruth read' c := by
  match c with
  | .compare column op v =>
    rw [conditionTruth, conditionTruth, h column (by simp [Condition.mentioned])]
  | .all items | .any items =>
    rw [conditionTruth, conditionTruth, conditionTruths_congr items h]

theorem conditionTruths_congr {read read' : Column → Cell} (items : List Condition)
    (h : ∀ column ∈ Condition.mentionedByAll items, read column = read' column) :
    conditionTruths read items = conditionTruths read' items := by
  match items with
  | [] => rfl
  | c :: rest =>
    rw [Condition.mentionedByAll, List.forall_mem_append] at h
    rw [conditionTruths, conditionTruths, conditionTruth_congr c h.1,
      conditionTruths_congr rest h.2]

end

theorem mergeSort_congr {α : Type} {le le' : α → α → Bool} {items : List α}
    (h : ∀ a ∈ items, ∀ b ∈ items, le a b = le' a b) :
    items.mergeSort le = items.mergeSort le' := by
  have hmapped := List.map_mergeSort (f := id) h
  simpa using hmapped

section Level

variable {rows : Rows} {shown : List Column}

/-- A row of a level as the level has it in sight. -/
theorem Sees.cons_row (hsees : Sees scope views) (hdb : db.Complete rows.table) {row : StoredRow}
    (hrow : row ∈ db.rows rows.table) : Sees (⟨rows.source, row.cells⟩ :: scope)
      (rows.view :: views) :=
  .cons ⟨rfl, hdb row hrow⟩ hsees

variable {f : Frame}

/-- A level reads the cells that it means in its own row. -/
theorem cellIn_own (hfound : AllFound .byName (rows.references views shown))
    (hsees : Sees (f :: scope) (rows.view :: views)) {c : Column}
    (hc : c ∈ rows.ownColumns shown) :
    cellIn .byName (f :: scope) rows.source c = cellIn .bySource (f :: scope) rows.source c :=
  cellIn_of_found hsees
    (hfound ⟨rows.source, c, rows.view :: views⟩ (List.mem_append_left _ (List.mem_map_of_mem hc)))

theorem joinsTruth_byName (hfound : AllFound .byName (rows.references views shown))
    (hsees : Sees (f :: scope) (rows.view :: views)) :
    joinsTruth .byName (f :: scope) rows = joinsTruth .bySource (f :: scope) rows := by
  rw [joinsTruth, joinsTruth]
  cases habove : rows.above with
  | none => rfl
  | some above =>
    dsimp only
    refine congrArg Truth.all (List.map_congr_left fun j hj => ?_)
    have hjoin : AllFound .byName [⟨rows.source, j.own, rows.view :: views⟩,
        ⟨above, j.outer, rows.view :: views⟩] := by
      refine fun ref href => hfound ref (List.mem_append_right _ ?_)
      rw [Rows.joinReferences, habove]
      exact List.mem_flatMap.mpr ⟨j, hj, href⟩
    rw [joinTruth, joinTruth,
      cellIn_of_found hsees (hjoin ⟨rows.source, j.own, rows.view :: views⟩ (by simp)),
      cellIn_of_found hsees (hjoin ⟨above, j.outer, rows.view :: views⟩ (by simp))]

theorem rowsTruth_byName (hfound : AllFound .byName (rows.references views shown))
    (hsees : Sees (f :: scope) (rows.view :: views)) :
    rowsTruth .byName (f :: scope) rows = rowsTruth .bySource (f :: scope) rows := by
  rw [rowsTruth, rowsTruth, joinsTruth_byName hfound hsees]
  cases hcondition : rows.condition with
  | none => rfl
  | some c =>
    dsimp only
    rw [conditionTruth_congr c fun column hcolumn => ?_]
    exact cellIn_own hfound hsees (by simp [Rows.ownColumns, hcondition, hcolumn])

/-- A level refuses to test rows by name where it does so by what is meant. -/
theorem checkRows_byName (hdb : db.Complete rows.table) (hsees : Sees scope views)
    (hfound : AllFound .byName (rows.references views shown)) :
    checkRows .byName db scope rows = checkRows .bySource db scope rows := by
  rw [checkRows, checkRows, List.filter_congr fun row hrow => ?_]
  rw [joinsTruth_byName hfound (hsees.cons_row hdb hrow)]

/-- What a level reads are rows of its table. -/
theorem of_mem_chosenRows {how : Scoping} {others : List Column}
    (h : f ∈ chosenRows how db scope rows others) :
    ∃ row ∈ db.rows rows.table, f = ⟨rows.source, row.cells⟩ := by
  have hsub : ∀ {limit offset} {items : List Frame}, f ∈ window limit offset items → f ∈ items := by
    intro limit offset items hmem
    cases limit with
    | none => exact List.mem_of_mem_drop hmem
    | some l => exact List.mem_of_mem_drop (List.mem_of_mem_take hmem)
  have hmem := (List.mem_filter.mp (List.mem_mergeSort.mp (hsub h))).1
  obtain ⟨row, hrow, rfl⟩ := List.mem_map.mp hmem
  exact ⟨row, (Route.arrange_perm _ _).mem_iff.mp hrow, rfl⟩

/-- A level reads by name the rows that it means to read. -/
theorem chosenRows_byName (hdb : db.Complete rows.table) (hsees : Sees scope views)
    (hfound : AllFound .byName (rows.references views shown)) (others : List Column) :
    chosenRows .byName db scope rows others = chosenRows .bySource db scope rows others := by
  rw [chosenRows, chosenRows]
  have hall : ∀ f ∈ ((Rows.route rows others).arrange (db.rows rows.table)).map fun row =>
      Frame.mk rows.source row.cells, Sees (f :: scope) (rows.view :: views) := by
    intro f hf
    obtain ⟨row, hrow, rfl⟩ := List.mem_map.mp hf
    exact hsees.cons_row hdb ((Route.arrange_perm _ _).mem_iff.mp hrow)
  generalize ((Rows.route rows others).arrange (db.rows rows.table)).map _ = all at hall
  have hmet : all.filter (fun f => (rowsTruth .byName (f :: scope) rows).holds) =
      all.filter fun f => (rowsTruth .bySource (f :: scope) rows).holds :=
    List.filter_congr fun f hf => by rw [rowsTruth_byName hfound (hall f hf)]
  rw [hmet]
  refine congrArg _ (mergeSort_congr fun a ha b hb => congrArg Ordering.isLE ?_)
  -- The sort keys are columns of the level's own.
  have hread : ∀ f ∈ all, ∀ k ∈ rows.orderBy,
      cellIn .byName (f :: scope) rows.source k.column =
        cellIn .bySource (f :: scope) rows.source k.column := fun f hf k hk =>
    cellIn_own hfound (hall f hf)
      (List.mem_append_right _ (List.mem_map_of_mem (f := SortKey.column) hk))
  have ha := hread a (List.mem_filter.mp ha).1
  have hb := hread b (List.mem_filter.mp hb).1
  rw [orderByKeys, orderByKeys]
  generalize rows.orderBy = keys at ha hb
  induction keys with
  | nil => rfl
  | cons k keys ih =>
    rw [List.foldr_cons, List.foldr_cons, ih (fun k hk => ha k (by simp [hk])) fun k hk =>
      hb k (by simp [hk]), ha k (by simp), hb k (by simp)]

end Level

/-! ## Relations -/

theorem jsonMembers_byName {s : Source} {columns : List Column}
    (h : ∀ c ∈ columns, cellIn .byName scope s c = cellIn .bySource scope s c) :
    jsonMembers .byName scope s columns = jsonMembers .bySource scope s columns := by
  induction columns with
  | nil => rfl
  | cons c rest ih =>
    rw [jsonMembers, jsonMembers, h c (by simp), ih fun c hc => h c (by simp [hc])]

theorem names_exposedFrame {how : Scoping} {source derived : Source} {columns : List Column}
    {f : Frame} : Members.names (exposedFrame how scope source derived columns f).cells =
      columns.map (·.name) := by
  simp [exposedFrame, Members.names]

mutual

/-- Where its references find by name what they mean, the value of a relation is the one that is
meant. -/
theorem gatheredValue_byName {r : Registry} {db : Database} {scope : Scope} {views : List View}
    {above : Table} {aboveSource : Source} {number next : Nat} {g : Gathered}
    (hdb : ∀ name t, r.table? name = some t → db.Complete t) (hsees : Sees scope views) (n : Node)
    (h : Fetch.gathered r above aboveSource number n = .ok (g, next))
    (hfound : AllFound .byName (g.references views)) :
    gatheredValue .byName db scope g = gatheredValue .bySource db scope g := by
  obtain ⟨target, rel, exposed, rows, columns, nested, htarget, -, -, hrows, -, hnested, rfl⟩ :=
    Fetch.gathered_eq_ok h
  have htable : rows.table = target := by
    obtain ⟨_, _, _, -, -, -, rfl⟩ := Fetch.relatedRows_eq_ok.mp hrows
    rfl
  have hcomplete : db.Complete rows.table := htable ▸ hdb n.table target htarget
  rw [AllFound, Gathered.references, List.append_assoc, List.forall_mem_append,
    List.forall_mem_append] at hfound
  obtain ⟨hlevel, hobjects, hbelow⟩ := hfound
  rw [gatheredValue, gatheredValue, checkRows_byName hcomplete hsees hlevel,
    chosenRows_byName hcomplete hsees hlevel]
  -- The rows of the subquery are the same, and each has the columns that it exposes.
  have hexposed : (chosenRows .bySource db scope rows exposed).map
        (exposedFrame .byName scope rows.source (.derived (number + 1)) exposed) =
      (chosenRows .bySource db scope rows exposed).map
        (exposedFrame .bySource scope rows.source (.derived (number + 1)) exposed) := by
    refine List.map_congr_left fun f hf => ?_
    obtain ⟨row, hrow, rfl⟩ := of_mem_chosenRows hf
    rw [exposedFrame, exposedFrame, Frame.mk.injEq]
    refine ⟨rfl, List.map_congr_left fun c hc => ?_⟩
    rw [cellIn_own hlevel (hsees.cons_row hcomplete hrow) (by simp [Rows.ownColumns, hc])]
  rw [hexposed]
  refine congrArg _ (funext fun _ => congrArg (· >>= _) (mapM_congr fun f hf => ?_))
  have hshown : Sees (f :: scope) (derivedView (.derived (number + 1)) exposed :: views) := by
    have hf : f ∈ (chosenRows .bySource db scope rows exposed).map
        (exposedFrame .bySource scope rows.source (.derived (number + 1)) exposed) := by
      split at hf
      · exact hf
      · exact List.mem_of_mem_take hf
    obtain ⟨g, -, rfl⟩ := List.mem_map.mp hf
    exact .cons ⟨rfl, names_exposedFrame⟩ hsees
  rw [jsonMembers_byName fun c hc => cellIn_of_found hshown
    (hobjects ⟨_, c, _⟩ (List.mem_map_of_mem hc))]
  match n, hnested with
  | ⟨_, _, _, _, _, _, _, relations, _⟩, hnested =>
    rw [gatheredMembers_byName hdb hshown relations hnested hbelow]

theorem gatheredMembers_byName {r : Registry} {db : Database} {scope : Scope} {views : List View}
    {above : Table} {aboveSource : Source} {number next : Nat}
    {nested : List (String × Gathered)}
    (hdb : ∀ name t, r.table? name = some t → db.Complete t) (hsees : Sees scope views)
    (relations : List (String × Node))
    (h : Fetch.gatheredAll r above aboveSource number relations = .ok (nested, next))
    (hfound : AllFound .byName (referencesOf views nested)) :
    gatheredMembers .byName db scope nested = gatheredMembers .bySource db scope nested := by
  match relations with
  | [] =>
    obtain ⟨rfl, -⟩ := Prod.mk.inj (pure_eq_ok.mp h)
    rfl
  | (key, child) :: rest =>
    obtain ⟨g, middle, others, hg, hothers, rfl⟩ := Fetch.gatheredAll_cons_eq_ok h
    rw [AllFound, referencesOf, List.forall_mem_append] at hfound
    rw [gatheredMembers, gatheredMembers, gatheredValue_byName hdb hsees child hg hfound.1,
      gatheredMembers_byName hdb hsees rest hothers hfound.2]

end

/-! ## Statements -/

theorem rootMembers_byName {r : Registry} {above : Table} {aboveSource : Source}
    {number next : Nat} {relations : List (String × Node)} {nested : List (String × Gathered)}
    (hdb : ∀ name t, r.table? name = some t → db.Complete t) (hsees : Sees scope views)
    (h : Fetch.gatheredAll r above aboveSource number relations = .ok (nested, next))
    (hfound : AllFound .byName (referencesOf views nested)) :
    rootMembers .byName db scope nested = rootMembers .bySource db scope nested := by
  rw [rootMembers, rootMembers]
  refine mapM_congr fun kv hkv => ?_
  obtain ⟨child, number', next', -, hg⟩ := Fetch.exists_gathered_of_mem h hkv
  dsimp only
  rw [gatheredValue_byName hdb hsees child hg fun ref href =>
    hfound ref (mem_referencesOf.mpr ⟨kv, hkv, href⟩)]

namespace Fetch

theorem resultMembers_congr {read read' : Column → Cell} {columns : List Column}
    (h : ∀ c ∈ columns, read c = read' c) :
    resultMembers read columns = resultMembers read' columns := by
  induction columns with
  | nil => rfl
  | cons c rest ih =>
    rw [resultMembers, resultMembers, h c (by simp), ih fun c hc => h c (by simp [hc])]

/-- A statement whose references all find by name what they mean gives what is meant. -/
theorem result_byName_of_found {r : Registry} {n : Node} {f : Fetch}
    (h : Fetch.ofNode r n = .ok f) (hfound : AllFound .byName f.references)
    (hdb : ∀ name t, r.table? name = some t → db.Complete t) :
    result .byName db f = result .bySource db f := by
  obtain ⟨t, own, nested, next, rows, ht, -, hnested, hrows, rfl⟩ := Fetch.ofNode_eq_ok h
  have htable : rows.table = t := by
    obtain ⟨_, _, -, -, rfl⟩ := Fetch.rowsOf_eq_ok hrows
    rfl
  have hcomplete : db.Complete rows.table := htable ▸ hdb n.table t ht
  obtain ⟨hlevel, hbelow⟩ := List.forall_mem_append.mp hfound
  have hsees : Sees [] [] := .nil
  rw [result, result, checkRows_byName hcomplete hsees hlevel,
    chosenRows_byName hcomplete hsees hlevel]
  have hroot : ∀ frame ∈ chosenRows .bySource db [] rows (shown ⟨rows, Direct.rootColumns t n,
      nested⟩), Sees [frame] [rows.view] := by
    intro frame hframe
    obtain ⟨row, hrow, rfl⟩ := of_mem_chosenRows hframe
    exact hsees.cons_row hcomplete hrow
  generalize chosenRows .bySource db [] rows _ = chosen at hroot
  have hmembers : (chosen.mapM fun frame => do
        return (frame, ← rootMembers .byName db [frame] nested)) =
      chosen.mapM fun frame => do return (frame, ← rootMembers .bySource db [frame] nested) :=
    mapM_congr fun frame hframe => by
      rw [rootMembers_byName hdb (hroot frame hframe) hnested hbelow]
  dsimp only
  rw [hmembers]
  refine congrArg _ (funext fun _ => ?_)
  cases hfound : chosen.mapM fun frame => (do
    return (frame, ← rootMembers .bySource db [frame] nested) : Except Refusal _) with
  | error e => rfl
  | ok found =>
    refine mapM_congr fun p hp => ?_
    obtain ⟨frame, hframe, hpair⟩ := exists_of_mem_mapM hfound hp
    obtain ⟨below, -, hpair⟩ := bind_eq_ok.mp hpair
    obtain rfl := pure_eq_ok.mp hpair
    dsimp only
    rw [resultMembers_congr fun c hc => cellIn_own hlevel (hroot frame hframe)
      (by simp [Rows.ownColumns, hc])]

end Fetch
end RelGraph.Store

namespace RelGraph.Sql.Fetch

open Store Outcome

theorem source_mem_sources (g : Gathered) : g.rows.source ∈ g.sources := by
  cases g
  simp [Gathered.sources]

theorem not_captures_of_rootApart {f : Fetch} (h : f.RootApart) : ¬ f.Captures := by
  rintro ⟨kv, hkv, hname, -⟩
  refine h kv.2.rows.source ?_ hname
  obtain ⟨rows, columns, nested⟩ := f
  dsimp only at hkv
  clear h hname
  induction nested with
  | nil => cases hkv
  | cons entry rest ih =>
    rw [sourcesOf, List.mem_append]
    rcases List.mem_cons.mp hkv with rfl | hkv
    · exact .inl (source_mem_sources _)
    · exact .inr (ih hkv)

/-- The sources of the relations of a statement are numbered one after the other, and go by names
that are all apart. Taken for the sources that they mean, all references find them. By name they do
exactly where no relation right below the root hides it, for which the root has to be named like one
of the numbered sources; and then the statement gives what is meant by it. -/
theorem names_of_ofNode (r : Registry) (n : Node) (f : Fetch) (h : Fetch.ofNode r n = .ok f) :
    sourcesOf f.nested = numbered 1 (relationCounts n.relations) ∧
      ((sourcesOf f.nested).map Source.plainName).Nodup ∧
      AllFound .bySource f.references ∧ (AllFound .byName f.references ↔ ¬ f.Captures) ∧
      (f.RootApart → ¬ f.Captures) ∧
      (¬ f.Captures → ∀ db, (∀ name t, r.table? name = some t → db.Complete t) →
        Fetch.result .byName db f = Fetch.result .bySource db f) := by
  have hsources : sourcesOf f.nested = numbered 1 (relationCounts n.relations) := by
    obtain ⟨t, own, nested, next, rows, -, -, hnested, -, rfl⟩ := ofNode_eq_ok h
    exact (sources_gatheredAll n.relations hnested).1
  refine ⟨hsources, hsources ▸ nodup_plainName_numbered 1 _, found_bySource h, found_byName_iff h,
    not_captures_of_rootApart, fun hnot db hdb => ?_⟩
  exact Fetch.result_byName_of_found h ((found_byName_iff h).mpr hnot) hdb

end RelGraph.Sql.Fetch

namespace RelGraph.Direct.Family

open Store Sql Outcome

theorem complete_storage (name : String) (t : Table) (h : registry.table? name = some t) :
    storage.committed.Complete t := by
  have ht : t = parent ∨ t = child := by
    have hmem := Members.mem_of_get? h
    simp only [registry, List.mem_cons, Prod.mk.injEq, List.not_mem_nil, or_false] at hmem
    exact hmem.imp And.right And.right
  rcases ht with rfl | rfl
  · show ∀ row ∈ [parentRow], _
    simp [parentRow, parent, table, column, Members.names]
  · show ∀ row ∈ [childRow], _
    simp [childRow, child, table, column, Members.names]

/-- The root is named `parent`, and so nothing hides it. -/
theorem names_generations :
    ∃ f, Fetch.ofNode registry generations = .ok f ∧
      sourcesOf f.nested = [.again 1, .derived 2, .again 3, .derived 4] ∧
      AllFound .byName f.references ∧
      Fetch.result .byName storage.committed f = Fetch.result .bySource storage.committed f := by
  obtain ⟨f, hf⟩ : ∃ f, Fetch.ofNode registry generations = .ok f := ⟨_, rfl⟩
  obtain ⟨hsources, -, -, hfound, hapart, hresult⟩ := Fetch.names_of_ofNode _ _ f hf
  have hnot : ¬ f.Captures := by
    refine hapart ?_
    rw [Fetch.RootApart, hsources]
    obtain rfl := Except.ok.inj hf
    decide +kernel
  exact ⟨f, hf, hsources, hfound.mpr hnot, hresult hnot _ complete_storage⟩

/-! ## A root that goes by the name of a numbered source -/

/-- Parents, under whatever name. -/
def parentNamed (name : String) : Table :=
  table name [column "id" .integer true]
    [("children", ⟨"children", true, name, "child", ["id"], ["parent_id"]⟩)]

def registryNamed (name : String) : Registry :=
  { tables := [("child", child), (name, parentNamed name)] }

/-- All parents, each with all of its children. -/
def childrenOfEach (name : String) : Node :=
  { table := name, columns := ["id"],
    relations := [("children",
      { table := "child", columns := ["id"],
        relation := some ⟨"children", true, name, "child", ["id"], ["parent_id"]⟩ })] }

def childrenBelow (name : String) : Gathered :=
  { toMany := true,
    rows := { table := child, source := .again 1, above := some (.table name),
              joins := [⟨column "parent_id" .integer false, column "id" .integer true⟩] },
    exposed := [column "id" .integer true], derived := .derived 2,
    columns := [column "id" .integer true], nested := [] }

def statementNamed (name : String) : Fetch :=
  { rows := { table := parentNamed name, source := .table name },
    columns := [column "id" .integer true], nested := [("children", childrenBelow name)] }

def parentFrame (name : String) : Frame := ⟨.table name, [("id", .integer 1)]⟩

/-- One parent with one child. -/
def databaseNamed (name : String) : Database :=
  { tables := [("child", [childRow]), (name, [⟨1, (parentFrame name).cells⟩])] }

theorem chosenRows_eq_singleton {how : Scoping} {db : Database} {scope : Scope} {rows : Rows}
    {shown : List Column} {row : StoredRow} (hrows : db.rows rows.table = [row])
    (hlimit : rows.limit = none) (hoffset : rows.offset = none) :
    chosenRows how db scope rows shown =
      if (rowsTruth how (⟨rows.source, row.cells⟩ :: scope) rows).holds then
        [⟨rows.source, row.cells⟩] else [] := by
  have hall : (Rows.route rows shown).arrange [row] = [row] :=
    List.perm_singleton.mp (Route.arrange_perm _ _)
  rw [chosenRows, hrows, hall]
  simp only [List.map_cons, List.map_nil, List.filter_cons, List.filter_nil, hlimit, hoffset,
    window]
  split <;> simp

theorem gatheredValue_childrenBelow {how : Scoping} {name : String} {found : Bool}
    (hfound : (rowsTruth how [⟨.again 1, childRow.cells⟩, parentFrame name]
      (childrenBelow name).rows).holds = found) :
    gatheredValue how (databaseNamed name) [parentFrame name] (childrenBelow name) =
      .ok (.list (if found then [.object [("id", .int 5)]] else [])) := by
  have hchosen : chosenRows how (databaseNamed name) [parentFrame name] (childrenBelow name).rows
      (childrenBelow name).exposed = if found then [⟨.again 1, childRow.cells⟩] else [] := by
    have hchild : (databaseNamed name).rows (childrenBelow name).rows.table = [childRow] := rfl
    rw [chosenRows_eq_singleton hchild rfl rfl, ← hfound]
    rfl
  have hcheck : checkRows how (databaseNamed name) [parentFrame name] (childrenBelow name).rows =
      .ok () := by
    simp [checkRows, checkPatterns, childrenBelow]
  rw [childrenBelow] at hchosen hcheck ⊢
  rw [gatheredValue, hchosen, hcheck]
  cases found with
  | false => rfl
  | true =>
    simp [exposedFrame, jsonMembers, gatheredMembers, cellIn, how.admits_self, Members.get?,
      column, childRow, Source.columnName, bind, Except.bind, pure, Except.pure]
    rfl

/-- What is shown of the parent: its children are what the join leaves of the child. -/
theorem result_statementNamed {how : Scoping} {name : String} (found : Bool)
    (hname : name ≠ "child")
    (hfound : (rowsTruth how [⟨.again 1, childRow.cells⟩, parentFrame name]
      (childrenBelow name).rows).holds = found) :
    Fetch.result how (databaseNamed name) (statementNamed name) =
      .ok [.object [("id", .int 1),
        ("children", .list (if found then [.object [("id", .int 5)]] else []))]] := by
  have hrows : (databaseNamed name).rows (statementNamed name).rows.table =
      [⟨1, (parentFrame name).cells⟩] := by
    simp [Database.rows, databaseNamed, statementNamed, parentNamed, table, Members.get?,
      hname.symm]
  have hchosen (others : List Column) : chosenRows how (databaseNamed name) []
      (statementNamed name).rows others = [parentFrame name] := by
    rw [chosenRows_eq_singleton hrows rfl rfl]
    rfl
  have hcheck : checkRows how (databaseNamed name) [] (statementNamed name).rows = .ok () := by
    simp [checkRows, checkPatterns, statementNamed]
  have hid : cellIn how [parentFrame name] (.table name) (column "id" .integer true) =
      .integer 1 := by
    simp [cellIn, how.admits_self, parentFrame, Members.get?, column, Source.columnName]
  rw [Fetch.result, hchosen, hcheck]
  simp only [List.mapM_cons, List.mapM_nil, statementNamed, rootMembers, resultMembers, hid,
    gatheredValue_childrenBelow hfound, bind, Except.bind, pure, Except.pure]
  cases found <;> rfl

/-- A parent whose table is named like the number under which the children are read again has no
children: the name of the parent means the child. -/
theorem children_hidden :
    (Plan.ofSelection (registryNamed "t1") 5 "t1" ⟨"t1FindMany", none, [],
        [("id", ⟨"id", none, [], []⟩), ("children", ⟨"children", none, [],
          [("id", ⟨"id", none, [], []⟩)]⟩)]⟩ []).1 = .ok (childrenOfEach "t1") ∧
      Fetch.ofNode (registryNamed "t1") (childrenOfEach "t1") = .ok (statementNamed "t1") ∧
      .again 1 ∈ sourcesOf (statementNamed "t1").nested ∧
      (Source.again 1).name = (statementNamed "t1").rows.source.name ∧
      ¬ AllFound .byName (statementNamed "t1").references ∧
      Fetch.result .byName (databaseNamed "t1") (statementNamed "t1") =
        .ok [.object [("id", .int 1), ("children", .list [])]] ∧
      Fetch.result .bySource (databaseNamed "t1") (statementNamed "t1") =
        .ok [.object [("id", .int 1), ("children", .list [.object [("id", .int 5)]])]] := by
  refine ⟨by cbv, rfl, by simp [statementNamed, childrenBelow, sourcesOf, Gathered.sources],
    by decide +kernel, by decide +kernel, ?_, ?_⟩
  · exact result_statementNamed false (by decide) (by decide +kernel)
  · exact result_statementNamed true (by decide) (by decide +kernel)

end RelGraph.Direct.Family
