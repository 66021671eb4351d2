import RelGraph.Proofs.Fetch.Scope
/-!
References of a statement. Every reference stands where some sources are in sight, and finds the
nearest of them that goes by its name and has its column. The names of numbered sources are all
apart; only the table of the root brings a name of its own, and only a relation right below the root
can stand between a reference and it. Where that does not happen, the names of a statement mean what
its builder means.
-/
namespace RelGraph.Sql

open Store Outcome

/-! ## Sources in sight -/

/-- A source in sight, with the names that its columns go by. -/
structure View where
  source : Source
  columns : List String

/-- A reference to a column of a source, and what is in sight where it stands, the nearest first. -/
structure Reference where
  meant : Source
  column : Column
  inSight : List View

/-- The nearest of some sources that a reference may mean and that has the column. -/
def findSource (how : Scoping) (s : Source) (c : Column) (views : List View) : Option Source :=
  (views.find? fun v => how.admits s v.source && v.columns.contains (s.columnName c)).map
    View.source

/-- The source that a reference finds. -/
def Reference.found? (how : Scoping) (ref : Reference) : Option Source :=
  findSource how ref.meant ref.column ref.inSight

/-- All of some references find the sources that they mean. -/
def AllFound (how : Scoping) (refs : List Reference) : Prop :=
  ∀ ref ∈ refs, ref.found? how = some ref.meant

instance (how : Scoping) (refs : List Reference) : Decidable (AllFound how refs) :=
  inferInstanceAs (Decidable (∀ ref ∈ refs, ref.found? how = some ref.meant))

mutual

/-- The columns that a condition is about. -/
def Condition.mentioned : Condition → List Column
  | .compare c _ _ => [c]
  | .all items | .any items => mentionedByAll items

/-- The columns that conditions are about. -/
def Condition.mentionedByAll : List Condition → List Column
  | [] => []
  | c :: rest => c.mentioned ++ mentionedByAll rest

end

namespace Rows

/-- The rows of a table as others see them. -/
def view (r : Rows) : View := ⟨r.source, r.table.columns.map (·.declaration.name)⟩

/-- The columns of its own that a level refers to, apart from its joins: those that it shows, tests
and sorts by. -/
def ownColumns (r : Rows) (shown : List Column) : List Column :=
  shown ++ (r.condition.map Condition.mentioned).getD [] ++ r.orderBy.map SortKey.column

/-- The references of the joins of a level: each has a side of its own and one above. -/
def joinReferences (r : Rows) (inSight : List View) : List Reference :=
  match r.above with
  | some above => r.joins.flatMap fun j =>
    [⟨r.source, j.own, r.view :: inSight⟩, ⟨above, j.outer, r.view :: inSight⟩]
  | none => []

/-- The references of a level. -/
def references (r : Rows) (inSight : List View) (shown : List Column) : List Reference :=
  (r.ownColumns shown).map (⟨r.source, ·, r.view :: inSight⟩) ++ r.joinReferences inSight

end Rows

/-- The rows of a subquery as the levels below see them. -/
def derivedView (derived : Source) (exposed : List Column) : View := ⟨derived, exposed.map (·.name)⟩

mutual

/-- The references of a relation's value: those of its subquery, those of its objects to the
subquery, and those below. -/
def Gathered.references (inSight : List View) : Gathered → List Reference
  | ⟨_, rows, exposed, derived, columns, nested⟩ =>
    rows.references inSight exposed ++
      columns.map (⟨derived, ·, derivedView derived exposed :: inSight⟩) ++
      referencesOf (derivedView derived exposed :: inSight) nested

/-- The references of values of relations. -/
def referencesOf (inSight : List View) : List (String × Gathered) → List Reference
  | [] => []
  | (_, g) :: rest => g.references inSight ++ referencesOf inSight rest

end

namespace Fetch

/-- All references of a statement. -/
def references (f : Fetch) : List Reference :=
  f.rows.references [] f.columns ++ referencesOf [f.rows.view] f.nested

/-- A relation right below the root hides the root from one of its own joins: its table goes by the
root's name there, and has a column of the name that is meant. -/
def Captures (f : Fetch) : Prop :=
  ∃ kv ∈ f.nested, kv.2.rows.source.plainName = f.rows.source.plainName ∧
    ∃ j ∈ kv.2.rows.joins, j.outer.declaration.name ∈ kv.2.rows.view.columns

end Fetch

/-! ## Numbers -/

/-- The sources of some relations, numbered one after the other. -/
def numbered (first : Nat) : Nat → List Source
  | 0 => []
  | count + 1 => .again first :: .derived (first + 1) :: numbered (first + 2) count

theorem numbered_add (first a b : Nat) :
    numbered first (a + b) = numbered first a ++ numbered (first + 2 * a) b := by
  induction a generalizing first with
  | zero => simp [numbered]
  | succ a ih =>
    rw [show a + 1 + b = a + b + 1 by omega, numbered, numbered, ih,
      show first + 2 + 2 * a = first + 2 * (a + 1) by omega]
    simp only [List.cons_append]

theorem of_mem_numbered {first count : Nat} {s : Source} (h : s ∈ numbered first count) :
    ∃ i, first ≤ i ∧ (s = .again i ∨ s = .derived i) := by
  induction count generalizing first with
  | zero => simp [numbered] at h
  | succ count ih =>
    rw [numbered] at h
    rcases List.mem_cons.mp h with rfl | h
    · exact ⟨first, Nat.le_refl _, .inl rfl⟩
    · rcases List.mem_cons.mp h with rfl | h
      · exact ⟨first + 1, by omega, .inr rfl⟩
      · obtain ⟨i, hi, hs⟩ := ih h
        exact ⟨i, by omega, hs⟩

theorem nodup_numbered (first count : Nat) : (numbered first count).Nodup := by
  induction count generalizing first with
  | zero => exact List.nodup_nil
  | succ count ih =>
    rw [numbered, List.nodup_cons, List.nodup_cons]
    refine ⟨fun h => ?_, fun h => ?_, ih (first + 2)⟩
    · -- What follows has greater numbers.
      rcases List.mem_cons.mp h with h | h
      · cases h
      · obtain ⟨i, hi, hs⟩ := of_mem_numbered h
        rcases hs with hs | hs
        · obtain rfl := Source.again.inj hs
          omega
        · cases hs
    · obtain ⟨i, hi, hs⟩ := of_mem_numbered h
      rcases hs with hs | hs
      · cases hs
      · have := Source.derived.inj hs
        omega

/-- Numbered sources go by names that are all apart. -/
theorem nodup_plainName_numbered (first count : Nat) :
    ((numbered first count).map Source.plainName).Nodup := by
  have hnumbered : ∀ s ∈ numbered first count, ∀ name, s ≠ .table name := by
    intro s hs name
    obtain ⟨i, -, rfl | rfl⟩ := of_mem_numbered hs <;> exact Source.noConfusion
  exact (nodup_numbered first count).map_on fun a ha b hb h =>
    Source.eq_of_plainName_eq (hnumbered a ha) (hnumbered b hb) h

end RelGraph.Sql

namespace RelGraph

mutual

/-- How many relations a plan follows, at all levels below it. -/
def Node.relationCount : Node → Nat
  | ⟨_, _, _, _, _, _, _, relations, _⟩ => relationCounts relations

/-- How many relations there are, with those below each. -/
def relationCounts : List (String × Node) → Nat
  | [] => 0
  | (_, n) :: rest => n.relationCount + 1 + relationCounts rest

end

end RelGraph

namespace RelGraph.Sql

open Store Outcome

namespace Fetch

mutual

/-- The value of a relation is read from sources that are numbered from its own number on. -/
theorem sources_gathered {r : Registry} {above : Table} {aboveSource : Source} {number next : Nat}
    {g : Gathered} (n : Node)
    (h : gathered r above aboveSource number n = .ok (g, next)) :
    g.sources = numbered number (n.relationCount + 1) ∧
      next = number + 2 * (n.relationCount + 1) := by
  obtain ⟨target, rel, exposed, rows, columns, nested, -, -, -, hrows, -, hnested, rfl⟩ :=
    gathered_eq_ok h
  obtain ⟨_, _, _, -, -, -, rfl⟩ := relatedRows_eq_ok.mp hrows
  match n, hnested with
  | ⟨_, _, _, _, _, _, _, relations, _⟩, hnested =>
    obtain ⟨hsources, rfl⟩ := sources_gatheredAll relations hnested
    rw [Gathered.sources, Node.relationCount, numbered, hsources]
    exact ⟨rfl, by omega⟩

theorem sources_gatheredAll {r : Registry} {above : Table} {aboveSource : Source}
    {number next : Nat} {nested : List (String × Gathered)} (relations : List (String × Node))
    (h : gatheredAll r above aboveSource number relations = .ok (nested, next)) :
    sourcesOf nested = numbered number (relationCounts relations) ∧
      next = number + 2 * relationCounts relations := by
  match relations with
  | [] =>
    obtain ⟨rfl, rfl⟩ := Prod.mk.inj (pure_eq_ok.mp h)
    exact ⟨rfl, rfl⟩
  | (key, child) :: rest =>
    obtain ⟨g, middle, others, hg, hothers, rfl⟩ := gatheredAll_cons_eq_ok h
    obtain ⟨hfirst, rfl⟩ := sources_gathered child hg
    obtain ⟨hrest, rfl⟩ := sources_gatheredAll rest hothers
    rw [sourcesOf, relationCounts, numbered_add, hfirst, hrest]
    exact ⟨rfl, by omega⟩

end

end Fetch

/-! ## Finding sources -/

section Finding

variable {how : Scoping} {s : Source} {c : Column} {v : View} {views : List View}

theorem findSource_cons_of_not_admits (h : how.admits s v.source = false) :
    findSource how s c (v :: views) = findSource how s c views := by
  simp [findSource, h]

theorem findSource_cons_of_admits (h : how.admits s v.source = true)
    (hc : s.columnName c ∈ v.columns) : findSource how s c (v :: views) = some v.source := by
  simp [findSource, h, hc]

theorem findSource_cons_of_not_mem (hc : s.columnName c ∉ v.columns) :
    findSource how s c (v :: views) = findSource how s c views := by
  simp [findSource, hc]

theorem findSource_self (hs : v.source = s) (hc : s.columnName c ∈ v.columns) :
    findSource how s c (v :: views) = some s := by
  simp [findSource, hs, how.admits_self, hc]

theorem admits_byName {a b : Source} :
    Scoping.byName.admits a b = true ↔ a.plainName = b.plainName := by
  simp [Scoping.admits, Source.plainName]

/-- A subquery is never taken for a table that is read again. -/
theorem not_admits_again (how : Scoping) (m n : Nat) :
    how.admits (.derived m) (.again n) = false := by
  cases how with
  | bySource => rfl
  | byName =>
    rw [Bool.eq_false_iff]
    intro h
    cases Source.eq_of_plainName_eq (by simp) (by simp) (admits_byName.mp h)

end Finding

/-! ## Columns of a level -/

theorem mem_columns_of_column {t : Table} {name : String} {c : Column} (h : t.column name = .ok c) :
    c ∈ t.columns :=
  List.mem_of_find?_eq_some (Table.column_eq_ok.mp h)

mutual

/-- A condition is about columns of its table. -/
theorem mem_columns_of_mentioned {t : Table} {p : Predicate} {condition : Condition}
    (h : Condition.ofPredicate t p = .ok condition) {c : Column} (hc : c ∈ condition.mentioned) :
    c ∈ t.columns := by
  match p with
  | .compare name op v =>
    obtain ⟨column, hcolumn, rfl⟩ := Direct.ofPredicate_compare h
    obtain rfl := List.mem_singleton.mp hc
    exact List.mem_of_find?_eq_some hcolumn
  | .all items =>
    rw [Condition.ofPredicate] at h
    obtain ⟨cs, hcs, h⟩ := bind_eq_ok.mp h
    obtain rfl := pure_eq_ok.mp h
    exact mem_columns_of_mentionedByAll hcs hc
  | .any items =>
    rw [Condition.ofPredicate] at h
    obtain ⟨cs, hcs, h⟩ := bind_eq_ok.mp h
    obtain rfl := pure_eq_ok.mp h
    exact mem_columns_of_mentionedByAll hcs hc

theorem mem_columns_of_mentionedByAll {t : Table} {ps : List Predicate} {cs : List Condition}
    (h : Condition.ofPredicates t ps = .ok cs) {c : Column}
    (hc : c ∈ Condition.mentionedByAll cs) : c ∈ t.columns := by
  match ps with
  | [] =>
    obtain rfl := pure_eq_ok.mp h
    cases hc
  | p :: ps =>
    rw [Condition.ofPredicates] at h
    obtain ⟨condition, hcondition, h⟩ := bind_eq_ok.mp h
    obtain ⟨rest, hrest, h⟩ := bind_eq_ok.mp h
    obtain rfl := pure_eq_ok.mp h
    rcases List.mem_append.mp hc with hc | hc
    · exact mem_columns_of_mentioned hcondition hc
    · exact mem_columns_of_mentionedByAll hrest hc

end

namespace Fetch

theorem mem_columns_of_fallback {t : Table} {c : Column} (h : fallback t = .ok c) :
    c ∈ t.columns := by
  rw [fallback] at h
  split at h
  · exact mem_columns_of_column h
  · rename_i hcolumns
    obtain rfl := Except.ok.inj h
    simp [hcolumns]
  · cases h

theorem mem_columns_of_exposedColumns {t : Table} {names : List String} {exposed : List Column}
    (h : exposedColumns t names = .ok exposed) {c : Column} (hc : c ∈ exposed) : c ∈ t.columns := by
  cases names with
  | nil =>
    obtain ⟨e, he, h⟩ := bind_eq_ok.mp h
    obtain rfl := pure_eq_ok.mp h
    obtain rfl := List.mem_singleton.mp hc
    exact mem_columns_of_fallback he
  | cons name rest =>
    obtain ⟨name', -, hname⟩ := exists_of_mem_mapM h hc
    exact mem_columns_of_column hname

/-- A level shows, tests and sorts by columns of its table. -/
theorem mem_columns_of_ownColumns {t : Table} {source : Source} {n : Node} {rows : Rows}
    (h : rowsOf t source n = .ok rows) {shown : List Column} (hshown : ∀ c ∈ shown, c ∈ t.columns)
    {c : Column} (hc : c ∈ rows.ownColumns shown) : c ∈ t.columns := by
  obtain ⟨condition, orderBy, hcondition, horderBy, rfl⟩ := rowsOf_eq_ok h
  rw [Rows.ownColumns, List.append_assoc, List.mem_append, List.mem_append] at hc
  rcases hc with hc | hc | hc
  · exact hshown c hc
  · cases hp : n.condition with
    | none =>
      rw [hp] at hcondition
      obtain rfl := pure_eq_ok.mp hcondition
      cases hc
    | some p =>
      rw [hp] at hcondition
      obtain ⟨made, hmade, hcondition⟩ := bind_eq_ok.mp hcondition
      obtain rfl := pure_eq_ok.mp hcondition
      exact mem_columns_of_mentioned hmade hc
  · obtain ⟨k, hk, rfl⟩ := List.mem_map.mp hc
    obtain ⟨e, -, he⟩ := exists_of_mem_mapM horderBy hk
    obtain ⟨column, hcolumn, he⟩ := bind_eq_ok.mp he
    obtain rfl := pure_eq_ok.mp he
    exact mem_columns_of_column hcolumn

end Fetch

/-- A name of a column of rows that are read from a table. -/
theorem mem_view_columns {rows : Rows} {c : Column} (h : c ∈ rows.table.columns) :
    c.declaration.name ∈ rows.view.columns :=
  List.mem_map_of_mem h

/-! ## Levels -/

theorem mem_referencesOf {inSight : List View} {nested : List (String × Gathered)}
    {ref : Reference} :
    ref ∈ referencesOf inSight nested ↔ ∃ kv ∈ nested, ref ∈ kv.2.references inSight := by
  induction nested with
  | nil => simp [referencesOf]
  | cons kv rest ih => simp [referencesOf, ih]

namespace Fetch

variable {r : Registry} {how : Scoping}

theorem own_of_mem_joins {above target : Table} {rel : Relation} {pairs : List Join}
    (h : joins above target rel = .ok pairs) {j : Join} (hj : j ∈ pairs) :
    j.own ∈ target.columns := by
  obtain ⟨⟨field, reference⟩, -, hj⟩ := exists_of_mem_mapM h hj
  obtain ⟨own, hown, hj⟩ := bind_eq_ok.mp hj
  obtain ⟨outer, -, hj⟩ := bind_eq_ok.mp hj
  obtain rfl := pure_eq_ok.mp hj
  exact mem_columns_of_column hown

/-- The own references of a related level find it, and so do those of its joins to the level above
if that is not hidden. -/
theorem found_relatedRows {above target : Table} {aboveSource : Source} {number : Nat}
    {rel : Relation} {n : Node} {exposed : List Column} {rows : Rows} {inSight : List View}
    (hexposed : exposedColumns target (neededNames n) = .ok exposed)
    (h : relatedRows above aboveSource target (.again number) rel n = .ok rows)
    (houter : ∀ j ∈ rows.joins,
      findSource how aboveSource j.outer (rows.view :: inSight) = some aboveSource) :
    AllFound how (rows.references inSight exposed) := by
  obtain ⟨pairs, hpairs, h⟩ := bind_eq_ok.mp h
  obtain ⟨level, hlevel, h⟩ := bind_eq_ok.mp h
  have hown : ∀ c ∈ level.ownColumns exposed, c ∈ target.columns := fun c hc =>
    mem_columns_of_ownColumns hlevel (fun e => mem_columns_of_exposedColumns hexposed) hc
  obtain ⟨condition, orderBy, -, -, rfl⟩ := rowsOf_eq_ok hlevel
  obtain rfl := pure_eq_ok.mp h
  intro ref href
  rcases List.mem_append.mp href with href | href
  · obtain ⟨c, hc, rfl⟩ := List.mem_map.mp href
    exact findSource_self rfl (mem_view_columns (hown c hc))
  · obtain ⟨j, hj, href⟩ := List.mem_flatMap.mp href
    rcases List.mem_cons.mp href with rfl | href
    · exact findSource_self rfl (mem_view_columns (own_of_mem_joins hpairs hj))
    · obtain rfl := List.mem_singleton.mp href
      exact houter j hj

mutual

/-- The references of a relation's value find what they mean if those of its joins do. -/
theorem found_gathered {r : Registry} {how : Scoping} {above : Table} {aboveSource : Source}
    {number next : Nat} {g : Gathered} {inSight : List View} (n : Node)
    (h : gathered r above aboveSource number n = .ok (g, next))
    (houter : ∀ j ∈ g.rows.joins,
      findSource how aboveSource j.outer (g.rows.view :: inSight) = some aboveSource) :
    AllFound how (g.references inSight) := by
  obtain ⟨target, rel, exposed, rows, columns, nested, -, -, hexposed, hrows, hcolumns, hnested,
    rfl⟩ := gathered_eq_ok h
  intro ref href
  rw [Gathered.references, List.append_assoc, List.mem_append, List.mem_append] at href
  -- A name that is needed is exposed, and the subquery is what is nearest to the objects.
  have hneeded : ∀ name ∈ neededNames n, ∀ c, target.column? name = some c →
      findSource how (.derived (number + 1)) c
        (derivedView (.derived (number + 1)) exposed :: inSight) = some (.derived (number + 1)) :=
    fun name hname c hc =>
      findSource_self rfl (List.mem_map_of_mem (exposedColumns_of_mem hexposed hname hc).1)
  rcases href with href | href | href
  · exact found_relatedRows hexposed hrows houter ref href
  · obtain ⟨c, hc, rfl⟩ := List.mem_map.mp href
    obtain ⟨hfound, hname⟩ := Direct.column?_of_mem hcolumns hc
    exact hneeded _ (mem_neededNames_of_mem hname) c hfound
  · match n, hnested, hneeded with
    | ⟨_, _, _, _, _, _, _, relations, _⟩, hnested, hneeded =>
      refine found_gatheredAll relations hnested (fun kv hkv rel hrel field hfield c hc => ?_) ref
        href
      exact hneeded field (mem_neededNames_of_field hkv hrel hfield) c hc

/-- Below a subquery no relation hides it, and so all references find what they mean. -/
theorem found_gatheredAll {r : Registry} {how : Scoping} {above : Table} {m number next : Nat}
    {nested : List (String × Gathered)} {inSight : List View} (relations : List (String × Node))
    (h : gatheredAll r above (.derived m) number relations = .ok (nested, next))
    (hshown : ∀ kv ∈ relations, ∀ rel, kv.2.relation = some rel → ∀ field ∈ rel.fields, ∀ c,
      above.column? field = some c → findSource how (.derived m) c inSight = some (.derived m)) :
    AllFound how (referencesOf inSight nested) := by
  match relations with
  | [] =>
    obtain ⟨rfl, -⟩ := Prod.mk.inj (pure_eq_ok.mp h)
    simp [AllFound, referencesOf]
  | (key, child) :: rest =>
    obtain ⟨g, middle, others, hg, hothers, rfl⟩ := gatheredAll_cons_eq_ok h
    rw [AllFound, referencesOf, List.forall_mem_append]
    refine ⟨found_gathered child hg fun j hj => ?_,
      found_gatheredAll rest hothers fun kv hkv => hshown kv (by simp [hkv])⟩
    obtain ⟨target, rel, exposed, rows, columns, nested, -, hrel, -, hrows, -, -, rfl⟩ :=
      gathered_eq_ok hg
    obtain ⟨pairs, condition, orderBy, hpairs, -, -, rfl⟩ := relatedRows_eq_ok.mp hrows
    obtain ⟨field, hfield, houter⟩ := Direct.outer_of_mem_joins hpairs hj
    rw [findSource_cons_of_not_admits (not_admits_again how m number)]
    exact hshown (key, child) (by simp) rel hrel field hfield _ houter

end

/-! ## The root -/

/-- Each value of a relation was gathered for the plan of that relation. -/
theorem exists_gathered_of_mem {above : Table} {aboveSource : Source} {number next : Nat}
    {relations : List (String × Node)} {nested : List (String × Gathered)}
    (h : gatheredAll r above aboveSource number relations = .ok (nested, next))
    {kv : String × Gathered} (hkv : kv ∈ nested) :
    ∃ child number' next', (kv.1, child) ∈ relations ∧
      gathered r above aboveSource number' child = .ok (kv.2, next') := by
  induction relations generalizing number nested with
  | nil =>
    obtain ⟨rfl, -⟩ := Prod.mk.inj (pure_eq_ok.mp h)
    cases hkv
  | cons entry rest ih =>
    obtain ⟨g, middle, others, hg, hothers, rfl⟩ := gatheredAll_cons_eq_ok h
    rcases List.mem_cons.mp hkv with rfl | hkv
    · exact ⟨entry.2, number, middle, by simp, hg⟩
    · obtain ⟨child, number', next', hchild, hgathered⟩ := ih hothers hkv
      exact ⟨child, number', next', List.mem_cons_of_mem _ hchild, hgathered⟩

theorem mem_columns_of_rootColumns {t : Table} {n : Node} {c : Column}
    (hc : c ∈ Direct.rootColumns t n) : c ∈ t.columns := by
  rw [Direct.rootColumns] at hc
  split at hc
  · cases hfallback : fallback t with
    | error e => simp [hfallback, Except.toOption] at hc
    | ok e =>
      obtain rfl : c = e := by simpa [hfallback, Except.toOption] using hc
      exact mem_columns_of_fallback hfallback
  · obtain ⟨name, -, hname⟩ := List.mem_filterMap.mp hc
    exact List.mem_of_find?_eq_some hname

/-- What a relation right below the root consists of: a numbered table again, joined to the root on
columns that the root has. -/
theorem rootJoins_of_mem {n : Node} {f : Fetch} (h : ofNode r n = .ok f)
    {kv : String × Gathered} (hkv : kv ∈ f.nested) :
    (∃ number, kv.2.rows.source = .again number) ∧ kv.2.rows.above = some f.rows.source ∧
      (∃ name, f.rows.source = .table name) ∧
      ∀ j ∈ kv.2.rows.joins, j.outer ∈ f.rows.table.columns := by
  obtain ⟨t, own, nested, next, rows, -, -, hnested, hrows, rfl⟩ := ofNode_eq_ok h
  obtain ⟨_, _, -, -, rfl⟩ := rowsOf_eq_ok hrows
  obtain ⟨child, number, next', -, hg⟩ := exists_gathered_of_mem hnested hkv
  obtain ⟨target, rel, exposed, level, columns, below, -, -, -, hlevel, -, -, hmade⟩ :=
    gathered_eq_ok hg
  obtain ⟨pairs, condition, orderBy, hpairs, -, -, rfl⟩ := relatedRows_eq_ok.mp hlevel
  rw [hmade]
  refine ⟨⟨number, rfl⟩, rfl, ⟨_, rfl⟩, fun j hj => ?_⟩
  obtain ⟨field, -, houter⟩ := Direct.outer_of_mem_joins hpairs hj
  exact List.mem_of_find?_eq_some houter

/-- All references of a statement find what they mean if no relation right below the root hides the
root from its joins. -/
theorem found_references {n : Node} {f : Fetch} (h : ofNode r n = .ok f)
    (hroot : ∀ kv ∈ f.nested, ∀ j ∈ kv.2.rows.joins,
      ¬ (how.admits f.rows.source kv.2.rows.source = true ∧
        j.outer.declaration.name ∈ kv.2.rows.view.columns)) :
    AllFound how f.references := by
  have hjoins := fun kv (hkv : kv ∈ f.nested) => rootJoins_of_mem h hkv
  obtain ⟨t, own, nested, next, rows, -, -, hnested, hrows, rfl⟩ := ofNode_eq_ok h
  intro ref href
  rcases List.mem_append.mp href with href | href
  · have hown : ∀ c ∈ rows.ownColumns (Direct.rootColumns t n), c ∈ t.columns :=
      fun c hc => mem_columns_of_ownColumns hrows (fun e => mem_columns_of_rootColumns) hc
    obtain ⟨condition, orderBy, -, -, rfl⟩ := rowsOf_eq_ok hrows
    rcases List.mem_append.mp href with href | href
    · obtain ⟨c, hc, rfl⟩ := List.mem_map.mp href
      exact findSource_self rfl (mem_view_columns (hown c hc))
    · cases href
  · obtain ⟨kv, hkv, href⟩ := mem_referencesOf.mp href
    obtain ⟨child, number, next', -, hg⟩ := exists_gathered_of_mem hnested hkv
    obtain ⟨condition, orderBy, -, -, rfl⟩ := rowsOf_eq_ok hrows
    refine found_gathered child hg (fun j hj => ?_) ref href
    have hcolumn : findSource how (.table t.declaration.name) j.outer
        [⟨.table t.declaration.name, t.columns.map (·.declaration.name)⟩] =
          some (.table t.declaration.name) :=
      findSource_self rfl (List.mem_map_of_mem ((hjoins kv hkv).2.2.2 j hj))
    rw [← hcolumn]
    cases hadmits : how.admits (.table t.declaration.name) kv.2.rows.source with
    | false => exact findSource_cons_of_not_admits hadmits
    | true => exact findSource_cons_of_not_mem fun hmem => hroot kv hkv j hj ⟨hadmits, hmem⟩

/-- Taken for the sources that they mean, the references of a statement find them. -/
theorem found_bySource {n : Node} {f : Fetch} (h : ofNode r n = .ok f) :
    AllFound .bySource f.references := by
  refine found_references h fun kv hkv j _ hhidden => ?_
  obtain ⟨⟨number, hsource⟩, -, ⟨name, hroot⟩, -⟩ := rootJoins_of_mem h hkv
  have hsame := hhidden.1
  rw [hroot, hsource] at hsame
  simp [Scoping.admits] at hsame

/-- Taken by their names, the references of a statement find what they mean exactly where no
relation hides the root. -/
theorem found_byName_iff {n : Node} {f : Fetch} (h : ofNode r n = .ok f) :
    AllFound .byName f.references ↔ ¬ f.Captures := by
  constructor
  · rintro hfound ⟨kv, hkv, hname, j, hj, hcolumn⟩
    obtain ⟨⟨number, hsource⟩, habove, ⟨name, hroot⟩, -⟩ := rootJoins_of_mem h hkv
    -- The outer side of the join stands in the subquery, and finds the subquery's own table.
    have href : ⟨f.rows.source, j.outer, [kv.2.rows.view, f.rows.view]⟩ ∈ f.references := by
      refine List.mem_append_right _ (mem_referencesOf.mpr ⟨kv, hkv, ?_⟩)
      obtain ⟨key, toMany, rows, exposed, derived, columns, nested⟩ := kv
      rw [Gathered.references, List.append_assoc]
      refine List.mem_append_left _ (List.mem_append_right _ ?_)
      have habove : rows.above = some f.rows.source := habove
      rw [Rows.joinReferences, habove]
      exact List.mem_flatMap.mpr ⟨j, hj, by simp⟩
    have hmeant := hfound _ href
    rw [Reference.found?, findSource_cons_of_admits (admits_byName.mpr hname.symm)] at hmeant
    · have hsame := Option.some.inj hmeant
      rw [hroot] at hsame
      rw [Rows.view, hsource] at hsame
      cases hsame
    · rw [hroot]
      exact hcolumn
  · intro hnot
    refine found_references h fun kv hkv j hj hhidden => hnot ⟨kv, hkv, ?_, j, hj, hhidden.2⟩
    exact (admits_byName.mp hhidden.1).symm

end Fetch
end RelGraph.Sql
