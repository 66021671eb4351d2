import RelGraph.Proofs.Fetch.Translation
/-!
How a statement is put together, read backwards: what a level of a statement consists of when there
is one for a plan, and which columns a subquery exposes to the levels below it.
-/
namespace RelGraph.Sql

open Outcome Direct

/-! ## Sources -/

mutual

/-- The sources that a relation's value is read from, at its own level and below. -/
def Gathered.sources : Gathered → List Source
  | ⟨_, rows, _, derived, _, nested⟩ => rows.source :: derived :: sourcesOf nested

/-- The sources that values of relations are read from. -/
def sourcesOf : List (String × Gathered) → List Source
  | [] => []
  | (_, g) :: rest => g.sources ++ sourcesOf rest

end

namespace Fetch

/-- The sources of a statement, that of the root first. -/
def sources (f : Fetch) : List Source := f.rows.source :: sourcesOf f.nested

/-! ## Rows -/

theorem rowsOf_eq_ok {t : Table} {source : Source} {n : Node} {rows : Rows}
    (h : rowsOf t source n = .ok rows) :
    ∃ condition orderBy, Condition.ofPredicate? t n.condition = .ok condition ∧
      SortKey.ofOrder t (n.orderBy.getD []) = .ok orderBy ∧
      rows = { table := t, source := source, condition := condition, orderBy := orderBy,
               limit := n.limit, offset := n.offset } := by
  obtain ⟨condition, hcondition, h⟩ := bind_eq_ok.mp h
  obtain ⟨orderBy, horderBy, h⟩ := bind_eq_ok.mp h
  exact ⟨condition, orderBy, hcondition, horderBy, (pure_eq_ok.mp h).symm⟩

/-- The rows of a relation do not depend on the sources that they are read from, except in naming
them. -/
theorem relatedRows_eq_ok {above target : Table} {aboveSource source : Source} {rel : Relation}
    {n : Node} {rows : Rows} :
    relatedRows above aboveSource target source rel n = .ok rows ↔
      ∃ pairs condition orderBy, joins above target rel = .ok pairs ∧
        Condition.ofPredicate? target n.condition = .ok condition ∧
        SortKey.ofOrder target (n.orderBy.getD []) = .ok orderBy ∧
        rows = { table := target, source := source, above := some aboveSource, joins := pairs,
                 condition := condition, orderBy := orderBy,
                 limit := if rel.toMany then n.limit else some 1, offset := n.offset } := by
  constructor
  · intro h
    obtain ⟨pairs, hpairs, h⟩ := bind_eq_ok.mp h
    obtain ⟨rows', hrows, h⟩ := bind_eq_ok.mp h
    obtain ⟨condition, orderBy, hcondition, horderBy, rfl⟩ := rowsOf_eq_ok hrows
    exact ⟨pairs, condition, orderBy, hpairs, hcondition, horderBy, (pure_eq_ok.mp h).symm⟩
  · rintro ⟨pairs, condition, orderBy, hpairs, hcondition, horderBy, rfl⟩
    simp [relatedRows, rowsOf, hpairs, hcondition, horderBy, bind, Except.bind, pure, Except.pure]

/-! ## Levels -/

/-- What the value of a relation consists of. -/
theorem gathered_eq_ok {r : Registry} {above : Table} {aboveSource : Source} {number next : Nat}
    {n : Node} {g : Gathered} (h : gathered r above aboveSource number n = .ok (g, next)) :
    ∃ target rel exposed rows columns nested,
      r.table? n.table = some target ∧ n.relation = some rel ∧
      exposedColumns target (neededNames n) = .ok exposed ∧
      relatedRows above aboveSource target (.again number) rel n = .ok rows ∧
      n.columns.mapM target.column = .ok columns ∧
      gatheredAll r target (.derived (number + 1)) (number + 2) n.relations = .ok (nested, next) ∧
      g = ⟨rel.toMany, rows, exposed, .derived (number + 1), columns, nested⟩ := by
  obtain ⟨table, names, condition, orderBy, limit, offset, relation, relations, truncated⟩ := n
  rw [gathered] at h
  obtain ⟨target, htarget, h⟩ := bind_eq_ok.mp h
  cases relation with
  | none => cases h
  | some rel =>
    obtain ⟨exposed, hexposed, h⟩ := bind_eq_ok.mp h
    obtain ⟨rows, hrows, h⟩ := bind_eq_ok.mp h
    obtain ⟨columns, hcolumns, h⟩ := bind_eq_ok.mp h
    obtain ⟨⟨nested, next'⟩, hnested, h⟩ := bind_eq_ok.mp h
    obtain ⟨rfl, rfl⟩ := Prod.mk.inj (pure_eq_ok.mp h)
    exact ⟨target, rel, exposed, rows, columns, nested, Registry.table_eq_ok.mp htarget, rfl,
      hexposed, hrows, hcolumns, hnested, rfl⟩

theorem gatheredAll_cons_eq_ok {r : Registry} {above : Table} {aboveSource : Source}
    {number next : Nat} {key : String} {child : Node} {rest : List (String × Node)}
    {nested : List (String × Gathered)}
    (h : gatheredAll r above aboveSource number ((key, child) :: rest) = .ok (nested, next)) :
    ∃ g middle others, gathered r above aboveSource number child = .ok (g, middle) ∧
      gatheredAll r above aboveSource middle rest = .ok (others, next) ∧
      nested = (key, g) :: others := by
  rw [gatheredAll] at h
  obtain ⟨⟨g, middle⟩, hg, h⟩ := bind_eq_ok.mp h
  obtain ⟨⟨others, next'⟩, hothers, h⟩ := bind_eq_ok.mp h
  obtain ⟨rfl, rfl⟩ := Prod.mk.inj (pure_eq_ok.mp h)
  exact ⟨g, middle, others, hg, hothers, rfl⟩

theorem gatheredAll_nil_iff {r : Registry} {above : Table} {aboveSource : Source}
    {number next : Nat} {relations : List (String × Node)} {nested : List (String × Gathered)}
    (h : gatheredAll r above aboveSource number relations = .ok (nested, next)) :
    nested = [] ↔ relations = [] := by
  cases relations with
  | nil =>
    obtain ⟨rfl, -⟩ := Prod.mk.inj (pure_eq_ok.mp h)
    simp
  | cons kv rest =>
    obtain ⟨g, middle, others, -, -, rfl⟩ := gatheredAll_cons_eq_ok h
    simp

/-- What a statement consists of: where no column and no relation is asked for, one column stands
for the row. -/
theorem ofNode_eq_ok {r : Registry} {n : Node} {f : Fetch} (h : ofNode r n = .ok f) :
    ∃ t own nested next rows, r.table? n.table = some t ∧ n.columns.mapM t.column = .ok own ∧
      gatheredAll r t (.table t.declaration.name) 1 n.relations = .ok (nested, next) ∧
      rowsOf t (.table t.declaration.name) n = .ok rows ∧
      f = ⟨rows, rootColumns t n, nested⟩ := by
  obtain ⟨t, ht, h⟩ := bind_eq_ok.mp h
  obtain ⟨own, hown, h⟩ := bind_eq_ok.mp h
  obtain ⟨⟨nested, next⟩, hnested, h⟩ := bind_eq_ok.mp h
  obtain ⟨rows, hrows, h⟩ := bind_eq_ok.mp h
  refine ⟨t, own, nested, next, rows, Registry.table_eq_ok.mp ht, hown, hnested, hrows, ?_⟩
  have howned : own = [] ↔ n.columns = [] := by
    rw [← List.length_eq_zero_iff, ← (mapM_eq_ok.mp hown).length_eq, List.length_eq_zero_iff]
  have hbelow := gatheredAll_nil_iff hnested
  split at h
  · obtain ⟨c, hc, h⟩ := bind_eq_ok.mp h
    obtain rfl := pure_eq_ok.mp h
    simp [rootColumns, howned.mp rfl, hbelow.mp rfl, hc, Except.toOption]
  · rename_i hnot
    obtain rfl := pure_eq_ok.mp h
    have hsome : (n.columns.isEmpty && n.relations.isEmpty) = false := by
      rw [Bool.eq_false_iff]
      intro hempty
      simp only [Bool.and_eq_true, List.isEmpty_iff] at hempty
      exact hnot (howned.mpr hempty.1) (hbelow.mpr hempty.2)
    rw [rootColumns, hsome, columnsOf_of_mapM hown]
    rfl

/-! ## Plans that there is a statement for -/

/-- A plan whose tables and columns are there, at every level. -/
inductive Fetchable (r : Registry) : Node → Prop
  | intro {n : Node} {t : Table} {own : List Column} (table : r.table? n.table = some t)
      (columns : n.columns.mapM t.column = .ok own)
      (below : ∀ kv ∈ n.relations, Fetchable r kv.2) : Fetchable r n

theorem Fetchable.table_columns {r : Registry} {n : Node} (h : Fetchable r n) :
    ∃ t own, r.table? n.table = some t ∧ n.columns.mapM t.column = .ok own := by
  cases h with
  | intro table columns below => exact ⟨_, _, table, columns⟩

theorem Fetchable.of_mem {r : Registry} {n : Node} (h : Fetchable r n) :
    ∀ kv ∈ n.relations, Fetchable r kv.2 := by
  cases h with
  | intro table columns below => exact below

mutual

theorem fetchable_of_gathered {r : Registry} {above : Table} {aboveSource : Source}
    {number next : Nat} {g : Gathered} (n : Node)
    (h : gathered r above aboveSource number n = .ok (g, next)) : Fetchable r n := by
  obtain ⟨target, rel, exposed, rows, columns, nested, htarget, -, -, -, hcolumns, hnested, -⟩ :=
    gathered_eq_ok h
  match n, htarget, hcolumns, hnested with
  | ⟨_, _, _, _, _, _, _, relations, _⟩, htarget, hcolumns, hnested =>
    exact .intro htarget hcolumns (fetchable_of_gatheredAll relations hnested)

theorem fetchable_of_gatheredAll {r : Registry} {above : Table} {aboveSource : Source}
    {number next : Nat} {nested : List (String × Gathered)} (relations : List (String × Node))
    (h : gatheredAll r above aboveSource number relations = .ok (nested, next)) :
    ∀ kv ∈ relations, Fetchable r kv.2 := by
  match relations with
  | [] => simp
  | (key, child) :: rest =>
    obtain ⟨g, middle, others, hg, hothers, -⟩ := gatheredAll_cons_eq_ok h
    exact List.forall_mem_cons.mpr
      ⟨fetchable_of_gathered child hg, fetchable_of_gatheredAll rest hothers⟩

end

theorem fetchable_of_ofNode {r : Registry} {n : Node} {f : Fetch} (h : ofNode r n = .ok f) :
    Fetchable r n := by
  obtain ⟨t, own, nested, next, rows, ht, hown, hnested, -, -⟩ := ofNode_eq_ok h
  exact .intro ht hown (fetchable_of_gatheredAll n.relations hnested)

/-! ## Exposed columns -/

theorem mem_addNames {names more : List String} {name : String} :
    name ∈ addNames names more ↔ name ∈ names ∨ name ∈ more := by
  rw [addNames]
  induction more generalizing names with
  | nil => simp
  | cons m more ih =>
    rw [List.foldl_cons, ih]
    by_cases hm : names.contains m = true
    · have := List.contains_iff_mem.mp hm
      grind
    · simp only [hm]
      grind

theorem mem_foldl_addNames {relations : List (String × Node)} {names : List String}
    {name : String} :
    name ∈ relations.foldl (fun acc kv =>
        addNames acc ((kv.2.relation.map (·.fields)).getD [])) names ↔
      name ∈ names ∨ ∃ kv ∈ relations, name ∈ (kv.2.relation.map (·.fields)).getD [] := by
  induction relations generalizing names with
  | nil => simp
  | cons kv rest ih =>
    rw [List.foldl_cons, ih, mem_addNames]
    simp [or_assoc]

/-- A subquery has to expose the columns asked for. -/
theorem mem_neededNames_of_mem {n : Node} {name : String} (h : name ∈ n.columns) :
    name ∈ neededNames n :=
  mem_foldl_addNames.mpr (.inl h)

/-- A subquery has to expose what the relations below are joined on. -/
theorem mem_neededNames_of_field {n : Node} {key : String} {child : Node} {rel : Relation}
    {field : String} (h : (key, child) ∈ n.relations) (hrel : child.relation = some rel)
    (hfield : field ∈ rel.fields) : field ∈ neededNames n :=
  mem_foldl_addNames.mpr (.inr ⟨(key, child), h, by simpa [hrel] using hfield⟩)

/-- A needed column is exposed, and no other column is exposed under its name. -/
theorem exposedColumns_of_mem {t : Table} {names : List String} {exposed : List Column}
    (h : exposedColumns t names = .ok exposed) {name : String} {c : Column} (hname : name ∈ names)
    (hc : t.column? name = some c) : c ∈ exposed ∧ ∀ e ∈ exposed, e.name = c.name → e = c := by
  cases names with
  | nil => simp at hname
  | cons first rest =>
    have h : (first :: rest).mapM t.column = .ok exposed := h
    refine ⟨mem_of_column? h hname hc, ?_⟩
    intro e he hnames
    have hfound := (column?_of_mem h he).1
    rw [hnames, Table.column?_name hc, hc] at hfound
    exact (Option.some.inj hfound).symm

end Fetch
end RelGraph.Sql
