import Mathlib.Data.List.SplitBy
import Mathlib.Data.List.Sort
import RelGraph.Sql.Write
import RelGraph.Store.Grouping
import RelGraph.Proofs.Members
import RelGraph.Proofs.Outcome
/-!
Runs of rows. A row goes on with the run of the row before it when both name the same columns and
name any at all, so the runs are what splitting the rows by that relation gives. Every other split
into rows that can stand together comes from the runs by cutting them further, and each run can be
written by one insert.
-/
namespace RelGraph.Store

open Sql Outcome

/-! ## Splitting a list by a relation -/

section SplitBy

variable {α : Type} {r : α → α → Bool} {part first l : List α} {others finer : List (List α)}

/-- Whether lists come from others by cutting these into smaller ones. -/
def Refines (finer coarser : List (List α)) : Prop :=
  ∃ parts : List (List (List α)), parts.flatten = finer ∧ parts.map List.flatten = coarser

theorem splitBy_eq_cons (h : l.splitBy r = first :: others) :
    ∃ hfirst : first ≠ [], first.head hfirst ∈ l.head? := by
  have hfirst : first ≠ [] := List.ne_nil_of_mem_splitBy (r := r) (l := l) (by simp [h])
  refine ⟨hfirst, ?_⟩
  rw [← List.flatten_splitBy r l, h, List.flatten_cons, List.head?_append_of_ne_nil _ hfirst]
  exact List.head_mem_head? hfirst

/-- A part that the relation leads on to the rest of the list goes into the first part of the
rest. -/
theorem splitBy_append_of_related (hpart : part ≠ []) (hchain : part.IsChain fun a b => r a b)
    (h : l.splitBy r = first :: others) (hrelated : ∀ b ∈ l.head?, r (part.getLast hpart) b) :
    (part ++ l).splitBy r = (part ++ first) :: others := by
  obtain ⟨hfirst, hhead⟩ := splitBy_eq_cons h
  have hapart := List.isChain_getLast_head_splitBy r l
  rw [h, List.isChain_cons] at hapart
  refine List.splitBy_eq_iff.mpr ⟨?_, ?_, ?_, List.isChain_cons.mpr ⟨?_, hapart.2⟩⟩
  · rw [List.flatten_cons, List.append_assoc, ← List.flatten_cons, ← h, List.flatten_splitBy]
  · have hnil := List.nil_notMem_splitBy r l
    rw [h] at hnil
    simpa [hpart] using List.not_mem_of_not_mem_cons hnil
  · refine List.forall_mem_cons.mpr ⟨List.isChain_append.mpr ⟨hchain, ?_, ?_⟩, fun m hm => ?_⟩
    · exact List.isChain_of_mem_splitBy (l := l) (by simp [h])
    · intro a ha b hb
      rw [← List.getLast_of_mem_getLast? ha, ← List.head_of_mem_head? hb]
      exact hrelated _ hhead
    · exact List.isChain_of_mem_splitBy (l := l) (by simp [h, hm])
  · intro next hnext
    obtain ⟨_, hne, hcut⟩ := hapart.1 next hnext
    exact ⟨by simp [hpart], hne, by rwa [List.getLast_append_of_ne_nil _ hfirst]⟩

/-- Parts in which the relation leads from each element to the next come from the split by
cutting. -/
theorem refines_splitBy (hne : [] ∉ finer)
    (hchain : ∀ part ∈ finer, part.IsChain fun a b => r a b) :
    Refines finer (finer.flatten.splitBy r) := by
  induction finer with
  | nil => exact ⟨[], rfl, rfl⟩
  | cons part rest ih =>
    obtain ⟨hpart, hrest⟩ := List.forall_mem_cons.mp hchain
    have hsome : part ≠ [] := fun h => hne (by simp [h])
    obtain ⟨parts, hparts, hsplit⟩ := ih (List.not_mem_of_not_mem_cons hne) hrest
    rw [List.flatten_cons]
    -- Either the part runs on into the first part of the rest, or the split cuts behind it.
    by_cases hrelated : ∃ b ∈ rest.flatten.head?, r (part.getLast hsome) b
    · obtain ⟨b, hb, hrelated⟩ := hrelated
      have hmore : rest.flatten.splitBy r ≠ [] :=
        List.splitBy_ne_nil.mpr (List.ne_nil_of_mem (List.mem_of_mem_head? hb))
      obtain ⟨first, others, hfirst⟩ := List.exists_cons_of_ne_nil hmore
      rw [splitBy_append_of_related hsome hpart hfirst
        fun b' hb' => Option.mem_unique hb hb' ▸ hrelated]
      rw [hfirst] at hsplit
      obtain ⟨own, more, rfl, rfl, rfl⟩ := List.map_eq_cons_iff.mp hsplit
      exact ⟨(part :: own) :: more, by simp [← hparts], by simp⟩
    · have happend := List.splitBy_append (r := r) (l := part) (m := rest.flatten)
        fun a ha b hb => by
          rw [← List.getLast_of_mem_getLast? ha]
          simpa using fun h => hrelated ⟨b, hb, h⟩
      rw [happend, List.splitBy_of_isChain hsome hpart]
      exact ⟨[part] :: parts, by simp [hparts], by simp [hsplit]⟩

end SplitBy

variable {α : Type} {a b row : Members α} {rows : List (Members α)}

/-! ## Rows that name the same columns -/

/-- Whether two rows name the same columns. -/
def SameColumns (a b : Members α) : Prop := ∀ name, name ∈ Members.names a ↔ name ∈ Members.names b

theorem columnSet_perm (row : Members α) : (columnSet row).Perm (Members.names row) :=
  List.mergeSort_perm _ _

theorem columnSet_eq_nil : columnSet row = [] ↔ row = [] := by
  rw [← List.length_eq_zero_iff, (columnSet_perm row).length_eq, Members.names, List.length_map,
    List.length_eq_zero_iff]

theorem columnSet_eq_iff :
    columnSet a = columnSet b ↔ (Members.names a).Perm (Members.names b) := by
  refine ⟨fun h => (columnSet_perm a).symm.trans (h ▸ columnSet_perm b), fun h => ?_⟩
  have hsorted : ∀ row : Members α, (columnSet row).Pairwise (· ≤ ·) := fun row => by
    refine (List.pairwise_mergeSort ?_ ?_ _).imp of_decide_eq_true
    · exact fun x y z hxy hyz => decide_eq_true
        (String.le_trans (of_decide_eq_true hxy) (of_decide_eq_true hyz))
    · exact fun x y => by simpa using String.le_total x y
  exact ((columnSet_perm a).trans (h.trans (columnSet_perm b).symm)).eq_of_pairwise
    (fun _ _ _ _ => String.le_antisymm) (hsorted a) (hsorted b)

theorem sameColumns_of_columnSet (h : columnSet a = columnSet b) : SameColumns a b := fun _ =>
  (columnSet_eq_iff.mp h).mem_iff

/-- Rows that name no column twice have one set of columns exactly when they name the same ones. -/
theorem columnSet_eq_iff_sameColumns (ha : (Members.names a).Nodup) (hb : (Members.names b).Nodup) :
    columnSet a = columnSet b ↔ SameColumns a b :=
  columnSet_eq_iff.trans (List.perm_ext_iff_of_nodup ha hb)

/-- Whether a row goes on with the run that another row belongs to. -/
def joins (a b : Members α) : Bool := columnSet a ≠ [] ∧ columnSet a = columnSet b

theorem joins_eq : joins a b = decide (a ≠ [] ∧ (Members.names a).Perm (Members.names b)) :=
  decide_eq_decide.mpr (and_congr columnSet_eq_nil.not columnSet_eq_iff)

/-! ## Runs as a split -/

theorem joinRun_splitBy (row : Members α) (rows : List (Members α)) :
    joinRun row (rows.splitBy joins) = (row :: rows).splitBy joins := by
  cases hsplit : rows.splitBy joins with
  | nil =>
    obtain rfl := List.splitBy_eq_nil.mp hsplit
    rfl
  | cons run runs =>
    obtain ⟨hrun, hhead⟩ := splitBy_eq_cons hsplit
    obtain ⟨first, others, rfl⟩ := List.exists_cons_of_ne_nil hrun
    rw [joinRun]
    split
    · rename_i hjoins
      have hone := splitBy_append_of_related (List.cons_ne_nil row []) (.singleton row) hsplit
        fun b hb => by
          obtain rfl : first = b := Option.mem_unique hhead hb
          exact decide_eq_true hjoins
      exact hone.symm
    · rename_i hapart
      have hone := List.splitBy_append (r := joins) (l := [row]) (m := rows) fun a ha b hb => by
        obtain rfl : row = a := by simpa using ha
        obtain rfl : first = b := Option.mem_unique hhead hb
        exact decide_eq_false hapart
      rw [← hsplit]
      exact hone.symm

/-- The runs of rows are the parts in which each row goes on with the one before it. -/
theorem runsOf_eq_splitBy (rows : List (Members α)) : runsOf rows = rows.splitBy joins := by
  induction rows with
  | nil => rfl
  | cons row rest ih =>
    rw [← joinRun_splitBy, ← ih]
    rfl

/-- The runs of rows are the rows, in order. -/
theorem flatten_runsOf (rows : List (Members α)) : (runsOf rows).flatten = rows := by
  rw [runsOf_eq_splitBy, List.flatten_splitBy]

section

variable {run : List (Members α)}

theorem ne_nil_of_mem_runsOf (hrun : run ∈ runsOf rows) : run ≠ [] := by
  rw [runsOf_eq_splitBy] at hrun
  exact List.ne_nil_of_mem_splitBy hrun

theorem joins_of_mem_runsOf (hrun : run ∈ runsOf rows) : run.Pairwise fun a b => joins a b := by
  rw [runsOf_eq_splitBy] at hrun
  have htrans : IsTrans (Members α) fun a b => joins a b := ⟨fun a b c hab hbc => by
    simp only [joins, decide_eq_true_eq] at hab hbc ⊢
    exact ⟨hab.1, hab.2.trans hbc.2⟩⟩
  exact List.isChain_iff_pairwise.mp (List.isChain_of_mem_splitBy hrun)

/-- The rows of a run name the same columns. -/
theorem columnSet_of_mem_runsOf (hrun : run ∈ runsOf rows) :
    ∀ a ∈ run, ∀ b ∈ run, columnSet a = columnSet b := by
  intro a ha b hb
  obtain ⟨first, others, rfl⟩ := List.exists_cons_of_ne_nil (List.ne_nil_of_mem ha)
  have hfirst : ∀ row ∈ first :: others, columnSet first = columnSet row := by
    refine List.forall_mem_cons.mpr ⟨rfl, fun row hrow => ?_⟩
    exact (of_decide_eq_true ((List.pairwise_cons.mp (joins_of_mem_runsOf hrun)).1 row hrow)).2
  exact (hfirst a ha).symm.trans (hfirst b hb)

/-- A row that names no column is a run of its own. -/
theorem eq_singleton_of_mem_runsOf (hrun : run ∈ runsOf rows) (hrow : [] ∈ run) : run = [[]] := by
  obtain ⟨before, after, rfl⟩ := List.append_of_mem hrow
  have hjoins := joins_of_mem_runsOf hrun
  rw [List.pairwise_append, List.pairwise_cons] at hjoins
  obtain ⟨-, ⟨hafter, -⟩, hbefore⟩ := hjoins
  obtain rfl : before = [] := List.eq_nil_iff_forall_not_mem.mpr fun a ha => by
    have hjoin := of_decide_eq_true (hbefore a ha [] (by simp))
    exact hjoin.1 (hjoin.2.trans (columnSet_eq_nil.mpr rfl))
  obtain rfl : after = [] := List.eq_nil_iff_forall_not_mem.mpr fun b hb =>
    (of_decide_eq_true (hafter b hb)).1 (columnSet_eq_nil.mpr rfl)
  rfl

/-- The first row of a run names what each of its rows names. -/
theorem mem_names_head (hrun : run ∈ runsOf rows) (hrow : row ∈ run) (name : String) :
    name ∈ Members.names (run.head?.getD []) ↔ name ∈ Members.names row := by
  obtain ⟨first, others, rfl⟩ := List.exists_cons_of_ne_nil (List.ne_nil_of_mem hrow)
  exact sameColumns_of_columnSet (columnSet_of_mem_runsOf hrun first (by simp) row hrow) name

end

/-! ## The coarsest split -/

/-- Whether lists of rows, one after the other, are some rows, and the rows of each can stand
together: they name the same columns, and a row that names none stands alone. -/
structure Splits (runs : List (List (Members α))) (rows : List (Members α)) : Prop where
  flatten : runs.flatten = rows
  ne_nil : ∀ run ∈ runs, run ≠ []
  same : ∀ run ∈ runs, ∀ a ∈ run, ∀ b ∈ run, SameColumns a b
  alone : ∀ run ∈ runs, [] ∈ run → run = [[]]

/-- Whether two runs have to be two: their rows name different columns, or both are one row that
names none. -/
def Apart (run next : List (Members α)) : Prop :=
  (∀ a ∈ run, ∀ b ∈ next, ¬ SameColumns a b) ∨ run = [[]] ∧ next = [[]]

theorem splits_runsOf (rows : List (Members α)) : Splits (runsOf rows) rows where
  flatten := flatten_runsOf rows
  ne_nil _ hrun := ne_nil_of_mem_runsOf hrun
  same _ hrun a ha b hb := sameColumns_of_columnSet (columnSet_of_mem_runsOf hrun a ha b hb)
  alone _ hrun hrow := eq_singleton_of_mem_runsOf hrun hrow

section

variable (hrows : ∀ row ∈ rows, (Members.names row).Nodup)

include hrows

theorem Splits.columnSet_eq_iff {runs : List (List (Members α))} {run next : List (Members α)}
    (h : Splits runs rows) (hrun : run ∈ runs) (hnext : next ∈ runs) (ha : a ∈ run)
    (hb : b ∈ next) : columnSet a = columnSet b ↔ SameColumns a b := by
  have hmem : ∀ {part : List (Members α)} {row}, part ∈ runs → row ∈ part → row ∈ rows :=
    fun hpart hrow => h.flatten ▸ List.mem_flatten_of_mem hpart hrow
  exact columnSet_eq_iff_sameColumns (hrows a (hmem hrun ha)) (hrows b (hmem hnext hb))

theorem isChain_apart_runsOf : (runsOf rows).IsChain Apart := by
  have hsplits := splits_runsOf rows
  have hcut := List.isChain_getLast_head_splitBy joins rows
  rw [← runsOf_eq_splitBy] at hcut
  refine hcut.imp_of_mem_imp fun run next hrun hnext ⟨hlast, hhead, hcut⟩ => ?_
  have hcut := of_decide_eq_false hcut
  -- Where the columns are the same, the rows are cut apart because they name none.
  by_cases hsame : columnSet (run.getLast hlast) = columnSet (next.head hhead)
  · have hnone : columnSet (run.getLast hlast) = [] := by
      by_contra hsome
      exact hcut ⟨hsome, hsame⟩
    refine .inr ⟨hsplits.alone run hrun ?_, hsplits.alone next hnext ?_⟩
    · exact columnSet_eq_nil.mp hnone ▸ List.getLast_mem hlast
    · exact columnSet_eq_nil.mp (hsame ▸ hnone) ▸ List.head_mem hhead
  · refine .inl fun a ha b hb h => hsame ?_
    calc columnSet (run.getLast hlast)
      _ = columnSet a := columnSet_of_mem_runsOf hrun _ (List.getLast_mem hlast) a ha
      _ = columnSet b := (hsplits.columnSet_eq_iff hrows hrun hnext ha hb).mpr h
      _ = columnSet (next.head hhead) := columnSet_of_mem_runsOf hnext b hb _ (List.head_mem hhead)

theorem Splits.refines_runsOf {finer : List (List (Members α))} (h : Splits finer rows) :
    Refines finer (runsOf rows) := by
  rw [runsOf_eq_splitBy, ← h.flatten]
  refine refines_splitBy (fun hnil => h.ne_nil [] hnil rfl) fun part hpart => ?_
  -- A row without names is not joined to itself, so it has to be looked at alone.
  by_cases hnone : [] ∈ part
  · rw [h.alone part hpart hnone]
    exact .singleton _
  · refine (List.pairwise_of_forall_mem_list fun a ha b hb => decide_eq_true ⟨?_, ?_⟩).isChain
    · exact fun ha' => hnone (columnSet_eq_nil.mp ha' ▸ ha)
    · exact (h.columnSet_eq_iff hrows hpart hpart ha hb).mpr (h.same part hpart a ha b hb)

end

/-! ## One insert for each run -/

/-- Whether one insert can write rows into a table: only for what is no column it is refused, it has
a place for whatever a row gives, and it has values unless it is for one row without any. -/
structure OneInsert (t : Table) (run : List (Members Value)) : Prop where
  accepted : Insert.ofRows t run = (checkNames t (run.head?.getD [])).map fun _ => ⟨t, run⟩
  given : ∀ row ∈ run, ∀ c, c ∈ Insert.given ⟨t, run⟩ ↔ c ∈ t.columns ∧ c.name ∈ Members.names row
  hasValues : Insert.hasValues ⟨t, run⟩ = true ∨ run = [[]]

section

variable {run : List (Members Value)} {rows : List (Members Value)}

theorem mem_given_of_mem_runsOf {row : Members Value} (t : Table) (hrun : run ∈ runsOf rows)
    (hrow : row ∈ run) (c : Column) :
    c ∈ Insert.given ⟨t, run⟩ ↔ c ∈ t.columns ∧ c.name ∈ Members.names row := by
  rw [Insert.given, List.mem_filter, List.contains_iff_mem, mem_names_head hrun hrow]

theorem forIn_eq_ok {β ε : Type} {l : List β} {step : β → Unit → Except ε (ForInStep Unit)}
    (h : ∀ b ∈ l, step b () = .ok (.yield ())) : forIn l () step = .ok () := by
  induction l with
  | nil => rfl
  | cons b l ih =>
    obtain ⟨hb, hl⟩ := List.forall_mem_cons.mp h
    rw [List.forIn_cons, bind_of_eq_ok hb]
    exact ih hl

theorem ofRows_of_mem_runsOf (t : Table) (hrun : run ∈ runsOf rows) :
    Insert.ofRows t run = (checkNames t (run.head?.getD [])).map fun _ => ⟨t, run⟩ := by
  have hgiven : ∀ row ∈ run.tail, (Insert.given ⟨t, run⟩).find? (fun c =>
      !Members.has row c.name && c.declaration.clientDefault.isNone) = none := by
    intro row hrow
    refine List.find?_eq_none.mpr fun c hc => ?_
    have hmem := ((mem_given_of_mem_runsOf t hrun (List.mem_of_mem_tail hrow) c).mp hc).2
    have hhas : Members.has row c.name = true := by
      rw [Members.has, Option.isSome_iff_ne_none]
      exact fun hnone => Members.get?_eq_none.mp hnone hmem
    simp [hhas]
  rw [Insert.ofRows]
  cases checkNames t (run.head?.getD []) with
  | error e => rfl
  | ok u =>
    refine bind_eq_ok.mpr ⟨(), rfl, bind_eq_ok.mpr ⟨(), forIn_eq_ok fun row hrow => ?_, rfl⟩⟩
    rw [hgiven row hrow]
    rfl

/-- A run is given no values only when it is one row that names no column. -/
theorem hasValues_of_mem_runsOf (t : Table) (hrun : run ∈ runsOf rows) :
    Insert.hasValues ⟨t, run⟩ = true ∨ run = [[]] := by
  by_cases hnone : [] ∈ run
  · exact .inr (eq_singleton_of_mem_runsOf hrun hnone)
  · obtain ⟨first, others, rfl⟩ := List.exists_cons_of_ne_nil (ne_nil_of_mem_runsOf hrun)
    refine .inl (List.any_eq_true.mpr ⟨first, by simp, ?_⟩)
    have hfirst : first ≠ [] := fun h => hnone (by simp [h])
    simpa using hfirst

theorem oneInsert_of_mem_runsOf (t : Table) (hrun : run ∈ runsOf rows) : OneInsert t run where
  accepted := ofRows_of_mem_runsOf t hrun
  given _ hrow := mem_given_of_mem_runsOf t hrun hrow
  hasValues := hasValues_of_mem_runsOf t hrun

end

/-! ## Rows and their runs -/

/-- Rows that name no column twice are split into runs, in order; neighbouring runs have to be two,
so that every other split comes from the runs by cutting, and one insert can write each run. -/
theorem runsOf_coarsest (rows : List (Members Value))
    (hrows : ∀ row ∈ rows, (Members.names row).Nodup) :
    Splits (runsOf rows) rows ∧ (runsOf rows).IsChain Apart ∧
      (∀ finer, Splits finer rows → Refines finer (runsOf rows)) ∧
      ∀ t, ∀ run ∈ runsOf rows, OneInsert t run :=
  ⟨splits_runsOf rows, isChain_apart_runsOf hrows, fun _ h => h.refines_runsOf hrows,
    fun t _ hrun => oneInsert_of_mem_runsOf t hrun⟩

namespace Visitors

/-- Two visitors whose names and ages are known, two of whom nothing is known, one with a name, and
one more with both. -/
def visitors : List (Members Value) := [
  [("name", .text "Ann"), ("age", .int 30)], [("age", .int 31), ("name", .text "Bo")], [], [],
  [("name", .text "Cy")], [("name", .text "Di"), ("age", .int 32)]]

/-- The runs of the visitors. -/
def groups : List (List (Members Value)) := [
  [[("name", .text "Ann"), ("age", .int 30)], [("age", .int 31), ("name", .text "Bo")]], [[]], [[]],
  [[("name", .text "Cy")]], [[("name", .text "Di"), ("age", .int 32)]]]

theorem runsOf_visitors : runsOf visitors = groups := by
  simp +decide [runsOf_eq_splitBy, visitors, groups, List.splitBy, List.splitBy.loop, joins_eq]

/-- The visitors come in five runs, each for one insert, and can be split into nothing coarser. -/
theorem groups_coarsest : (∀ row ∈ visitors, (Members.names row).Nodup) ∧ Splits groups visitors ∧
    groups.IsChain Apart ∧ (∀ finer, Splits finer visitors → Refines finer groups) ∧
    ∀ t, ∀ run ∈ groups, OneInsert t run := by
  have hnames : ∀ row ∈ visitors, (Members.names row).Nodup := by decide
  exact ⟨hnames, runsOf_visitors ▸ runsOf_coarsest visitors hnames⟩

end Visitors

end RelGraph.Store
