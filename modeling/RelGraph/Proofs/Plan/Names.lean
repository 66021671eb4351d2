import RelGraph.Proofs.Filter
import RelGraph.Proofs.Plan.Levels
import RelGraph.Proofs.Schema.Consistency
/-!
The names in plans. Filters, orders and fields may write any name, but a name comes into a plan only
where the table of the level has a column of it; so all that a level asks for, compares or orders by
is there. In a consistent registry the tables of all levels are there too, and the columns on which
levels are joined.
-/
namespace RelGraph

open Outcome

/-! ## Conditions -/

namespace Predicate

/-- All columns that a predicate compares are columns of a table. -/
def Within (t : Table) (p : Predicate) : Prop := ∀ q ∈ p.comparisons, t.hasColumn q.1 = true

variable {t : Table} {parts : List (Option Predicate)} {p : Predicate}

theorem mem_comparisonsOfAll {ps : List Predicate} {q : String × Operator × Value} :
    q ∈ comparisonsOfAll ps ↔ ∃ p ∈ ps, q ∈ p.comparisons := by
  induction ps with
  | nil => simp [comparisonsOfAll]
  | cons p ps ih => simp [comparisonsOfAll, ih]

/-- What holds of the parts that are there holds of the group that they make, however they are
joined. -/
theorem within_group {group : List Predicate → Predicate}
    (hgroup : ∀ ps, (group ps).comparisons = comparisonsOfAll ps)
    (hparts : ∀ p, some p ∈ parts → p.Within t)
    (h : (match parts.filterMap id with
      | [] => none
      | [p] => some p
      | ps => some (group ps)) = some p) : p.Within t := by
  have hthere : ∀ q ∈ parts.filterMap id, q.Within t := by
    intro q hq
    obtain ⟨o, ho, rfl⟩ := List.mem_filterMap.mp hq
    exact hparts q ho
  split at h
  · cases h
  · rename_i q hone
    obtain rfl := Option.some.inj h
    exact hthere q (hone ▸ List.mem_singleton_self q)
  · obtain rfl := Option.some.inj h
    intro q hq
    rw [hgroup] at hq
    obtain ⟨part, hpart, hq⟩ := mem_comparisonsOfAll.mp hq
    exact hthere part hpart q hq

theorem within_conjoin (hparts : ∀ p, some p ∈ parts → p.Within t) (h : conjoin parts = some p) :
    p.Within t :=
  within_group (fun ps => by rw [comparisons]) hparts h

theorem within_disjoin (hparts : ∀ p, some p ∈ parts → p.Within t) (h : disjoin parts = some p) :
    p.Within t :=
  within_group (fun ps => by rw [comparisons]) hparts h

end Predicate

section Filters

variable {t : Table} {c : Column} {p : Predicate}

theorem within_operatorEntry (hc : t.hasColumn c.name = true) {entry : String × Value}
    (h : operatorEntry t c entry = .ok (some p)) : p.Within t := by
  rw [operatorEntry] at h
  split at h
  · cases h
  · split at h
    · cases h
    · obtain ⟨q, hq, h⟩ := map_eq_ok.mp h
      obtain rfl := Option.some.inj h
      obtain ⟨w, -, rfl⟩ := comparison_eq_ok hq
      simpa [Predicate.Within, Predicate.comparisons] using hc

mutual

theorem within_compileColumn (hc : t.hasColumn c.name = true) {p : Predicate} (f : ColumnFilter)
    (h : compileColumn t c f = .ok (some p)) : p.Within t := by
  match f with
  | .misshapen reason => cases h
  | .level [] operators =>
    rw [compileColumn] at h
    obtain ⟨parts, hparts, h⟩ := bind_eq_ok.mp h
    refine Predicate.within_conjoin (fun q hq => ?_) (pure_eq_ok.mp h)
    obtain ⟨entry, -, hentry⟩ := exists_of_mem_mapM hparts hq
    exact within_operatorEntry hc hentry
  | .level (first :: rest) operators =>
    rw [compileColumn] at h
    split at h
    · cases h
    · obtain ⟨part, hpart, h⟩ := bind_eq_ok.mp h
      obtain ⟨parts, hparts, h⟩ := bind_eq_ok.mp h
      refine Predicate.within_disjoin (fun q hq => ?_) (pure_eq_ok.mp h)
      rcases List.mem_cons.mp hq with hq | hq
      · exact within_compileColumn hc first (hq ▸ hpart)
      · exact within_compileColumns hc rest hparts q hq

theorem within_compileColumns (hc : t.hasColumn c.name = true) {parts : List (Option Predicate)}
    (fs : List ColumnFilter) (h : compileColumns t c fs = .ok parts) :
    ∀ p, some p ∈ parts → p.Within t := by
  match fs with
  | [] =>
    obtain rfl := Except.ok.inj h
    simp
  | f :: rest =>
    rw [compileColumns] at h
    obtain ⟨part, hpart, h⟩ := bind_eq_ok.mp h
    obtain ⟨others, hothers, h⟩ := bind_eq_ok.mp h
    obtain rfl := pure_eq_ok.mp h
    intro p hp
    rcases List.mem_cons.mp hp with hp | hp
    · exact within_compileColumn hc f (hp ▸ hpart)
    · exact within_compileColumns hc rest hothers p hp

end

/-- Entries for columns that the table does not have are passed over. -/
theorem within_compileEntry {entry : ColumnEntry} (h : compileEntry t entry = .ok (some p)) :
    p.Within t := by
  rw [compileEntry] at h
  split at h
  · rename_i f c _ hc
    have hname : t.hasColumn c.name = true := by
      rw [Table.hasColumn, Table.column?_name hc, hc]
      rfl
    exact within_compileColumn hname f h
  · cases h

mutual

theorem within_compileFilter {p : Predicate} (f : TableFilter)
    (h : compileFilter t f = .ok (some p)) : p.Within t := by
  match f with
  | .misshapen reason => cases h
  | .level [] entries =>
    rw [compileFilter] at h
    obtain ⟨parts, hparts, h⟩ := bind_eq_ok.mp h
    refine Predicate.within_conjoin (fun q hq => ?_) (pure_eq_ok.mp h)
    obtain ⟨entry, -, hentry⟩ := exists_of_mem_mapM hparts hq
    exact within_compileEntry hentry
  | .level (first :: rest) entries =>
    rw [compileFilter] at h
    split at h
    · cases h
    · obtain ⟨part, hpart, h⟩ := bind_eq_ok.mp h
      obtain ⟨parts, hparts, h⟩ := bind_eq_ok.mp h
      refine Predicate.within_disjoin (fun q hq => ?_) (pure_eq_ok.mp h)
      rcases List.mem_cons.mp hq with hq | hq
      · exact within_compileFilter first (hq ▸ hpart)
      · exact within_compileFilters rest hparts q hq

theorem within_compileFilters {parts : List (Option Predicate)} (fs : List TableFilter)
    (h : compileFilters t fs = .ok parts) : ∀ p, some p ∈ parts → p.Within t := by
  match fs with
  | [] =>
    obtain rfl := Except.ok.inj h
    simp
  | f :: rest =>
    rw [compileFilters] at h
    obtain ⟨part, hpart, h⟩ := bind_eq_ok.mp h
    obtain ⟨others, hothers, h⟩ := bind_eq_ok.mp h
    obtain rfl := pure_eq_ok.mp h
    intro p hp
    rcases List.mem_cons.mp hp with hp | hp
    · exact within_compileFilter f (hp ▸ hpart)
    · exact within_compileFilters rest hothers p hp

end

/-- Whatever is written under `where` compares columns of the table only. -/
theorem within_compileWhere {v : Value} (h : compileWhere t v = .ok (some p)) : p.Within t :=
  within_compileFilter _ h

end Filters

/-! ## Orders -/

namespace OrderBy

variable {t : Table}

theorem hasColumn_of_compileItem {position : Nat} {item : Item} {e : OrderEntry}
    (h : compileItem t position item = .ok (some e)) : t.hasColumn e.column = true := by
  rw [compileItem] at h
  split at h
  · obtain ⟨entry, -, h⟩ := bind_eq_ok.mp h
    obtain ⟨key, -, h⟩ := bind_eq_ok.mp h
    split at h
    · split at h
      · cases h
      · rename_i c hc
        split at h
        · cases h
        · obtain ⟨priority, -, h⟩ := bind_eq_ok.mp h
          obtain rfl := Option.some.inj (pure_eq_ok.mp h)
          rw [Table.hasColumn, Table.column?_name hc, hc]
          rfl
    · cases h
  · cases h

/-- An order names columns of the table only. -/
theorem hasColumn_of_compile {v : Value} {entries : List OrderEntry}
    (h : compile t v = .ok (some entries)) : ∀ e ∈ entries, t.hasColumn e.column = true := by
  rw [compile] at h
  split at h
  · cases h
  · obtain ⟨items, -, h⟩ := bind_eq_ok.mp h
    obtain ⟨found, hfound, h⟩ := bind_eq_ok.mp h
    have hsorted : ∀ e ∈ (found.filterMap id).mergeSort fun a b => decide (a.priority ≤ b.priority),
        t.hasColumn e.column = true := by
      intro e he
      obtain ⟨o, ho, rfl⟩ := List.mem_filterMap.mp (List.mem_mergeSort.mp he)
      obtain ⟨⟨item, position⟩, -, hitem⟩ := exists_of_mem_mapM hfound ho
      exact hasColumn_of_compileItem hitem
    split at h
    · cases h
    · obtain rfl := Option.some.inj (pure_eq_ok.mp h)
      exact hsorted

end OrderBy

/-! ## Levels -/

/-- All columns that a level asks for, compares or orders by are columns of a table. -/
structure Node.NamesColumns (t : Table) (n : Node) : Prop where
  columns : ∀ name ∈ n.columns, t.hasColumn name = true
  condition : ∀ p, n.condition = some p → p.Within t
  order : ∀ e ∈ n.orderBy.getD [], t.hasColumn e.column = true

namespace Plan

variable {r : Registry} {maxDepth depth : Nat} {t : Table} {relation : Option Relation} {n : Node}

theorem namesColumns_of_level {args : Members Value} (h : level t args relation = .ok n) :
    n.table = t.name ∧ n.NamesColumns t := by
  obtain ⟨condition, hcondition, h⟩ := bind_eq_ok.mp h
  have hwithin : ∀ p, condition = some p → p.Within t := by
    rintro p rfl
    exact within_compileWhere hcondition
  split at h
  · obtain ⟨orderBy, horder, h⟩ := bind_eq_ok.mp h
    obtain ⟨limit, -, h⟩ := bind_eq_ok.mp h
    obtain ⟨offset, -, h⟩ := bind_eq_ok.mp h
    obtain rfl := pure_eq_ok.mp h
    refine ⟨rfl, nofun, hwithin, fun e he => ?_⟩
    cases orderBy with
    | none => cases he
    | some entries => exact OrderBy.hasColumn_of_compile horder e he
  · obtain rfl := pure_eq_ok.mp h
    exact ⟨rfl, nofun, hwithin, nofun⟩

/-- A level is about its table, and names columns of it only. -/
theorem IsLevel.namesColumns (h : IsLevel r maxDepth depth t relation n) :
    n.table = t.name ∧ n.NamesColumns t := by
  obtain ⟨args, fields, h⟩ := h
  have hcolumns (name : String) : name ∈ n.columns ↔ name ∈ columnNames t fields :=
    mem_columns_ofFields h
  obtain ⟨start, hstart, h⟩ := bind_eq_ok.mp h
  obtain ⟨htable, hnames⟩ := namesColumns_of_level hstart
  have hsame := sameRows_addFields h
  refine ⟨hsame.table.trans htable, fun name hname => ?_, ?_, ?_⟩
  · exact (List.mem_filter.mp ((hcolumns name).mp hname)).2
  · rw [hsame.condition]
    exact hnames.condition
  · rw [hsame.orderBy]
    exact hnames.order

end Plan

/-! ## Whole plans -/

/-- A plan is that of a relation of a table, which leads to the plan's table. -/
def Node.JoinedTo (r : Registry) (t : Table) (n : Node) : Prop :=
  ∃ rel target, n.relation = some rel ∧ r.table? n.table = some target ∧ rel.Leads r t target

/-- All tables and columns that a plan names are there, at every level. -/
inductive Node.Resolves (r : Registry) : Node → Prop
  | intro {n : Node} {t : Table} (table : r.table? n.table = some t) (names : n.NamesColumns t)
      (joined : ∀ kv ∈ n.relations, kv.2.JoinedTo r t)
      (below : ∀ kv ∈ n.relations, Resolves r kv.2) : Resolves r n

theorem Plan.IsLevel.resolves {r : Registry} {maxDepth depth : Nat} {t : Table}
    {relation : Option Relation} {n : Node} (hr : r.Consistent) (ht : t ∈ r.all)
    (h : IsLevel r maxDepth depth t relation n) : n.Resolves r := by
  induction h.planned generalizing depth t relation with
  | @intro n _ _ _ _ ih =>
    obtain ⟨htable, hnames⟩ := h.namesColumns
    refine .intro (t := t) (htable ▸ hr.named t ht) hnames (fun kv hkv => ?_) fun kv hkv => ?_
    · obtain ⟨name, rel, target, hrel, htarget, hlevel⟩ := h.below hkv
      obtain ⟨led, hleads⟩ := hr.relation t ht name rel hrel
      obtain rfl : target = led := Option.some.inj (htarget.symm.trans hleads.target)
      refine ⟨rel, target, hlevel.relation_eq, ?_, hleads⟩
      rw [hlevel.namesColumns.1]
      exact hr.named target (Registry.mem_all_of_table? htarget)
    · obtain ⟨name, rel, target, -, htarget, hlevel⟩ := h.below hkv
      exact ih kv hkv (Registry.mem_all_of_table? htarget) hlevel

/-- Every plan for a root field names only what is there. -/
theorem Plan.resolves_of_ofSelection {r : Registry} {maxDepth : Nat} {table : String}
    {s : Selection} {args : Members Value} {n : Node} (hr : r.Consistent)
    (h : (ofSelection r maxDepth table s args).1 = .ok n) : n.Resolves r := by
  obtain ⟨t, ht, hlevel⟩ := isLevel_of_ofSelection h
  exact hlevel.resolves hr (Registry.mem_all_of_table? ht)

end RelGraph
