import RelGraph.Schema.Dependency
import RelGraph.Proofs.Outcome
import Mathlib.Data.Fintype.Order
import Mathlib.Logic.Relation
/-!
Tables by dependency, and that none is lost on the way. What the names of a table lead to is closed
under dependency once as many steps were taken as there are tables, so a table that comes back to
itself is known to be circular. Without circles some table that is left depends on nothing that is
left, so every round takes one, and the rounds take all. Main statement: the tables that come out in
the order of dependency are the declared ones.
-/
namespace RelGraph

open Outcome

namespace Dependencies

variable {ds : Dependencies} {names : List String} {name a b : String} {fuel : Nat}

/-- One table depends on another. -/
def DependsOn (ds : Dependencies) (a b : String) : Prop := ∃ t ∈ ds, t.1 = a ∧ b ∈ t.2

/-- No table comes back to itself. -/
def Acyclic (ds : Dependencies) : Prop := ∀ a, ¬ Relation.TransGen ds.DependsOn a a

/-- The names have with each of them all that it depends on. -/
def Closed (ds : Dependencies) (names : List String) : Prop := ∀ t ∈ ds, t.1 ∈ names → t.2 ⊆ names

/-! ## What names lead to -/

theorem mem_widen :
    name ∈ ds.widen names ↔ name ∈ names ∨ ∃ t ∈ ds, t.1 ∈ names ∧ name ∈ t.2 := by
  have hfold (l : Dependencies) (known : List String) :
      name ∈ l.foldl (fun names t => names ++ t.2.filter (!names.contains ·)) known ↔
        name ∈ known ∨ ∃ t ∈ l, name ∈ t.2 := by
    induction l generalizing known with
    | nil => simp
    | cons t l ih =>
      rw [List.foldl_cons, ih]
      by_cases hknown : name ∈ known <;> simp [hknown]
  rw [widen, hfold]
  simp [and_assoc]

theorem subset_widen : names ⊆ ds.widen names := fun _ h => mem_widen.mpr (.inl h)

theorem Closed.widen (h : ds.Closed names) : ds.Closed (ds.widen names) := by
  intro t ht hname
  have hthere : t.1 ∈ names := by
    rcases mem_widen.mp hname with hthere | ⟨u, hu, hfrom, hled⟩
    · exact hthere
    · exact h u hu hfrom hled
  exact fun x hx => subset_widen (h t ht hthere hx)

theorem Closed.reached (h : ds.Closed names) : ds.Closed (ds.reached fuel names) := by
  induction fuel generalizing names with
  | zero => exact h
  | succ fuel ih => exact ih h.widen

theorem subset_reached : names ⊆ ds.reached fuel names := by
  induction fuel generalizing names with
  | zero => exact fun _ h => h
  | succ fuel ih => exact fun _ h => ih (subset_widen h)

/-- The tables that are not among the names. -/
def unexplored (ds : Dependencies) (names : List String) : Dependencies :=
  ds.filter fun t => !names.contains t.1

theorem mem_unexplored {t : String × List String} :
    t ∈ ds.unexplored names ↔ t ∈ ds ∧ t.1 ∉ names := by
  simp [unexplored]

/-- Names that lead to no further table lead, in one step, to names that are closed. -/
theorem closed_widen_of_unexplored (h : ds.unexplored names ⊆ ds.unexplored (ds.widen names)) :
    ds.Closed (ds.widen names) := by
  intro t ht hname
  have hthere : t.1 ∈ names := by
    by_contra hnot
    exact (mem_unexplored.mp (h (mem_unexplored.mpr ⟨ht, hnot⟩))).2 hname
  exact fun x hx => mem_widen.mpr (.inr ⟨t, ht, hthere, hx⟩)

/-- Every step explores a further table, or has closed the names. -/
theorem closed_reached_of_lt (h : (ds.unexplored names).length < fuel) :
    ds.Closed (ds.reached fuel names) := by
  induction fuel generalizing names with
  | zero => omega
  | succ fuel ih =>
    have hsub : (ds.unexplored (ds.widen names)).Sublist (ds.unexplored names) := by
      refine List.monotone_filter_right ds fun t ht => ?_
      simp only [Bool.not_eq_true', List.contains_eq_mem, decide_eq_false_iff_not] at ht ⊢
      exact fun hmem => ht (subset_widen hmem)
    rcases Nat.lt_or_ge (ds.unexplored (ds.widen names)).length (ds.unexplored names).length with
      hless | hsame
    · exact ih (by omega)
    · have heq := hsub.eq_of_length_le hsame
      exact (closed_widen_of_unexplored (heq ▸ List.Subset.refl _)).reached

/-- As many steps as there are tables close any names. -/
theorem closed_reached : ds.Closed (ds.reached ds.length names) := by
  rcases Nat.lt_or_ge (ds.unexplored names).length ds.length with hless | hall
  · exact closed_reached_of_lt hless
  · -- Where no table is among the names, they are closed from the start.
    refine Closed.reached fun t ht hname => ?_
    have heq : ds.unexplored names = ds := List.filter_sublist.eq_of_length_le hall
    exact absurd hname (mem_unexplored.mp (heq ▸ ht)).2

/-! ## Circles -/

theorem Closed.mem_of_dependsOn (h : ds.Closed names) (hab : Relation.ReflTransGen ds.DependsOn a b)
    (ha : a ∈ names) : b ∈ names := by
  induction hab with
  | refl => exact ha
  | tail _ hstep ih =>
    obtain ⟨t, ht, rfl, hmem⟩ := hstep
    exact h t ht ih hmem

/-- A table that comes back to itself is circular. -/
theorem isCircular_of_transGen (h : Relation.TransGen ds.DependsOn a a) : ds.isCircular a := by
  obtain ⟨b, ⟨t, ht, rfl, hb⟩, hback⟩ := Relation.TransGen.head'_iff.mp h
  have hmem : t.1 ∈ ds.reached ds.length t.2 :=
    closed_reached.mem_of_dependsOn hback (subset_reached hb)
  rw [isCircular, List.any_eq_true]
  exact ⟨t, List.mem_filter.mpr ⟨ht, by simp⟩, by simpa using hmem⟩

theorem acyclic_of_not_circular (h : ∀ t ∈ ds, ds.isCircular t.1 = false) : ds.Acyclic := by
  intro a hcircle
  obtain ⟨b, ⟨t, ht, rfl, -⟩, -⟩ := Relation.TransGen.head'_iff.mp hcircle
  exact absurd (isCircular_of_transGen hcircle) (by simp [h t ht])

theorem dependsOn_cutCircles (h : ds.cutCircles.DependsOn a b) :
    ds.isCircular a = false ∧ ds.DependsOn a b := by
  obtain ⟨u, hu, rfl, hb⟩ := h
  obtain ⟨t, ht, rfl⟩ := List.mem_map.mp hu
  cases hcircular : ds.isCircular t.1 with
  | true => simp [hcircular] at hb
  | false =>
    rw [hcircular] at hb
    simpa [hcircular] using ⟨t, ht, rfl, hb⟩

/-- Where the tables in circles depend on nothing, there are no circles. -/
theorem acyclic_cutCircles : ds.cutCircles.Acyclic := by
  intro a hcircle
  obtain ⟨b, hstep, -⟩ := Relation.TransGen.head'_iff.mp hcircle
  have hbefore : Relation.TransGen ds.DependsOn a a :=
    Relation.TransGen.mono (fun _ _ h => (dependsOn_cutCircles h).2) _ _ hcircle
  exact absurd (isCircular_of_transGen hbefore) (by simp [(dependsOn_cutCircles hstep).1])

theorem names_cutCircles : ds.cutCircles.map (·.1) = ds.map (·.1) := by
  rw [cutCircles, List.map_map]
  refine List.map_congr_left fun t _ => ?_
  by_cases h : ds.isCircular t.1 <;> simp [h]

/-! ## Rounds -/

/-- Without circles, some table that is left depends on nothing that is left. -/
theorem Acyclic.exists_free (h : ds.Acyclic) (hne : ds ≠ []) :
    ∃ t ∈ ds, ∀ name ∈ t.2, name ∉ ds.map (·.1) := by
  -- Among finitely many tables, an order without circles has a last one.
  let after (x y : {name // name ∈ ds.map (·.1)}) : Prop := Relation.TransGen ds.DependsOn y.1 x.1
  have : IsTrans _ after := ⟨fun _ _ _ hxy hyz => hyz.trans hxy⟩
  have : Std.Irrefl after := ⟨fun x hx => h x.1 hx⟩
  obtain ⟨t₀, ht₀⟩ := List.exists_mem_of_ne_nil ds hne
  obtain ⟨⟨last, hlast⟩, -, hmin⟩ := (Finite.wellFounded_of_trans_of_irrefl after).has_min
    Set.univ ⟨⟨t₀.1, List.mem_map_of_mem ht₀⟩, trivial⟩
  obtain ⟨t, ht, rfl⟩ := List.mem_map.mp hlast
  exact ⟨t, ht, fun name hname hleft =>
    hmin ⟨name, hleft⟩ trivial (.single ⟨t, ht, rfl, hname⟩)⟩

theorem Acyclic.sublist {rest : Dependencies} (h : ds.Acyclic) (hsub : rest ⊆ ds) :
    rest.Acyclic := fun a hcircle =>
  h a (Relation.TransGen.mono (fun _ _ ⟨t, ht, hfrom, hto⟩ => ⟨t, hsub ht, hfrom, hto⟩) _ _ hcircle)

theorem mem_of_mem_rounds (h : name ∈ rounds fuel ds) : name ∈ ds.map (·.1) := by
  induction fuel generalizing ds with
  | zero => simp [rounds] at h
  | succ fuel ih =>
    simp only [rounds, List.partition_eq_filter_filter] at h
    split at h
    · simp at h
    · rcases List.mem_append.mp h with hout | hrest
      · exact (List.filter_sublist.map _).subset hout
      · exact (List.filter_sublist.map _).subset (ih hrest)

/-- Without circles, as many rounds as there are tables take them all. -/
theorem mem_rounds (h : ds.Acyclic) (hfuel : ds.length ≤ fuel) :
    name ∈ rounds fuel ds ↔ name ∈ ds.map (·.1) := by
  refine ⟨mem_of_mem_rounds, fun hname => ?_⟩
  induction fuel generalizing ds with
  | zero =>
    obtain rfl := List.length_eq_zero_iff.mp (Nat.le_zero.mp hfuel)
    simp at hname
  | succ fuel ih =>
    obtain ⟨t₀, ht₀, hname₀⟩ := List.mem_map.mp hname
    obtain ⟨free, hfree, hnone⟩ := h.exists_free (List.ne_nil_of_mem ht₀)
    simp only [rounds, List.partition_eq_filter_filter]
    set isFree : String × List String → Bool :=
      fun t => t.2.all (!(ds.map (·.1)).contains ·) with hisFree
    have hout : free ∈ ds.filter isFree := by
      refine List.mem_filter.mpr ⟨hfree, ?_⟩
      rw [hisFree, List.all_eq_true]
      exact fun name hname => by simpa using hnone name hname
    rw [if_neg (by simpa using List.ne_nil_of_mem hout)]
    refine List.mem_append.mpr ?_
    by_cases hround : isFree t₀
    · exact .inl (List.mem_map.mpr ⟨t₀, List.mem_filter.mpr ⟨ht₀, hround⟩, hname₀⟩)
    · have hshorter : (ds.filter (not ∘ isFree)).length < ds.length := by
        refine List.length_filter_lt_length_iff_exists.mpr ⟨free, hfree, ?_⟩
        simp [(List.mem_filter.mp hout).2]
      exact .inr (ih (h.sublist (List.filter_subset_self ..)) (by omega)
        (List.mem_map.mpr ⟨t₀, List.mem_filter.mpr ⟨ht₀, by simpa using hround⟩, hname₀⟩))

/-- The order of dependency has all names. -/
theorem mem_sorted : name ∈ sorted ds ↔ name ∈ ds.map (·.1) := by
  rw [sorted]
  split
  · rw [mem_rounds acyclic_cutCircles (by simp [cutCircles]), names_cutCircles]
  · rename_i hnone
    refine mem_rounds (acyclic_of_not_circular fun t ht => ?_) le_rfl
    by_contra hcircular
    exact hnone (List.any_eq_true.mpr ⟨t, ht, by simpa using hcircular⟩)

end Dependencies

namespace Declarations

variable {d : Declarations} {t : TableDeclaration} {ts : List TableDeclaration} {name : String}

theorem mem_of_table? (h : d.table? name = some t) : t ∈ d.tables ∧ t.name = name :=
  ⟨List.mem_of_find?_eq_some h, by simpa using List.find?_some h⟩

/-- Tables with names of their own are found by them. -/
theorem table?_of_mem (hd : (d.tables.map (·.name)).Nodup) (h : t ∈ d.tables) :
    d.table? t.name = some t := by
  obtain ⟨found, hfound⟩ : ∃ found, d.table? t.name = some found :=
    Option.isSome_iff_exists.mp (List.find?_isSome.mpr ⟨t, h, by simp⟩)
  obtain ⟨hmem, hname⟩ := mem_of_table? hfound
  rw [hfound, List.inj_on_of_nodup_map hd hmem h hname]

/-- In the order of dependency come all tables, and only these. -/
theorem mem_byDependency (hd : (d.tables.map (·.name)).Nodup) (h : d.byDependency = .ok ts) :
    t ∈ ts ↔ t ∈ d.tables := by
  obtain ⟨ds, hds, h⟩ := bind_eq_ok.mp h
  obtain rfl := pure_eq_ok.mp h
  have hnames : ds.map (·.1) =
      (d.tables.mergeSort fun a b => decide (a.name ≤ b.name)).map (·.name) :=
    (mapM_named_eq_ok hds).1
  simp only [List.mem_filterMap, Dependencies.mem_sorted, hnames, List.mem_map, List.mem_mergeSort]
  constructor
  · rintro ⟨name, -, hfound⟩
    exact (mem_of_table? hfound).1
  · exact fun ht => ⟨t.name, ⟨t, ht, rfl⟩, table?_of_mem hd ht⟩

end Declarations
end RelGraph
