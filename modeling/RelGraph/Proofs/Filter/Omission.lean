import RelGraph.Proofs.Filter.Branches
/-!
Operands that are not given, and whether a column's filter says the same without them. It does,
unless the compiler comes upon a level that lists branches beside operands of which none is given
but not all are null. Beside branches only null counts as not given, so that such a level is
refused; without these operands it is its branches.
-/
namespace RelGraph

open Outcome

/-! ## Leaving out -/

namespace Value

mutual

/-- An operator map without the entries that are null or false, on every level. -/
def givenOnly : Value → Value
  | .object ms => .object (givenEntries ms)
  | v => v

/-- The entries of a level that are neither null nor false, with such entries left out of the
branches. -/
def givenEntries : List (String × Value) → List (String × Value)
  | [] => []
  | (key, v) :: rest =>
    if isGiven v then (key, if key = branchKey then givenBranches v else v) :: givenEntries rest
    else givenEntries rest

/-- Listed branches with entries left out. -/
def givenBranches : Value → Value
  | .list items => .list (givenItems items)
  | .tuple items => .tuple (givenItems items)
  | v => v

/-- Operator maps with entries left out. -/
def givenItems : List Value → List Value
  | [] => []
  | v :: rest => givenOnly v :: givenItems rest

end

theorem givenItems_eq (items : List Value) : givenItems items = items.map givenOnly := by
  induction items with
  | nil => rfl
  | cons v items ih => rw [givenItems, ih, List.map_cons]

end Value

namespace ColumnFilter

mutual

/-- A column's filter without the operands that are not given, on every level. -/
def givenOnly : ColumnFilter → ColumnFilter
  | level branches operators =>
    level (givenOnlyAll branches) (operators.filter fun kv => isGiven kv.2)
  | misshapen reason => misshapen reason

/-- Filters of a column without the operands that are not given. -/
def givenOnlyAll : List ColumnFilter → List ColumnFilter
  | [] => []
  | f :: rest => givenOnly f :: givenOnlyAll rest

end

theorem givenOnlyAll_eq (fs : List ColumnFilter) : givenOnlyAll fs = fs.map givenOnly := by
  induction fs with
  | nil => rw [givenOnlyAll]; rfl
  | cons f fs ih => rw [givenOnlyAll, ih, List.map_cons]

end ColumnFilter

section Written

variable {ms : Members Value} {v w : Value}

theorem names_givenEntries_subset (ms : Members Value) :
    Members.names (Value.givenEntries ms) ⊆ Members.names ms := by
  induction ms with
  | nil => exact List.Subset.refl _
  | cons kv rest ih =>
    obtain ⟨key, v⟩ := kv
    rw [Value.givenEntries]
    split
    · exact List.cons_subset_cons key ih
    · exact List.subset_cons_of_subset key ih

theorem filter_givenEntries (ms : Members Value) :
    ((Value.givenEntries ms).filter fun kv => kv.1 ≠ branchKey) =
      (ms.filter fun kv => kv.1 ≠ branchKey).filter fun kv => isGiven kv.2 := by
  induction ms with
  | nil => rfl
  | cons kv rest ih =>
    obtain ⟨key, v⟩ := kv
    rw [Value.givenEntries]
    by_cases hkey : key = branchKey <;> cases hgiven : isGiven v <;>
      simpa [hkey, hgiven] using ih

theorem ofBranches_of_not_given (h : isGiven v = false) : ColumnFilter.ofBranches v = [] := by
  rcases ColumnFilter.ofBranches_cases v with ⟨-, hnone⟩ | ⟨htruthy, -⟩
  · exact hnone
  · cases v <;> simp_all [isGiven, Value.truthy]

/-- What is no list holds no operator maps. -/
theorem misshapen_of_mem_ofBranches (hitems : w.items? = none) {f : ColumnFilter}
    (hf : f ∈ ColumnFilter.ofBranches w) : ∃ reason, f = .misshapen reason := by
  rw [ColumnFilter.ofBranches] at hf
  · split at hf
    · cases hf
    · split at hf
      · obtain ⟨part, -, rfl⟩ := List.mem_map.mp hf
        exact ⟨_, rfl⟩
      · exact ⟨_, List.mem_singleton.mp hf⟩
  all_goals
    rintro items rfl
    cases hitems

/-- What is listed is read with entries left out, if each item is. -/
theorem ofBranches_givenBranches
    (h : ∀ items, w.items? = some items → ∀ v ∈ items,
      ColumnFilter.ofItem v.givenOnly = (ColumnFilter.ofItem v).givenOnly) :
    ColumnFilter.ofBranches (Value.givenBranches w) =
      (ColumnFilter.ofBranches w).map ColumnFilter.givenOnly := by
  cases hitems : w.items? with
  | none =>
    have hsame : ∀ f ∈ ColumnFilter.ofBranches w, f.givenOnly = f := fun f hf => by
      obtain ⟨reason, rfl⟩ := misshapen_of_mem_ofBranches hitems hf
      rw [ColumnFilter.givenOnly]
    rw [Value.givenBranches, List.map_congr_left hsame, List.map_id']
    all_goals
      rintro items rfl
      cases hitems
  | some items =>
    have hmap := List.map_congr_left (h items hitems)
    cases w with
    | list items | tuple items =>
      obtain rfl := Option.some.inj hitems
      rw [Value.givenBranches, Value.givenItems_eq, ColumnFilter.ofBranches,
        ColumnFilter.ofBranches, ColumnFilter.ofItems_eq, ColumnFilter.ofItems_eq, List.map_map,
        List.map_map]
      exact hmap
    | _ => cases hitems

/-- The branches of a level are read with entries left out. -/
theorem branchesOf_givenEntries (hnames : (Members.names ms).Nodup)
    (h : ∀ w, (branchKey, w) ∈ ms → ColumnFilter.ofBranches (Value.givenBranches w) =
      (ColumnFilter.ofBranches w).map ColumnFilter.givenOnly) :
    ColumnFilter.branchesOf (Value.givenEntries ms) =
      (ColumnFilter.branchesOf ms).map ColumnFilter.givenOnly := by
  induction ms with
  | nil => rw [Value.givenEntries, ColumnFilter.branchesOf]; rfl
  | cons kv rest ih =>
    obtain ⟨key, v⟩ := kv
    obtain ⟨hkey, hrest⟩ := List.nodup_cons.mp hnames
    rw [Value.givenEntries]
    by_cases hbranch : key = branchKey
    · subst hbranch
      rw [ColumnFilter.branchesOf, if_pos rfl]
      cases hgiven : isGiven v with
      | true => rw [if_pos rfl, if_pos rfl, ColumnFilter.branchesOf, if_pos rfl, h v (by simp)]
      | false =>
        have hnone : branchKey ∉ Members.names (Value.givenEntries rest) :=
          fun hmem => hkey (names_givenEntries_subset rest hmem)
        rw [if_neg Bool.false_ne_true, ColumnFilter.branchesOf_eq, Members.get?_eq_none.mpr hnone,
          ofBranches_of_not_given hgiven]
        rfl
    · have ih := ih hrest fun w hw => h w (List.mem_cons_of_mem _ hw)
      rw [ColumnFilter.branchesOf, if_neg hbranch]
      split
      · rw [ColumnFilter.branchesOf, if_neg hbranch, ih]
      · exact ih

/-- What is written is read as a filter without the operands that are not given when these are left
out of it. -/
theorem ofItem_givenOnly (v : Value) (hkeys : v.keysDistinct) :
    ColumnFilter.ofItem v.givenOnly = (ColumnFilter.ofItem v).givenOnly := by
  match v with
  | .object ms =>
    obtain ⟨hnames, hmembers⟩ := Value.keysDistinct_object hkeys
    rw [Value.givenOnly, ColumnFilter.ofItem, ColumnFilter.ofItem, ColumnFilter.ofMembers,
      ColumnFilter.ofMembers, ColumnFilter.givenOnly, ColumnFilter.givenOnlyAll_eq,
      filter_givenEntries, branchesOf_givenEntries hnames fun w hw => ?_]
    refine ofBranches_givenBranches fun items hitems v hv => ?_
    have hlt := Nat.lt_trans (sizeOf_item hitems hv) (sizeOf_member hw)
    exact ofItem_givenOnly v (Value.keysDistinct_items (hmembers _ hw) hitems v hv)
  | .null | .bool _ | .int _ | .float _ | .decimal _ | .text _ | .bytes _ | .date _ | .moment _
  | .time _ | .uuid _ | .list _ | .tuple _ =>
    rw [Value.givenOnly, ColumnFilter.ofItem, ColumnFilter.givenOnly]
    all_goals simp
termination_by sizeOf v
decreasing_by exact hlt

end Written

/-! ## Levels that are refused for nothing -/

/-- The compiler of a column's filter comes upon a level that lists branches beside operands of which
none is given but not all are null. Branches are gone through from left to right, up to the first
that is refused. -/
inductive Falters (t : Table) (c : Column) : ColumnFilter → Prop
  | here {fs : List ColumnFilter} {ops : Members Value} (hbranches : fs ≠ [])
      (hnone : ∀ kv ∈ ops, isGiven kv.2 = false) (hbeside : ∃ kv ∈ ops, kv.2.isNull = false) :
      Falters t c (.level fs ops)
  | branch {before after : List ColumnFilter} {f : ColumnFilter} {ops : Members Value}
      (hnull : ∀ kv ∈ ops, kv.2.isNull = true)
      (hbefore : ∀ g ∈ before, ∃ p, compileColumn t c g = .ok p) (h : Falters t c f) :
      Falters t c (.level (before ++ f :: after) ops)

section Compiling

variable {t : Table} {c : Column} {fs : List ColumnFilter} {f : ColumnFilter} {ops : Members Value}

theorem isGiven_of_isNull {v : Value} (h : v.isNull = true) : isGiven v = false := by
  cases v <;> first | rfl | cases h

theorem compileColumn_of_null (hnull : ∀ kv ∈ ops, kv.2.isNull = true) (hfs : fs ≠ []) :
    compileColumn t c (.level fs ops) = Predicate.disjoin <$> fs.mapM (compileColumn t c) := by
  rw [compileColumn_of_ne_nil hfs, if_neg]
  simpa using hnull

/-- A filter that the compiler falters over is refused. -/
theorem compileColumn_of_falters (h : Falters t c f) :
    compileColumn t c f = Attempt.fault (.columnBranchesBesideOperators t.name c.name) := by
  induction h with
  | here hbranches _ hbeside =>
    rw [compileColumn_of_ne_nil hbranches, if_pos]
    obtain ⟨kv, hkv, hgiven⟩ := hbeside
    exact List.any_eq_true.mpr ⟨kv, hkv, by simpa using hgiven⟩
  | @branch before after f ops hnull hbefore _ ih =>
    rw [compileColumn_of_null hnull (by simp), mapM_eq_error_of_reached hbefore ih]
    rfl

/-- Operands that are not given make no difference on a level without branches. -/
theorem compileColumn_plain (ops : Members Value) :
    compileColumn t c (.level [] (ops.filter fun kv => isGiven kv.2)) =
      compileColumn t c (.level [] ops) := by
  have hnone : Interspersed (fun kv => operatorEntry t c kv = .ok none)
      (ops.filter fun kv => isGiven kv.2) ops :=
    (Interspersed.filter _ ops).imp fun kv hkv => by rw [operatorEntry, hkv]; rfl
  have hplain : ∀ ops : Members Value, compileColumn t c (.level [] ops) =
      Predicate.conjoin <$> ops.mapM (operatorEntry t c) := fun ops => by
    rw [compileColumn, map_eq_pure_bind]
  rw [hplain, hplain, map_mapM_interspersed Predicate.conjoin_filterMap hnone]

/-- Where the compiler does not falter, operands that are not given make no difference. -/
theorem compileColumn_givenOnly (f : ColumnFilter) (h : ¬ Falters t c f) :
    compileColumn t c f.givenOnly = compileColumn t c f := by
  match f with
  | .misshapen reason => rw [ColumnFilter.givenOnly]
  | .level [] ops =>
    rw [ColumnFilter.givenOnly, ColumnFilter.givenOnlyAll]
    exact compileColumn_plain ops
  | .level (first :: rest) ops =>
    have hsome' : (first :: rest).map ColumnFilter.givenOnly ≠ [] := by simp
    rw [ColumnFilter.givenOnly, ColumnFilter.givenOnlyAll_eq]
    by_cases hgiven : ∃ kv ∈ ops, isGiven kv.2 = true
    · -- What is given beside the branches stays, and the level is refused for it on either side.
      obtain ⟨kv, hkv, hsome⟩ := hgiven
      have hpresent : kv.2.isNull = false := by
        cases hisNull : kv.2.isNull with
        | false => rfl
        | true => exact absurd (isGiven_of_isNull hisNull) (by simp [hsome])
      rw [compileColumn_of_ne_nil hsome', compileColumn_of_ne_nil (by simp), if_pos, if_pos]
      · exact List.any_eq_true.mpr ⟨kv, hkv, by simpa using hpresent⟩
      · refine List.any_eq_true.mpr ⟨kv, List.mem_filter.mpr ⟨hkv, hsome⟩, by simpa using hpresent⟩
    by_cases hbeside : ∃ kv ∈ ops, kv.2.isNull = false
    · exact absurd (.here (by simp) (by simpa using hgiven) hbeside) h
    -- Beside the branches there are only nulls, and each branch that is reached is compiled alike.
    have hnull : ∀ kv ∈ ops, kv.2.isNull = true := by simpa using hbeside
    have hnone : (ops.filter fun kv => isGiven kv.2) = [] := by
      simpa using fun kv hkv => isGiven_of_isNull (hnull kv hkv)
    rw [hnone, compileColumn_branches, compileColumn_of_null hnull (by simp), List.mapM_map]
    refine congrArg _ (mapM_congr_of_reached fun before g after hsplit hbefore => ?_)
    have hlt : sizeOf g < sizeOf (ColumnFilter.level (first :: rest) ops) := by
      have hmem : g ∈ first :: rest := hsplit ▸ by simp
      have := List.sizeOf_lt_of_mem hmem
      simp only [ColumnFilter.level.sizeOf_spec]
      omega
    refine compileColumn_givenOnly g fun hg => h ?_
    rw [hsplit]
    exact .branch hnull hbefore hg
termination_by sizeOf f
decreasing_by exact hlt

/-- A column's filter is compiled alike with and without its operands that are null or false, on any
level, unless the compiler comes upon a level that lists branches beside operands of which none is
given but not all are null. Then the filter is refused for what stands beside the branches. -/
theorem compileColumn_withoutNotGiven (t : Table) (c : Column) (v : Value)
    (hkeys : v.keysDistinct) :
    (¬ Falters t c (.ofValue v) ∧
      compileColumn t c (.ofValue v.givenOnly) = compileColumn t c (.ofValue v)) ∨
    (Falters t c (.ofValue v) ∧ compileColumn t c (.ofValue v) =
      Attempt.fault (.columnBranchesBesideOperators t.name c.name)) := by
  by_cases h : Falters t c (.ofValue v)
  · exact .inr ⟨h, compileColumn_of_falters h⟩
  · refine .inl ⟨h, ?_⟩
    have hread : ColumnFilter.ofValue v.givenOnly = (ColumnFilter.ofValue v).givenOnly :=
      ofItem_givenOnly v hkeys
    rw [hread, compileColumn_givenOnly _ h]

end Compiling

namespace Meaning

/-- The title of a note. -/
def title : Column := Direct.Family.column "title" (.text false) false

/-- Titles that are "a" or other than "b"; beside branches there are nulls, on plain levels also
operands that are false. -/
def notGivenBeside : Value :=
  .object [("like", .null), (branchKey, .list [
    .object [("isNull", .bool false), ("eq", .text "a")],
    .object [(branchKey, .list [.object [("near", .bool false), ("ne", .text "b")]]),
      ("eq", .null)]])]

theorem notGivenBeside_withoutNotGiven :
    notGivenBeside.keysDistinct = true ∧
    ((¬ Falters notes title (.ofValue notGivenBeside) ∧
      compileColumn notes title (.ofValue notGivenBeside.givenOnly) =
        compileColumn notes title (.ofValue notGivenBeside)) ∨
    (Falters notes title (.ofValue notGivenBeside) ∧
      compileColumn notes title (.ofValue notGivenBeside) =
        Attempt.fault (.columnBranchesBesideOperators notes.name title.name))) :=
  ⟨by decide, compileColumn_withoutNotGiven notes title notGivenBeside (by decide)⟩

/-- Titles that are "a", and that need not be null. -/
def falseBeside : Value :=
  .object [(branchKey, .list [.object [("eq", .text "a")]]), ("isNull", .bool false)]

/-- What is not given beside branches can be all that a filter is refused for. -/
theorem falseBeside_refused :
    compileColumn notes title (.ofValue falseBeside) =
        Attempt.fault (.columnBranchesBesideOperators "note" "title") ∧
      compileColumn notes title (.ofValue falseBeside.givenOnly) =
        .ok (some (.compare "title" .eq (.text "a"))) ∧
      ¬ ∀ t c, ∀ v : Value, v.keysDistinct →
        compileColumn t c (.ofValue v.givenOnly) = compileColumn t c (.ofValue v) := by
  have hrefused : compileColumn notes title (.ofValue falseBeside) =
      Attempt.fault (.columnBranchesBesideOperators "note" "title") := by cbv
  have hcompiled : compileColumn notes title (.ofValue falseBeside.givenOnly) =
      .ok (some (.compare "title" .eq (.text "a"))) := by cbv
  refine ⟨hrefused, hcompiled, fun h => ?_⟩
  have hsame := h notes title falseBeside (by decide)
  rw [hrefused, hcompiled] at hsame
  cases hsame

end Meaning

end RelGraph
