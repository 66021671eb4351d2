import RelGraph.Proofs.Filter
/-!
Laws of branches. A level that lists nothing but branches is compiled to what the branches are
compiled to, joined by "or". So a single branch is the filter that it is; branches in which nothing
is given make no difference, wherever they stand; and branches of a column's filter are branches of
the table's that each ask for this column. Filters that are refused obey the same laws: the first
branch that is refused decides, on either side.
-/
namespace RelGraph

/-- A list with items of a kind put in at any places. -/
inductive Interspersed {α : Type} (p : α → Prop) : List α → List α → Prop
  | nil : Interspersed p [] []
  | keep (a : α) {l l' : List α} (h : Interspersed p l l') : Interspersed p (a :: l) (a :: l')
  | insert {a : α} {l l' : List α} (ha : p a) (h : Interspersed p l l') : Interspersed p l (a :: l')

theorem Interspersed.of_forall {α : Type} {p : α → Prop} {l : List α} (h : ∀ a ∈ l, p a) :
    Interspersed p [] l := by
  induction l with
  | nil => exact .nil
  | cons a l ih =>
    rw [List.forall_mem_cons] at h
    exact .insert h.1 (ih h.2)

theorem Interspersed.filter {α : Type} (p : α → Bool) (l : List α) :
    Interspersed (fun a => p a = false) (l.filter p) l := by
  induction l with
  | nil => exact .nil
  | cons a l ih =>
    cases ha : p a with
    | true => rw [List.filter_cons_of_pos ha]; exact .keep a ih
    | false => rw [List.filter_cons_of_neg (by simp [ha])]; exact .insert ha ih

theorem Interspersed.imp {α : Type} {p q : α → Prop} {l l' : List α} (h : Interspersed p l l')
    (hpq : ∀ a, p a → q a) : Interspersed q l l' := by
  induction h with
  | nil => exact .nil
  | keep a _ ih => exact .keep a ih
  | insert ha _ ih => exact .insert (hpq _ ha) ih

section Joining

variable {α β γ : Type} {f : α → Attempt (Option β)} {l l' : List α}

theorem map_filterMap_mapM (f : α → Attempt (Option β)) (l : List α) :
    List.filterMap id <$> l.mapM f = l.filterMapM f := by
  induction l with
  | nil => rfl
  | cons a l ih =>
    rw [List.mapM_cons, List.filterMapM_cons, ← ih, map_eq_pure_bind]
    simp only [bind_assoc, pure_bind]
    refine congrArg _ (funext fun o => ?_)
    cases o <;> simp only [map_eq_pure_bind, bind_assoc, pure_bind] <;> rfl

/-- Steps that give nothing leave what the others give, and the first error among them. -/
theorem filterMapM_interspersed (h : Interspersed (fun a => f a = .ok none) l l') :
    l'.filterMapM f = l.filterMapM f := by
  induction h with
  | nil => rfl
  | keep a _ ih => rw [List.filterMapM_cons, List.filterMapM_cons, ih]
  | insert ha _ ih =>
    rw [List.filterMapM_cons, ha, ← ih]
    rfl

/-- What joins the results that are there does not see steps that give nothing. -/
theorem map_mapM_interspersed {join : List (Option β) → γ}
    (hjoin : ∀ ps, join ps = join ((ps.filterMap id).map some))
    (h : Interspersed (fun a => f a = .ok none) l l') :
    join <$> l'.mapM f = join <$> l.mapM f := by
  have hgiven : ∀ l : List α,
      join <$> l.mapM f = (fun ps => join (ps.map some)) <$> l.filterMapM f := fun l => by
    rw [← map_filterMap_mapM, Functor.map_map]
    exact congrArg (· <$> l.mapM f) (funext hjoin)
  rw [hgiven, hgiven, filterMapM_interspersed h]

end Joining

namespace Predicate

@[simp] theorem conjoin_singleton (p : Option Predicate) : conjoin [p] = p := by cases p <;> rfl

@[simp] theorem disjoin_singleton (p : Option Predicate) : disjoin [p] = p := by cases p <;> rfl

theorem conjoin_filterMap (ps : List (Option Predicate)) :
    conjoin ps = conjoin ((ps.filterMap id).map some) := by
  simp [conjoin, List.filterMap_map]

theorem disjoin_filterMap (ps : List (Option Predicate)) :
    disjoin ps = disjoin ((ps.filterMap id).map some) := by
  simp [disjoin, List.filterMap_map]

end Predicate

section Levels

variable {t : Table} {c : Column} {name : String} {ws ws' : List Value}

theorem compileColumn_of_ne_nil {fs : List ColumnFilter} (hfs : fs ≠ []) (ops : Members Value) :
    compileColumn t c (.level fs ops) =
      if ops.any fun kv => !kv.2.isNull then
        Attempt.fault (.columnBranchesBesideOperators t.name c.name)
      else Predicate.disjoin <$> fs.mapM (compileColumn t c) := by
  obtain ⟨f, fs, rfl⟩ := List.exists_cons_of_ne_nil hfs
  rw [compileColumn, compileColumns_eq, List.mapM_cons, map_eq_pure_bind]
  simp only [bind_assoc, pure_bind]

theorem compileColumn_branches (t : Table) (c : Column) (fs : List ColumnFilter) :
    compileColumn t c (.level fs []) = Predicate.disjoin <$> fs.mapM (compileColumn t c) := by
  cases fs with
  | nil => rw [compileColumn]; rfl
  | cons f fs => rw [compileColumn_of_ne_nil (List.cons_ne_nil f fs)]; rfl

theorem compileFilter_branches (t : Table) (fs : List TableFilter) :
    compileFilter t (.level fs []) = Predicate.disjoin <$> fs.mapM (compileFilter t) := by
  cases fs with
  | nil => rw [compileFilter]; rfl
  | cons f fs =>
    rw [compileFilter, List.any_nil, if_neg Bool.false_ne_true, compileFilters_eq, List.mapM_cons,
      map_eq_pure_bind]
    simp only [bind_assoc, pure_bind]

/-- The filter of a column with nothing but branches. -/
theorem ofItem_branches (ws : List Value) :
    ColumnFilter.ofItem (.object [(branchKey, .list ws)]) =
      .level (ws.map ColumnFilter.ofItem) [] := by
  rw [ColumnFilter.ofItem, ColumnFilter.ofMembers, ColumnFilter.branchesOf, if_pos rfl,
    ColumnFilter.ofBranches, ColumnFilter.ofItems_eq]
  rfl

/-- A table's filter with nothing but branches is compiled to any of them. -/
theorem compileWhere_branches (t : Table) (ws : List Value) :
    compileWhere t (.object [(branchKey, .list ws)]) =
      Predicate.disjoin <$> ws.mapM (compileWhere t) := by
  have hlevel : TableFilter.ofValue (.object [(branchKey, .list ws)]) =
      .level (ws.map TableFilter.ofItem) [] := by
    rw [TableFilter.ofValue, TableFilter.ofItem, TableFilter.ofMembers, TableFilter.branchesOf,
      if_pos rfl, TableFilter.ofBranches, TableFilter.ofItems_eq]
    rfl
  rw [compileWhere, hlevel, compileFilter_branches, List.mapM_map]
  rfl

/-- A table's filter with one entry is compiled to that entry. -/
theorem compileWhere_entry (hname : name ≠ branchKey) (v : Value) :
    compileWhere t (.object [(name, v)]) = compileEntry t (TableFilter.entryOf (name, v)) := by
  have hlevel : TableFilter.ofValue (.object [(name, v)]) =
      .level [] [TableFilter.entryOf (name, v)] := by
    rw [TableFilter.ofValue, TableFilter.ofItem, TableFilter.ofMembers, TableFilter.branchesOf,
      if_neg hname, TableFilter.branchesOf, List.filter_cons_of_pos (by simpa using hname)]
    rfl
  rw [compileWhere, hlevel, compileFilter, List.mapM_cons]
  simp only [List.mapM_nil, bind_assoc, pure_bind, Predicate.conjoin_singleton, bind_pure]

/-- Under the name of a column an operator map is compiled for the column. -/
theorem compileEntry_object (hcolumn : t.column? name = some c) (ms : Members Value) :
    compileEntry t (TableFilter.entryOf (name, .object ms)) =
      compileColumn t c (ColumnFilter.ofItem (.object ms)) := by
  rw [compileEntry, TableFilter.entryOf, hcolumn]
  cases ms with
  | nil =>
    rw [ColumnFilter.ofItem, ColumnFilter.ofMembers, ColumnFilter.branchesOf, List.filter_nil,
      compileColumn_branches]
    rfl
  | cons kv ms => rfl

theorem compileEntry_unknown (hcolumn : t.column? name = none) (v : Value) :
    compileEntry t (TableFilter.entryOf (name, v)) = .ok none := by
  rw [compileEntry, TableFilter.entryOf, hcolumn]
  split
  · rename_i hsome
    cases hsome
  · rfl

/-! ## The laws -/

theorem compileWhere_single (t : Table) (w : Value) :
    compileWhere t (.object [(branchKey, .list [w])]) = compileWhere t w := by
  rw [compileWhere_branches, List.mapM_cons, map_eq_pure_bind]
  simp only [List.mapM_nil, bind_assoc, pure_bind, Predicate.disjoin_singleton, bind_pure]

theorem compileWhere_interspersed
    (h : Interspersed (fun w => compileWhere t w = .ok none) ws ws') :
    compileWhere t (.object [(branchKey, .list ws')]) =
      compileWhere t (.object [(branchKey, .list ws)]) := by
  rw [compileWhere_branches, compileWhere_branches,
    map_mapM_interspersed Predicate.disjoin_filterMap h]

theorem compileWhere_columnBranches (hname : name ≠ branchKey) (ops : List (Members Value)) :
    compileWhere t (.object [(name, .object [(branchKey, .list (ops.map .object))])]) =
      compileWhere t (.object [(branchKey, .list (ops.map fun o => .object [(name, .object o)]))])
    := by
  rw [compileWhere_entry hname]
  cases hcolumn : t.column? name with
  | none =>
    have hnone : ∀ w ∈ ops.map fun o => Value.object [(name, .object o)],
        compileWhere t w = .ok none := by
      simp only [List.mem_map, forall_exists_index, and_imp]
      rintro w o - rfl
      rw [compileWhere_entry hname, compileEntry_unknown hcolumn]
    rw [compileWhere_interspersed (.of_forall hnone), compileEntry_unknown hcolumn,
      compileWhere_branches]
    rfl
  | some c =>
    rw [compileEntry_object hcolumn, ofItem_branches, compileColumn_branches, List.mapM_map,
      compileWhere_branches, List.mapM_map, List.mapM_map]
    refine congrArg _ (Outcome.mapM_congr fun o _ => ?_)
    exact (compileEntry_object hcolumn o).symm.trans (compileWhere_entry hname (.object o)).symm

/-- A table's filter that lists a single branch is compiled to what the branch is compiled to;
branches that are compiled to no condition can be put in anywhere; and the branches of a column's
filter can be listed as branches of the table's instead, each under the name of the column. What
either side is compiled to, the other is: the same predicate, none, or the same error. -/
theorem compileWhere_branchLaws (t : Table) :
    (∀ w, compileWhere t (.object [(branchKey, .list [w])]) = compileWhere t w) ∧
    (∀ ws ws', Interspersed (fun w => compileWhere t w = .ok none) ws ws' →
      compileWhere t (.object [(branchKey, .list ws')]) =
        compileWhere t (.object [(branchKey, .list ws)])) ∧
    ∀ name, name ≠ branchKey → ∀ ops : List (Members Value),
      compileWhere t (.object [(name, .object [(branchKey, .list (ops.map .object))])]) =
        compileWhere t (.object [(branchKey, .list (ops.map fun o => .object [(name, .object o)]))])
    :=
  ⟨compileWhere_single t, fun _ _ => compileWhere_interspersed, fun _ => compileWhere_columnBranches⟩

end Levels

namespace Meaning

/-- Notes called "a". -/
def called : Value := .object [("title", .object [("eq", .text "a")])]

/-- Notes by an operator that there is not. -/
def unheard : Value := .object [("title", .object [("near", .text "a")])]

/-- Two operator maps, of which the second asks for nothing. -/
def operatorMaps : List (Members Value) := [[("like", .text "a%")], [("isNull", .bool false)]]

/-- Branches that ask for nothing, in front, between and behind, beside one that is refused. -/
theorem notes_branchLaws :
    compileWhere notes (.object [(branchKey, .list [unheard])]) = compileWhere notes unheard ∧
    (Interspersed (fun w => compileWhere notes w = .ok none) [called, unheard]
        [.null, called, .object [("title", .object [])], unheard, .object []] ∧
      compileWhere notes (.object [(branchKey, .list
          [.null, called, .object [("title", .object [])], unheard, .object []])]) =
        compileWhere notes (.object [(branchKey, .list [called, unheard])])) ∧
    "title" ≠ branchKey ∧
      compileWhere notes
          (.object [("title", .object [(branchKey, .list (operatorMaps.map .object))])]) =
        compileWhere notes (.object
          [(branchKey, .list (operatorMaps.map fun o => .object [("title", .object o)]))]) := by
  have hplaces : Interspersed (fun w => compileWhere notes w = .ok none) [called, unheard]
      [.null, called, .object [("title", .object [])], unheard, .object []] :=
    .insert (by cbv) (.keep _ (.insert (by cbv) (.keep _ (.insert (by cbv) .nil))))
  obtain ⟨hsingle, hput, hcolumn⟩ := compileWhere_branchLaws notes
  exact ⟨hsingle unheard, ⟨hplaces, hput _ _ hplaces⟩, by decide,
    hcolumn "title" (by decide) operatorMaps⟩

end Meaning

end RelGraph
