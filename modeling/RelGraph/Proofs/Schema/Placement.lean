import RelGraph.Schema.Loading
import RelGraph.Proofs.Outcome
/-!
Where relation sets stand in a source. Sorting puts them into a list of their own and looks at
nothing else of them, so a source is sorted into what its other entries come to, with the relation
sets in the order in which they are met. Sources that differ in the places of their relation sets
are sorted alike, but for the order of these.
-/
namespace RelGraph

open Outcome

/-! ## Entries at any depth -/

/-- An entry with the name under which it is met. -/
abbrev SourceLeaf := Option String × SchemaSource

namespace SchemaSource

mutual

/-- The entries of a source in order, those of its mappings and lists in their place. -/
def leaves (name : Option String) : SchemaSource → List SourceLeaf
  | .mapping entries => leavesOfEntries entries
  | .listing entries => leavesOfListing entries
  | source => [(name, source)]

/-- The entries among named ones. -/
def leavesOfEntries : List (String × SchemaSource) → List SourceLeaf
  | [] => []
  | (key, source) :: rest => leaves (some key) source ++ leavesOfEntries rest

/-- The entries among those without names. -/
def leavesOfListing : List SchemaSource → List SourceLeaf
  | [] => []
  | source :: rest => leaves none source ++ leavesOfListing rest

end

/-- The place of the relation set that an entry stands for. -/
def relationSet? : SchemaSource → Option Nat
  | .relations index => some index
  | _ => none

end SchemaSource

/-- Entries that are no relation sets. -/
def otherLeaves (leaves : List SourceLeaf) : List SourceLeaf :=
  leaves.filter fun leaf => leaf.2.relationSet?.isNone

/-- The relation sets among entries. -/
def relationLeaves (leaves : List SourceLeaf) : List Nat :=
  leaves.filterMap fun leaf => leaf.2.relationSet?

/-- Two sources have the same entries, in the same order and under the same names, but for relation
sets, of which they have the same at any places. -/
structure SchemaSource.Moved (source source' : SchemaSource) : Prop where
  others : otherLeaves (source.leaves none) = otherLeaves (source'.leaves none)
  relationSets :
    (relationLeaves (source.leaves none)).Perm (relationLeaves (source'.leaves none))

/-- The declared relation sets at some places. -/
def Declarations.setsAt (d : Declarations) (places : List Nat) : List RelationSet :=
  places.filterMap (d.relationSets[·]?)

namespace Loading.Sorted

variable {d : Declarations} {s : Sorted} {sets : List RelationSet} {name : String}
  {t : TableDeclaration} {model : Option String}

/-- A sorted source with other relation sets. -/
def withSets (s : Sorted) (sets : List RelationSet) : Sorted := { s with relationSets := sets }

/-! ## Entries that are no relation sets -/

theorem addTable_withSets :
    (s.withSets sets).addTable name t model = (s.addTable name t model).withSets sets := by
  show (if (s.nameOf? t.name).isSome then _ else _) = Sorted.withSets (if _ then _ else _) _
  split
  · cases model <;> rfl
  · rfl

theorem addMapped_withSets {name : Option String} :
    (s.withSets sets).addMapped name t = (s.addMapped name t).withSets sets := by
  rw [addMapped, addMapped, addTable_withSets]
  generalize s.addTable ((name.filter (!·.isEmpty)).getD t.name) t t.model = known
  show (if known.mapped.any (·.name = t.name) then _ else _) =
    Sorted.withSets (if _ then _ else _) _
  split <;> rfl

mutual

theorem addValue_withSets (s : Sorted) (name : Option String) (v : Value) :
    (s.withSets sets).addValue name v = (s.addValue name v).withSets sets := by
  cases v with
  | list items => exact addItems_withSets s items
  | tuple items => exact addItems_withSets s items
  | object members => exact addMembers_withSets s members
  | _ => rfl

theorem addItems_withSets (s : Sorted) (items : List Value) :
    (s.withSets sets).addItems items = (s.addItems items).withSets sets := by
  cases items with
  | nil => rfl
  | cons v rest =>
    rw [addItems, addItems, addValue_withSets s none v, addItems_withSets (s.addValue none v) rest]

theorem addMembers_withSets (s : Sorted) (members : List (String × Value)) :
    (s.withSets sets).addMembers members = (s.addMembers members).withSets sets := by
  match members with
  | [] => rfl
  | (k, v) :: rest =>
    rw [addMembers, addMembers, addValue_withSets s (some k) v,
      addMembers_withSets (s.addValue (some k) v) rest]

end

theorem foldl_withSets {f : Sorted → TableDeclaration → Sorted} {ts : List TableDeclaration}
    (hf : ∀ s t, f (s.withSets sets) t = (f s t).withSets sets) :
    ts.foldl f (s.withSets sets) = (ts.foldl f s).withSets sets := by
  induction ts generalizing s with
  | nil => rfl
  | cons t ts ih => rw [List.foldl_cons, List.foldl_cons, hf, ih]

/-! ## Sources -/

/-- Sorts entries that are no relation sets. -/
def addOthers (d : Declarations) (s : Sorted) (leaves : List SourceLeaf) : Attempt Sorted :=
  (otherLeaves leaves).foldlM (fun s leaf => add d s leaf.1 leaf.2) s

/-- What sorting entries comes to: the others are sorted, and the relation sets come behind those
that were there. -/
def addLeaves (d : Declarations) (s : Sorted) (sets : List RelationSet)
    (leaves : List SourceLeaf) : Attempt Sorted :=
  (addOthers d s leaves).map (·.withSets (sets ++ d.setsAt (relationLeaves leaves)))

theorem addLeaves_nil : addLeaves d s sets [] = .ok (s.withSets sets) := by
  show Except.ok (s.withSets (sets ++ [])) = _
  rw [List.append_nil]

theorem addLeaves_append {before after : List SourceLeaf} :
    addLeaves d s sets (before ++ after) = addOthers d s before >>= fun s =>
      addLeaves d s (sets ++ d.setsAt (relationLeaves before)) after := by
  have hsets : d.setsAt (relationLeaves (before ++ after)) =
      d.setsAt (relationLeaves before) ++ d.setsAt (relationLeaves after) := by
    simp [relationLeaves, Declarations.setsAt]
  rw [addLeaves, hsets, addOthers, otherLeaves, List.filter_append, List.foldlM_append]
  show Except.map _ (addOthers d s before >>= fun s => addOthers d s after) = _
  cases addOthers d s before with
  | error e => rfl
  | ok s =>
    show Except.map _ (addOthers d s after) = addLeaves d s _ after
    rw [addLeaves, List.append_assoc]

/-- An entry that leaves relation sets alone. -/
theorem add_leaf {name : Option String} {source : SchemaSource}
    (hother : source.relationSet? = none)
    (hsame : add d (s.withSets sets) name source =
      (add d s name source).map (·.withSets sets)) :
    add d (s.withSets sets) name source = addLeaves d s sets [(name, source)] := by
  have hothers : otherLeaves [(name, source)] = [(name, source)] := by
    simp [otherLeaves, hother]
  have hnone : relationLeaves [(name, source)] = [] := by
    simp [relationLeaves, hother]
  rw [hsame, addLeaves, addOthers, hothers, hnone, List.foldlM_cons]
  cases add d s name source with
  | error e => rfl
  | ok s' =>
    show Except.ok (s'.withSets sets) = .ok (s'.withSets (sets ++ []))
    rw [List.append_nil]

mutual

/-- Sorting a source is sorting its entries at any depth. -/
theorem add_withSets (s : Sorted) (sets : List RelationSet) (name : Option String)
    (source : SchemaSource) :
    add d (s.withSets sets) name source = addLeaves d s sets (source.leaves name) := by
  cases source with
  | mapping entries => exact addEntries_withSets s sets entries
  | listing entries => exact addListing_withSets s sets entries
  | table table =>
    refine add_leaf rfl ?_
    rw [add, add]
    split
    · exact congrArg Except.ok addTable_withSets
    · rfl
  | model model =>
    refine add_leaf rfl ?_
    rw [add, add]
    split
    · exact congrArg Except.ok addMapped_withSets
    · rfl
  | allTables =>
    refine add_leaf rfl ?_
    rw [add, add]
    cases d.byDependency with
    | error e => rfl
    | ok ts => exact congrArg Except.ok (foldl_withSets fun s t => addTable_withSets)
  | mappedBase =>
    refine add_leaf rfl ?_
    rw [add, add]
    refine congrArg Except.ok (foldl_withSets fun s t => ?_)
    split
    · exact addMapped_withSets
    · exact addTable_withSets
  | relations index =>
    rw [add]
    show _ = Except.ok (s.withSets (sets ++ [index].filterMap (d.relationSets[·]?)))
    rw [List.filterMap_cons, List.filterMap_nil]
    cases hset : d.relationSets[index]? with
    | none => simp
    | some set => simp [withSets]
  | other v =>
    refine add_leaf rfl ?_
    rw [add, add]
    exact congrArg Except.ok (addValue_withSets s name v)

theorem addEntries_withSets (s : Sorted) (sets : List RelationSet)
    (entries : List (String × SchemaSource)) :
    addEntries d (s.withSets sets) entries =
      addLeaves d s sets (SchemaSource.leavesOfEntries entries) := by
  match entries with
  | [] => exact addLeaves_nil.symm
  | (key, source) :: rest =>
    rw [addEntries, add_withSets s sets (some key) source, SchemaSource.leavesOfEntries,
      addLeaves_append, addLeaves]
    cases addOthers d s (source.leaves (some key)) with
    | error e => rfl
    | ok s' => exact addEntries_withSets s' _ rest

theorem addListing_withSets (s : Sorted) (sets : List RelationSet) (entries : List SchemaSource) :
    addListing d (s.withSets sets) entries =
      addLeaves d s sets (SchemaSource.leavesOfListing entries) := by
  match entries with
  | [] => exact addLeaves_nil.symm
  | source :: rest =>
    rw [addListing, add_withSets s sets none source, SchemaSource.leavesOfListing,
      addLeaves_append, addLeaves]
    cases addOthers d s (source.leaves none) with
    | error e => rfl
    | ok s' => exact addListing_withSets s' _ rest

end

/-- Sources whose relation sets stand at other places are sorted alike, but for the order of the
relation sets. -/
theorem add_of_moved {source source' : SchemaSource} (h : source.Moved source') :
    (∃ e, add d {} none source = .error e ∧ add d {} none source' = .error e) ∨
      ∃ (s : Sorted) (sets sets' : List RelationSet), sets.Perm sets' ∧
        add d {} none source = .ok (s.withSets sets) ∧
        add d {} none source' = .ok (s.withSets sets') := by
  have hsource (source : SchemaSource) :
      add d {} none source = addLeaves d {} [] (source.leaves none) :=
    add_withSets {} [] none source
  rw [hsource, hsource, addLeaves, addLeaves, addOthers, addOthers, h.others]
  cases (otherLeaves (source'.leaves none)).foldlM (fun s leaf => add d s leaf.1 leaf.2) {} with
  | error e => exact .inl ⟨e, rfl, rfl⟩
  | ok s => exact .inr ⟨s, _, _, h.relationSets.filterMap _, rfl, rfl⟩

end Loading.Sorted
end RelGraph
