import RelGraph.Exports.Publication
import RelGraph.Proofs.Fetch.Reading
import RelGraph.Proofs.Graphql.Telling
/-!
The rows that a field has below it, level by level. A row has a member for every column and every
relation that was asked for at its level and no other members, so the fields of the level alone say
which of the names of a field are taken. The rows that a relation shows are those of the level below
it, as long as no other relation of the level has taken its row key.
-/
namespace RelGraph

open Outcome Plan
open Exports (rowsIn rowsOfAll)

/-! ## Which keys are taken -/

namespace Plan

variable {r : Registry} {maxDepth depth : Nat} {t : Table} {args : Members Value}
  {relation : Option Relation} {fields : List (String × Selection)} {n : Node} {key : String}

/-- Whether the rows of a level have a member under a key: it is the name of a column that is asked
for, or the row key of a relation that is. -/
def Taken (t : Table) (fields : List (String × Selection)) (key : String) : Prop :=
  key ∈ columnNames t fields ∨ key ∈ rowKeys t fields

instance : Decidable (Taken t fields key) := inferInstanceAs (Decidable (_ ∨ _))

end Plan

/-! ## Plans without relations -/

namespace Node

variable {n : Node} {key : String}

/-- What becomes of relations that are cut off. -/
def cut (relations : List (String × Node)) : Members Relation :=
  relations.filterMap fun (key, child) => child.relation.map (key, ·)

theorem names_cut {relations : List (String × Node)}
    (h : ∀ kv ∈ relations, ∃ rel, kv.2.relation = some rel) :
    Members.names (cut relations) = Members.names relations := by
  induction relations with
  | nil => rfl
  | cons kv rest ih =>
    obtain ⟨rel, hrel⟩ := h kv List.mem_cons_self
    have hrest := ih fun kv hkv => h kv (List.mem_cons_of_mem _ hkv)
    rw [cut, List.filterMap_cons]
    simp only [hrel, Option.map_some]
    exact congrArg (kv.1 :: ·) hrest

theorem truncated_withoutRelations :
    n.withoutRelations.truncated = Members.update n.truncated (cut n.relations) := rfl

/-- Relations are cut off under the keys that they had. -/
theorem mem_names_withoutRelations (h : n.Planned) :
    key ∈ Members.names n.withoutRelations.truncated ↔
      key ∈ Members.names n.relations ∨ key ∈ Members.names n.truncated := by
  have hattached : ∀ kv ∈ n.relations, ∃ rel, kv.2.relation = some rel := fun kv hkv =>
    (h.attached kv hkv).imp fun _ hrel => hrel.1
  rw [truncated_withoutRelations, Members.mem_names_update, names_cut hattached, or_comm]

/-- The last relation that comes to a row key is cut off under it. -/
theorem get?_truncated_withoutRelations {r : Registry} {maxDepth depth : Nat} {t : Table}
    {args : Members Value} {relation : Option Relation} {fields : List (String × Selection)}
    {f : RelationField} (h : ofFields r maxDepth depth t args relation fields = .ok n)
    (hf : IsLast t fields f) :
    Members.get? n.withoutRelations.truncated (relationKey t f.key) = some f.relation := by
  have hplanned := (relation_of_ofFields h).1
  have hentry := hasEntry_of_isLast h hf
  rw [truncated_withoutRelations]
  rw [HasEntry] at hentry
  split at hentry
  · rename_i hdeep
    have hnone : n.relations = [] := by
      obtain ⟨start, hstart, hadded⟩ := bind_eq_ok.mp h
      have hside := (growing_addFields fields (growing_of_level hstart) hadded).1.side
      rwa [if_pos hdeep] at hside
    rw [hnone]
    exact hentry
  · obtain ⟨child, hchild, hfound⟩ := hentry
    have hmem := Members.mem_of_get? hfound
    have hattached : ∀ kv ∈ n.relations, ∃ rel, kv.2.relation = some rel := fun kv hkv =>
      (hplanned.attached kv hkv).imp fun _ hrel => hrel.1
    rw [hplanned.cut (List.ne_nil_of_mem hmem)]
    apply Members.get?_update_of_mem
    · rw [names_cut hattached]
      exact hplanned.keys
    · refine List.mem_filterMap.mpr ⟨_, hmem, ?_⟩
      dsimp only
      rw [Direct.relation_of_childPlan hchild]
      rfl

end Node

/-! ## Rows as callers see them -/

namespace Exports

@[simp] theorem mem_rowsOfAll {row : Members Value} {vs : List Value} :
    row ∈ rowsOfAll vs ↔ ∃ v ∈ vs, row ∈ rowsIn v := by
  induction vs with
  | nil => simp [rowsOfAll]
  | cons v rest ih => simp [rowsOfAll, ih]

theorem rowsIn_emptyValue (rel : Relation) : rowsIn (Hydration.emptyValue rel) = [] := by
  rw [Hydration.emptyValue]
  split <;> rfl

end Exports

namespace Hydration

variable {r : Registry} {maxDepth : Nat} {t target : Table} {n child : Node} {rel : Relation}
  {fields : List (String × Selection)} {row shown : Members Value} {payload v : Value}
  {key : String} {f : RelationField}

/-- The rows that a relation shows are rows of the plan below it. -/
theorem row_of_mem_relationValue (hrel : child.relation = some rel)
    (h : relationValue r child payload = .ok v) (hshown : shown ∈ rowsIn v) :
    ∃ item, Hydration.row r child item = .ok (.object shown) := by
  have hrow : ∀ item w, Hydration.row r child item = .ok w → shown ∈ rowsIn w →
      Hydration.row r child item = .ok (.object shown) := by
    intro item w hw hmem
    obtain ⟨ms, hms⟩ := row_of_object hw
    obtain ⟨members, rfl⟩ := isObject_of_row hms
    obtain rfl := List.mem_singleton.mp hmem
    exact hw
  rw [relationValue, hrel, Option.map_some, Option.getD_some] at h
  split at h
  · obtain ⟨items, h⟩ : ∃ items : List Value,
        (items.mapM (row r child) >>= fun rows => pure (.list rows)) = (.ok v : Attempt Value) := by
      split at h
      · obtain ⟨items, -, h⟩ := bind_eq_ok.mp h
        exact ⟨items, h⟩
      · exact ⟨[], h⟩
    obtain ⟨rows, hrows, h⟩ := bind_eq_ok.mp h
    obtain rfl := pure_eq_ok.mp h
    rw [rowsIn, Exports.mem_rowsOfAll] at hshown
    obtain ⟨w, hw, hmem⟩ := hshown
    obtain ⟨item, -, hitem⟩ := exists_of_mem_mapM hrows hw
    exact ⟨item, hrow item w hitem hmem⟩
  · split at h
    · exact ⟨payload, hrow payload v h hshown⟩
    · obtain rfl := Except.ok.inj h
      cases hshown

/-- A row as callers see it, of a table at some level of a request for fields: with what its
relations show, or, once it is deleted, with all of them cut off. -/
def Shown (r : Registry) (maxDepth : Nat) (t : Table) (fields : List (String × Selection))
    (row : Members Value) : Prop :=
  ∃ depth args relation n ms, ofFields r maxDepth depth t args relation fields = .ok n ∧
    ∃ m ∈ [n, n.withoutRelations], Hydration.row r m (.object ms) = .ok (.object row)

namespace Shown

/-- The members of a row are under the keys that are taken at its level. -/
theorem has_iff (h : Shown r maxDepth t fields row) :
    Members.has row key = true ↔ Taken t fields key := by
  obtain ⟨depth, args, relation, n, ms, hplan, m, hm, hrow⟩ := h
  obtain ⟨shown, hshown, hnames⟩ := hasFields_of_row hrow
  obtain rfl := Value.object.inj hshown
  have hplanned := (relation_of_ofFields hplan).1
  rw [Members.has, Option.isSome_iff_ne_none, Ne, Members.get?_eq_none, not_not, hnames, Taken,
    ← mem_columns_ofFields hplan, ← mem_keys_ofFields hplan]
  obtain rfl | rfl := List.mem_pair.mp hm
  · rfl
  · rw [n.mem_names_withoutRelations hplanned]
    simp [Node.withoutRelations, Members.names]

/-- For the last relation that comes to its row key a row has nothing, where it is cut off, and else
what the plan of the relation shows. -/
theorem relation_cases (h : Shown r maxDepth t fields row) (hf : IsLast t fields f) :
    (Value.object row).field (relationKey t f.key) = emptyValue f.relation ∨
      ∃ depth child payload, childPlan r maxDepth depth f = .ok child ∧
        relationValue r child payload = .ok ((Value.object row).field (relationKey t f.key)) := by
  obtain ⟨depth, args, relation, n, ms, hplan, m, hm, hrow⟩ := h
  obtain rfl | rfl := List.mem_pair.mp hm
  · have hentry := hasEntry_of_isLast hplan hf
    rw [HasEntry] at hentry
    split at hentry
    · exact .inl (field_truncated hrow (nodup_truncated hplan) hentry)
    · obtain ⟨child, hchild, hfound⟩ := hentry
      have hvalue := field_relation (relation_of_ofFields hplan).1 hrow (Members.mem_of_get? hfound)
      obtain ⟨payload, -, hvalue⟩ := bind_eq_ok.mp hvalue
      exact .inr ⟨depth, child, payload, hchild, hvalue⟩
  · exact .inl (field_truncated hrow (Members.nodup_names_update (nodup_truncated hplan))
      (Node.get?_truncated_withoutRelations hplan hf))

/-- Below the last relation that comes to its row key are rows of the level below it. -/
theorem below (h : Shown r maxDepth t fields row) (hf : IsLast t fields f)
    (htarget : r.table? f.relation.target = some target)
    (hshown : shown ∈ rowsIn ((Value.object row).field (relationKey t f.key))) :
    Shown r maxDepth target f.selection.fields shown := by
  obtain hnone | ⟨depth, child, payload, hchild, hvalue⟩ := h.relation_cases hf
  · rw [hnone, Exports.rowsIn_emptyValue] at hshown
    cases hshown
  · obtain ⟨item, hitem⟩ :=
      row_of_mem_relationValue (Direct.relation_of_childPlan hchild) hvalue hshown
    obtain ⟨ms, hms⟩ := row_of_object hitem
    obtain ⟨target', htarget', hchild⟩ := bind_eq_ok.mp hchild
    obtain rfl : target' = target :=
      Option.some.inj ((Registry.table_eq_ok.mp htarget').symm.trans htarget)
    exact ⟨depth + 1, _, _, child, ms, hchild, child, List.mem_cons_self, hms⟩

/-- The last relation that comes to its row key is read as what the row has there. -/
theorem readRelation_eq (h : Shown r maxDepth t fields row) (hf : IsLast t fields f) :
    readRelation t f.relation f.key (.object row) =
      (Value.object row).field (relationKey t f.key) := by
  obtain hnone | ⟨depth, child, payload, hchild, hvalue⟩ := h.relation_cases hf
  · rw [readRelation, hnone]
    cases hmany : f.relation.toMany <;> simp [emptyValue, hmany, Value.isNull]
  · exact readRelation_of_shown (Direct.relation_of_childPlan hchild) hvalue

end Shown

end Hydration

end RelGraph
