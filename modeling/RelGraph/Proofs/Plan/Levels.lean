import RelGraph.Proofs.Plan.Cutting
import RelGraph.Proofs.Schema.Registry
/-!
The levels of a plan. Every plan below a relation is again the plan of a level: that of the target
of a relation that its own fields ask for, one deeper. What holds of each level by itself therefore
holds of all that lies below a plan.
-/
namespace RelGraph.Plan

open Outcome

variable {r : Registry} {maxDepth depth : Nat} {t : Table} {relation : Option Relation} {n : Node}

/-- A plan is that of a level of a table at some depth, reached by a relation or at the root. -/
def IsLevel (r : Registry) (maxDepth depth : Nat) (t : Table) (relation : Option Relation)
    (n : Node) : Prop :=
  ∃ args fields, ofFields r maxDepth depth t args relation fields = .ok n

/-- A relation that a field asks for is one of the table. -/
theorem relation?_of_mem_relationFields {fields : List (String × Selection)} {f : RelationField}
    (h : f ∈ relationFields t fields) : t.relation? f.selection.name = some f.relation := by
  obtain ⟨⟨key, s⟩, -, h⟩ := List.mem_filterMap.mp h
  dsimp only at h
  split at h
  · cases h
  · obtain ⟨rel, hrel, rfl⟩ := Option.map_eq_some_iff.mp h
    exact hrel

/-- The plan for a root field is that of the level of its table. -/
theorem isLevel_of_ofSelection {table : String} {s : Selection} {args : Members Value}
    (h : (ofSelection r maxDepth table s args).1 = .ok n) :
    ∃ t, r.table? table = some t ∧ IsLevel r maxDepth 0 t none n := by
  rw [ofSelection_fst] at h
  obtain ⟨t, ht, h⟩ := bind_eq_ok.mp h
  exact ⟨t, Registry.table_eq_ok.mp ht, args, s.fields, h⟩

namespace IsLevel

theorem planned (h : IsLevel r maxDepth depth t relation n) : n.Planned := by
  obtain ⟨args, fields, h⟩ := h
  exact (relation_of_ofFields h).1

theorem relation_eq (h : IsLevel r maxDepth depth t relation n) : n.relation = relation := by
  obtain ⟨args, fields, h⟩ := h
  exact (relation_of_ofFields h).2

/-- What is cut off from a level has names that are all apart. -/
theorem nodup_truncated (h : IsLevel r maxDepth depth t relation n) :
    (Members.names n.truncated).Nodup := by
  obtain ⟨args, fields, h⟩ := h
  exact Plan.nodup_truncated h

/-- Below a level stand the levels of the targets of its table's relations. -/
theorem below (h : IsLevel r maxDepth depth t relation n) {kv : String × Node}
    (hkv : kv ∈ n.relations) :
    ∃ name rel target, t.relation? name = some rel ∧ r.table? rel.target = some target ∧
      IsLevel r maxDepth (depth + 1) target (some rel) kv.2 := by
  obtain ⟨args, fields, h⟩ := h
  obtain ⟨start, hstart, hadded⟩ := bind_eq_ok.mp h
  replace hadded := addFields_eq_ok hadded
  split at hadded
  · rw [hadded, (level_eq_ok hstart).1] at hkv
    cases hkv
  · obtain ⟨children, hchildren, rfl⟩ := hadded
    rw [(level_eq_ok hstart).1] at hkv
    replace hkv := (Members.mem_update hkv).resolve_left nofun
    obtain ⟨f, hf, -, hchild⟩ := (mapM_named_eq_ok hchildren).2.2 kv hkv
    obtain ⟨target, htarget, hchild⟩ := bind_eq_ok.mp hchild
    exact ⟨f.selection.name, f.relation, target, relation?_of_mem_relationFields hf,
      Registry.table_eq_ok.mp htarget, _, _, hchild⟩

/-- Whatever stands below a level is a level. -/
theorem of_below {m : Node} {levels : Nat} (h : IsLevel r maxDepth depth t relation n)
    (hm : n.Below levels m) :
    ∃ t' relation', IsLevel r maxDepth (depth + levels) t' relation' m := by
  induction hm generalizing depth t relation with
  | here => exact ⟨t, relation, h⟩
  | relation hchild _ ih =>
    obtain ⟨name, rel, target, -, -, hlevel⟩ := h.below hchild
    rw [← Nat.add_assoc, Nat.add_right_comm]
    exact ih hlevel

end IsLevel

end RelGraph.Plan
