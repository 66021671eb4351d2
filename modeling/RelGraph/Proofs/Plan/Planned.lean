import RelGraph.Plan
import RelGraph.Proofs.Members
import RelGraph.Proofs.Outcome
/-!
What holds of every plan. No two relations of a level share a key; a level whose relations are
followed has none cut off, since all of its relations lie equally deep; and a relation to one row is
asked for no other window than its first row.
-/
namespace RelGraph

open Outcome

/-- A plan as planning makes it. -/
inductive Node.Planned : Node → Prop
  | intro {n : Node} (keys : (Members.names n.relations).Nodup)
      (cut : n.relations ≠ [] → n.truncated = [])
      (attached : ∀ kv ∈ n.relations, ∃ rel, kv.2.relation = some rel ∧
        (rel.toMany = false → kv.2.offset = none))
      (below : ∀ kv ∈ n.relations, Planned kv.2) : Planned n

namespace Node.Planned

variable {n : Node}

theorem keys (h : n.Planned) : (Members.names n.relations).Nodup := by
  cases h; assumption

theorem cut (h : n.Planned) : n.relations ≠ [] → n.truncated = [] := by
  cases h; assumption

theorem attached (h : n.Planned) : ∀ kv ∈ n.relations, ∃ rel, kv.2.relation = some rel ∧
    (rel.toMany = false → kv.2.offset = none) := by
  cases h; assumption

theorem of_mem (h : n.Planned) : ∀ kv ∈ n.relations, kv.2.Planned := by
  cases h; assumption

end Node.Planned

theorem compileWhere_null (t : Table) : compileWhere t .null = .ok none := by
  rw [compileWhere, TableFilter.ofValue, TableFilter.ofItem]
  · rfl
  · simp

namespace Plan

variable {r : Registry} {maxDepth depth : Nat} {t : Table}

/-- A plan to which fields are being added at some depth. Below the limit relations are followed,
beyond it they are cut off. -/
structure Growing (maxDepth depth : Nat) (n : Node) : Prop where
  planned : n.Planned
  side : if depth + 1 > maxDepth then n.relations = [] else n.truncated = []

/-- Two plans are of one level: they differ in what is asked for from its rows only. -/
def SameLevel (n n' : Node) : Prop := n'.relation = n.relation ∧ n'.offset = n.offset

theorem level_eq_ok {args : Members Value} {relation : Option Relation} {n : Node}
    (h : level t args relation = .ok n) :
    n.relations = [] ∧ n.truncated = [] ∧ n.relation = relation ∧
      (∀ rel, relation = some rel → rel.toMany = false → n.offset = none) := by
  obtain ⟨condition, -, h⟩ := bind_eq_ok.mp h
  split at h
  · rename_i hmany
    obtain ⟨orderBy, -, h⟩ := bind_eq_ok.mp h
    obtain ⟨limit, -, h⟩ := bind_eq_ok.mp h
    obtain ⟨offset, -, h⟩ := bind_eq_ok.mp h
    obtain rfl := pure_eq_ok.mp h
    refine ⟨rfl, rfl, rfl, ?_⟩
    rintro rel rfl hone
    simp [hone] at hmany
  · obtain rfl := pure_eq_ok.mp h
    exact ⟨rfl, rfl, rfl, fun _ _ _ => rfl⟩

/-- Without arguments a level is about all rows of its table. -/
theorem level_nil (t : Table) (relation : Option Relation) :
    level t [] relation = .ok { table := t.name, relation := relation } := by
  rw [level, show argument [] "where" = .null from rfl, compileWhere_null]
  cases relation.all (·.toMany) <;> rfl

theorem growing_of_level {args : Members Value} {relation : Option Relation} {n : Node}
    (h : level t args relation = .ok n) : Growing maxDepth depth n := by
  obtain ⟨hrelations, htruncated, -, -⟩ := level_eq_ok h
  refine ⟨.intro ?_ ?_ ?_ ?_, ?_⟩ <;> simp [hrelations, htruncated, Members.names]

theorem growing_addColumn {n : Node} (h : Growing maxDepth depth n) (name : String) :
    Growing maxDepth depth (addColumn n name) ∧ SameLevel n (addColumn n name) := by
  obtain ⟨⟨keys, cut, attached, below⟩, side⟩ := h
  unfold addColumn
  split
  · exact ⟨⟨.intro keys cut attached below, side⟩, rfl, rfl⟩
  · exact ⟨⟨.intro keys cut attached below, side⟩, rfl, rfl⟩

/-- A relation that lies too deep is cut off. -/
theorem growing_cut {n : Node} (h : Growing maxDepth depth n) (hdeep : depth + 1 > maxDepth)
    (truncated : Members Relation) :
    Growing maxDepth depth { n with truncated := truncated } := by
  obtain ⟨⟨keys, cut, attached, below⟩, side⟩ := h
  rw [if_pos hdeep] at side
  exact ⟨.intro keys (fun h => absurd side h) attached below, by rw [if_pos hdeep]; exact side⟩

/-- A relation that does not lie too deep is followed. -/
theorem growing_put {n child : Node} {rel : Relation} (h : Growing maxDepth depth n)
    (hdeep : ¬ depth + 1 > maxDepth) (key : String) (hchild : child.Planned)
    (hrel : child.relation = some rel) (hone : rel.toMany = false → child.offset = none) :
    Growing maxDepth depth { n with relations := Members.put n.relations key child } := by
  obtain ⟨⟨keys, cut, attached, below⟩, side⟩ := h
  rw [if_neg hdeep] at side
  refine ⟨.intro (Members.nodup_names_put keys) (fun _ => side) ?_ ?_, ?_⟩
  · intro kv hkv
    rcases Members.mem_put hkv with rfl | hkv
    · exact ⟨rel, hrel, hone⟩
    · exact attached kv hkv
  · intro kv hkv
    rcases Members.mem_put hkv with rfl | hkv
    · exact hchild
    · exact below kv hkv
  · rw [if_neg hdeep]
    exact side

mutual

/-- Adding fields keeps a plan planned. -/
theorem growing_addFields {depth : Nat} {t : Table} {n n' : Node} {warnings : List String}
    (fields : List (String × Selection)) (h : Growing maxDepth depth n)
    (hok : (addFields r maxDepth depth t n warnings fields).1 = .ok n') :
    Growing maxDepth depth n' ∧ SameLevel n n' := by
  match fields with
  | [] =>
    obtain rfl := Except.ok.inj hok
    exact ⟨h, rfl, rfl⟩
  | (key, s) :: rest =>
    rw [addFields] at hok
    split at hok
    · cases hok
    · rename_i m warnings' hadded
      have hfirst := growing_addField key s h (by rw [hadded])
      have hrest := growing_addFields rest hfirst.1 hok
      exact ⟨hrest.1, hrest.2.1.trans hfirst.2.1, hrest.2.2.trans hfirst.2.2⟩

/-- Adding one field keeps a plan planned. -/
theorem growing_addField {depth : Nat} {t : Table} {n n' : Node} {warnings : List String}
    (key : String) (s : Selection) (h : Growing maxDepth depth n)
    (hok : (addField r maxDepth depth t n warnings key s).1 = .ok n') :
    Growing maxDepth depth n' ∧ SameLevel n n' := by
  match s with
  | ⟨name, _, args, fields⟩ =>
    rw [addField] at hok
    -- A field is a column, nothing that the table has, or a relation: cut off where it lies too
    -- deep, and else followed with its own fields added to it.
    split at hok
    · obtain rfl := Except.ok.inj hok
      exact growing_addColumn h name
    · split at hok
      · obtain rfl := Except.ok.inj hok
        exact ⟨h, rfl, rfl⟩
      · rename_i rel hrel
        dsimp only at hok
        split at hok
        · rename_i hdeep
          obtain rfl := Except.ok.inj hok
          exact ⟨growing_cut h hdeep _, rfl, rfl⟩
        · rename_i hdeep
          split at hok
          · cases hok
          · split at hok
            · cases hok
            · rename_i start hstart
              split at hok
              · cases hok
              · rename_i child warnings' hchild
                obtain rfl := Except.ok.inj hok
                obtain ⟨-, -, hrelation, hone⟩ := level_eq_ok hstart
                have hstarted : Growing maxDepth (depth + 1) start := growing_of_level hstart
                obtain ⟨hgrown, hsame⟩ := growing_addFields fields hstarted (by rw [hchild])
                exact ⟨growing_put h hdeep _ hgrown.planned (hsame.1.trans hrelation)
                  fun h => hsame.2.trans (hone rel rfl h), rfl, rfl⟩

end

/-- Every plan that planning comes to is planned. -/
theorem planned_ofSelection {table : String} {s : Selection} {args : Members Value} {n : Node}
    (h : (ofSelection r maxDepth table s args).1 = .ok n) : n.Planned := by
  rw [ofSelection] at h
  split at h
  · cases h
  · split at h
    · cases h
    · rename_i start hstart
      have hstarted : Growing maxDepth 0 start := growing_of_level hstart
      exact (growing_addFields s.fields hstarted h).1.planned

end Plan
end RelGraph
