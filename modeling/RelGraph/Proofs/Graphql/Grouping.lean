import RelGraph.Graphql.Collection
import RelGraph.Proofs.Members
import RelGraph.Proofs.Outcome
import RelGraph.Proofs.Repetition
import Mathlib.Data.List.Induction
/-!
Fields by response key. To write what each field comes to under its key, one after the other, is to
go through the fields of each key; and repetitions of fields change no key and no first field.
-/
namespace RelGraph.Graphql

open Outcome

variable {nodes kept all seen : List FieldNode} {x : FieldNode} {groups groups' : FieldGroups}
  {key : String} {ns : List FieldNode}

/-- Fields by response key, in the order in which the keys come up. -/
def groupsOf (nodes : List FieldNode) : FieldGroups := nodes.foldl FieldGroups.add []

theorem groupsOf_concat (nodes : List FieldNode) (x : FieldNode) :
    groupsOf (nodes ++ [x]) = (groupsOf nodes).add x :=
  List.foldl_concat ..

theorem mem_getD_of_mem (h : x ∈ (Members.get? groups key).getD []) :
    ∃ ns, Members.get? groups key = some ns ∧ x ∈ ns := by
  cases hget : Members.get? groups key with
  | none => simp [hget] at h
  | some ns => exact ⟨ns, rfl, by simpa [hget] using h⟩

/-- What holds of all fields holds of them with another of which it holds. -/
theorem forall_mem_add {P : FieldNode → Prop} (h : ∀ g ∈ groups, ∀ y ∈ g.2, P y) (hx : P x) :
    ∀ g ∈ groups.add x, ∀ y ∈ g.2, P y := by
  intro g hg y hy
  rcases Members.mem_put hg with rfl | hg
  · rcases List.mem_append.mp hy with hy | hy
    · obtain ⟨ns, hns, hy⟩ := mem_getD_of_mem hy
      exact h _ (Members.mem_of_get? hns) y hy
    · obtain rfl := List.mem_singleton.mp hy
      exact hx
  · exact h g hg y hy

theorem getD_get?_add (x : FieldNode) (key : String) :
    (Members.get? (groups.add x) key).getD [] =
      (Members.get? groups key).getD [] ++ if key = x.key then [x] else [] := by
  rw [FieldGroups.add]
  split
  · rename_i heq
    subst heq
    rw [Members.get?_put_self, Option.getD_some]
  · rename_i hne
    rw [Members.get?_put_of_ne _ _ hne, List.append_nil]

theorem nodup_names_groupsOf (nodes : List FieldNode) :
    (Members.names (groupsOf nodes)).Nodup := by
  induction nodes using List.reverseRecOn with
  | nil => exact .nil
  | append_singleton nodes x ih =>
    rw [groupsOf_concat]
    exact Members.nodup_names_put ih

/-- The group of a key holds fields of the key, and some. -/
theorem of_mem_groupsOf (h : (key, ns) ∈ groupsOf nodes) :
    ns ≠ [] ∧ ∀ x ∈ ns, x ∈ nodes ∧ x.key = key := by
  induction nodes using List.reverseRecOn generalizing key ns with
  | nil => cases h
  | append_singleton nodes x ih =>
    rw [groupsOf_concat] at h
    rcases Members.mem_put h with heq | h
    · obtain ⟨rfl, rfl⟩ := Prod.mk.inj heq
      refine ⟨by simp, fun y hy => ?_⟩
      rcases List.mem_append.mp hy with hy | hy
      · obtain ⟨ns, hns, hy⟩ := mem_getD_of_mem hy
        obtain ⟨hmem, hkey⟩ := (ih (Members.mem_of_get? hns)).2 y hy
        exact ⟨List.mem_append_left _ hmem, hkey⟩
      · obtain rfl := List.mem_singleton.mp hy
        exact ⟨by simp, rfl⟩
    · obtain ⟨hne, hns⟩ := ih h
      exact ⟨hne, fun y hy => ⟨List.mem_append_left _ (hns y hy).1, (hns y hy).2⟩⟩

/-- Fields of a kind can be told apart before or after they are put under their keys, if all of one
key are of a kind. -/
theorem groupsOf_filter (p : FieldNode → Bool)
    (h : ∀ x ∈ nodes, ∀ y ∈ nodes, x.key = y.key → p x = p y) :
    groupsOf (nodes.filter p) = (groupsOf nodes).filter fun g => g.2.head?.any p := by
  induction nodes using List.reverseRecOn with
  | nil => rfl
  | append_singleton nodes x ih =>
    have ih := ih fun y hy z hz => h y (List.mem_append_left _ hy) z (List.mem_append_left _ hz)
    have hgroup : ∀ ns, (x.key, ns) ∈ groupsOf nodes → ns.head?.any p = p x := by
      intro ns hns
      obtain ⟨hne, hof⟩ := of_mem_groupsOf hns
      obtain ⟨y, ns, rfl⟩ := List.exists_cons_of_ne_nil hne
      obtain ⟨hy, hkey⟩ := hof y (by simp)
      exact h y (List.mem_append_left _ hy) x (by simp) hkey
    have hnew : ((Members.get? (groupsOf nodes) x.key).getD [] ++ [x]).head?.any p = p x := by
      cases hget : Members.get? (groupsOf nodes) x.key with
      | none => rfl
      | some ns =>
        have hns := Members.mem_of_get? hget
        obtain ⟨y, ns, rfl⟩ := List.exists_cons_of_ne_nil (of_mem_groupsOf hns).1
        exact hgroup (y :: ns) hns
    rw [groupsOf_concat, FieldGroups.add, List.filter_append]
    cases hx : p x with
    | true =>
      rw [List.filter_cons_of_pos hx, List.filter_nil, groupsOf_concat, ih, FieldGroups.add,
        Members.get?_filter fun ns hns => (hgroup ns hns).trans hx,
        Members.filter_put (hnew.trans hx) fun ns hns => (hgroup ns hns).trans hx]
    | false =>
      rw [List.filter_cons_of_neg (by simp [hx]), List.filter_nil, List.append_nil, ih,
        Members.filter_put_of_not (hnew.trans hx) fun ns hns => (hgroup ns hns).trans hx]

/-! ## Repetitions -/

/-- Two groups of one key of which one has what the other has, without some repetitions. -/
def GroupThins (a b : String × List FieldNode) : Prop := a.1 = b.1 ∧ Thins [] a.2 b.2

theorem foldl_add_thins (h : Thins seen kept all) (hgroups : List.Forall₂ GroupThins groups groups')
    (hseen : ∀ x ∈ seen, x ∈ (Members.get? groups x.key).getD []) :
    List.Forall₂ GroupThins (kept.foldl FieldGroups.add groups)
      (all.foldl FieldGroups.add groups') := by
  have hget : ∀ {groups groups' : FieldGroups}, List.Forall₂ GroupThins groups groups' → ∀ key,
      Thins [] ((Members.get? groups key).getD []) ((Members.get? groups' key).getD []) := by
    intro groups groups' h key
    have hrel : Option.Rel _ (Members.get? groups key) _ :=
      Members.rel_get? h fun _ _ hab => hab.1
    generalize Members.get? groups key = ns at hrel
    generalize Members.get? groups' key = ns' at hrel
    cases hrel with
    | none => exact .nil
    | some hns => exact hns.2
  induction h generalizing groups groups' with
  | nil => exact hgroups
  | @keep seen kept all x _ ih =>
    refine ih ?_ ?_
    · exact Members.forall₂_put hgroups (fun _ _ hab => hab.1)
        ⟨rfl, (hget hgroups x.key).append (.refl _ _)⟩
    · intro y hy
      rw [getD_get?_add, List.mem_append]
      rcases List.mem_cons.mp hy with rfl | hy
      · exact .inr (by simp)
      · exact .inl (hseen y hy)
  | @drop seen kept all x hx _ ih =>
    obtain ⟨ns, hns, hmem⟩ := mem_getD_of_mem (hseen x hx)
    refine ih ?_ hseen
    rw [← Members.put_self hns]
    refine Members.forall₂_put hgroups (fun _ _ hab => hab.1) ⟨rfl, ?_⟩
    have hthins := hget hgroups x.key
    rw [hns] at hthins
    have hdrop : Thins (ns ++ []) [] [x] := .drop (by simpa using hmem) .nil
    simpa using hthins.append hdrop

/-- Repetitions change no key, and no group but for repetitions. -/
theorem groupsOf_thins (h : Thins [] kept all) :
    List.Forall₂ GroupThins (groupsOf kept) (groupsOf all) :=
  foldl_add_thins h .nil (by simp)

/-! ## What fields come to -/

section Gathering

variable {ε σ : Type} {step : Option σ → FieldNode → Except ε σ} {found : Members σ}

/-- What fields come to under their keys, one after the other; each goes by what its key has come to
before. -/
def gatherAll (step : Option σ → FieldNode → Except ε σ) (nodes : List FieldNode) :
    Except ε (Members σ) :=
  nodes.foldlM (fun found x => do
    return Members.put found x.key (← step (Members.get? found x.key) x)) []

/-- What the fields of one key come to. -/
def gatherOne (step : Option σ → FieldNode → Except ε σ) (nodes : List FieldNode) :
    Except ε (Option σ) :=
  nodes.foldlM (fun before x => do return some (← step before x)) none

/-- Whether a member is what the fields of its key come to. -/
def Gathers (step : Option σ → FieldNode → Except ε σ) (g : String × List FieldNode)
    (kv : String × σ) : Prop :=
  g.1 = kv.1 ∧ gatherOne step g.2 = .ok (some kv.2)

theorem gatherAll_concat (nodes : List FieldNode) (x : FieldNode) :
    gatherAll step (nodes ++ [x]) = gatherAll step nodes >>= fun found => do
      return Members.put found x.key (← step (Members.get? found x.key) x) := by
  rw [gatherAll, List.foldlM_append]
  simp [gatherAll]

theorem gatherOne_concat (nodes : List FieldNode) (x : FieldNode) :
    gatherOne step (nodes ++ [x]) = gatherOne step nodes >>= fun before => do
      return some (← step before x) := by
  rw [gatherOne, List.foldlM_append]
  simp [gatherOne]

theorem exists_of_gatherOne {v : Option σ} (h : gatherOne step nodes = .ok v) (hne : nodes ≠ []) :
    ∃ w, v = some w := by
  rw [← List.dropLast_concat_getLast hne, gatherOne_concat] at h
  obtain ⟨before, -, h⟩ := bind_eq_ok.mp h
  obtain ⟨w, -, h⟩ := bind_eq_ok.mp h
  exact ⟨w, (pure_eq_ok.mp h).symm⟩

/-- What has been gathered under a key is what the fields of the key come to. -/
theorem gatherOne_of_forall₂ (h : List.Forall₂ (Gathers step) groups found) (key : String) :
    gatherOne step ((Members.get? groups key).getD []) = .ok (Members.get? found key) := by
  have hrel : Option.Rel _ (Members.get? groups key) _ :=
    Members.rel_get? h fun _ _ hab => hab.1
  generalize Members.get? groups key = ns at hrel
  generalize Members.get? found key = v at hrel
  cases hrel with
  | none => rfl
  | some hns => exact hns.2

theorem forall₂_of_gatherAll (h : gatherAll step nodes = .ok found) :
    List.Forall₂ (Gathers step) (groupsOf nodes) found := by
  induction nodes using List.reverseRecOn generalizing found with
  | nil =>
    obtain rfl := pure_eq_ok.mp h
    exact .nil
  | append_singleton nodes x ih =>
    rw [gatherAll_concat] at h
    obtain ⟨before, hbefore, h⟩ := bind_eq_ok.mp h
    obtain ⟨v, hv, h⟩ := bind_eq_ok.mp h
    obtain rfl := pure_eq_ok.mp h
    have hone := gatherOne_of_forall₂ (ih hbefore) x.key
    rw [groupsOf_concat, FieldGroups.add]
    refine Members.forall₂_put (ih hbefore) (fun _ _ hab => hab.1) ⟨rfl, ?_⟩
    rw [gatherOne_concat, hone]
    exact bind_eq_ok.mpr ⟨_, rfl, bind_eq_ok.mpr ⟨v, hv, rfl⟩⟩

theorem exists_gatherAll (h : ∀ g ∈ groupsOf nodes, ∃ v, gatherOne step g.2 = .ok (some v)) :
    ∃ found, gatherAll step nodes = .ok found := by
  induction nodes using List.reverseRecOn with
  | nil => exact ⟨[], rfl⟩
  | append_singleton nodes x ih =>
    -- The group of the key of the last field is the one that has grown.
    have hlast : ∃ v, gatherOne step ((Members.get? (groupsOf nodes) x.key).getD [] ++ [x]) =
        .ok (some v) := h _ (by
      rw [groupsOf_concat, FieldGroups.add]
      exact Members.mem_of_get? (Members.get?_put_self ..))
    obtain ⟨v, hv⟩ := hlast
    rw [gatherOne_concat] at hv
    obtain ⟨before, hbefore, hv⟩ := bind_eq_ok.mp hv
    obtain ⟨w, hw, -⟩ := bind_eq_ok.mp hv
    have hothers : ∀ g ∈ groupsOf nodes, ∃ v, gatherOne step g.2 = .ok (some v) := by
      rintro ⟨key, ns⟩ hg
      have hget := Members.get?_of_mem (nodup_names_groupsOf nodes) hg
      by_cases hkey : key = x.key
      · subst hkey
        rw [hget, Option.getD_some] at hbefore
        obtain ⟨u, rfl⟩ := exists_of_gatherOne hbefore (of_mem_groupsOf hg).1
        exact ⟨u, hbefore⟩
      · refine h (key, ns) ?_
        rw [groupsOf_concat, FieldGroups.add]
        exact Members.mem_of_get? ((Members.get?_put_of_ne _ _ hkey).trans hget)
    obtain ⟨found, hfound⟩ := ih hothers
    have hone := gatherOne_of_forall₂ (forall₂_of_gatherAll hfound) x.key
    obtain rfl := Except.ok.inj (hone.symm.trans hbefore)
    rw [gatherAll_concat, hfound]
    exact ⟨_, bind_eq_ok.mpr ⟨_, rfl, bind_eq_ok.mpr ⟨w, hw, rfl⟩⟩⟩

/-- To go through all fields is to go through the fields of each key. -/
theorem gatherAll_eq_ok :
    gatherAll step nodes = .ok found ↔ List.Forall₂ (Gathers step) (groupsOf nodes) found := by
  refine ⟨forall₂_of_gatherAll, fun h => ?_⟩
  obtain ⟨found', hfound'⟩ := exists_gatherAll fun g hg => by
    obtain ⟨kv, -, -, hone⟩ := exists_of_forall₂ h hg
    exact ⟨_, hone⟩
  have hunique : Relator.RightUnique (Gathers step) := fun g kv kv' h h' =>
    Prod.ext (h.1.symm.trans h'.1) (Option.some.inj (Except.ok.inj (h.2.symm.trans h'.2)))
  rw [hfound', hunique.forall₂ h (forall₂_of_gatherAll hfound')]

end Gathering

end RelGraph.Graphql
