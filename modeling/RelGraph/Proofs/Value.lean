import RelGraph.Value
import RelGraph.Proofs.Members
/-!
Values that are alike. Every value is like itself, lists are alike item by item, and objects are
alike that hold the like under the same names, in whatever order.
-/
namespace RelGraph.Value

variable {test : Value → Value → Bool}

/-- Two values of which both are there and alike, or none is there. -/
abbrev BothAlike : Option Value → Option Value → Prop := Option.Rel fun a b => alike a b = true

/-! ## Parts -/

theorem sameItems_of_forall₂ {as bs : List Value}
    (h : List.Forall₂ (fun a b => sameBy test a b = true) as bs) :
    sameItems test as bs = true := by
  induction h with
  | nil => simp [sameItems]
  | cons hab _ ih => simp [sameItems, hab, ih]

theorem sameMembers_of_forall₂ {ms ms' : Members Value}
    (h : List.Forall₂ (fun a b => a.1 = b.1 ∧ sameBy test a.2 b.2 = true) ms ms') :
    sameMembers test ms ms' = true := by
  induction h with
  | nil => simp [sameMembers]
  | @cons a b ms ms' hab _ ih =>
    obtain ⟨k, v⟩ := a
    obtain ⟨k', w⟩ := b
    obtain ⟨rfl, hvw⟩ := hab
    simp [sameMembers, takeMember, hvw, ih]

theorem takeMember_eq {found : Value → Bool} {ms : Members Value} {key : String} {v : Value}
    (hnames : (Members.names ms).Nodup) (hv : Members.get? ms key = some v)
    (hfound : found v = true) : takeMember found key ms = some (Members.erase ms key) := by
  induction ms with
  | nil => cases hv
  | cons kv rest ih =>
    obtain ⟨k, w⟩ := kv
    obtain ⟨hk, hrest⟩ := List.nodup_cons.mp hnames
    rw [takeMember, Members.erase_cons]
    split
    · rename_i heq
      subst heq
      obtain rfl : w = v := by simpa [Members.get?] using hv
      rw [if_pos hfound, Members.erase_of_not_mem hk]
    · rename_i hne
      rw [Members.get?, if_neg hne] at hv
      rw [ih hrest hv]
      rfl

theorem sameMembers_of_get? {ms ms' : Members Value} (hnames : (Members.names ms).Nodup)
    (hnames' : (Members.names ms').Nodup)
    (h : ∀ key, Option.Rel (fun a b => sameBy test a b = true) (Members.get? ms key)
      (Members.get? ms' key)) : sameMembers test ms ms' = true := by
  induction ms generalizing ms' with
  | nil =>
    cases ms' with
    | nil => simp [sameMembers]
    | cons kv rest =>
      have hkey := h kv.1
      simp only [Members.get?, if_true] at hkey
      cases hkey
  | cons kv rest ih =>
    obtain ⟨k, v⟩ := kv
    obtain ⟨hk, hrest⟩ := List.nodup_cons.mp hnames
    have hkey := h k
    simp only [Members.get?, if_true] at hkey
    generalize hw : Members.get? ms' k = w at hkey
    cases hkey with
    | some hvw =>
      rw [sameMembers, takeMember_eq hnames' hw hvw]
      refine ih hrest (Members.nodup_names_erase hnames') fun key => ?_
      by_cases heq : key = k
      · subst heq
        rw [Members.get?_eq_none.mpr hk, Members.get?_erase_self]
        exact .none
      · rw [Members.get?_erase_of_ne heq]
        simpa [Members.get?, Ne.symm heq] using h key

/-! ## Likeness -/

theorem alike_list {as bs : List Value}
    (h : List.Forall₂ (fun a b => alike a b = true) as bs) :
    alike (.list as) (.list bs) = true := by
  rw [alike, sameBy]
  exact sameItems_of_forall₂ h

theorem alike_object {ms ms' : Members Value}
    (h : List.Forall₂ (fun a b => a.1 = b.1 ∧ alike a.2 b.2 = true) ms ms') :
    alike (.object ms) (.object ms') = true := by
  rw [alike, sameBy]
  exact sameMembers_of_forall₂ h

theorem alike_object_of_get? {ms ms' : Members Value} (hnames : (Members.names ms).Nodup)
    (hnames' : (Members.names ms').Nodup)
    (h : ∀ key, BothAlike (Members.get? ms key) (Members.get? ms' key)) :
    alike (.object ms) (.object ms') = true := by
  rw [alike, sameBy]
  exact sameMembers_of_get? hnames hnames' h

/-- A value that is no list and no object is equal to itself, unless it is a failed computation. -/
theorem sameScalar_self_or_nan (v : Value) (hitems : v.items? = none)
    (hmembers : v.members? = none) : (sameScalar v v || sameNan v v) = true := by
  cases v with
  | float x => cases x <;> simp [sameScalar, ratio?, Binary64.ratio?, sameNan]
  | decimal d => cases d <;> simp [sameScalar, ratio?, Decimal.ratio?, sameNan]
  | list | tuple => cases hitems
  | object => cases hmembers
  | _ => simp [sameScalar, ratio?]

mutual

theorem alike_self : ∀ v : Value, alike v v = true
  | .list items => alike_list (alike_items_self items)
  | .tuple items => by
    rw [alike, sameBy]
    exact sameItems_of_forall₂ (alike_items_self items)
  | .object members => alike_object (alike_members_self members)
  | .null | .bool _ | .int _ | .float _ | .decimal _ | .text _ | .bytes _ | .date _ | .moment _
  | .time _ | .uuid _ => by
    rw [alike, sameBy]
    · exact sameScalar_self_or_nan _ rfl rfl
    all_goals simp

theorem alike_items_self : ∀ items : List Value,
    List.Forall₂ (fun a b => alike a b = true) items items
  | [] => .nil
  | v :: rest => .cons (alike_self v) (alike_items_self rest)

theorem alike_members_self : ∀ members : List (String × Value),
    List.Forall₂ (fun a b => a.1 = b.1 ∧ alike a.2 b.2 = true) members members
  | [] => .nil
  | (_, v) :: rest => .cons ⟨rfl, alike_self v⟩ (alike_members_self rest)

end

theorem bothAlike_self (v : Option Value) : BothAlike v v := by
  cases v with
  | none => exact .none
  | some v => exact .some (alike_self v)

end RelGraph.Value
