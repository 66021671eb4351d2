import RelGraph.Graphql.Coercion
import RelGraph.Proofs.Outcome
import RelGraph.Proofs.Value
/-!
Coercion of what is written in more than one way. Arguments state the same values in whatever order
they are written, and so do the members of objects: what they come to is alike.
-/
namespace RelGraph.Graphql

open Outcome
open Value (BothAlike alike_list alike_object alike_object_of_get? alike_self bothAlike_self)

/-- Literals that state the same value: objects may have their members in any order. -/
inductive Literal.Agree : Literal → Literal → Prop
  | refl (l : Literal) : Agree l l
  | list {ls ls' : List Literal} (h : List.Forall₂ Agree ls ls') : Agree (.list ls) (.list ls')
  | object {ms ms' : Members Literal} (hnames : (Members.names ms).Nodup)
      (hnames' : (Members.names ms').Nodup)
      (h : ∀ key, Option.Rel Agree (Members.get? ms key) (Members.get? ms' key)) :
      Agree (.object ms) (.object ms')

/-- Arguments that state the same values, in any order. -/
def Arguments.Agree (a b : Arguments) : Prop := Literal.Agree (.object a) (.object b)

namespace Coercion

variable {s : Schema} {defaults : Defaults} {vars : Variables} {given : Given} {l l' : Literal}
  {ls ls' : List Literal} {ms ms' : Members Literal} {t : TypeExpr} {fields : List InputDefinition}
  {key : String}

theorem isUnset_of_agree (h : Literal.Agree l l') (isSet : String → Bool) :
    l.isUnset isSet = l'.isUnset isSet := by
  cases h <;> rfl

theorem sizeOf_of_get? (h : Members.get? ms key = some l) : sizeOf l < sizeOf ms := by
  have hmem := List.sizeOf_lt_of_mem (Members.mem_of_get? h)
  simp at hmem
  omega

/-! ## Values that literals spell by themselves -/

theorem names_untypedMembers :
    (Members.names (untypedMembers given ms)).Sublist (Members.names ms) := by
  induction ms with
  | nil => exact .slnil
  | cons kv rest ih =>
    rw [untypedMembers]
    split
    · exact ih.cons _
    · exact ih.cons_cons _

theorem get?_untypedMembers (hnames : (Members.names ms).Nodup) (key : String) :
    Members.get? (untypedMembers given ms) key = (Members.get? ms key).bind fun l =>
      if l.isUnset fun name => (given name).isSome then none else some (l.untyped given) := by
  induction ms with
  | nil => rfl
  | cons kv rest ih =>
    obtain ⟨k, l⟩ := kv
    obtain ⟨hk, hrest⟩ := List.nodup_cons.mp hnames
    rw [untypedMembers]
    by_cases hkey : k = key
    · subst hkey
      split
      · rename_i hunset
        simp [Members.get?, ih hrest, Members.get?_eq_none.mpr hk, hunset]
      · rename_i hunset
        simp [Members.get?, hunset]
    · split <;> simp [Members.get?, hkey, ih hrest]

mutual

theorem untyped_alike {l l' : Literal} (h : Literal.Agree l l') :
    Value.alike (l.untyped given) (l'.untyped given) = true := by
  match h with
  | .refl l => exact alike_self _
  | .list h =>
    rw [Literal.untyped, Literal.untyped]
    exact alike_list (untypedItems_alike h)
  | @Literal.Agree.object ms ms' hnames hnames' h =>
    rw [Literal.untyped, Literal.untyped]
    have hpairs : ∀ {ms : Members Literal}, (Members.names ms).Nodup → ∀ key,
        Members.get? (Members.ofPairs (untypedMembers given ms)) key =
          (Members.get? ms key).bind fun l =>
            if l.isUnset fun name => (given name).isSome then none else some (l.untyped given) :=
      fun hnames key => by
        rw [Members.get?_ofPairs (hnames.sublist names_untypedMembers),
          get?_untypedMembers hnames]
    refine alike_object_of_get? (Members.nodup_names_update .nil)
      (Members.nodup_names_update .nil) fun key => ?_
    rw [hpairs hnames, hpairs hnames']
    have hkey := h key
    generalize hget : Members.get? ms key = l at hkey
    generalize Members.get? ms' key = l' at hkey
    cases hkey with
    | none => exact .none
    | some hl =>
      have hlt := sizeOf_of_get? hget
      simp only [Option.bind_some, isUnset_of_agree hl]
      split
      · exact .none
      · exact .some (untyped_alike hl)
termination_by sizeOf l
decreasing_by all_goals simp_wf <;> omega

theorem untypedItems_alike {ls ls' : List Literal} (h : List.Forall₂ Literal.Agree ls ls') :
    List.Forall₂ (fun a b => Value.alike a b = true) (untypedItems given ls)
      (untypedItems given ls') := by
  match h with
  | .nil => exact .nil
  | .cons hl hrest => exact .cons (untyped_alike hl) (untypedItems_alike hrest)
termination_by sizeOf ls
decreasing_by all_goals simp_wf <;> omega

end

/-! ## Literals as types ask for them -/

/-- A list or an object is nothing to a scalar but to one that takes anything. -/
theorem readLiteral_of_untyped (scalar : Scalar)
    (hl : (∃ ls, l = .list ls) ∨ ∃ ms, l = .object ms) :
    (scalar.readLiteral given l).toOption =
      if scalar.rule = .anything then some (l.untyped given) else none := by
  obtain ⟨rule, lenient⟩ := scalar
  rcases hl with ⟨ls, rfl⟩ | ⟨ms, rfl⟩ <;> cases rule <;> rfl

theorem readLiteral_alike (scalar : Scalar) (h : Literal.Agree l l') :
    BothAlike (scalar.readLiteral given l).toOption (scalar.readLiteral given l').toOption := by
  have halike : Value.alike (l.untyped given) (l'.untyped given) = true := untyped_alike h
  cases h with
  | refl => exact bothAlike_self _
  | list h =>
    rw [readLiteral_of_untyped scalar (.inl ⟨_, rfl⟩),
      readLiteral_of_untyped scalar (.inl ⟨_, rfl⟩)]
    split
    · exact .some halike
    · exact .none
  | object hnames hnames' h =>
    rw [readLiteral_of_untyped scalar (.inr ⟨_, rfl⟩),
      readLiteral_of_untyped scalar (.inr ⟨_, rfl⟩)]
    split
    · exact .some halike
    · exact .none

theorem leafAs_alike (h : Literal.Agree l l') (t : TypeExpr) :
    BothAlike (leafAs s vars t l) (leafAs s vars t l') := by
  induction t with
  | nonNull inner ih =>
    rw [leafAs, leafAs]
    exact ih
  | list item ih =>
    rw [leafAs, leafAs]
    exact rel_map ih fun a b hab => alike_list (.cons hab .nil)
  | named name =>
    rw [leafAs.eq_def, leafAs.eq_def s vars (.named name) l']
    dsimp only
    cases s.type? name with
    | none => exact .none
    | some t =>
      cases t with
      | scalar scalar => exact readLiteral_alike scalar h
      | choice values => cases h with
        | refl => exact bothAlike_self _
        | list | object => exact .none
      | _ => exact .none

/-- Two literals that come to what is alike, whatever type asks for them. -/
def ComeAlike (s : Schema) (defaults : Defaults) (vars : Variables) (l l' : Literal) : Prop :=
  l.isUnset (Members.has vars.coerced) = l'.isUnset (Members.has vars.coerced) ∧
    ∀ t, BothAlike (literalAs s defaults vars t l) (literalAs s defaults vars t l')

theorem itemsAs_alike (h : List.Forall₂ (ComeAlike s defaults vars) ls ls') :
    Option.Rel (List.Forall₂ fun a b => Value.alike a b = true)
      (itemsAs s defaults vars t ls) (itemsAs s defaults vars t ls') := by
  induction h with
  | nil =>
    rw [itemsAs]
    exact .some .nil
  | @cons l l' ls ls' hl _ ih =>
    have hrest : ∀ v v', Value.alike v v' = true →
        Option.Rel (List.Forall₂ fun a b => Value.alike a b = true)
          (do return v :: (← itemsAs s defaults vars t ls))
          (do return v' :: (← itemsAs s defaults vars t ls')) :=
      fun v v' hv => rel_bind ih fun vs vs' hvs => .some (.cons hv hvs)
    rw [itemsAs, itemsAs, hl.1]
    split
    · exact rel_bind (.some (alike_self _)) hrest
    · exact rel_bind (hl.2 t) hrest

theorem listAs_alike (h : List.Forall₂ (ComeAlike s defaults vars) ls ls')
    (hleaf : ∀ t, BothAlike (leafAs s vars t (.list ls)) (leafAs s vars t (.list ls')))
    (t : TypeExpr) :
    BothAlike (listAs s defaults vars t ls) (listAs s defaults vars t ls') := by
  induction t with
  | nonNull inner ih =>
    rw [listAs, listAs]
    exact ih
  | list item =>
    rw [listAs, listAs]
    exact rel_map (itemsAs_alike h) fun _ _ => alike_list
  | named name =>
    rw [listAs, listAs]
    exact hleaf _

/-! ### Objects -/

/-- What a member of an object literal comes to; nothing, if its variable was given nothing. -/
def memberAs (s : Schema) (defaults : Defaults) (vars : Variables) (fields : List InputDefinition)
    (key : String) (l : Literal) : Option (Option Value) := do
  let d ← fields.find? (·.name = key)
  if l.isUnset (Members.has vars.coerced) then return none
  else (literalAs s defaults vars d.type l).map some

theorem memberAs_alike (h : ComeAlike s defaults vars l l') :
    Option.Rel BothAlike (memberAs s defaults vars fields key l)
      (memberAs s defaults vars fields key l') := by
  rw [memberAs, memberAs]
  cases fields.find? (·.name = key) with
  | none => exact .none
  | some d =>
    simp only [Option.bind_eq_bind, Option.bind_some, h.1]
    split
    · exact .some .none
    · exact rel_map (h.2 d.type) fun _ _ hv => Option.Rel.some hv

theorem membersAs_cons (hkey : key ∉ Members.names ms) :
    membersAs s defaults vars fields ((key, l) :: ms) =
      (memberAs s defaults vars fields key l).bind fun v =>
        (membersAs s defaults vars fields ms).map fun given => v.toList.map (key, ·) ++ given := by
  have hhas : Members.has ms key = false := by
    rw [Members.has, Members.get?_eq_none.mpr hkey]
    rfl
  rw [membersAs, memberAs, hhas]
  cases fields.find? (·.name = key) with
  | none => rfl
  | some d =>
    by_cases hunset : l.isUnset (Members.has vars.coerced)
    · simp [hunset]
    · simp only [Bool.or_false, Option.bind_eq_bind, Option.bind_some, hunset, Bool.false_eq_true,
        if_false, Option.bind_map]
      cases literalAs s defaults vars d.type l with
      | none => rfl
      | some v => cases membersAs s defaults vars fields ms <;> rfl

/-- Members come to what each of them comes to under its name. -/
theorem get?_membersAs (hnames : (Members.names ms).Nodup) {given : Members Value}
    (h : membersAs s defaults vars fields ms = some given) (key : String) :
    Members.get? given key = (Members.get? ms key).bind fun l =>
      (memberAs s defaults vars fields key l).join := by
  induction ms generalizing given with
  | nil =>
    rw [membersAs] at h
    rw [← Option.some.inj h]
    rfl
  | cons kv rest ih =>
    obtain ⟨k, l⟩ := kv
    obtain ⟨hk, hrest⟩ := List.nodup_cons.mp hnames
    rw [membersAs_cons hk] at h
    obtain ⟨v, hv, h⟩ := Option.bind_eq_some_iff.mp h
    obtain ⟨given, hgiven, rfl⟩ := Option.map_eq_some_iff.mp h
    by_cases hkey : k = key
    · subst hkey
      have hnone : Members.get? given k = none := by
        rw [ih hrest hgiven, Members.get?_eq_none.mpr hk]
        rfl
      cases v <;> simp [Members.get?, hv, hnone]
    · cases v <;> simp [Members.get?, hkey, ih hrest hgiven]

theorem isSome_membersAs (hnames : (Members.names ms).Nodup) :
    (membersAs s defaults vars fields ms).isSome ↔
      ∀ key l, Members.get? ms key = some l → (memberAs s defaults vars fields key l).isSome := by
  rw [Members.forall_get?_iff hnames]
  induction ms with
  | nil => simp [membersAs]
  | cons kv rest ih =>
    obtain ⟨hk, hrest⟩ := List.nodup_cons.mp hnames
    rw [membersAs_cons hk, List.forall_mem_cons, ← ih hrest]
    cases memberAs s defaults vars fields kv.1 kv.2 <;> simp

/-- Objects with members that come to the same come to the same. -/
theorem membersAs_alike (hnames : (Members.names ms).Nodup) (hnames' : (Members.names ms').Nodup)
    (h : ∀ key, Option.Rel (ComeAlike s defaults vars) (Members.get? ms key)
      (Members.get? ms' key)) :
    Option.Rel (fun given given' => ∀ key,
        BothAlike (Members.get? given key) (Members.get? given' key))
      (membersAs s defaults vars fields ms) (membersAs s defaults vars fields ms') := by
  have hsome : (membersAs s defaults vars fields ms).isSome =
      (membersAs s defaults vars fields ms').isSome := by
    rw [Bool.eq_iff_iff, isSome_membersAs hnames, isSome_membersAs hnames']
    refine forall_congr' fun key => ?_
    have hkey := h key
    generalize Members.get? ms key = l at hkey
    generalize Members.get? ms' key = l' at hkey
    cases hkey with
    | none => simp
    | some hl => simp [isSome_of_rel (memberAs_alike hl)]
  refine rel_of_isSome hsome fun given given' hgiven hgiven' key => ?_
  rw [get?_membersAs hnames hgiven, get?_membersAs hnames' hgiven']
  exact rel_bind (h key) fun l l' hl => rel_bind (memberAs_alike hl) fun _ _ hv => hv

/-- In the order of their type, members that are alike make objects that are alike. -/
theorem inOrder_alike {given given' : Members Value}
    (h : ∀ key, BothAlike (Members.get? given key) (Members.get? given' key)) :
    Option.Rel (List.Forall₂ fun a b => a.1 = b.1 ∧ Value.alike a.2 b.2 = true)
      (inOrder defaults given fields) (inOrder defaults given' fields) := by
  induction fields with
  | nil => exact .some .nil
  | cons d fields ih =>
    rw [inOrder, inOrder]
    refine rel_bind ih fun rest rest' hrest => ?_
    have hd := h d.name
    generalize Members.get? given d.name = v at hd
    generalize Members.get? given' d.name = v' at hd
    cases hd with
    | some hv => exact .some (.cons ⟨rfl, hv⟩ hrest)
    | none =>
      cases d.default? with
      | none =>
        dsimp only
        split
        · exact .none
        · exact .some hrest
      | some l =>
        exact rel_bind (bothAlike_self _) fun v v' hv => .some (.cons ⟨rfl, hv⟩ hrest)

theorem objectAs_alike (hnames : (Members.names ms).Nodup) (hnames' : (Members.names ms').Nodup)
    (h : ∀ key, Option.Rel (ComeAlike s defaults vars) (Members.get? ms key)
      (Members.get? ms' key))
    (hleaf : ∀ t, BothAlike (leafAs s vars t (.object ms)) (leafAs s vars t (.object ms')))
    (t : TypeExpr) :
    BothAlike (objectAs s defaults vars t ms) (objectAs s defaults vars t ms') := by
  induction t with
  | nonNull inner ih =>
    rw [objectAs, objectAs]
    exact ih
  | list item ih =>
    rw [objectAs, objectAs]
    exact rel_map ih fun _ _ hv => alike_list (.cons hv .nil)
  | named name =>
    rw [objectAs, objectAs]
    split
    · exact rel_bind (membersAs_alike hnames hnames' h) fun given given' hgiven =>
        rel_bind (inOrder_alike hgiven) fun ms ms' hms => .some (alike_object hms)
    · exact hleaf _

mutual

/-- Literals that state the same value come to values that are alike. -/
theorem literalAs_alike {l l' : Literal} (h : Literal.Agree l l') :
    ComeAlike s defaults vars l l' := by
  refine ⟨isUnset_of_agree h _, fun t => ?_⟩
  match h with
  | .refl l => exact bothAlike_self _
  | .list hls =>
    rw [literalAs, literalAs]
    exact listAs_alike (literalsAs_alike hls) (leafAs_alike (.list hls)) t
  | @Literal.Agree.object ms ms' hnames hnames' hms =>
    rw [literalAs, literalAs]
    refine objectAs_alike hnames hnames' (fun key => ?_)
      (leafAs_alike (.object hnames hnames' hms)) t
    have hkey := hms key
    generalize hget : Members.get? ms key = l at hkey
    generalize Members.get? ms' key = l' at hkey
    cases hkey with
    | none => exact .none
    | some hl =>
      have hlt := sizeOf_of_get? hget
      exact .some (literalAs_alike hl)
termination_by sizeOf l
decreasing_by all_goals simp_wf <;> omega

theorem literalsAs_alike {ls ls' : List Literal} (h : List.Forall₂ Literal.Agree ls ls') :
    List.Forall₂ (ComeAlike s defaults vars) ls ls' := by
  match h with
  | .nil => exact .nil
  | .cons hl hrest => exact .cons (literalAs_alike hl) (literalsAs_alike hrest)
termination_by sizeOf ls
decreasing_by all_goals simp_wf <;> omega

end

/-! ## Arguments -/

variable {a b : Arguments} {definitions : List InputDefinition}

theorem get?_of_agree (h : a.Agree b) (name : String) :
    Option.Rel Literal.Agree (Members.get? (Members.ofPairs a) name)
      (Members.get? (Members.ofPairs b) name) := by
  cases h with
  | refl =>
    cases Members.get? (Members.ofPairs a) name with
    | none => exact .none
    | some l => exact .some (.refl l)
  | object hnames hnames' h =>
    rw [Members.get?_ofPairs hnames, Members.get?_ofPairs hnames']
    exact h name

theorem argumentValue_alike (h : a.Agree b) (d : InputDefinition) :
    Option.Rel BothAlike (argumentValue s vars a d).toOption
      (argumentValue s vars b d).toOption := by
  have hself : ∀ x : Attempt (Option Value), Option.Rel BothAlike x.toOption x.toOption := by
    intro x
    cases x with
    | error => exact .none
    | ok v => exact .some (bothAlike_self v)
  have hname := get?_of_agree h d.name
  rw [argumentValue, argumentValue]
  generalize Members.get? (Members.ofPairs a) d.name = l at hname
  generalize Members.get? (Members.ofPairs b) d.name = l' at hname
  cases hname with
  | none => exact hself _
  | @some l l' hl =>
    have hvalue : BothAlike (literalAs s (Coercion.defaults s) vars d.type l)
        (literalAs s (Coercion.defaults s) vars d.type l') := (literalAs_alike hl).2 d.type
    -- A variable agrees with itself alone, so both sides are left out for it or none is.
    cases hl with
    | refl => exact hself _
    | list | object =>
      dsimp only
      revert hvalue
      generalize literalAs s (Coercion.defaults s) vars d.type _ = v
      generalize literalAs s (Coercion.defaults s) vars d.type _ = v'
      rintro (hv | _)
      · exact .some (.some hv)
      · exact .none

/-- Arguments that state the same values come to values that are alike, or to none. -/
theorem arguments_alike (h : a.Agree b) :
    Option.Rel (fun ms ms' => Value.alike (.object ms) (.object ms') = true)
      (arguments s vars definitions a).toOption (arguments s vars definitions b).toOption := by
  have hfound : Option.Rel
      (List.Forall₂ (Option.Rel fun kv kv' => kv.1 = kv'.1 ∧ Value.alike kv.2 kv'.2 = true))
      (definitions.mapM fun d => do
        return (← argumentValue s vars a d).map (d.name, ·)).toOption
      (definitions.mapM fun d => do
        return (← argumentValue s vars b d).map (d.name, ·)).toOption := by
    induction definitions with
    | nil => exact .some .nil
    | cons d definitions ih =>
      simp only [List.mapM_cons, toOption_bind, Option.bind_assoc]
      refine rel_bind (argumentValue_alike h d) fun v v' hv => ?_
      exact rel_bind (.some (rel_map hv fun _ _ hv => ⟨rfl, hv⟩)) fun kv kv' hkv =>
        rel_bind ih fun kvs kvs' hkvs => .some (.cons hkv hkvs)
  rw [arguments, arguments, toOption_bind, toOption_bind]
  refine rel_bind hfound fun found found' hfound => .some (alike_object ?_)
  exact List.rel_filterMap (fun _ _ hv => hv) hfound

theorem exists_arguments_of_agree (h : a.Agree b) {ms : Members Value}
    (ha : arguments s vars definitions a = .ok ms) :
    ∃ ms', arguments s vars definitions b = .ok ms' ∧
      Value.alike (.object ms) (.object ms') = true := by
  have hrel : Option.Rel _ (arguments s vars definitions a).toOption _ := arguments_alike h
  rw [ha] at hrel
  cases hb : arguments s vars definitions b with
  | error => rw [hb] at hrel; cases hrel
  | ok ms' =>
    rw [hb] at hrel
    cases hrel with
    | some halike => exact ⟨ms', rfl, halike⟩

end Coercion
end RelGraph.Graphql
