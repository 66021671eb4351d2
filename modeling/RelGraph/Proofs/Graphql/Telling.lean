import RelGraph.Proofs.Graphql.Collection
/-!
What a resolver is told of the fields that are left in. Later entries of a selection never take back
what earlier ones have told: every key keeps its field, and what was told below it. So every field
that execution leaves in, wherever it is written, is in the tree that the resolver is told, at its
level and under its key.
-/
namespace RelGraph.Graphql

open Outcome Entry

variable {s : Schema} {vars : Variables} {type key name : String}
  {found found' found'' : List (String × Selection)}

/-- Execution leaves in only what a resolver is told. -/
theorem isTold_of_isKept {ds : List Directive} (h : isKept vars ds = true) :
    isTold vars ds = .ok true := by
  rw [isKept] at h
  cases hincluded : isIncluded vars ds with
  | error e => simp [hincluded, Except.toOption] at h
  | ok kept =>
    obtain rfl : kept = true := by simpa [hincluded, Except.toOption] using h
    obtain ⟨skip, hskip, hrest⟩ := bind_eq_ok.mp hincluded
    have hnot : ((skip.map Value.truthy).getD false) = false := by
      cases hskips : (skip.map Value.truthy).getD false with
      | false => rfl
      | true =>
        rw [hskips] at hrest
        cases hrest
    rw [hnot, if_neg (by decide)] at hrest
    obtain ⟨stated, hstated, hrest⟩ := bind_eq_ok.mp hrest
    have hkept : (stated.map Value.truthy).getD true = true := pure_eq_ok.mp hrest
    rw [isTold, hskip, hstated]
    dsimp only [bind, Except.bind]
    split
    · simp [Value.truthy] at hnot
    · split
      · simp [Value.truthy] at hkept
      · rfl

/-- Every key keeps its field, and what was told below it. -/
inductive Kept : List (String × Selection) → List (String × Selection) → Prop
  | mk {found found' : List (String × Selection)}
      (name : ∀ key sel, Members.get? found key = some sel →
        (Members.get? found' key).map (·.name) = some sel.name)
      (below : ∀ key sel sel', Members.get? found key = some sel →
        Members.get? found' key = some sel' → Kept sel.fields sel'.fields) : Kept found found'

namespace Kept

theorem refl (found : List (String × Selection)) : Kept found found := by
  refine .mk (fun key sel h => by rw [h]; rfl) fun key sel sel' h h' => ?_
  obtain rfl := Option.some.inj (h.symm.trans h')
  have hsmaller : sizeOf sel.fields < sizeOf found := by
    have hmem := List.sizeOf_lt_of_mem (Members.mem_of_get? h)
    obtain ⟨name, label, args, fields⟩ := sel
    simp only [Prod.mk.sizeOf_spec, Selection.mk.sizeOf_spec] at hmem ⊢
    omega
  exact refl sel.fields
termination_by sizeOf found

theorem trans (h : Kept found found') (h' : Kept found' found'') : Kept found found'' := by
  induction h generalizing found'' with
  | mk hname hbelow ih =>
    cases h' with
    | mk hname' hbelow' =>
      refine .mk (fun key sel hsel => ?_) fun key sel sel'' hsel hsel'' => ?_
      · obtain ⟨sel', hsel', hsame⟩ := Option.map_eq_some_iff.mp (hname key sel hsel)
        rw [hname' key sel' hsel', hsame]
      · obtain ⟨sel', hsel', -⟩ := Option.map_eq_some_iff.mp (hname key sel hsel)
        exact ih key sel sel' hsel hsel' (hbelow' key sel' sel'' hsel' hsel'')

/-- A field that is put under a key keeps what was told there, if it goes on from that. -/
theorem put {sel : Selection}
    (h : ∀ before, Members.get? found key = some before →
      before.name = sel.name ∧ Kept before.fields sel.fields) :
    Kept found (Members.put found key sel) := by
  refine .mk (fun other before hbefore => ?_) fun other before after hbefore hafter => ?_
  · by_cases hother : other = key
    · subst hother
      rw [Members.get?_put_self, (h before hbefore).1]
      rfl
    · rw [Members.get?_put_of_ne _ _ hother, hbefore]
      rfl
  · by_cases hother : other = key
    · subst hother
      rw [Members.get?_put_self] at hafter
      exact Option.some.inj hafter ▸ (h before hbefore).2
    · rw [Members.get?_put_of_ne _ _ hother] at hafter
      exact Option.some.inj (hbefore.symm.trans hafter) ▸ refl _

end Kept

/-- What a resolver is told covers fields of a type: each of them is there under its key, and what is
told below it covers the fields below it that are left in. Fields about the schema need not be. -/
inductive Covers (s : Schema) (vars : Variables) :
    String → List FieldNode → List (String × Selection) → Prop
  | mk {type : String} {nodes : List FieldNode} {found : List (String × Selection)}
      (name : ∀ x ∈ nodes, x.isOwn = true →
        (Members.get? found x.key).map (·.name) = some x.name)
      (below : ∀ x ∈ nodes, ∀ d sel, x.isOwn = true → s.field? type x.name = some d →
        Members.get? found x.key = some sel →
        Covers s vars d.type.name (fieldsIn (isKept vars) x.entries) sel.fields) :
      Covers s vars type nodes found

namespace Covers

variable {nodes more : List FieldNode} {x : FieldNode}

/-- What a resolver has been told of stays. -/
theorem mono (h : Covers s vars type nodes found) (hkept : Kept found found') :
    Covers s vars type nodes found' := by
  induction h generalizing found' with
  | mk hname hbelow ih =>
    cases hkept with
    | mk hname' hbelow' =>
      refine .mk (fun x hx hown => ?_) fun x hx d sel' hown hd hsel' => ?_
      · obtain ⟨sel, hsel, hsame⟩ := Option.map_eq_some_iff.mp (hname x hx hown)
        rw [hname' x.key sel hsel, hsame]
      · obtain ⟨sel, hsel, -⟩ := Option.map_eq_some_iff.mp (hname x hx hown)
        exact ih x hx d sel hown hd hsel (hbelow' x.key sel sel' hsel hsel')

theorem nil : Covers s vars type [] found := .mk (by simp) (by simp)

theorem append (h : Covers s vars type nodes found) (h' : Covers s vars type more found) :
    Covers s vars type (nodes ++ more) found := by
  cases h with
  | mk hname hbelow =>
    cases h' with
    | mk hname' hbelow' =>
      refine .mk (fun x hx => ?_) fun x hx => ?_
      · exact (List.mem_append.mp hx).elim (hname x) (hname' x)
      · exact (List.mem_append.mp hx).elim (hbelow x) (hbelow' x)

theorem subset (h : Covers s vars type more found) (hsub : nodes ⊆ more) :
    Covers s vars type nodes found := by
  cases h with
  | mk hname hbelow =>
    exact .mk (fun x hx => hname x (hsub hx)) fun x hx => hbelow x (hsub hx)

/-- A field about the schema is none that a resolver is told of. -/
theorem of_not_own (h : x.isOwn = false) : Covers s vars type [x] found :=
  .mk (by simp [h]) (by simp [h])

/-- A field is covered by what is told under its key. -/
theorem field {sel : Selection} (hsel : Members.get? found x.key = some sel)
    (hname : sel.name = x.name)
    (hbelow : ∀ d, s.field? type x.name = some d →
      Covers s vars d.type.name (fieldsIn (isKept vars) x.entries) sel.fields) :
    Covers s vars type [x] found := by
  refine .mk (fun y hy _ => ?_) fun y hy d sel' _ hd hsel' => ?_
  · obtain rfl := List.mem_singleton.mp hy
    rw [hsel, Option.map_some, hname]
  · obtain rfl := List.mem_singleton.mp hy
    obtain rfl := Option.some.inj (hsel.symm.trans hsel')
    exact hbelow d hd

end Covers

theorem mergedWith_eq_ok {label : Option String} {args : Members Value} {before : Option Selection}
    {sel : Selection} (h : mergedWith key name label args before = .ok sel) :
    sel.name = name ∧ ∀ b, before = some b → b = sel := by
  cases before with
  | none =>
    obtain rfl := Except.ok.inj h
    simp
  | some b =>
    rw [mergedWith] at h
    split at h
    · rename_i hsame
      obtain rfl := Except.ok.inj h
      simp only [Bool.and_eq_true, decide_eq_true_eq] at hsame
      simpa using hsame.1
    · cases h

mutual

/-- What a further entry adds to what a resolver is told. -/
theorem covers_of_requestEntry {found found' : List (String × Selection)} {type : String} :
    ∀ e : Entry, requestEntry s vars type found e = .ok found' →
      Kept found found' ∧ Covers s vars type (fields (isKept vars) e) found'
  | .field label name written ds es, h => by
    rw [requestEntry] at h
    obtain ⟨told, htold, h⟩ := bind_eq_ok.mp h
    unfold fields
    split at h
    · rename_i hout
      obtain rfl := pure_eq_ok.mp h
      refine ⟨.refl _, ?_⟩
      split
      · rename_i hkept
        obtain rfl : true = told := Except.ok.inj ((isTold_of_isKept hkept).symm.trans htold)
        exact .of_not_own (by simpa [FieldNode.isOwn] using hout)
      · exact .nil
    · dsimp only at h
      split at h
      · rename_i hnone
        obtain ⟨sel, hsel, h⟩ := bind_eq_ok.mp h
        obtain rfl := pure_eq_ok.mp h
        obtain ⟨hname, hbefore⟩ := mergedWith_eq_ok hsel
        refine ⟨.put fun before hb => ?_, ?_⟩
        · obtain rfl := hbefore before hb
          exact ⟨rfl, .refl _⟩
        · split
          · refine .field (Members.get?_put_self ..) hname fun d hd => ?_
            exact absurd hd (by simp [hnone])
          · exact .nil
      · rename_i d hd
        obtain ⟨args, -, h⟩ := bind_eq_ok.mp h
        obtain ⟨sel, hsel, h⟩ := bind_eq_ok.mp h
        obtain ⟨below, hbelow, h⟩ := bind_eq_ok.mp h
        obtain rfl := pure_eq_ok.mp h
        obtain ⟨hname, hbefore⟩ := mergedWith_eq_ok hsel
        obtain ⟨hkept, hcovers⟩ := covers_of_requestEntries es hbelow
        refine ⟨.put fun before hb => ?_, ?_⟩
        · obtain rfl := hbefore before hb
          exact ⟨rfl, hkept⟩
        · split
          · refine .field (Members.get?_put_self ..) hname fun d' hd' => ?_
            obtain rfl := Option.some.inj (hd.symm.trans hd')
            exact hcovers
          · exact .nil
  | .spread fragment ds, h => by
    rw [requestEntry] at h
    obtain ⟨told, -, h⟩ := bind_eq_ok.mp h
    split at h
    · cases h
    · obtain rfl := pure_eq_ok.mp h
      exact ⟨.refl _, .nil⟩
  | .within fragment condition ds es, h => by
    rw [requestEntry] at h
    obtain ⟨told, htold, h⟩ := bind_eq_ok.mp h
    unfold fields
    split at h
    · obtain ⟨hkept, hall⟩ := covers_of_requestEntries es h
      split
      · exact ⟨hkept, hall⟩
      · exact ⟨hkept, .nil⟩
    · rename_i hnot
      obtain rfl := pure_eq_ok.mp h
      rw [if_neg fun hk => ?_]
      · exact ⟨.refl _, .nil⟩
      · rw [isTold_of_isKept hk] at htold
        exact hnot (Except.ok.inj htold).symm

/-- What further entries add to what a resolver is told: nothing is taken back, and every field that
is left in is told of. -/
theorem covers_of_requestEntries {found found' : List (String × Selection)} {type : String} :
    ∀ es : List Entry, requestEntries s vars type found es = .ok found' →
      Kept found found' ∧ Covers s vars type (fieldsIn (isKept vars) es) found'
  | [], h => by
    obtain rfl := Except.ok.inj h
    exact ⟨.refl _, .nil⟩
  | e :: rest, h => by
    rw [requestEntries] at h
    obtain ⟨next, hnext, h⟩ := bind_eq_ok.mp h
    obtain ⟨hkept, htold⟩ := covers_of_requestEntry e hnext
    obtain ⟨hkept', htold'⟩ := covers_of_requestEntries rest h
    unfold fieldsIn
    exact ⟨hkept.trans hkept', (htold.mono hkept').append htold'⟩

end

end RelGraph.Graphql
