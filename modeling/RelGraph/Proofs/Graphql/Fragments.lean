import RelGraph.Graphql.Collection
import Mathlib.Data.List.Basic
/-!
Fragments in place of their spreads. Where none spreads itself, a fragment stands for the same
entries wherever it is put in, and so it never stands inside itself.
-/
namespace RelGraph.Graphql.Entry

variable {fragments : Members Fragment} {e : Entry} {es es' : List Entry} {depth : Nat}

mutual

/-- An entry and all entries inside it. -/
def parts : Entry → List Entry
  | .field label name args directives entries =>
    .field label name args directives entries :: partsIn entries
  | .spread fragment directives => [.spread fragment directives]
  | .within fragment condition directives entries =>
    .within fragment condition directives entries :: partsIn entries

/-- Entries and all entries inside them. -/
def partsIn : List Entry → List Entry
  | [] => []
  | e :: rest => parts e ++ partsIn rest

end

/-- The directives of an entry. -/
def directives : Entry → List Directive
  | .field _ _ _ directives _ | .spread _ directives | .within _ _ directives _ => directives

/-- Whether an entry is the spread of a fragment. -/
def isSpread : Entry → Bool
  | .spread .. => true
  | _ => false

/-- Whether entries hold no spread. Those that fragments are put into hold none, unless a fragment
spreads itself. -/
def Whole (es : List Entry) : Prop := ∀ e ∈ partsIn es, e.isSpread = false

theorem Whole.not_spread {fragment : String} {ds : List Directive}
    (h : Whole [.spread fragment ds]) : False := by
  cases h (.spread fragment ds) (by simp [partsIn, parts])

theorem mem_partsIn : ∀ {es : List Entry} {e : Entry}, e ∈ partsIn es ↔ ∃ e' ∈ es, e ∈ parts e'
  | [], e => by simp [partsIn]
  | e' :: rest, e => by simp [partsIn, @mem_partsIn rest]

theorem mem_parts_self : ∀ e : Entry, e ∈ parts e
  | .field .. | .spread .. | .within .. => by simp [parts]

theorem partsIn_subset (h : es ⊆ es') : partsIn es ⊆ partsIn es' := fun e he => by
  obtain ⟨e', he', he⟩ := mem_partsIn.mp he
  exact mem_partsIn.mpr ⟨e', h he', he⟩

/-! ## What is put in -/

section Expansion

variable {inPlaceOf other : String → Option (Option String × List Entry)}

theorem Whole.of_subset (h : Whole es) (hsub : partsIn es' ⊆ partsIn es) : Whole es' :=
  fun e he => h e (hsub he)

theorem Whole.field {label : Option String} {name : String} {args : Arguments}
    {ds : List Directive} (h : Whole [.field label name args ds es]) : Whole es :=
  h.of_subset fun e he => by simp [partsIn, parts, he]

theorem Whole.within {fragment condition : Option String} {ds : List Directive}
    (h : Whole [.within fragment condition ds es]) : Whole es :=
  h.of_subset fun e he => by simp [partsIn, parts, he]

theorem Whole.head (h : Whole (e :: es)) : Whole [e] :=
  h.of_subset (partsIn_subset (by simp))

theorem Whole.tail (h : Whole (e :: es)) : Whole es :=
  h.of_subset (partsIn_subset (by simp))

mutual

/-- Nothing changes where what is put in and holds no spread is put in again. -/
theorem expandWith_congr (h : ∀ name condition es, inPlaceOf name = some (condition, es) →
      Whole es → other name = some (condition, es)) :
    ∀ e : Entry, Whole [expandWith inPlaceOf e] → expandWith other e = expandWith inPlaceOf e
  | .field label name args ds es, hwhole => by
    rw [expandWith] at hwhole
    rw [expandWith, expandWith, expandAllWith_congr h es hwhole.field]
  | .spread fragment ds, hwhole => by
    rw [expandWith] at hwhole
    cases hput : inPlaceOf fragment with
    | none =>
      rw [hput] at hwhole
      exact hwhole.not_spread.elim
    | some put =>
      rw [hput] at hwhole
      rw [expandWith, expandWith, hput, h fragment _ _ hput hwhole.within]
  | .within fragment condition ds es, hwhole => by
    rw [expandWith] at hwhole
    rw [expandWith, expandWith, expandAllWith_congr h es hwhole.within]

theorem expandAllWith_congr (h : ∀ name condition es, inPlaceOf name = some (condition, es) →
      Whole es → other name = some (condition, es)) :
    ∀ es : List Entry, Whole (expandAllWith inPlaceOf es) →
      expandAllWith other es = expandAllWith inPlaceOf es
  | [], _ => rfl
  | e :: rest, hwhole => by
    rw [expandAllWith] at hwhole
    rw [expandAllWith, expandAllWith, expandWith_congr h e hwhole.head,
      expandAllWith_congr h rest hwhole.tail]

end

/-- Whether an entry that is marked with a fragment holds what stands for the fragment. -/
def IsOf (held : String → Option String × List Entry) : Entry → Prop
  | .within (some fragment) condition _ entries => held fragment = (condition, entries)
  | _ => True

mutual

theorem isOf_expandWith {held : String → Option String × List Entry}
    (h : ∀ name condition es, inPlaceOf name = some (condition, es) → Whole es →
      held name = (condition, es) ∧ ∀ e ∈ partsIn es, IsOf held e) :
    ∀ e : Entry, Whole [expandWith inPlaceOf e] →
      ∀ e' ∈ parts (expandWith inPlaceOf e), IsOf held e'
  | .field label name args ds es, hwhole => by
    rw [expandWith] at hwhole ⊢
    rw [parts, List.forall_mem_cons]
    exact ⟨trivial, isOf_expandAllWith h es hwhole.field⟩
  | .spread fragment ds, hwhole => by
    rw [expandWith] at hwhole ⊢
    cases hput : inPlaceOf fragment with
    | none => simp [parts, IsOf]
    | some put =>
      rw [hput] at hwhole
      obtain ⟨hheld, hinside⟩ := h fragment _ _ hput hwhole.within
      rw [parts, List.forall_mem_cons]
      exact ⟨hheld, hinside⟩
  | .within fragment condition ds es, hwhole => by
    rw [expandWith] at hwhole ⊢
    rw [parts, List.forall_mem_cons]
    exact ⟨trivial, isOf_expandAllWith h es hwhole.within⟩

theorem isOf_expandAllWith {held : String → Option String × List Entry}
    (h : ∀ name condition es, inPlaceOf name = some (condition, es) → Whole es →
      held name = (condition, es) ∧ ∀ e ∈ partsIn es, IsOf held e) :
    ∀ es : List Entry, Whole (expandAllWith inPlaceOf es) →
      ∀ e ∈ partsIn (expandAllWith inPlaceOf es), IsOf held e
  | [], _ => by simp [expandAllWith, partsIn]
  | e :: rest, hwhole => by
    rw [expandAllWith] at hwhole ⊢
    rw [partsIn, List.forall_mem_append]
    exact ⟨isOf_expandWith h e hwhole.head, isOf_expandAllWith h rest hwhole.tail⟩

end

end Expansion

/-- Where no spread is left, there are none to put in deeper down. -/
theorem expandTo_succ (h : Whole (expandTo fragments depth es)) :
    expandTo fragments (depth + 1) es = expandTo fragments depth es := by
  induction depth generalizing es with
  | zero =>
    rw [expandTo] at h
    rw [expandTo, expandTo]
    refine expandAllWith_congr (fun name condition es hput hwhole => ?_) es h
    cases hget : Members.get? fragments name with
    | none => simpa [hget] using hput
    | some f => simp [hget] at hput
  | succ depth ih =>
    rw [expandTo] at h
    rw [expandTo, expandTo]
    refine expandAllWith_congr (fun name condition es hput hwhole => ?_) es h
    cases hget : Members.get? fragments name with
    | none => simpa [hget] using hput
    | some f =>
      simp only [hget, Option.some.injEq, Prod.mk.injEq] at hput ⊢
      obtain ⟨rfl, rfl⟩ := hput
      exact ⟨rfl, ih hwhole⟩

theorem expandTo_eq_of_le {depth' : Nat} (h : Whole (expandTo fragments depth es))
    (hle : depth ≤ depth') : expandTo fragments depth' es = expandTo fragments depth es := by
  induction hle with
  | refl => rfl
  | step _ ih => rw [expandTo_succ (ih ▸ h), ih]

/-- What is put in for a fragment, with fragments put in to a depth. -/
def contents (fragments : Members Fragment) (depth : Nat) (name : String) :
    Option String × List Entry :=
  match Members.get? fragments name with
  | none => (none, [])
  | some f => (some f.condition, expandTo fragments depth f.entries)

theorem contents_of_none {name : String} (h : Members.get? fragments name = none) :
    contents fragments depth name = (none, []) := by
  rw [contents, h]

theorem contents_of_some {name : String} {f : Fragment}
    (h : Members.get? fragments name = some f) :
    contents fragments depth name = (some f.condition, expandTo fragments depth f.entries) := by
  rw [contents, h]

theorem isOf_expandTo {depth' : Nat} (h : Whole (expandTo fragments depth es))
    (hle : depth ≤ depth') :
    ∀ e ∈ partsIn (expandTo fragments depth es), IsOf (contents fragments depth') e := by
  induction depth generalizing es with
  | zero =>
    rw [expandTo] at h ⊢
    refine isOf_expandAllWith (fun name condition es hput hwhole => ?_) es h
    cases hget : Members.get? fragments name with
    | none =>
      obtain ⟨rfl, rfl⟩ : none = condition ∧ [] = es := by simpa [hget] using hput
      exact ⟨contents_of_none hget, by simp [partsIn]⟩
    | some f => simp [hget] at hput
  | succ depth ih =>
    rw [expandTo] at h ⊢
    refine isOf_expandAllWith (fun name condition es hput hwhole => ?_) es h
    cases hget : Members.get? fragments name with
    | none =>
      obtain ⟨rfl, rfl⟩ : none = condition ∧ [] = es := by simpa [hget] using hput
      exact ⟨contents_of_none hget, by simp [partsIn]⟩
    | some f =>
      obtain ⟨rfl, rfl⟩ : some f.condition = condition ∧
          expandTo fragments depth f.entries = es := by simpa [hget] using hput
      refine ⟨?_, ih hwhole (by omega)⟩
      rw [contents_of_some hget, expandTo_eq_of_le hwhole (by omega)]

/-- Fragments that do not spread themselves stand for the same entries wherever they are put in. -/
theorem isOf_expand (h : Whole (expand fragments es)) :
    ∀ e ∈ partsIn (expand fragments es), IsOf (contents fragments fragments.length) e :=
  isOf_expandTo h (Nat.le_refl _)

/-! ## Fragments inside each other -/

mutual

/-- The fragments that stand in an entry and not below a field of it. -/
def marks : Entry → List String
  | .field .. | .spread .. => []
  | .within fragment _ _ entries => fragment.toList ++ marksIn entries

/-- The fragments that stand in entries and not below a field of theirs. -/
def marksIn : List Entry → List String
  | [] => []
  | e :: rest => marks e ++ marksIn rest

end

variable {held : String → Option String × List Entry} {name : String}

mutual

theorem sizeOf_of_mem_marks : ∀ {e : Entry}, (∀ e' ∈ parts e, IsOf held e') → name ∈ marks e →
    sizeOf (held name).2 < sizeOf e
  | .field .., _, hname | .spread .., _, hname => by simp [marks] at hname
  | .within fragment condition ds es, h, hname => by
    rw [parts, List.forall_mem_cons] at h
    rw [marks, List.mem_append] at hname
    simp only [within.sizeOf_spec]
    rcases hname with hname | hname
    · obtain rfl : fragment = some name := by simpa using hname
      have hheld : held name = (condition, es) := h.1
      rw [hheld]
      dsimp only
      omega
    · have hlt := sizeOf_of_mem_marksIn h.2 hname
      omega

theorem sizeOf_of_mem_marksIn : ∀ {es : List Entry}, (∀ e ∈ partsIn es, IsOf held e) →
    name ∈ marksIn es → sizeOf (held name).2 < sizeOf es
  | [], _, hname => by simp [marksIn] at hname
  | e :: rest, h, hname => by
    rw [partsIn, List.forall_mem_append] at h
    rw [marksIn, List.mem_append] at hname
    simp only [List.cons.sizeOf_spec]
    rcases hname with hname | hname
    · have hlt := sizeOf_of_mem_marks h.1 hname
      omega
    · have hlt := sizeOf_of_mem_marksIn h.2 hname
      omega

end

/-- What stands for a fragment does not hold the fragment: it would be longer than itself. -/
theorem not_mem_marksIn_held (h : ∀ e ∈ partsIn (held name).2, IsOf held e) :
    name ∉ marksIn (held name).2 :=
  fun hname => Nat.lt_irrefl _ (sizeOf_of_mem_marksIn h hname)

end RelGraph.Graphql.Entry
