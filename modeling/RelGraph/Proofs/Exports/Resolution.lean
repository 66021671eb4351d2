import RelGraph.Exports.Resolution
import RelGraph.Proofs.Exports.Exchange
/-!
What becomes of placeholders. A value is filled when something that its name was given stands for
every placeholder, all else being as it was written. A value on its way is underway: what is settled
of it is filled, and what waits has asked for the name of its placeholder. Beginning with a value
and going on with it keep it underway, and do no more to the store than to ask for names.
-/
namespace RelGraph.Exports

/-! ## Filled values -/

mutual

/-- Whether a value is another with its placeholders filled by what their names were given. -/
def Filled (given : String → Value → Prop) : Value → Value → Prop
  | .text t, w =>
    match placeholderName? t with
    | none => w = .text t
    | some name => given name w
  | .list items, w => ∃ ws, w = .list ws ∧ FilledItems given items ws
  | .tuple items, w => ∃ ws, w = .list ws ∧ FilledItems given items ws
  | .object members, w => ∃ ws, w = .object ws ∧ FilledMembers given members ws
  | v, w => w = v

/-- Whether items are filled one by one. -/
def FilledItems (given : String → Value → Prop) : List Value → List Value → Prop
  | [], ws => ws = []
  | v :: rest, ws => ∃ w ws', ws = w :: ws' ∧ Filled given v w ∧ FilledItems given rest ws'

/-- Whether members are filled one by one, under their keys. -/
def FilledMembers (given : String → Value → Prop) :
    List (String × Value) → List (String × Value) → Prop
  | [], ws => ws = []
  | (key, v) :: rest, ws =>
    ∃ w ws', ws = (key, w) :: ws' ∧ Filled given v w ∧ FilledMembers given rest ws'

end

section Filled

variable {given given' : String → Value → Prop}

theorem FilledMembers.append : ∀ {ms ws : List (String × Value)} {key : String} {v w : Value},
    FilledMembers given ms ws → Filled given v w →
    FilledMembers given (ms ++ [(key, v)]) (ws ++ [(key, w)])
  | [], _, key, v, w, h, hv => by
    rw [FilledMembers] at h
    subst h
    rw [List.nil_append, FilledMembers]
    exact ⟨w, [], rfl, hv, by rw [FilledMembers]⟩
  | (_, _) :: _, _, _, _, _, h, hv => by
    rw [FilledMembers] at h
    obtain ⟨w', ws', rfl, hw', hrest⟩ := h
    rw [List.cons_append, FilledMembers]
    exact ⟨w', _, rfl, hw', hrest.append hv⟩

mutual

/-- What is filled stays filled when the names are given more. -/
theorem Filled.mono (h : ∀ name w, given name w → given' name w) :
    ∀ {v w : Value}, Filled given v w → Filled given' v w
  | .text t, w, hf => by
    rw [Filled] at hf ⊢
    split at hf
    · exact hf
    · exact h _ _ hf
  | .list items, w, hf | .tuple items, w, hf => by
    rw [Filled] at hf ⊢
    obtain ⟨ws, rfl, hitems⟩ := hf
    exact ⟨ws, rfl, FilledItems.mono h hitems⟩
  | .object ms, w, hf => by
    rw [Filled] at hf ⊢
    obtain ⟨ws, rfl, hms⟩ := hf
    exact ⟨ws, rfl, FilledMembers.mono h hms⟩
  | .null, _, hf | .bool _, _, hf | .int _, _, hf | .float _, _, hf | .decimal _, _, hf
  | .bytes _, _, hf | .date _, _, hf | .time _, _, hf | .moment _, _, hf | .uuid _, _, hf => by
    rw [Filled] at hf ⊢
    · exact hf
    all_goals simp

theorem FilledItems.mono (h : ∀ name w, given name w → given' name w) :
    ∀ {items ws : List Value}, FilledItems given items ws → FilledItems given' items ws
  | [], _, hf => by rwa [FilledItems] at hf ⊢
  | _ :: _, _, hf => by
    rw [FilledItems] at hf ⊢
    obtain ⟨w, ws', rfl, hw, hrest⟩ := hf
    exact ⟨w, ws', rfl, Filled.mono h hw, FilledItems.mono h hrest⟩

theorem FilledMembers.mono (h : ∀ name w, given name w → given' name w) :
    ∀ {ms ws : List (String × Value)}, FilledMembers given ms ws → FilledMembers given' ms ws
  | [], _, hf => by rwa [FilledMembers] at hf ⊢
  | (_, _) :: _, _, hf => by
    rw [FilledMembers] at hf ⊢
    obtain ⟨w, ws', rfl, hw, hrest⟩ := hf
    exact ⟨w, ws', rfl, Filled.mono h hw, FilledMembers.mono h hrest⟩

end

mutual

/-- To substitute is to fill with what is published. -/
theorem substitute_eq_ok {published : String → Option Value} : ∀ {v w : Value},
    substitute published v = .ok w ↔ Filled (fun name u => published name = some u) v w
  | .text t, w => by
    rw [substitute, Filled]
    cases hname : placeholderName? t with
    | none => simp [eq_comm]
    | some name => cases hv : published name <;> simp [hv]
  | .list items, w | .tuple items, w => by
    rw [substitute, Filled]
    cases hitems : substituteItems published items with
    | error m =>
      simp only [substitute.listed, reduceCtorEq, false_iff, not_exists, not_and]
      rintro ws - hfilled
      rw [← substituteItems_eq_ok, hitems] at hfilled
      cases hfilled
    | ok ws =>
      simp only [substitute.listed, ← substituteItems_eq_ok, hitems, Except.ok.injEq]
      simp [eq_comm]
  | .object ms, w => by
    rw [substitute, Filled]
    cases hms : substituteMembers published ms with
    | error m =>
      simp only [Except.map, reduceCtorEq, false_iff, not_exists, not_and]
      rintro ws - hfilled
      rw [← substituteMembers_eq_ok, hms] at hfilled
      cases hfilled
    | ok ws =>
      simp only [Except.map, ← substituteMembers_eq_ok, hms, Except.ok.injEq]
      simp [eq_comm]
  | .null, _ | .bool _, _ | .int _, _ | .float _, _ | .decimal _, _ | .bytes _, _ | .date _, _
  | .time _, _ | .moment _, _ | .uuid _, _ => by
    rw [substitute, Filled]
    all_goals simp [eq_comm]

theorem substituteItems_eq_ok {published : String → Option Value} : ∀ {items ws : List Value},
    substituteItems published items = .ok ws ↔
      FilledItems (fun name u => published name = some u) items ws
  | [], ws => by simp [substituteItems, FilledItems, eq_comm]
  | v :: rest, ws => by
    rw [substituteItems, FilledItems]
    simp only [← substitute_eq_ok, ← substituteItems_eq_ok]
    cases substitute published v <;> cases substituteItems published rest <;> simp [eq_comm]

theorem substituteMembers_eq_ok {published : String → Option Value} :
    ∀ {ms ws : List (String × Value)}, substituteMembers published ms = .ok ws ↔
      FilledMembers (fun name u => published name = some u) ms ws
  | [], ws => by simp [substituteMembers, FilledMembers, eq_comm]
  | (key, v) :: rest, ws => by
    rw [substituteMembers, FilledMembers]
    simp only [← substitute_eq_ok, ← substituteMembers_eq_ok]
    cases substitute published v with
    | error m => simp
    | ok w => cases substituteMembers published rest <;> simp [eq_comm]

end

end Filled

/-! ## Asking for names -/

namespace Store

variable {s : Store} {names names' : List String} {name : String} {id : Nat} {w : Waiter}

/-- Asks for names one after the other. -/
def awaitAll (s : Store) (names : List String) : Store :=
  names.foldl (fun s name => (s.await name).2) s

theorem awaitAll_append : s.awaitAll (names ++ names') = (s.awaitAll names).awaitAll names' :=
  List.foldl_append

theorem get?_awaitAll : (s.awaitAll names).get? name = s.get? name := by
  induction names generalizing s with
  | nil => rfl
  | cons other names ih => exact ih.trans get?_await

/-- Whether everyone who comes to ask along the way is noted with the name and their number. -/
def Asking (s : Store) (names : List String) (asked : String → Nat → Prop) : Prop :=
  ∀ before name after, names = before ++ name :: after →
    asked name (s.awaitAll before).waiters.length

theorem asking_append {asked : String → Nat → Prop} (h : s.Asking (names ++ names') asked) :
    s.Asking names asked ∧ (s.awaitAll names).Asking names' asked := by
  refine ⟨fun before name after heq => ?_, fun before name after heq => ?_⟩
  · exact h before name (after ++ names') (by simp [heq])
  · rw [← awaitAll_append]
    exact h (names ++ before) name after (by simp [heq])

end Store

/-! ## Values on their way -/

namespace Resolution

mutual

/-- What a value has become on its way. -/
def Underway (given : String → Value → Prop) (asked : String → Nat → Prop) :
    Resolution → Value → Prop
  | settled w, v => Filled given v w
  | waiting id, v => ∃ name, nameOf? v = some name ∧ asked name id
  | list parts, v => ∃ items, (v = .list items ∨ v = .tuple items) ∧
      UnderwayItems given asked parts items
  | object before key part after, v => ∃ done u, v = .object (done ++ (key, u) :: after) ∧
      FilledMembers given done before ∧ Underway given asked part u

/-- What items have become, one by one. -/
def UnderwayItems (given : String → Value → Prop) (asked : String → Nat → Prop) :
    List Resolution → List Value → Prop
  | [], items => items = []
  | part :: parts, items => ∃ v rest, items = v :: rest ∧ Underway given asked part v ∧
      UnderwayItems given asked parts rest

end

section Underway

variable {given given' : String → Value → Prop} {asked asked' : String → Nat → Prop} {s : Store}

mutual

theorem Underway.mono (hgiven : ∀ name w, given name w → given' name w)
    (hasked : ∀ name id, asked name id → asked' name id) :
    ∀ {res : Resolution} {v : Value}, Underway given asked res v → Underway given' asked' res v
  | settled _, _, h => by
    rw [Underway] at h ⊢
    exact h.mono hgiven
  | waiting _, _, h => by
    rw [Underway] at h ⊢
    obtain ⟨name, hname, hid⟩ := h
    exact ⟨name, hname, hasked name _ hid⟩
  | list _, _, h => by
    rw [Underway] at h ⊢
    obtain ⟨items, hv, hitems⟩ := h
    exact ⟨items, hv, UnderwayItems.mono hgiven hasked hitems⟩
  | object .., _, h => by
    rw [Underway] at h ⊢
    obtain ⟨done, u, hv, hdone, hu⟩ := h
    exact ⟨done, u, hv, hdone.mono hgiven, Underway.mono hgiven hasked hu⟩

theorem UnderwayItems.mono (hgiven : ∀ name w, given name w → given' name w)
    (hasked : ∀ name id, asked name id → asked' name id) :
    ∀ {parts : List Resolution} {items : List Value}, UnderwayItems given asked parts items →
      UnderwayItems given' asked' parts items
  | [], _, h => by rwa [UnderwayItems] at h ⊢
  | _ :: _, _, h => by
    rw [UnderwayItems] at h ⊢
    obtain ⟨v, rest, hitems, hv, hrest⟩ := h
    exact ⟨v, rest, hitems, Underway.mono hgiven hasked hv, UnderwayItems.mono hgiven hasked hrest⟩

end

/-- Items that are all settled are filled. -/
theorem filledItems_of_underway : ∀ {parts : List Resolution} {items ws : List Value},
    UnderwayItems given asked parts items → parts.mapM value? = some ws →
    FilledItems given items ws
  | [], items, ws, h, hws => by
    rw [UnderwayItems] at h
    obtain rfl : [] = ws := by simpa using hws
    rw [h, FilledItems]
  | part :: parts, items, ws, h, hws => by
    rw [UnderwayItems] at h
    obtain ⟨v, rest, rfl, hv, hrest⟩ := h
    rw [List.mapM_cons] at hws
    obtain ⟨w, hw, hws⟩ := Option.bind_eq_some_iff.mp hws
    obtain ⟨ws', hws', heq⟩ := Option.bind_eq_some_iff.mp hws
    obtain rfl : w :: ws' = ws := Option.some.inj heq
    cases part with
    | settled u =>
      obtain rfl : u = w := Option.some.inj hw
      rw [Underway] at hv
      rw [FilledItems]
      exact ⟨_, _, rfl, hv, filledItems_of_underway hrest hws'⟩
    | _ => cases hw

theorem underway_ofItems {parts : List Resolution} {items : List Value} {v : Value}
    (hv : v = .list items ∨ v = .tuple items) (h : UnderwayItems given asked parts items) :
    Underway given asked (ofItems parts) v := by
  rw [ofItems]
  split
  · rename_i ws hws
    have hfilled := filledItems_of_underway h hws
    rcases hv with rfl | rfl
    all_goals
      rw [Underway, Filled]
      exact ⟨ws, rfl, hfilled⟩
  · rw [Underway]
    exact ⟨items, hv, h⟩

/-- Whether a value is underway after something was done at the store: nothing but to ask for names,
and where it waits now somebody asked before or has asked since. -/
def Continues (given : String → Value → Prop) (asked : String → Nat → Prop) (s : Store)
    (out : Resolution × Store) (v : Value) : Prop :=
  ∃ names, out.2 = s.awaitAll names ∧ ∀ asked' : String → Nat → Prop,
    (∀ name id, asked name id → asked' name id) → s.Asking names asked' →
      Underway given asked' out.1 v

/-- Whether items are underway after something was done at the store. -/
def ContinuesItems (given : String → Value → Prop) (asked : String → Nat → Prop) (s : Store)
    (out : List Resolution × Store) (items : List Value) : Prop :=
  ∃ names, out.2 = s.awaitAll names ∧ ∀ asked' : String → Nat → Prop,
    (∀ name id, asked name id → asked' name id) → s.Asking names asked' →
      UnderwayItems given asked' out.1 items

/-- Whether the store has nothing but what the names were given. -/
def Offers (s : Store) (given : String → Value → Prop) : Prop :=
  ∀ name w, s.get? name = some w → given name w

theorem Offers.awaitAll (h : Offers s given) (names : List String) :
    Offers (s.awaitAll names) given := fun name w hw =>
  h name w (Store.get?_awaitAll ▸ hw)

theorem continues_settled {v w : Value} (h : Filled given v w) :
    Continues given asked s (settled w, s) v :=
  ⟨[], rfl, fun _ _ _ => by rwa [Underway]⟩

/-- Whoever asks for a name takes what is there, or waits. -/
theorem continues_await {name t : String} (hs : Offers s given)
    (ht : placeholderName? t = some name) :
    Continues given asked s (received (s.await name).2 (s.await name).1, (s.await name).2)
      (.text t) := by
  refine ⟨[name], rfl, fun asked' _ hasking => ?_⟩
  have hnew : asked' name s.waiters.length := hasking [] name [] rfl
  cases hfound : s.get? name with
  | some w =>
    have hreceived : received (s.await name).2 (s.await name).1 = settled w := by
      simp [Store.await, hfound, received, Store.outcome?]
    simp only [hreceived, Underway, Filled, ht]
    exact hs name w hfound
  | none =>
    have hwaiting : received (s.await name).2 (s.await name).1 = waiting s.waiters.length := by
      simp [Store.await, hfound, received, Store.outcome?]
    simp only [hwaiting, Underway]
    exact ⟨name, ht, hnew⟩

theorem continues_ofItems {items : List Value} {v : Value} {out : List Resolution × Store}
    (hv : v = .list items ∨ v = .tuple items) (h : ContinuesItems given asked s out items) :
    Continues given asked s (ofItems out.1, out.2) v := by
  obtain ⟨names, hout, hitems⟩ := h
  exact ⟨names, hout, fun asked' hmore hasking =>
    underway_ofItems hv (hitems asked' hmore hasking)⟩

theorem Continues.cons {first : Resolution × Store} {v : Value} {rest : List Value}
    {out : List Resolution × Store} (h : Continues given asked s first v)
    (hrest : ContinuesItems given asked first.2 out rest) :
    ContinuesItems given asked s (first.1 :: out.1, out.2) (v :: rest) := by
  obtain ⟨names, hfirst, hv⟩ := h
  obtain ⟨names', hout, hitems⟩ := hrest
  rw [hfirst] at hout hitems
  refine ⟨names ++ names', hout.trans Store.awaitAll_append.symm, fun asked' hmore hasking => ?_⟩
  obtain ⟨hasking, hasking'⟩ := Store.asking_append hasking
  rw [UnderwayItems]
  exact ⟨v, rest, rfl, hv asked' hmore hasking, hitems asked' hmore hasking'⟩

/-- What is settled at once is filled. -/
theorem Continues.filled {s' : Store} {v w : Value}
    (h : Continues given asked s (settled w, s') v) : Filled given v w := by
  obtain ⟨names, -, hv⟩ := h
  have := hv (fun _ _ => True) (fun _ _ _ => trivial) fun _ _ _ _ => trivial
  rwa [Underway] at this

theorem Continues.offers {out : Resolution × Store} {v : Value}
    (h : Continues given asked s out v) (hs : Offers s given) : Offers out.2 given := by
  obtain ⟨names, hout, -⟩ := h
  exact hout ▸ hs.awaitAll names

/-- What is underway after more was done at the store. -/
theorem Continues.after {first out : Resolution × Store} {u v : Value}
    (h : Continues given asked s first u) (hrest : Continues given asked first.2 out v) :
    Continues given asked s out v := by
  obtain ⟨names, hfirst, -⟩ := h
  obtain ⟨names', hout, hv⟩ := hrest
  rw [hfirst] at hout hv
  exact ⟨names ++ names', hout.trans Store.awaitAll_append.symm, fun asked' hmore hasking =>
    hv asked' hmore (Store.asking_append hasking).2⟩

theorem Continues.object {before done after : List (String × Value)} {key : String}
    {part : Resolution} {s' : Store} {u : Value} (hdone : FilledMembers given done before)
    (h : Continues given asked s (part, s') u) :
    Continues given asked s (Resolution.object before key part after, s')
      (.object (done ++ (key, u) :: after)) := by
  obtain ⟨names, hout, hu⟩ := h
  refine ⟨names, hout, fun asked' hmore hasking => ?_⟩
  rw [Underway]
  exact ⟨done, u, rfl, hdone, hu asked' hmore hasking⟩

mutual

/-- To begin with a value is to have it underway. -/
theorem continues_start : ∀ {s : Store}, Offers s given → ∀ v : Value,
    Continues given asked s (start s v) v
  | s, hs, .text t => by
    rw [start]
    split
    · rename_i ht
      refine continues_settled ?_
      rw [Filled, ht]
    · rename_i name ht
      exact continues_await hs ht
  | s, hs, .list items => by
    rw [start]
    exact continues_ofItems (.inl rfl) (continues_startItems hs items)
  | s, hs, .tuple items => by
    rw [start]
    exact continues_ofItems (.inr rfl) (continues_startItems hs items)
  | s, hs, .object ms => by
    rw [start]
    exact continues_startMembers hs [] [] ms (by rw [FilledMembers])
  | _, _, .null | _, _, .bool _ | _, _, .int _ | _, _, .float _ | _, _, .decimal _
  | _, _, .bytes _ | _, _, .date _ | _, _, .time _ | _, _, .moment _ | _, _, .uuid _ => by
    rw [start]
    · refine continues_settled ?_
      rw [Filled]
      all_goals simp
    all_goals simp

theorem continues_startItems : ∀ {s : Store}, Offers s given → ∀ items : List Value,
    ContinuesItems given asked s (startItems s items) items
  | s, hs, [] => by
    rw [startItems]
    exact ⟨[], rfl, fun _ _ _ => by rw [UnderwayItems]⟩
  | s, hs, v :: rest => by
    rw [startItems]
    have hv : Continues given asked s (start s v) v := continues_start hs v
    exact hv.cons (continues_startItems (hv.offers hs) rest)

theorem continues_startMembers : ∀ {s : Store}, Offers s given →
    ∀ before done ms : List (String × Value), FilledMembers given done before →
      Continues given asked s (startMembers s before ms) (.object (done ++ ms))
  | s, hs, before, done, [], hdone => by
    rw [startMembers, List.append_nil]
    refine continues_settled ?_
    rw [Filled]
    exact ⟨before, rfl, hdone⟩
  | s, hs, before, done, (key, v) :: rest, hdone => by
    rw [startMembers]
    have hv : Continues given asked s (start s v) v := continues_start hs v
    split
    · rename_i w s' heq
      rw [heq] at hv
      have hrest := continues_startMembers (hv.offers hs)
        (before ++ [(key, w)]) (done ++ [(key, v)]) rest (hdone.append hv.filled)
      rw [List.append_assoc, List.singleton_append] at hrest
      exact hv.after hrest
    · rename_i part s' _ heq
      exact (heq ▸ hv).object hdone

end

/-- Whether all that those who asked can have received is what the names were given, also after
more have asked. -/
def Hands (s : Store) (asked : String → Nat → Prop) (given : String → Value → Prop) : Prop :=
  ∀ names name id w, asked name id → (s.awaitAll names).outcome? id = some (.ok w) → given name w

theorem Hands.awaitAll (h : Hands s asked given) (names : List String) :
    Hands (s.awaitAll names) asked given := fun names' name id w hid hw =>
  h (names ++ names') name id w hid (Store.awaitAll_append ▸ hw)

theorem Continues.hands {out : Resolution × Store} {v : Value}
    (h : Continues given asked s out v) (hs : Hands s asked given) : Hands out.2 asked given := by
  obtain ⟨names, hout, -⟩ := h
  exact hout ▸ hs.awaitAll names

/-- Whoever waits has received what their name was given, or waits on. -/
theorem continues_received {v : Value} {id : Nat} (hands : Hands s asked given)
    (h : Underway given asked (waiting id) v) : Continues given asked s (received s id, s) v := by
  rw [Underway] at h
  obtain ⟨name, hname, hid⟩ := h
  rw [received]
  split
  · rename_i w hw
    refine continues_settled ?_
    cases v with
    | text t =>
      rw [Filled, show placeholderName? t = some name from hname]
      exact hands [] name id w hid hw
    | _ => cases hname
  · exact ⟨[], rfl, fun asked' hmore _ => by
      rw [Underway]
      exact ⟨name, hname, hmore name id hid⟩⟩

mutual

/-- To go on with a value that is underway keeps it underway. -/
theorem continues_resume : ∀ {s : Store}, Offers s given → Hands s asked given →
    ∀ {res : Resolution} {v : Value}, Underway given asked res v →
      Continues given asked s (resume s res) v
  | s, _, _, settled w, v, h => by
    rw [resume]
    rw [Underway] at h
    exact continues_settled h
  | s, _, hands, waiting id, v, h => by
    rw [resume]
    exact continues_received hands h
  | s, hs, hands, list parts, v, h => by
    rw [resume]
    rw [Underway] at h
    obtain ⟨items, hv, hitems⟩ := h
    exact continues_ofItems hv (continues_resumeItems hs hands hitems)
  | s, hs, hands, object before key part after, v, h => by
    rw [resume]
    rw [Underway] at h
    obtain ⟨done, u, rfl, hdone, hu⟩ := h
    have hu : Continues given asked s (resume s part) u := continues_resume hs hands hu
    split
    · rename_i w s' heq
      rw [heq] at hu
      have hrest : Continues given asked s' (startMembers s' (before ++ [(key, w)]) after)
          (.object (done ++ [(key, u)] ++ after)) :=
        continues_startMembers (hu.offers hs) _ _ after (hdone.append hu.filled)
      rw [List.append_assoc, List.singleton_append] at hrest
      exact hu.after hrest
    · rename_i part' s' _ heq
      exact (heq ▸ hu).object hdone

theorem continues_resumeItems : ∀ {s : Store}, Offers s given → Hands s asked given →
    ∀ {parts : List Resolution} {items : List Value}, UnderwayItems given asked parts items →
      ContinuesItems given asked s (resumeItems s parts) items
  | s, _, _, [], items, h => by
    rw [resumeItems]
    exact ⟨[], rfl, fun _ _ _ => by rwa [UnderwayItems] at h ⊢⟩
  | s, hs, hands, part :: parts, items, h => by
    rw [resumeItems]
    rw [UnderwayItems] at h
    obtain ⟨v, rest, rfl, hv, hrest⟩ := h
    have hv : Continues given asked s (resume s part) v := continues_resume hs hands hv
    exact hv.cons (continues_resumeItems (hv.offers hs) (hv.hands hands) hrest)

end

end Underway

end Resolution
end RelGraph.Exports
