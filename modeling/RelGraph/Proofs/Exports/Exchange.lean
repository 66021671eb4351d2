import RelGraph.Exports.Exchange
import RelGraph.Proofs.Members
import Mathlib.Data.List.Induction
/-!
Exchanges in good order. In every state that some steps lead to, nobody waits for a name that has a
value, and everybody who waits is on the list of the name they asked for, once and on no other list.
From this it follows what a visit can come to: a value that was there when it asked, or the first
that was published after that.
-/
namespace RelGraph.Exports

/-! ## The store -/

namespace Store

variable {s : Store} {ids : List Nat} {id : Nat} {name other : String} {w outcome : Waiter}

theorem length_waiters_settle : (s.settle ids outcome).waiters.length = s.waiters.length := by
  simp [settle]

theorem settle_of_waiting (h : s.waiters[id]? = some (.waiting name)) :
    (s.settle ids outcome).waiters[id]? = some (if id ∈ ids then outcome else .waiting name) := by
  simp [settle, List.getElem?_mapIdx, h]

/-- What has become of a waiter stays. -/
theorem settle_of_settled (h : s.waiters[id]? = some w) (hw : ∀ name, w ≠ .waiting name) :
    (s.settle ids outcome).waiters[id]? = some w := by
  cases w with
  | waiting name => exact absurd rfl (hw name)
  | _ => simp [settle, List.getElem?_mapIdx, h]

/-- Whoever still waits was not among those who were settled. -/
theorem waiting_of_settle (h : (s.settle ids outcome).waiters[id]? = some (.waiting name))
    (houtcome : ∀ name, outcome ≠ .waiting name) :
    s.waiters[id]? = some (.waiting name) ∧ id ∉ ids := by
  cases hid : s.waiters[id]? with
  | none => simp [settle, List.getElem?_mapIdx, hid] at h
  | some w =>
    by_cases hw : ∃ name', w = .waiting name'
    · obtain ⟨name', rfl⟩ := hw
      rw [settle_of_waiting hid] at h
      split at h
      · exact absurd (Option.some.inj h) (houtcome name)
      · rename_i hmem
        exact ⟨h, hmem⟩
    · rw [settle_of_settled hid fun name' heq => hw ⟨name', heq⟩] at h
      exact absurd (Option.some.inj h) fun heq => hw ⟨name, heq⟩

theorem listed_publish (v : Value) :
    (s.publish name v).listed other = if other = name then [] else s.listed other := by
  by_cases h : other = name
  · subst h
    simp [listed, publish, Members.get?_erase_self]
  · simp [listed, publish, settle, Members.get?_erase_of_ne h, h]

theorem listed_await (h : s.get? name = none) : (s.await name).2.listed other =
    if other = name then s.listed name ++ [s.waiters.length] else s.listed other := by
  by_cases hname : other = name
  · subst hname
    simp [listed, await, h, Members.get?_put_self]
  · simp [listed, await, h, Members.get?_put_of_ne _ _ hname, hname]

theorem listed_leave : (s.leave name id).listed other =
    if other = name then (s.listed name).erase id else s.listed other := by
  rw [leave]
  cases h : Members.get? s.pending name with
  | none =>
    by_cases hname : other = name
    · subst hname
      simp [listed, h]
    · simp [hname]
  | some ids =>
    by_cases hname : other = name
    · subst hname
      simp [listed, h, Members.get?_put_self]
    · simp [listed, Members.get?_put_of_ne _ _ hname, hname]

theorem get?_publish (v : Value) :
    (s.publish name v).get? other = if other = name then some v else s.get? other := by
  by_cases h : other = name
  · subst h
    simp [get?, publish, Members.get?_put_self]
  · simp [get?, publish, settle, Members.get?_put_of_ne _ _ h, h]

theorem get?_await : (s.await name).2.get? other = s.get? other := by
  rw [await]
  split <;> rfl

@[simp] theorem waiters_leave : (s.leave name id).waiters = s.waiters := by
  rw [leave]
  split <;> rfl

@[simp] theorem values_leave : (s.leave name id).values = s.values := by
  rw [leave]
  split <;> rfl

end Store

/-- The value that an event publishes under a name. -/
def Event.published? (name : String) : Event → Option Value
  | .publish other v => if other = name then some v else none
  | _ => none

/-- The first value that some events publish under a name. -/
def firstPublished (name : String) (es : List Event) : Option Value :=
  es.findSome? (Event.published? name)

namespace Exchange

variable {x : Exchange} {e : Event} {id : Nat} {name : String} {v : Value}

/-- Whether a visit still waits for a name. -/
def Waits (x : Exchange) (id : Nat) (name : String) : Prop :=
  x.store.waiters[id]? = some (.waiting name)

/-- Whether the wait of a visit has ended without a value. -/
def Stopped (x : Exchange) (id : Nat) : Prop :=
  ∃ w, x.store.waiters[id]? = some w ∧ (w = .cancelled ∨ ∃ name, w = .timedOut name)

/-- An exchange in good order: a visit for every waiter, the waiting ones on the list of their name,
on the lists those who have not gone, once and under their own name, and no list for a name that has
a value. -/
structure Orderly (x : Exchange) : Prop where
  numbered : x.visits.length = x.store.waiters.length
  waiting : ∀ id name, x.Waits id name → id ∈ x.store.listed name
  listed : ∀ name, ∀ id ∈ x.store.listed name, x.visits[id]? = some ⟨name, false⟩
  once : ∀ name, (x.store.listed name).Nodup
  names : (Members.names x.store.pending).Nodup
  unpublished : ∀ name, x.store.has name → x.store.listed name = []

theorem Orderly.visits_of_waits (h : x.Orderly) (hw : x.Waits id name) :
    x.visits[id]? = some ⟨name, false⟩ :=
  h.listed name id (h.waiting id name hw)

theorem orderly_empty : ({} : Exchange).Orderly where
  numbered := rfl
  waiting := by simp [Waits]
  listed := by simp [Store.listed, Members.get?]
  once := by simp [Store.listed, Members.get?]
  names := List.nodup_nil
  unpublished := by simp [Store.listed, Members.get?]

/-! ## What a step keeps -/

theorem Orderly.publish (h : x.Orderly) : (x.step (.publish name v)).Orderly where
  numbered := h.numbered.trans Store.length_waiters_settle.symm
  waiting id other hw := by
    obtain ⟨hw, hid⟩ := Store.waiting_of_settle hw (by simp)
    have hmem := h.waiting id other hw
    have hother : other ≠ name := fun heq => hid (heq ▸ hmem)
    simpa [step, Store.listed_publish, hother] using hmem
  listed other id hid := by
    rw [step, Store.listed_publish] at hid
    split at hid
    · simp at hid
    · exact h.listed other id hid
  once other := by
    rw [step, Store.listed_publish]
    split
    · exact List.nodup_nil
    · exact h.once other
  names := Members.nodup_names_erase h.names
  unpublished other hother := by
    rw [step, Store.listed_publish]
    split
    · rfl
    · rename_i hne
      refine h.unpublished other ?_
      simpa [step, Store.has, Store.get?_publish, hne] using hother

/-- Whoever finds a value takes it and goes. -/
theorem Orderly.await_found (h : x.Orderly) (hv : x.store.get? name = some v) :
    (x.step (.await name)).Orderly := by
  have hstore : (x.store.await name).2 =
      { x.store with waiters := x.store.waiters ++ [.received v] } := by
    simp [Store.await, hv]
  constructor
  all_goals simp only [step, hstore]
  · simp [h.numbered]
  · intro id other hw
    refine h.waiting id other ?_
    rw [Waits, List.getElem?_append] at hw
    split at hw
    · exact hw
    · simp [List.getElem?_singleton] at hw
  · intro other id hid
    have hvisit := h.listed other id hid
    rwa [List.getElem?_append_left (List.getElem?_eq_some_iff.mp hvisit).1]
  · exact h.once
  · exact h.names
  · exact h.unpublished

/-- Whoever finds no value is put on the list, behind those who are there. -/
theorem Orderly.await_missing (h : x.Orderly) (hnone : x.store.get? name = none) :
    (x.step (.await name)).Orderly := by
  have hnew : ∀ other, ∀ id ∈ x.store.listed other, id < x.visits.length := fun other id hid =>
    (List.getElem?_eq_some_iff.mp (h.listed other id hid)).1
  have hwaiters : (x.store.await name).2.waiters = x.store.waiters ++ [.waiting name] := by
    simp [Store.await, hnone]
  constructor
  all_goals simp only [step, Store.listed_await hnone]
  · simp [hwaiters, h.numbered]
  · intro id other hw
    rw [Waits, hwaiters, List.getElem?_append] at hw
    split at hw
    · have hmem := h.waiting id other hw
      by_cases hother : other = name
      · subst hother
        simp [hmem]
      · simpa [hother] using hmem
    · rename_i hlt
      obtain ⟨hid, heq⟩ : id = x.store.waiters.length ∧ name = other := by
        rw [List.getElem?_singleton] at hw
        split at hw
        · exact ⟨by omega, by simpa using hw⟩
        · cases hw
      simp [hid, heq]
  · intro other id hid
    by_cases hother : other = name
    · subst hother
      rw [if_pos rfl, List.mem_append] at hid
      rcases hid with hid | hid
      · rw [List.getElem?_append_left (hnew _ _ hid)]
        exact h.listed _ id hid
      · obtain rfl := List.mem_singleton.mp hid
        simp [← h.numbered, Store.has, hnone]
    · rw [if_neg hother] at hid
      rw [List.getElem?_append_left (hnew _ _ hid)]
      exact h.listed _ id hid
  · intro other
    split
    · rename_i hother
      subst hother
      refine List.nodup_append.mpr ⟨h.once other, List.nodup_singleton _, ?_⟩
      intro id hid id' hid' heq
      obtain rfl := List.mem_singleton.mp hid'
      exact absurd (hnew _ _ hid) (by rw [heq, h.numbered]; exact Nat.lt_irrefl _)
    · exact h.once other
  · simpa [Store.await, hnone] using Members.nodup_names_put h.names
  · intro other hother
    simp only [Store.has, Store.get?_await] at hother
    have hne : other ≠ name := fun heq => by simp [heq, hnone] at hother
    rw [if_neg hne]
    exact h.unpublished other hother

theorem Orderly.settle (h : x.Orderly) {ids : List Nat} {outcome : Waiter}
    (houtcome : ∀ name, outcome ≠ .waiting name) :
    ({ x with store := x.store.settle ids outcome } : Exchange).Orderly where
  numbered := h.numbered.trans Store.length_waiters_settle.symm
  waiting id name hw := h.waiting id name (Store.waiting_of_settle hw houtcome).1
  listed := h.listed
  once := h.once
  names := h.names
  unpublished := h.unpublished

theorem Orderly.stop (h : x.Orderly) {outcome : Visit → Waiter}
    (houtcome : ∀ visit name, outcome visit ≠ .waiting name) : (x.stop id outcome).Orderly := by
  rw [Exchange.stop]
  split
  · exact h.settle (houtcome _)
  · exact h

/-- Whoever has an outcome waits no more. -/
theorem not_waits_of_outcome (h : (x.store.outcome? id).isSome) : ¬ x.Waits id name := by
  intro hw
  rw [Waits] at hw
  simp [Store.outcome?, hw] at h

/-- Whoever goes on leaves the list of their own name, and is on no other. -/
theorem Orderly.goOn (h : x.Orderly) : (x.goOn id).Orderly := by
  rw [Exchange.goOn]
  split
  · rename_i visit outcome hvisit houtcome
    split
    · exact h
    · have hdone : ∀ name, ¬ x.Waits id name := fun name =>
        not_waits_of_outcome (by simp [houtcome])
      constructor
      · simpa using h.numbered
      · intro other name hw
        have hne : other ≠ id := fun heq => hdone name (heq ▸ by simpa [Waits] using hw)
        have hmem := h.waiting other name (by simpa [Waits] using hw)
        rw [Store.listed_leave]
        split
        · rename_i hname
          exact (List.mem_erase_of_ne hne).mpr (hname ▸ hmem)
        · exact hmem
      · intro name other hid
        have hmem : other ∈ x.store.listed name ∧ other ≠ id := by
          rw [Store.listed_leave] at hid
          split at hid
          · rename_i hname
            obtain ⟨hne, hmem⟩ := ((h.once _).mem_erase_iff).mp hid
            exact ⟨hname ▸ hmem, hne⟩
          · rename_i hname
            refine ⟨hid, fun heq => hname ?_⟩
            have := h.listed name other hid
            rw [heq, hvisit] at this
            exact congrArg Visit.name (Option.some.inj this).symm
        rw [List.getElem?_set_ne hmem.2.symm]
        exact h.listed name other hmem.1
      · intro name
        rw [Store.listed_leave]
        split
        · exact (h.once _).erase id
        · exact h.once name
      · rw [Store.leave]
        split
        · exact Members.nodup_names_put h.names
        · exact h.names
      · intro name hname
        have hempty := h.unpublished name (by simpa [Store.has, Store.get?] using hname)
        rw [Store.listed_leave]
        split
        · rename_i heq
          simp [← heq, hempty]
        · exact hempty
  · exact h

theorem mem_flatMap_of_listed {s : Store} (h : id ∈ s.listed name) :
    id ∈ s.pending.flatMap Prod.snd := by
  rw [Store.listed] at h
  cases hids : Members.get? s.pending name with
  | none => simp [hids] at h
  | some ids =>
    exact List.mem_flatMap.mpr ⟨(name, ids), Members.mem_of_get? hids, by simpa [hids] using h⟩

/-- Nobody waits at a store that was cleared. -/
theorem Orderly.clear (h : x.Orderly) : (x.step .clear).Orderly where
  numbered := h.numbered.trans Store.length_waiters_settle.symm
  waiting id name hw := by
    obtain ⟨hw, hid⟩ := Store.waiting_of_settle hw (by simp)
    exact absurd (mem_flatMap_of_listed (h.waiting id name hw)) hid
  listed name id hid := by simp [step, Store.clear, Store.listed, Members.get?] at hid
  once name := by simp [step, Store.clear, Store.listed, Members.get?]
  names := List.nodup_nil
  unpublished name _ := by simp [step, Store.clear, Store.listed, Members.get?]

theorem Orderly.step (h : x.Orderly) (e : Event) : (x.step e).Orderly := by
  cases e with
  | publish name v => exact h.publish
  | await name =>
    cases hv : x.store.get? name with
    | some v => exact h.await_found hv
    | none => exact h.await_missing hv
  | timeOut id => exact h.stop (by simp)
  | cancel id => exact h.stop (by simp)
  | goOn id => exact h.goOn
  | clear => exact h.clear

theorem run_append (before after : List Event) :
    run (before ++ after) = after.foldl Exchange.step (run before) :=
  List.foldl_append

theorem Orderly.foldl (h : x.Orderly) (es : List Event) : (es.foldl Exchange.step x).Orderly := by
  induction es generalizing x with
  | nil => exact h
  | cons e es ih => exact ih (h.step e)

theorem orderly_run (es : List Event) : (run es).Orderly := orderly_empty.foldl es

/-! ## What becomes of a visit -/

theorem step_of_settled {w : Waiter} (h : x.store.waiters[id]? = some w)
    (hw : ∀ name, w ≠ .waiting name) (e : Event) : (x.step e).store.waiters[id]? = some w := by
  have hstop : ∀ other outcome, (x.stop other outcome).store.waiters[id]? = some w := by
    intro other outcome
    rw [stop]
    split
    · exact Store.settle_of_settled h hw
    · exact h
  cases e with
  | publish name v => exact Store.settle_of_settled h hw
  | await name =>
    rw [step, Store.await]
    split <;> exact (List.getElem?_append_left (List.getElem?_eq_some_iff.mp h).1).trans h
  | timeOut other => exact hstop other _
  | cancel other => exact hstop other _
  | goOn other =>
    rw [step, goOn]
    split
    · split
      · exact h
      · simpa using h
    · exact h
  | clear => exact Store.settle_of_settled h hw

/-- What has become of a visit stays, whatever comes after. -/
theorem foldl_of_settled {w : Waiter} (h : x.store.waiters[id]? = some w)
    (hw : ∀ name, w ≠ .waiting name) (es : List Event) :
    (es.foldl Exchange.step x).store.waiters[id]? = some w := by
  induction es generalizing x with
  | nil => exact h
  | cons e es ih => exact ih (step_of_settled h hw e)

/-- Whoever waits for a name receives what is published under it; by any other step they are
stopped, or wait on. -/
theorem step_of_waits (hx : x.Orderly) (h : x.Waits id name) (e : Event) :
    (∃ v, e.published? name = some v ∧ (x.step e).store.waiters[id]? = some (.received v)) ∨
      e.published? name = none ∧ ((x.step e).Waits id name ∨ (x.step e).Stopped id) := by
  have hstop : ∀ other outcome, (∀ visit, outcome visit = .cancelled ∨
      ∃ name, outcome visit = .timedOut name) →
      (x.stop other outcome).Waits id name ∨ (x.stop other outcome).Stopped id := by
    intro other outcome houtcome
    rw [stop]
    split
    · rename_i visit _
      by_cases hid : id ∈ [other]
      · exact .inr ⟨_, by simp only [Store.settle_of_waiting h, if_pos hid], houtcome visit⟩
      · exact .inl (by simp only [Waits, Store.settle_of_waiting h, if_neg hid])
    · exact .inl h
  cases e with
  | publish other v =>
    have hafter : (x.step (.publish other v)).store.waiters[id]? = some
        (if id ∈ x.store.listed other then .received v else .waiting name) :=
      Store.settle_of_waiting h
    by_cases hname : other = name
    · subst hname
      rw [if_pos (hx.waiting id other h)] at hafter
      exact .inl ⟨v, by simp [Event.published?], hafter⟩
    · have hid : id ∉ x.store.listed other := fun hid => hname <| by
        have := (hx.listed other id hid).symm.trans (hx.visits_of_waits h)
        exact congrArg Visit.name (Option.some.inj this)
      rw [if_neg hid] at hafter
      exact .inr ⟨by simp [Event.published?, hname], .inl hafter⟩
  | await other =>
    refine .inr ⟨rfl, .inl ?_⟩
    rw [step, Store.await]
    split <;> exact (List.getElem?_append_left (List.getElem?_eq_some_iff.mp h).1).trans h
  | timeOut other => exact .inr ⟨rfl, hstop other _ fun visit => .inr ⟨_, rfl⟩⟩
  | cancel other => exact .inr ⟨rfl, hstop other _ fun _ => .inl rfl⟩
  | goOn other =>
    refine .inr ⟨rfl, .inl ?_⟩
    rw [step, goOn]
    split
    · split
      · exact h
      · simpa [Waits] using h
    · exact h
  | clear =>
    refine .inr ⟨rfl, .inr ⟨.cancelled, ?_, .inl rfl⟩⟩
    exact (Store.settle_of_waiting h).trans
      (by rw [if_pos (mem_flatMap_of_listed (hx.waiting id name h))])

theorem Stopped.settled (h : x.Stopped id) :
    ∃ w, x.store.waiters[id]? = some w ∧ (∀ name, w ≠ .waiting name) ∧ ∀ v, w ≠ .received v := by
  obtain ⟨w, hw, rfl | ⟨name, rfl⟩⟩ := h
  · exact ⟨_, hw, by simp, by simp⟩
  · exact ⟨_, hw, by simp, by simp⟩

/-- Who is stopped stays stopped. -/
theorem Stopped.foldl (h : x.Stopped id) (es : List Event) :
    (es.foldl Exchange.step x).Stopped id := by
  obtain ⟨w, hw, hwhy⟩ := h
  refine ⟨w, foldl_of_settled hw ?_ es, hwhy⟩
  rintro name rfl
  simp at hwhy

/-- Whoever waits for a name receives nothing but the first value that is published under it. -/
theorem received_of_waits (hx : x.Orderly) (h : x.Waits id name) {es : List Event}
    (hv : (es.foldl Exchange.step x).store.waiters[id]? = some (.received v)) :
    firstPublished name es = some v := by
  induction es generalizing x with
  | nil => exact absurd (h.symm.trans hv) (by simp)
  | cons e es ih =>
    rw [firstPublished, List.findSome?_cons]
    rcases step_of_waits hx h e with ⟨v', hpublished, hreceived⟩ | ⟨hother, hwaits | hstopped⟩
    · have := (foldl_of_settled hreceived (by simp) es).symm.trans hv
      simp only [Option.some.injEq, Waiter.received.injEq] at this
      rw [hpublished, this]
    · rw [hother]
      exact ih (hx.step e) hwaits hv
    · obtain ⟨w, hw, -, hnot⟩ := (hstopped.foldl es).settled
      exact absurd (Option.some.inj (hw.symm.trans hv)) (hnot v)

/-- After a value was published under a name nobody waits any more who asked for it before. -/
theorem settled_of_publish (hx : x.Orderly) {visit : Visit} (h : x.visits[id]? = some visit)
    (v : Value) : ∃ w, (x.step (.publish visit.name v)).store.waiters[id]? = some w ∧
      ∀ name, w ≠ .waiting name := by
  obtain ⟨w, hw⟩ : ∃ w, x.store.waiters[id]? = some w :=
    ⟨_, List.getElem?_eq_getElem (hx.numbered ▸ (List.getElem?_eq_some_iff.mp h).1)⟩
  by_cases hwaits : ∃ name, w = .waiting name
  · obtain ⟨name, rfl⟩ := hwaits
    obtain rfl := Option.some.inj (h.symm.trans (hx.visits_of_waits hw))
    rcases step_of_waits hx hw (.publish name v) with ⟨v', -, hreceived⟩ | ⟨hother, -⟩
    · exact ⟨_, hreceived, by simp⟩
    · simp [Event.published?] at hother
  · have hsettled : ∀ name, w ≠ .waiting name := fun name heq => hwaits ⟨name, heq⟩
    exact ⟨w, step_of_settled hw hsettled _, hsettled⟩

theorem returned?_eq_some {outcome : Attempt Value} (h : x.returned? id = some outcome) :
    ∃ visit, x.visits[id]? = some visit ∧ visit.gone ∧ x.store.outcome? id = some outcome := by
  rw [returned?] at h
  split at h
  · rename_i visit hvisit
    split at h
    · rename_i hgone
      exact ⟨visit, hvisit, hgone, h⟩
    · cases h
  · cases h

theorem received_of_outcome {s : Store} (h : s.outcome? id = some (.ok v)) :
    s.waiters[id]? = some (.received v) := by
  rw [Store.outcome?] at h
  split at h
  · rename_i v' hv'
    rw [hv']
    exact congrArg _ (congrArg _ (Except.ok.inj (Option.some.inj h)))
  all_goals cases h

/-- What a visit receives is the value that it found, or else the first that was published after it
asked. -/
theorem received_value {before after : List Event}
    (h : (run (before ++ .await name :: after)).store.waiters[
      (run before).store.waiters.length]? = some (.received v)) :
    (run before).store.get? name = some v ∨
      (run before).store.get? name = none ∧ firstPublished name after = some v := by
  have hx := orderly_run before
  rw [run_append, List.foldl_cons] at h
  cases hfound : (run before).store.get? name with
  | some v' =>
    have htaken : ((run before).step (.await name)).store.waiters[
        (run before).store.waiters.length]? = some (.received v') := by
      simp [step, Store.await, hfound]
    have := (foldl_of_settled htaken (by simp) after).symm.trans h
    exact .inl (by simpa using this)
  | none =>
    have hwaits : ((run before).step (.await name)).Waits
        (run before).store.waiters.length name := by
      simp [Waits, step, Store.await, hfound]
    exact .inr ⟨rfl, received_of_waits (hx.step _) hwaits h⟩

theorem returned_value {before after : List Event}
    (h : (run (before ++ .await name :: after)).returned? (run before).visits.length =
      some (.ok v)) :
    (run before).store.get? name = some v ∨
      (run before).store.get? name = none ∧ firstPublished name after = some v := by
  obtain ⟨visit, -, -, houtcome⟩ := returned?_eq_some h
  exact received_value ((orderly_run before).numbered ▸ received_of_outcome houtcome)

theorem get?_step (he : e ≠ .clear) (name : String) : (x.step e).store.get? name =
    ((e.published? name).or (x.store.get? name)) := by
  have hstop : ∀ other outcome, (x.stop other outcome).store.get? name = x.store.get? name := by
    intro other outcome
    rw [stop]
    split <;> rfl
  cases e with
  | publish other v =>
    rw [step, Store.get?_publish, Event.published?]
    by_cases h : other = name
    · simp [h]
    · simp [h, Ne.symm h]
  | await other => exact Store.get?_await
  | timeOut other => exact hstop other _
  | cancel other => exact hstop other _
  | goOn other =>
    rw [step, goOn]
    split
    · split <;> simp [Store.get?, Event.published?]
    · rfl
  | clear => exact absurd rfl he

/-- While the store is not cleared, the value under a name is the last that was published. -/
theorem get?_run {es : List Event} (hclear : .clear ∉ es) (name : String) :
    (run es).store.get? name = (es.filterMap (Event.published? name)).getLast? := by
  induction es using List.reverseRecOn with
  | nil => rfl
  | append_singleton es e ih =>
    have he : e ≠ .clear := fun heq => hclear (by simp [heq])
    rw [run_append, List.foldl_cons, List.foldl_nil, get?_step he,
      ih fun hmem => hclear (List.mem_append_left _ hmem), List.filterMap_append,
      List.getLast?_append]
    cases h : e.published? name <;> simp [h]

/-- What a visit receives is, of all values published under the name, the last of those that were
published before it asked, or the first of all. -/
theorem received_position {before after : List Event}
    (hclear : .clear ∉ before) (h : (run (before ++ .await name :: after)).store.waiters[
      (run before).store.waiters.length]? = some (.received v)) :
    ((before ++ .await name :: after).filterMap (Event.published? name))[
      (before.filterMap (Event.published? name)).length - 1]? = some v := by
  have hsplit : (before ++ .await name :: after).filterMap (Event.published? name) =
      before.filterMap (Event.published? name) ++ after.filterMap (Event.published? name) := by
    rw [List.filterMap_append, List.filterMap_cons_none rfl]
  rw [hsplit]
  rcases received_value h with hfound | ⟨hnone, hfirst⟩
  · rw [get?_run hclear, List.getLast?_eq_getElem?] at hfound
    exact (List.getElem?_append_left (List.getElem?_eq_some_iff.mp hfound).1).trans hfound
  · rw [get?_run hclear, List.getLast?_eq_none_iff] at hnone
    rw [firstPublished, ← List.head?_filterMap, List.head?_eq_getElem?] at hfirst
    simpa [hnone] using hfirst

/-- Whoever waits is on one list only, and once. -/
theorem Orderly.count_pending (h : x.Orderly) (hw : x.Waits id name) :
    (x.store.pending.flatMap Prod.snd).count id = 1 := by
  have hlisted : ∀ kv ∈ x.store.pending, x.store.listed kv.1 = kv.2 := fun kv hkv => by
    simp [Store.listed, Members.get?_of_mem h.names hkv]
  refine List.count_eq_one_of_mem (List.nodup_flatMap.mpr ⟨fun kv hkv => ?_, ?_⟩)
    (mem_flatMap_of_listed (h.waiting id name hw))
  · exact hlisted kv hkv ▸ h.once kv.1
  · refine (List.pairwise_map.mp h.names).imp_of_mem fun {kv kv'} hkv hkv' hne => ?_
    refine List.disjoint_left.mpr fun other hother hother' => hne ?_
    have hfirst := h.listed kv.1 other (hlisted kv hkv ▸ hother)
    have hsecond := h.listed kv'.1 other (hlisted kv' hkv' ▸ hother')
    exact congrArg Visit.name (Option.some.inj (hfirst.symm.trans hsecond))

/-- To expire is to run out of time and to go on at once. -/
theorem store_expire (h : x.Orderly) (hw : x.Waits id name) :
    ((x.step (.timeOut id)).step (.goOn id)).store = x.store.expire id := by
  have hvisit := h.visits_of_waits hw
  have hover : (x.store.settle [id] (.timedOut name)).waiters[id]? = some (.timedOut name) := by
    rw [Store.settle_of_waiting hw, if_pos (List.mem_singleton_self _)]
  have hstop : x.step (.timeOut id) = ⟨x.store.settle [id] (.timedOut name), x.visits⟩ := by
    simp only [step, stop, hvisit]
  have houtcome : (x.store.settle [id] (.timedOut name)).outcome? id =
      some (Attempt.fault (.exportMissing name)) := by
    rw [Store.outcome?, hover]
  rw [hstop, Store.expire, hw]
  show (goOn ⟨_, x.visits⟩ id).store = _
  simp only [goOn, hvisit, houtcome, Bool.false_eq_true, if_false]

/-- Whatever steps an exchange takes: nobody waits for a name that has a value; everybody who waits
is on the list of the name they asked for, and on the lists just once; a visit returns no value but
the one it found or else the first published after; no one who asked for a name before it was
published waits after that; and whoever was stopped never receives a value, and is on no list once
they have gone on. -/
theorem run_inOrder (es : List Event) :
    (∀ name, (run es).store.has name → ∀ id ∈ (run es).store.listed name,
      ∀ other, ¬ (run es).Waits id other) ∧
    (∀ id name, (run es).Waits id name → (run es).visits[id]? = some ⟨name, false⟩ ∧
      id ∈ (run es).store.listed name ∧
      ((run es).store.pending.flatMap Prod.snd).count id = 1) ∧
    (∀ before name after v, es = before ++ .await name :: after →
      (run es).returned? (run before).visits.length = some (.ok v) →
      (run before).store.get? name = some v ∨
        (run before).store.get? name = none ∧ firstPublished name after = some v) ∧
    (∀ before name v after id visit, es = before ++ .publish name v :: after →
      (run before).visits[id]? = some visit → visit.name = name →
      ∀ other, ¬ (run es).Waits id other) ∧
    (∀ before after id, es = before ++ after → (run before).Stopped id →
      (run es).Stopped id ∧ ∀ v, (run es).returned? id ≠ some (.ok v)) ∧
    ∀ id visit, (run es).visits[id]? = some visit → visit.gone →
      ∀ name, id ∉ (run es).store.listed name := by
  have horder := orderly_run es
  refine ⟨?_, ?_, ?_, ?_, ?_, ?_⟩
  · intro name hname id hid
    simp [horder.unpublished name hname] at hid
  · intro id name hw
    exact ⟨horder.visits_of_waits hw, horder.waiting id name hw, horder.count_pending hw⟩
  · rintro before name after v rfl hv
    exact returned_value hv
  · rintro before name v after id visit rfl hvisit rfl other hw
    obtain ⟨w, hsettled, hnot⟩ := settled_of_publish (orderly_run before) hvisit v
    rw [run_append, List.foldl_cons] at hw
    exact hnot other (Option.some.inj ((foldl_of_settled hsettled hnot after).symm.trans hw))
  · rintro before after id rfl hstopped
    have hstays := run_append before after ▸ hstopped.foldl after
    refine ⟨hstays, fun v hv => ?_⟩
    obtain ⟨visit, -, -, houtcome⟩ := returned?_eq_some hv
    obtain ⟨w, hw, -, hnot⟩ := hstays.settled
    exact hnot v (Option.some.inj (hw.symm.trans (received_of_outcome houtcome)))
  · intro id visit hvisit hgone name hid
    have := Option.some.inj (hvisit.symm.trans (horder.listed name id hid))
    simp [this] at hgone

/-- Two wait for a name. One of them runs out of time and is still on the list when a value is
published, which only the other returns. -/
example :
    let x := run [.await "a", .await "a", .timeOut 0, .publish "a" (.int 1), .publish "a" (.int 2),
      .goOn 1, .goOn 0]
    x.returned? 0 = some (Attempt.fault (.exportMissing "a")) ∧
      x.returned? 1 = some (.ok (.int 1)) ∧ x.store.get? "a" = some (.int 2) :=
  ⟨rfl, rfl, rfl⟩

end Exchange
end RelGraph.Exports
