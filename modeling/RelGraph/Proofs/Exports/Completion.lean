import RelGraph.Proofs.Exports.Filling
/-!
What resolving a value comes to, whatever else happens at the store. Where every name has a value
the value is filled at once. Where a name is never published it never comes to anything: it waits
for some name without a value until its time is up, or until the store is cleared.
-/
namespace RelGraph.Exports

theorem Missing.sooner_eq (a b : Missing) : a.sooner b = a ∨ a.sooner b = b := by
  rw [sooner]
  split
  · exact .inr rfl
  · exact .inl rfl

/-! ## Waiting -/

namespace Store

variable {s : Store} {names : List String} {name other : String} {id : Nat} {w : Waiter}

/-- Who has asked is as before when another asks. -/
theorem getElem?_waiters_await (h : s.waiters[id]? = some w) :
    (s.await name).2.waiters[id]? = some w := by
  rw [Store.await]
  split <;> exact (List.getElem?_append_left (List.getElem?_eq_some_iff.mp h).1).trans h

theorem getElem?_waiters_awaitAll (h : s.waiters[id]? = some w) :
    (s.awaitAll names).waiters[id]? = some w := by
  induction names generalizing s with
  | nil => exact h
  | cons name names ih => exact ih (getElem?_waiters_await h)

/-- Whether a store is that of an exchange in good order. -/
def InOrder (s : Store) : Prop := ∃ x : Exchange, x.Orderly ∧ x.store = s

theorem InOrder.publish (h : s.InOrder) (v : Value) : (s.publish name v).InOrder := by
  obtain ⟨x, hx, rfl⟩ := h
  exact ⟨_, hx.step (.publish name v), rfl⟩

theorem InOrder.awaitAll (h : s.InOrder) (names : List String) : (s.awaitAll names).InOrder := by
  induction names generalizing s with
  | nil => exact h
  | cons name names ih =>
    obtain ⟨x, hx, rfl⟩ := h
    exact ih ⟨_, hx.step (.await name), rfl⟩

theorem InOrder.clear (h : s.InOrder) : s.clear.InOrder := by
  obtain ⟨x, hx, rfl⟩ := h
  exact ⟨_, hx.step .clear, rfl⟩

theorem expire_of_not_waiting (h : ∀ name, s.waiters[id]? ≠ some (.waiting name)) :
    s.expire id = s := by
  rw [expire]
  split
  · rename_i name hw
    exact absurd hw (h name)
  · rfl

theorem InOrder.expire (h : s.InOrder) (id : Nat) : (s.expire id).InOrder := by
  by_cases hw : ∃ name, s.waiters[id]? = some (.waiting name)
  · obtain ⟨name, hw⟩ := hw
    obtain ⟨x, hx, rfl⟩ := h
    exact ⟨_, (hx.step (.timeOut id)).step (.goOn id), Exchange.store_expire hx hw⟩
  · rw [expire_of_not_waiting fun name heq => hw ⟨name, heq⟩]
    exact h

/-- When the time of one is up the others wait on. -/
theorem getElem?_waiters_expire {other : Nat} (h : s.waiters[id]? = some w) (hne : id ≠ other) :
    (s.expire other).waiters[id]? = some w := by
  rw [expire]
  split
  · rw [waiters_leave]
    by_cases hw : ∃ name, w = .waiting name
    · obtain ⟨name, rfl⟩ := hw
      rw [settle_of_waiting h, if_neg (by simpa using hne)]
    · exact settle_of_settled h fun name heq => hw ⟨name, heq⟩
  · exact h

theorem get?_expire : (s.expire id).get? name = s.get? name := by
  rw [expire]
  split
  · rw [get?, values_leave]
    rfl
  · rfl

/-- Nobody waits for a name that has a value. -/
theorem InOrder.get?_of_waiting (h : s.InOrder) (hw : s.waiters[id]? = some (.waiting name)) :
    s.get? name = none := by
  obtain ⟨x, hx, rfl⟩ := h
  by_contra hvalue
  have hempty := hx.unpublished name (Option.isSome_iff_ne_none.mpr hvalue)
  have hlisted := hx.waiting id name hw
  rw [hempty] at hlisted
  cases hlisted

/-- Who waits for a name receives what is published under it, and waits on for other names. -/
theorem InOrder.waiting_publish (h : s.InOrder) (hw : s.waiters[id]? = some (.waiting name))
    (v : Value) : (s.publish other v).waiters[id]? =
      some (if other = name then .received v else .waiting name) := by
  obtain ⟨x, hx, rfl⟩ := h
  have hlisted : id ∈ x.store.listed other ↔ other = name := by
    constructor
    · intro hid
      have hvisit := (hx.listed other id hid).symm.trans (hx.visits_of_waits hw)
      exact congrArg Visit.name (Option.some.inj hvisit)
    · rintro rfl
      exact hx.waiting id other hw
  simp only [← hlisted]
  exact settle_of_waiting hw

end Store

namespace Resolution

variable {given : String → Value → Prop} {asked asked' : String → Nat → Prop} {s : Store}
  {name : String} {id : Nat} {v : Value} {res : Resolution} {names : List String}

mutual

/-- The numbers under which a value waits at the store. -/
def awaited : Resolution → List Nat
  | settled _ => []
  | waiting id => [id]
  | list parts => awaitedItems parts
  | object _ _ part _ => awaited part

/-- The numbers under which items wait. -/
def awaitedItems : List Resolution → List Nat
  | [] => []
  | part :: rest => awaited part ++ awaitedItems rest

end

/-- Whether somebody waits for some name. -/
def Parked (s : Store) (numbers : List Nat) : Prop :=
  ∃ id ∈ numbers, ∃ name, s.waiters[id]? = some (.waiting name)

theorem parked_append {numbers more : List Nat} :
    Parked s (numbers ++ more) ↔ Parked s numbers ∨ Parked s more := by
  simp only [Parked, List.mem_append, or_and_right, exists_or]

/-- Whether somebody has no value: they wait, or never will have one. -/
def Held (s : Store) (numbers : List Nat) : Prop :=
  ∃ id ∈ numbers, ∃ w, s.waiters[id]? = some w ∧ ∀ v, w ≠ .received v

theorem Held.awaitAll {numbers : List Nat} (h : Held s numbers) (names : List String) :
    Held (s.awaitAll names) numbers := by
  obtain ⟨id, hid, w, hw, hnot⟩ := h
  exact ⟨id, hid, w, Store.getElem?_waiters_awaitAll hw, hnot⟩

mutual

/-- Whoever waits for some name will miss one. -/
theorem exists_missing : ∀ {res : Resolution}, Parked s res.awaited →
    ∃ m, missing? s res = some m
  | settled _, h => by
    obtain ⟨id, hid, -⟩ := h
    cases hid
  | waiting _, h => by
    obtain ⟨id, hid, name, hw⟩ := h
    obtain rfl := List.mem_singleton.mp hid
    rw [missing?, hw]
    exact ⟨_, rfl⟩
  | list _, h => by
    rw [awaited] at h
    obtain ⟨m, hm⟩ := exists_missingItem h
    rw [missing?, hm]
    exact ⟨_, rfl⟩
  | object .., h => by
    rw [awaited] at h
    rw [missing?]
    exact exists_missing h

theorem exists_missingItem : ∀ {parts : List Resolution}, Parked s (awaitedItems parts) →
    ∃ m, missingItem? s parts = some m
  | [], h => by
    obtain ⟨id, hid, -⟩ := h
    cases hid
  | part :: rest, h => by
    rw [awaitedItems, parked_append] at h
    rw [missingItem?]
    rcases h with h | h
    · obtain ⟨m, hm⟩ := exists_missing h
      rw [hm]
      cases missingItem? s rest <;> exact ⟨_, rfl⟩
    · obtain ⟨m, hm⟩ := exists_missingItem h
      rw [hm]
      cases missing? s part <;> exact ⟨_, rfl⟩

end

theorem soonerOf_eq_some {a b : Option Missing} {m : Missing} (h : soonerOf a b = some m) :
    a = some m ∨ b = some m := by
  cases a with
  | none => exact .inr h
  | some a =>
    cases b with
    | none => exact .inl h
    | some b =>
      obtain rfl := Option.some.inj h
      exact (Missing.sooner_eq a b).imp (congrArg some ·.symm) (congrArg some ·.symm)

mutual

/-- The name that is missed is one that is waited for. -/
theorem waiting_of_missing : ∀ {res : Resolution} {m : Missing}, missing? s res = some m →
    ∃ id ∈ res.awaited, s.waiters[id]? = some (.waiting m.name)
  | settled _, _, h => by cases h
  | waiting id, m, h => by
    rw [missing?] at h
    split at h
    · rename_i name hw
      obtain rfl := Option.some.inj h
      exact ⟨id, List.mem_singleton_self id, hw⟩
    · cases h
  | list _, _, h => by
    rw [missing?] at h
    obtain ⟨m', hm', rfl⟩ := Option.map_eq_some_iff.mp h
    obtain ⟨id, hid, hw⟩ := waiting_of_missingItem hm'
    exact ⟨id, hid, hw⟩
  | object .., _, h => by
    rw [missing?] at h
    rw [awaited]
    exact waiting_of_missing h

theorem waiting_of_missingItem : ∀ {parts : List Resolution} {m : Missing},
    missingItem? s parts = some m →
    ∃ id ∈ awaitedItems parts, s.waiters[id]? = some (.waiting m.name)
  | [], _, h => by cases h
  | part :: rest, m, h => by
    rw [missingItem?] at h
    rw [awaitedItems]
    rcases soonerOf_eq_some h with h | h
    · obtain ⟨id, hid, hw⟩ := waiting_of_missing h
      exact ⟨id, List.mem_append_left _ hid, hw⟩
    · obtain ⟨id, hid, hw⟩ := waiting_of_missingItem h
      exact ⟨id, List.mem_append_right _ hid, hw⟩

end

mutual

/-- What a value waits for are names that occur in it. -/
theorem Underway.asked_of_awaited : ∀ {res : Resolution} {v : Value},
    Underway given asked res v → id ∈ res.awaited → ∃ name, Occurs name v ∧ asked name id
  | settled _, _, _, hid => by cases hid
  | waiting _, v, h, hid => by
    rw [Underway] at h
    obtain ⟨name, hname, hasked⟩ := h
    obtain rfl := List.mem_singleton.mp hid
    cases v with
    | text t => exact ⟨name, occurs_text.mpr hname, hasked⟩
    | _ => cases hname
  | list _, _, h, hid => by
    rw [Underway] at h
    rw [awaited] at hid
    obtain ⟨items, rfl | rfl, hitems⟩ := h
    · obtain ⟨v, hv, name, hname, hasked⟩ := hitems.asked_of_awaited hid
      exact ⟨name, occurs_list.mpr ⟨v, hv, hname⟩, hasked⟩
    · obtain ⟨v, hv, name, hname, hasked⟩ := hitems.asked_of_awaited hid
      exact ⟨name, occurs_tuple.mpr ⟨v, hv, hname⟩, hasked⟩
  | object _ key _ _, _, h, hid => by
    rw [Underway] at h
    rw [awaited] at hid
    obtain ⟨done, u, rfl, -, hu⟩ := h
    obtain ⟨name, hname, hasked⟩ := hu.asked_of_awaited hid
    exact ⟨name, occurs_object.mpr ⟨(key, u), by simp, hname⟩, hasked⟩

theorem UnderwayItems.asked_of_awaited : ∀ {parts : List Resolution} {items : List Value},
    UnderwayItems given asked parts items → id ∈ awaitedItems parts →
      ∃ v ∈ items, ∃ name, Occurs name v ∧ asked name id
  | [], _, _, hid => by cases hid
  | _ :: _, _, h, hid => by
    rw [UnderwayItems] at h
    obtain ⟨v, rest, rfl, hv, hrest⟩ := h
    rw [awaitedItems, List.mem_append] at hid
    rcases hid with hid | hid
    · exact ⟨v, List.mem_cons_self, hv.asked_of_awaited hid⟩
    · obtain ⟨u, hu, hasked⟩ := hrest.asked_of_awaited hid
      exact ⟨u, List.mem_cons_of_mem _ hu, hasked⟩

end

mutual

/-- A value is underway as long as what is said of the numbers under which it waits holds. -/
theorem Underway.of_awaited : ∀ {res : Resolution} {v : Value}, Underway given asked res v →
    (∀ id ∈ res.awaited, ∀ name, asked name id → asked' name id) → Underway given asked' res v
  | settled _, _, h, _ => by rwa [Underway] at h ⊢
  | waiting id, _, h, hasked => by
    rw [Underway] at h ⊢
    obtain ⟨name, hname, hid⟩ := h
    exact ⟨name, hname, hasked id (List.mem_singleton_self id) name hid⟩
  | list _, _, h, hasked => by
    rw [awaited] at hasked
    rw [Underway] at h ⊢
    obtain ⟨items, hv, hitems⟩ := h
    exact ⟨items, hv, hitems.of_awaited hasked⟩
  | object .., _, h, hasked => by
    rw [awaited] at hasked
    rw [Underway] at h ⊢
    obtain ⟨done, u, hv, hdone, hu⟩ := h
    exact ⟨done, u, hv, hdone, hu.of_awaited hasked⟩

theorem UnderwayItems.of_awaited : ∀ {parts : List Resolution} {items : List Value},
    UnderwayItems given asked parts items →
    (∀ id ∈ awaitedItems parts, ∀ name, asked name id → asked' name id) →
    UnderwayItems given asked' parts items
  | [], _, h, _ => by rwa [UnderwayItems] at h ⊢
  | _ :: _, _, h, hasked => by
    rw [awaitedItems] at hasked
    rw [UnderwayItems] at h ⊢
    obtain ⟨v, rest, hitems, hv, hrest⟩ := h
    exact ⟨v, rest, hitems, hv.of_awaited fun id hid => hasked id (List.mem_append_left _ hid),
      hrest.of_awaited fun id hid => hasked id (List.mem_append_right _ hid)⟩

end

/-! ### Begun and gone on with -/

/-- Whether a value is settled, or somebody has no value that it waits for. -/
def Rests (s : Store) (res : Resolution) : Prop := (∃ w, res = settled w) ∨ Held s res.awaited

theorem Rests.awaitAll (h : Rests s res) (names : List String) :
    Rests (s.awaitAll names) res :=
  h.imp_right fun hheld => hheld.awaitAll names

theorem exists_mapM_value? {parts : List Resolution}
    (h : ∀ part ∈ parts, ∃ w, part = settled w) : ∃ ws, parts.mapM value? = some ws := by
  induction parts with
  | nil => exact ⟨[], rfl⟩
  | cons part parts ih =>
    obtain ⟨w, rfl⟩ := h part List.mem_cons_self
    obtain ⟨ws, hws⟩ := ih fun part hpart => h part (List.mem_cons_of_mem _ hpart)
    exact ⟨w :: ws, by rw [List.mapM_cons, hws]; rfl⟩

theorem held_items {parts : List Resolution} {part : Resolution} (hpart : part ∈ parts)
    (h : Held s part.awaited) : Held s (awaitedItems parts) := by
  induction parts with
  | nil => cases hpart
  | cons first rest ih =>
    rw [awaitedItems]
    rcases List.mem_cons.mp hpart with rfl | hpart
    · obtain ⟨id, hid, hw⟩ := h
      exact ⟨id, List.mem_append_left _ hid, hw⟩
    · obtain ⟨id, hid, hw⟩ := ih hpart
      exact ⟨id, List.mem_append_right _ hid, hw⟩

theorem rests_ofItems {parts : List Resolution} (h : ∀ part ∈ parts, Rests s part) :
    Rests s (ofItems parts) := by
  by_cases hall : ∀ part ∈ parts, ∃ w, part = settled w
  · obtain ⟨ws, hws⟩ := exists_mapM_value? hall
    rw [ofItems, hws]
    exact .inl ⟨_, rfl⟩
  · push Not at hall
    obtain ⟨part, hpart, hnot⟩ := hall
    have hheld := (h part hpart).resolve_left (not_exists.mpr hnot)
    rw [ofItems]
    split
    · exact .inl ⟨_, rfl⟩
    · exact .inr (by rw [awaited]; exact held_items hpart hheld)

/-- Who has no value yet when asked waits on. -/
theorem rests_received {w : Waiter} (hw : s.waiters[id]? = some w) : Rests s (received s id) := by
  rw [received]
  split
  · exact .inl ⟨_, rfl⟩
  · rename_i hnot
    refine .inr ⟨id, List.mem_singleton_self id, w, hw, ?_⟩
    rintro v rfl
    exact hnot v (by rw [Store.outcome?, hw])

/-- Beginning with a value does no more than to ask for names. -/
theorem exists_awaitAll_start (s : Store) (v : Value) :
    ∃ names, (start s v).2 = s.awaitAll names := by
  have hstart : Continues (fun _ _ => True) (fun _ _ => False) s (start s v) v :=
    continues_start (fun _ _ _ => trivial) v
  obtain ⟨names, hout, -⟩ := hstart
  exact ⟨names, hout⟩

theorem exists_awaitAll_startItems (s : Store) (items : List Value) :
    ∃ names, (startItems s items).2 = s.awaitAll names := by
  have hstart : ContinuesItems (fun _ _ => True) (fun _ _ => False) s (startItems s items) items :=
    continues_startItems (fun _ _ _ => trivial) items
  obtain ⟨names, hout, -⟩ := hstart
  exact ⟨names, hout⟩

mutual

/-- A value that is begun is settled as far as the store has what it needs. -/
theorem rests_start : ∀ (s : Store) (v : Value), Rests (start s v).2 (start s v).1
  | s, .text t => by
    rw [start]
    split
    · exact .inl ⟨_, rfl⟩
    · rename_i name ht
      obtain ⟨w, hw⟩ : ∃ w, (s.await name).2.waiters[(s.await name).1]? = some w := by
        rw [Store.await]
        split <;> simp
      exact rests_received hw
  | s, .list items | s, .tuple items => by
    rw [start]
    exact rests_ofItems (rests_startItems s items)
  | s, .object ms => by
    rw [start]
    exact rests_startMembers s [] ms
  | _, .null | _, .bool _ | _, .int _ | _, .float _ | _, .decimal _ | _, .bytes _ | _, .date _
  | _, .time _ | _, .moment _ | _, .uuid _ => by
    rw [start]
    · exact .inl ⟨_, rfl⟩
    all_goals simp

theorem rests_startItems : ∀ (s : Store) (items : List Value),
    ∀ part ∈ (startItems s items).1, Rests (startItems s items).2 part
  | s, [], part, hpart => by
    rw [startItems] at hpart
    cases hpart
  | s, v :: rest, part, hpart => by
    rw [startItems] at hpart ⊢
    rcases List.mem_cons.mp hpart with rfl | hpart
    · obtain ⟨names, hrest⟩ := exists_awaitAll_startItems (start s v).2 rest
      have hv := (rests_start s v).awaitAll names
      rwa [← hrest] at hv
    · exact rests_startItems (start s v).2 rest part hpart

theorem rests_startMembers : ∀ (s : Store) (before ms : List (String × Value)),
    Rests (startMembers s before ms).2 (startMembers s before ms).1
  | s, before, [] => by
    rw [startMembers]
    exact .inl ⟨_, rfl⟩
  | s, before, (key, v) :: rest => by
    rw [startMembers]
    split
    · exact rests_startMembers _ _ rest
    · rename_i part s' hnot heq
      have hv := rests_start s v
      rw [heq] at hv
      refine .inr ?_
      rw [awaited]
      exact hv.resolve_left fun ⟨w, hw⟩ => hnot w hw

end

theorem exists_awaitAll_startMembers (s : Store) (before ms : List (String × Value)) :
    ∃ names, (startMembers s before ms).2 = s.awaitAll names := by
  induction ms generalizing s before with
  | nil =>
    rw [startMembers]
    exact ⟨[], rfl⟩
  | cons kv rest ih =>
    obtain ⟨key, v⟩ := kv
    obtain ⟨names, hv⟩ := exists_awaitAll_start s v
    rw [startMembers]
    split
    · rename_i w s' heq
      obtain ⟨names', hrest⟩ := ih s' (before ++ [(key, w)])
      rw [heq] at hv
      exact ⟨names ++ names', hrest.trans (by rw [Store.awaitAll_append, ← hv])⟩
    · rename_i part s' hnot heq
      rw [heq] at hv
      exact ⟨names, hv⟩

mutual

/-- Going on with a value does no more than to ask for names. -/
theorem exists_awaitAll_resume : ∀ (s : Store) (res : Resolution),
    ∃ names, (resume s res).2 = s.awaitAll names
  | s, settled _ | s, waiting _ => by
    rw [resume]
    exact ⟨[], rfl⟩
  | s, list parts => by
    rw [resume]
    exact exists_awaitAll_resumeItems s parts
  | s, object before key part after => by
    obtain ⟨names, hpart⟩ := exists_awaitAll_resume s part
    rw [resume]
    split
    · rename_i w s' heq
      obtain ⟨names', hrest⟩ := exists_awaitAll_startMembers s' (before ++ [(key, w)]) after
      rw [heq] at hpart
      exact ⟨names ++ names', hrest.trans (by rw [Store.awaitAll_append, ← hpart])⟩
    · rename_i part' s' hnot heq
      rw [heq] at hpart
      exact ⟨names, hpart⟩

theorem exists_awaitAll_resumeItems : ∀ (s : Store) (parts : List Resolution),
    ∃ names, (resumeItems s parts).2 = s.awaitAll names
  | s, [] => by
    rw [resumeItems]
    exact ⟨[], rfl⟩
  | s, part :: rest => by
    obtain ⟨names, hpart⟩ := exists_awaitAll_resume s part
    obtain ⟨names', hrest⟩ := exists_awaitAll_resumeItems (resume s part).2 rest
    rw [resumeItems]
    exact ⟨names ++ names', hrest.trans (by rw [Store.awaitAll_append, ← hpart])⟩

end

/-- Whether numbers were given out at a store. -/
def Numbered (s : Store) (numbers : List Nat) : Prop :=
  ∀ id ∈ numbers, ∃ w, s.waiters[id]? = some w

theorem Numbered.awaitAll {numbers : List Nat} (h : Numbered s numbers) (names : List String) :
    Numbered (s.awaitAll names) numbers := fun id hid =>
  let ⟨w, hw⟩ := h id hid
  ⟨w, Store.getElem?_waiters_awaitAll hw⟩

mutual

/-- A value that is gone on with is settled as far as the store has what it needs. -/
theorem rests_resume : ∀ (s : Store) (res : Resolution), Numbered s res.awaited →
    Rests (resume s res).2 (resume s res).1
  | _, settled _, _ => by
    rw [resume]
    exact .inl ⟨_, rfl⟩
  | _, waiting id, h => by
    rw [resume]
    obtain ⟨w, hw⟩ := h id (List.mem_singleton_self id)
    exact rests_received hw
  | s, list parts, h => by
    rw [resume]
    rw [awaited] at h
    exact rests_ofItems (rests_resumeItems s parts h)
  | s, object before key part after, h => by
    rw [awaited] at h
    have hpart := rests_resume s part h
    rw [resume]
    split
    · exact rests_startMembers _ _ after
    · rename_i part' s' hnot heq
      rw [heq] at hpart
      refine .inr ?_
      rw [awaited]
      exact hpart.resolve_left fun ⟨w, hw⟩ => hnot w hw

theorem rests_resumeItems : ∀ (s : Store) (parts : List Resolution),
    Numbered s (awaitedItems parts) →
    ∀ part ∈ (resumeItems s parts).1, Rests (resumeItems s parts).2 part
  | s, [], _, part, hpart => by
    rw [resumeItems] at hpart
    cases hpart
  | s, first :: rest, h, part, hpart => by
    rw [awaitedItems] at h
    have hfirst := rests_resume s first fun id hid => h id (List.mem_append_left _ hid)
    rw [resumeItems] at hpart ⊢
    rcases List.mem_cons.mp hpart with rfl | hpart
    · obtain ⟨names, hrest⟩ := exists_awaitAll_resumeItems (resume s first).2 rest
      have hfirst := hfirst.awaitAll names
      rwa [← hrest] at hfirst
    · obtain ⟨names, hnames⟩ := exists_awaitAll_resume s first
      refine rests_resumeItems (resume s first).2 rest ?_ part hpart
      rw [hnames]
      exact Numbered.awaitAll (fun id hid => h id (List.mem_append_right _ hid)) names

end

/-! ### Whatever else happens -/

/-- What happens at the store while a value is resolved: others publish, ask, give up or clear the
store, and the resolution goes on. -/
inductive Happening
  | publish (name : String) (v : Value)
  | ask (name : String)
  | giveUp (id : Nat)
  | clear
  | goOn

/-- A value on its way after something has happened. To give up is for the others. -/
def after (now : Resolution × Store) : Happening → Resolution × Store
  | .publish name v => (now.1, now.2.publish name v)
  | .ask name => (now.1, (now.2.await name).2)
  | .giveUp id => if id ∈ now.1.awaited then now else (now.1, now.2.expire id)
  | .clear => (now.1, now.2.clear)
  | .goOn => resume now.2 now.1

/-- A value on its way after all that has happened. -/
def course (s : Store) (v : Value) (hs : List Happening) : Resolution × Store :=
  hs.foldl after (start s v)

/-- How the resolution of a value may end at a moment: it is settled, the time for one of the names
that it waits for is up, or it was cancelled. -/
inductive Ends : Resolution × Store → Attempt Value → Prop
  | settled {s : Store} {v : Value} : Ends (settled v, s) (.ok v)
  | timeUp {s : Store} {res : Resolution} {id : Nat} {name : String} : id ∈ res.awaited →
      s.waiters[id]? = some (.waiting name) → Ends (res, s) (Attempt.fault (.exportMissing name))
  | cancelled {s : Store} {res : Resolution} {id : Nat} : id ∈ res.awaited →
      s.waiters[id]? = some .cancelled → Ends (res, s) (Attempt.mishap .cancelled)

section Unpublished

variable {never : String} {cleared : Prop} {now : Resolution × Store}

/-- Whether somebody who asked for a name waits for it, or has received a value under another name
than the one that is never published, or was cancelled when the store was cleared. -/
def Attends (never : String) (cleared : Prop) (s : Store) (name : String) (id : Nat) : Prop :=
  s.waiters[id]? = some (.waiting name) ∨
    (name ≠ never ∧ ∃ v, s.waiters[id]? = some (.received v)) ∨
    (cleared ∧ s.waiters[id]? = some .cancelled)

theorem Attends.awaitAll (h : Attends never cleared s name id) (names : List String) :
    Attends never cleared (s.awaitAll names) name id :=
  h.imp Store.getElem?_waiters_awaitAll (Or.imp
    (fun ⟨hne, v, hw⟩ => ⟨hne, v, Store.getElem?_waiters_awaitAll hw⟩)
    (fun ⟨hcleared, hw⟩ => ⟨hcleared, Store.getElem?_waiters_awaitAll hw⟩))

/-- Whoever comes to ask while a name has no value attends. -/
theorem asking_attends (hnever : s.get? never = none) :
    s.Asking names (Attends never cleared (s.awaitAll names)) := by
  rintro before name after rfl
  rw [Store.awaitAll_append]
  show Attends never cleared (Store.awaitAll ((s.awaitAll before).await name).2 after) name _
  refine Attends.awaitAll ?_ after
  rw [Store.await]
  cases hv : (s.awaitAll before).get? name with
  | none => exact .inl (by simp)
  | some v =>
    refine .inr (.inl ⟨?_, v, by simp⟩)
    rintro rfl
    rw [Store.get?_awaitAll, hnever] at hv
    cases hv

/-- What holds of a value on its way while one of its names has no value. -/
structure Wanting (never : String) (cleared : Prop) (v : Value) (now : Resolution × Store) :
    Prop where
  inOrder : now.2.InOrder
  unpublished : now.2.get? never = none
  underway : Underway (fun name _ => name ≠ never) (Attends never cleared now.2) now.1 v

theorem offers_of_unpublished (hnever : s.get? never = none) :
    Offers s fun name _ => name ≠ never := by
  rintro name w hw rfl
  rw [hnever] at hw
  cases hw

/-- What somebody receives who attends is not for the name that has no value. -/
theorem hands_of_attends : Hands s (Attends never cleared s) fun name _ => name ≠ never := by
  intro names name id w hid hw
  have hreceived := Exchange.received_of_outcome hw
  rcases hid with hid | ⟨hne, -⟩ | ⟨-, hid⟩
  · rw [Store.getElem?_waiters_awaitAll hid] at hreceived
    cases hreceived
  · exact hne
  · rw [Store.getElem?_waiters_awaitAll hid] at hreceived
    cases hreceived

theorem wanting_of_continues {asked : String → Nat → Prop} (hs : s.InOrder)
    (hnever : s.get? never = none)
    (hasked : ∀ name id, asked name id → Attends never cleared s name id)
    (h : Continues (fun name _ => name ≠ never) asked s now v) : Wanting never cleared v now := by
  obtain ⟨res, s'⟩ := now
  obtain ⟨names, rfl, hres⟩ := h
  exact ⟨hs.awaitAll names, Store.get?_awaitAll.trans hnever,
    hres _ (fun name id hid => (hasked name id hid).awaitAll names) (asking_attends hnever)⟩

theorem wanting_start (hs : s.InOrder) (hnever : s.get? never = none) :
    Wanting never cleared v (start s v) := by
  have hstart : Continues (fun name _ => name ≠ never) (fun _ _ => False) s (start s v) v :=
    continues_start (offers_of_unpublished hnever) v
  exact wanting_of_continues hs hnever (fun _ _ hid => hid.elim) hstart

/-- Whoever waits for a name may wait on, receive what another name is given, or be cancelled. -/
theorem Wanting.of_waiters {s' : Store} (h : Wanting never cleared v now) (hs : s'.InOrder)
    (hnever : s'.get? never = none)
    (hwaiting : ∀ id ∈ now.1.awaited, ∀ name, now.2.waiters[id]? = some (.waiting name) →
      Attends never cleared s' name id)
    (hover : ∀ id ∈ now.1.awaited, ∀ w, now.2.waiters[id]? = some w →
      (∀ name, w ≠ .waiting name) → s'.waiters[id]? = some w) :
    Wanting never cleared v (now.1, s') where
  inOrder := hs
  unpublished := hnever
  underway := h.underway.of_awaited fun id hid name hattends => by
    rcases hattends with hw | ⟨hne, u, hw⟩ | ⟨hcleared, hw⟩
    · exact hwaiting id hid name hw
    · exact .inr (.inl ⟨hne, u, hover id hid _ hw (by simp)⟩)
    · exact .inr (.inr ⟨hcleared, hover id hid _ hw (by simp)⟩)

/-- A value wants its name whatever happens, as long as nothing is published under it. -/
theorem Wanting.after (h : Wanting never cleared v now) {e : Happening}
    (hpublish : ∀ u, e ≠ .publish never u) (hclear : e = .clear → cleared) :
    Wanting never cleared v (after now e) := by
  cases e with
  | publish other u =>
    have hne : other ≠ never := fun heq => hpublish u (heq ▸ rfl)
    refine h.of_waiters (h.inOrder.publish u) ?_ ?_ ?_
    · rw [Store.get?_publish, if_neg hne.symm]
      exact h.unpublished
    · intro id _ name hw
      have hw' : (now.2.publish other u).waiters[id]? =
          some (if other = name then .received u else .waiting name) :=
        h.inOrder.waiting_publish hw u
      by_cases heq : other = name
      · exact .inr (.inl ⟨heq ▸ hne, u, by rw [hw', if_pos heq]⟩)
      · exact .inl (by rw [hw', if_neg heq])
    · exact fun id _ w hw hnot => Store.settle_of_settled hw hnot
  | ask name =>
    refine h.of_waiters (h.inOrder.awaitAll [name]) ?_ ?_ ?_
    · exact Store.get?_await.trans h.unpublished
    · exact fun id _ name' hw => .inl (Store.getElem?_waiters_await hw)
    · exact fun id _ w hw _ => Store.getElem?_waiters_await hw
  | giveUp other =>
    rw [Resolution.after]
    split
    · exact h
    · rename_i hother
      have hne : ∀ id ∈ now.1.awaited, id ≠ other := fun id hid heq => hother (heq ▸ hid)
      refine h.of_waiters (h.inOrder.expire other) (Store.get?_expire.trans h.unpublished) ?_ ?_
      · exact fun id hid name hw => .inl (Store.getElem?_waiters_expire hw (hne id hid))
      · exact fun id hid w hw _ => Store.getElem?_waiters_expire hw (hne id hid)
  | clear =>
    refine h.of_waiters h.inOrder.clear rfl ?_ ?_
    · intro id _ name hw
      have hw' : now.2.clear.waiters[id]? =
          some (if id ∈ now.2.pending.flatMap Prod.snd then .cancelled else .waiting name) :=
        Store.settle_of_waiting hw
      by_cases hid : id ∈ now.2.pending.flatMap Prod.snd
      · exact .inr (.inr ⟨hclear rfl, by rw [hw', if_pos hid]⟩)
      · exact .inl (by rw [hw', if_neg hid])
    · exact fun id _ w hw hnot => Store.settle_of_settled hw hnot
  | goOn =>
    exact wanting_of_continues h.inOrder h.unpublished (fun _ _ hid => hid)
      (continues_resume (offers_of_unpublished h.unpublished) hands_of_attends h.underway)

theorem Wanting.foldl (h : Wanting never cleared v now) {hs : List Happening}
    (hpublish : ∀ u, .publish never u ∉ hs) (hclear : .clear ∈ hs → cleared) :
    Wanting never cleared v (hs.foldl Resolution.after now) := by
  induction hs generalizing now with
  | nil => exact h
  | cons e hs ih =>
    refine ih (h.after (fun u heq => hpublish u (heq ▸ List.mem_cons_self)) fun heq =>
      hclear (heq ▸ List.mem_cons_self)) ?_ ?_
    · exact fun u hu => hpublish u (List.mem_cons_of_mem _ hu)
    · exact fun hc => hclear (List.mem_cons_of_mem _ hc)

/-- A value in which a name occurs that it wants is not settled, and when it ends this is because
the time for an occurring name without a value is up, or because the store was cleared. -/
theorem Wanting.of_ends (h : Wanting never cleared v now) (hoccurs : Occurs never v)
    {outcome : Attempt Value} (hends : Ends now outcome) :
    (∃ name, outcome = Attempt.fault (.exportMissing name) ∧ Occurs name v ∧
      now.2.get? name = none) ∨ cleared ∧ outcome = Attempt.mishap .cancelled := by
  cases hends with
  | settled =>
    have hfilled := h.underway
    rw [Underway] at hfilled
    obtain ⟨u, hne⟩ := hfilled.exists_given hoccurs
    exact absurd rfl hne
  | timeUp hid hw =>
    obtain ⟨name, hname, hattends⟩ := h.underway.asked_of_awaited hid
    rcases hattends with hw' | ⟨-, u, hw'⟩ | ⟨-, hw'⟩
    · obtain rfl := Waiter.waiting.inj (Option.some.inj (hw.symm.trans hw'))
      exact .inl ⟨_, rfl, hname, h.inOrder.get?_of_waiting hw⟩
    · cases hw.symm.trans hw'
    · cases hw.symm.trans hw'
  | cancelled hid hw =>
    obtain ⟨name, hname, hattends⟩ := h.underway.asked_of_awaited hid
    rcases hattends with hw' | ⟨-, u, hw'⟩ | ⟨hcleared, -⟩
    · cases hw.symm.trans hw'
    · cases hw.symm.trans hw'
    · exact .inr ⟨hcleared, rfl⟩

/-- A value that has gone on and wants a name waits for one. -/
theorem Wanting.exists_missing (h : Wanting never False v now) (hoccurs : Occurs never v) :
    ∃ m, missing? (resume now.2 now.1).2 (resume now.2 now.1).1 = some m := by
  have hnext : Wanting never False v (resume now.2 now.1) :=
    h.after (e := .goOn) (by simp) (by simp)
  have hnumbered : Numbered now.2 now.1.awaited := by
    intro id hid
    obtain ⟨name, -, hw | ⟨-, u, hw⟩ | ⟨-, hw⟩⟩ := h.underway.asked_of_awaited hid
    all_goals exact ⟨_, hw⟩
  rcases rests_resume now.2 now.1 hnumbered with ⟨w, hw⟩ | ⟨id, hid, w, hw, hnot⟩
  · have hends : Ends (resume now.2 now.1) (.ok w) := by
      rw [show resume now.2 now.1 = (settled w, (resume now.2 now.1).2) from Prod.ext hw rfl]
      exact .settled
    rcases hnext.of_ends hoccurs hends with ⟨name, heq, -⟩ | ⟨hfalse, -⟩
    · cases heq
    · exact hfalse.elim
  · refine Resolution.exists_missing ⟨id, hid, ?_⟩
    obtain ⟨name, -, hw' | ⟨-, u, hw'⟩ | ⟨hfalse, -⟩⟩ := hnext.underway.asked_of_awaited hid
    · exact ⟨name, hw'⟩
    · exact absurd (Option.some.inj (hw.symm.trans hw')) (hnot u)
    · exact hfalse.elim

end Unpublished

section Published

variable {values : String → Value} {hs : List Happening}

/-- Where all names that occur have values the value is filled at once. -/
theorem start_of_published (hvalues : ∀ name, Occurs name v → s.get? name = some (values name)) :
    (start s v).1 = settled (fill values v) := by
  have hstart : Continues (fun name u => s.get? name = some u) (fun _ _ => False) s (start s v) v :=
    continues_start (fun _ _ hw => hw) v
  obtain ⟨names, hout, hunderway⟩ := hstart
  have hnow := hunderway (fun name id => ∀ u, s.get? name = some u →
    (start s v).2.waiters[id]? = some (.received u)) (fun _ _ hid => hid.elim) ?_
  · rcases rests_start s v with ⟨w, hw⟩ | ⟨id, hid, w, hw, hnot⟩
    · rw [hw, Underway] at hnow
      rw [hw, (filled_iff_fill fun name u hname => ?_).mp hnow]
      rw [hvalues name hname, Option.some.injEq, eq_comm]
    · -- A value at rest waits for a name without a value, but all that occur have one.
      obtain ⟨name, hname, hreceived⟩ := hnow.asked_of_awaited hid
      have hw' := hreceived _ (hvalues name hname)
      exact absurd (Option.some.inj (hw.symm.trans hw')) (hnot _)
  · rintro before name after rfl u hu
    have hasked : ((s.awaitAll before).await name).2.waiters[(s.awaitAll before).waiters.length]? =
        some (.received u) := by
      rw [Store.await, Store.get?_awaitAll, hu]
      simp
    rw [hout, Store.awaitAll_append]
    show (Store.awaitAll ((s.awaitAll before).await name).2 after).waiters[_]? = _
    exact Store.getElem?_waiters_awaitAll hasked

/-- What is settled stays as it is. -/
theorem foldl_after_settled (hs : List Happening) : ∀ s : Store,
    (hs.foldl after (settled v, s)).1 = settled v := by
  induction hs with
  | nil => exact fun _ => rfl
  | cons e hs ih =>
    intro s
    cases e with
    | giveUp id => exact ih (s.expire id)
    | _ => exact ih _

end Published

end Resolution

section Substituting

variable {published : String → Option Value} {values : String → Value}

mutual

/-- The name for which nothing can be put in occurs, and has no value. -/
theorem of_substitute_error : ∀ {v : Value} {m : Missing}, substitute published v = .error m →
    Occurs m.name v ∧ published m.name = none
  | .text t, m, h => by
    rw [substitute] at h
    split at h
    · cases h
    · rename_i name ht
      split at h
      · cases h
      · rename_i hnone
        obtain rfl := Except.error.inj h
        exact ⟨occurs_text.mpr ht, hnone⟩
  | .list items, m, h => by
    rw [substitute] at h
    cases hitems : substituteItems published items with
    | ok ws =>
      rw [hitems] at h
      cases h
    | error first =>
      rw [hitems] at h
      obtain rfl := Except.error.inj h
      obtain ⟨v, hv, hname, hnone⟩ := of_substituteItems_error hitems
      exact ⟨occurs_list.mpr ⟨v, hv, hname⟩, hnone⟩
  | .tuple items, m, h => by
    rw [substitute] at h
    cases hitems : substituteItems published items with
    | ok ws =>
      rw [hitems] at h
      cases h
    | error first =>
      rw [hitems] at h
      obtain rfl := Except.error.inj h
      obtain ⟨v, hv, hname, hnone⟩ := of_substituteItems_error hitems
      exact ⟨occurs_tuple.mpr ⟨v, hv, hname⟩, hnone⟩
  | .object ms, m, h => by
    rw [substitute] at h
    cases hms : substituteMembers published ms with
    | ok ws =>
      rw [hms] at h
      cases h
    | error first =>
      rw [hms] at h
      obtain rfl := Except.error.inj h
      obtain ⟨kv, hkv, hname, hnone⟩ := of_substituteMembers_error hms
      exact ⟨occurs_object.mpr ⟨kv, hkv, hname⟩, hnone⟩
  | .null, _, h | .bool _, _, h | .int _, _, h | .float _, _, h | .decimal _, _, h
  | .bytes _, _, h | .date _, _, h | .time _, _, h | .moment _, _, h | .uuid _, _, h => by
    rw [substitute] at h
    · cases h
    all_goals simp

theorem of_substituteItems_error : ∀ {items : List Value} {m : Missing},
    substituteItems published items = .error m →
    ∃ v ∈ items, Occurs m.name v ∧ published m.name = none
  | [], _, h => by
    rw [substituteItems] at h
    cases h
  | v :: rest, m, h => by
    have hfirst : ∀ a, substitute published v = .error a → m = a →
        ∃ u ∈ v :: rest, Occurs m.name u ∧ published m.name = none := by
      rintro a ha rfl
      exact ⟨v, List.mem_cons_self, of_substitute_error ha⟩
    have hlater : ∀ b, substituteItems published rest = .error b → m = b →
        ∃ u ∈ v :: rest, Occurs m.name u ∧ published m.name = none := by
      rintro b hb rfl
      obtain ⟨u, hu, hname⟩ := of_substituteItems_error hb
      exact ⟨u, List.mem_cons_of_mem _ hu, hname⟩
    rw [substituteItems] at h
    split at h
    · cases h
    · rename_i a b ha hb
      obtain rfl := Except.error.inj h
      rcases Missing.sooner_eq a b with heq | heq
      · exact hfirst a ha heq
      · exact hlater b hb heq
    · rename_i a _ ha _
      exact hfirst a ha (Except.error.inj h).symm
    · rename_i _ b _ hb
      exact hlater b hb (Except.error.inj h).symm

theorem of_substituteMembers_error : ∀ {ms : List (String × Value)} {m : Missing},
    substituteMembers published ms = .error m →
    ∃ kv ∈ ms, Occurs m.name kv.2 ∧ published m.name = none
  | [], _, h => by
    rw [substituteMembers] at h
    cases h
  | (key, v) :: rest, m, h => by
    rw [substituteMembers] at h
    split at h
    · rename_i a ha
      obtain rfl := Except.error.inj h
      exact ⟨(key, v), List.mem_cons_self, of_substitute_error ha⟩
    · split at h
      · rename_i b hb
        obtain rfl := Except.error.inj h
        obtain ⟨kv, hkv, hname⟩ := of_substituteMembers_error hb
        exact ⟨kv, List.mem_cons_of_mem _ hkv, hname⟩
      · cases h

end

/-- Where all names that occur have values nothing is missing. -/
theorem substitute_of_published {v : Value}
    (hvalues : ∀ name, Occurs name v → published name = some (values name)) :
    substitute published v = .ok (fill values v) := by
  refine substitute_eq_ok.mpr ((filled_iff_fill fun name u hname => ?_).mpr rfl)
  rw [hvalues name hname, Option.some.injEq, eq_comm]

end Substituting

namespace Resolution

theorem ends_of_missing {s : Store} {res : Resolution} {m : Missing}
    (h : missing? s res = some m) : Ends (res, s) (Attempt.fault (.exportMissing m.name)) := by
  obtain ⟨id, hid, hw⟩ := waiting_of_missing h
  exact .timeUp hid hw

/-- What resolving a value comes to. The texts that are a name behind the mark are the placeholders,
and they are found at every depth. Where all names that occur have values the value is filled,
whatever else happens, and a value without placeholders is as it was. A value in which a name occurs
that is never published ends only when the time for some name without a value is up or the store is
cleared; and unless the store is cleared there is such a name, once all has been taken that is
there. -/
theorem resolving_comes_to (v : Value) :
    (∀ t name, placeholderName? t = some name ↔ name ≠ "" ∧ t = placeholder name) ∧
    (hasPlaceholder v = true ↔ ∃ name, Occurs name v) ∧
    (∀ (s : Store) (values : String → Value),
      (∀ name, Occurs name v → s.get? name = some (values name)) →
      substitute s.get? v = .ok (fill values v) ∧
      ∀ hs, (course s v hs).1 = settled (fill values v)) ∧
    (hasPlaceholder v = false → ∀ s : Store,
      substitute s.get? v = .ok (untupled v) ∧ (start s v).1 = settled (untupled v)) ∧
    ∀ (es : List Event) (hs : List Happening) (never : String), Occurs never v →
      (Exchange.run es).store.get? never = none → (∀ u, .publish never u ∉ hs) →
      (∃ m, substitute (Exchange.run es).store.get? v = .error m ∧ Occurs m.name v ∧
        (Exchange.run es).store.get? m.name = none) ∧
      (∀ outcome, Ends (course (Exchange.run es).store v hs) outcome →
        (∃ name, outcome = Attempt.fault (.exportMissing name) ∧ Occurs name v ∧
          (course (Exchange.run es).store v hs).2.get? name = none) ∨
        .clear ∈ hs ∧ outcome = Attempt.mishap .cancelled) ∧
      (.clear ∉ hs → ∃ now m, now = course (Exchange.run es).store v (hs ++ [.goOn]) ∧
        missing? now.2 now.1 = some m ∧ Ends now (Attempt.fault (.exportMissing m.name))) := by
  refine ⟨fun _ _ => placeholderName?_eq_some, hasPlaceholder_iff v, ?_, ?_, ?_⟩
  · intro s values hvalues
    refine ⟨substitute_of_published hvalues, fun hs => ?_⟩
    rw [course, show start s v = (settled (fill values v), (start s v).2) from
      Prod.ext (start_of_published hvalues) rfl]
    exact foldl_after_settled hs _
  · intro hfree s
    have hnone : ∀ name, ¬ Occurs name v := fun name hname =>
      Bool.false_ne_true (hfree.symm.trans ((hasPlaceholder_iff v).mpr ⟨name, hname⟩))
    have hvalues : ∀ name, Occurs name v → s.get? name = some Value.null :=
      fun name hname => (hnone name hname).elim
    have hfill : fill (fun _ => .null) v = untupled v := fill_of_none hnone
    rw [← hfill]
    exact ⟨substitute_of_published hvalues, start_of_published hvalues⟩
  · intro es hs never hoccurs hnever hpublish
    have hinOrder : (Exchange.run es).store.InOrder := ⟨_, Exchange.orderly_run es, rfl⟩
    refine ⟨?_, fun outcome hends => ?_, fun hclear => ?_⟩
    · cases hsub : substitute (Exchange.run es).store.get? v with
      | ok w =>
        obtain ⟨u, hu⟩ := (substitute_eq_ok.mp hsub).exists_given hoccurs
        cases hnever.symm.trans hu
      | error m => exact ⟨m, rfl, of_substitute_error hsub⟩
    · have hwanting : Wanting never (.clear ∈ hs) v (course (Exchange.run es).store v hs) :=
        (wanting_start hinOrder hnever).foldl hpublish id
      exact hwanting.of_ends hoccurs hends
    · have hwanting : Wanting never False v (course (Exchange.run es).store v hs) :=
        (wanting_start hinOrder hnever).foldl hpublish hclear
      obtain ⟨m, hm⟩ := hwanting.exists_missing hoccurs
      refine ⟨_, m, rfl, ?_, ?_⟩
      all_goals rw [course, List.foldl_append]
      · exact hm
      · exact ends_of_missing hm

/-- A letter with two placeholders and a text that is none. -/
def letter : Value :=
  .object [("to", .text "$_x"), ("copies", .tuple [.text "$_y", .text "$_"])]

theorem occurs_letter (name : String) : Occurs name letter ↔ name = "x" ∨ name = "y" := by
  simp only [letter, occurs_object, occurs_tuple, occurs_text, List.exists_mem_cons_iff,
    List.not_mem_nil, false_and, exists_false, or_false,
    show placeholderName? "$_x" = some "x" from rfl,
    show placeholderName? "$_y" = some "y" from rfl, show placeholderName? "$_" = none from rfl,
    Option.some.injEq, reduceCtorEq, eq_comm]

/-- What a letter is filled with is not looked into, even if it is a placeholder; and a letter for
which one of the names is never published runs out of time. -/
theorem letter_comes_to :
    (course (Exchange.run [.publish "x" (.text "$_y"), .publish "y" (.int 1)]).store letter
      [.publish "y" (.int 2), .goOn]).1 =
        settled (.object [("to", .text "$_y"), ("copies", .list [.int 1, .text "$_"])]) ∧
    ∃ now m, now = course (Exchange.run [.publish "x" (.text "$_y")]).store letter
        ([.ask "y", .goOn] ++ [.goOn]) ∧
      missing? now.2 now.1 = some m ∧ Ends now (Attempt.fault (.exportMissing m.name)) := by
  obtain ⟨-, -, hfilled, -, hnever⟩ := resolving_comes_to letter
  refine ⟨?_, ?_⟩
  · refine (hfilled _ (fun name => if name = "x" then .text "$_y" else .int 1) ?_).2 _
    intro name hname
    rcases (occurs_letter name).mp hname with rfl | rfl <;> rfl
  · exact (hnever _ [.ask "y", .goOn] "y" ((occurs_letter "y").mpr (.inr rfl)) rfl
      (by simp)).2.2 (by simp)

end Resolution

end RelGraph.Exports
