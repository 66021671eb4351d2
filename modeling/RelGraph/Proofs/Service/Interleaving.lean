import Mathlib
import RelGraph.Service.Interleaving
import RelGraph.Proofs.Exports.Resolution
import RelGraph.Proofs.Operations.Reselection
/-!
What fields are given for their placeholders, whatever turns a request takes. Along a course the
store of published values is that of an exchange which nobody clears, and the arguments of every
field that waits are underway in it. So each placeholder is filled with the value that was last
published under its name when the field asked for it, or with the first of all if there was none;
when only one value is ever published under a name, the order of turns does not matter.
-/
namespace RelGraph.Service

open Exports (Event Exchange Filled Resolution)
open Exports.Resolution (Underway Continues Offers Hands)
open Graphql (Request RootField)
open Operations (State)

variable {svc : Service} {r : Request} {p : Progress} {f : RootField} {args : Members Value}
  {outcome : Attempt Value} {state : State} {w : Waiting} {ws : List Waiting}

/-! ## What a turn leaves alone -/

/-- To begin a field has nothing to do with what is published and who waits. -/
theorem start_with (store : Exports.Store) (ws : List Waiting) :
    svc.start r { p with store := store, waiting := ws } f args =
      { svc.start r p f args with store := store, waiting := ws } := by
  cases hop : svc.operationOf r f with
  | none => simp only [start, hop, settle]
  | some target =>
    rcases hread : (svc.prepareRead r f target.1 target.2 args).run.run p.state with ⟨read, state⟩
    simp only [start, hop, hread]
    cases read <;> rfl

@[simp] theorem store_start : (svc.start r p f args).store = p.store :=
  (congrArg Progress.store (start_with (p := p) p.store p.waiting) :)

@[simp] theorem waiting_start : (svc.start r p f args).waiting = p.waiting :=
  (congrArg Progress.waiting (start_with (p := p) p.store p.waiting) :)

@[simp] theorem store_startOrWait {args : Resolution} :
    (svc.startOrWait r p f args).store = p.store := by
  cases args <;> simp [startOrWait]

theorem mem_waiting_startOrWait {args : Resolution}
    (h : w ∈ (svc.startOrWait r p f args).waiting) : w ∈ p.waiting ∨ w = ⟨f, args⟩ := by
  cases args <;> simp_all [startOrWait]

@[simp] theorem store_refuse : (svc.refuse r p f).store = p.store := by
  rw [refuse]
  split <;> rfl

@[simp] theorem waiting_refuse : (svc.refuse r p f).waiting = p.waiting := by
  rw [refuse]
  split <;> rfl

/-! ## Answers as courses -/

theorem startOrWait_with {args : Resolution} (ws : List Waiting) :
    svc.startOrWait r { p with waiting := ws ++ p.waiting } f args =
      { svc.startOrWait r p f args with
        waiting := ws ++ (svc.startOrWait r p f args).waiting } := by
  cases args with
  | settled v =>
    have hwith : svc.start r { p with waiting := ws ++ p.waiting } f (v.members?.getD []) =
        { svc.start r p f (v.members?.getD []) with
          store := p.store, waiting := ws ++ p.waiting } := start_with p.store (ws ++ p.waiting)
    have hstore : (svc.start r p f (v.members?.getD [])).store = p.store := store_start
    simp only [startOrWait, waiting_start]
    rw [hwith]
    simp only [← hstore]
  | _ => simp [startOrWait]

/-- That all who wait go on is that the first of them goes on, as often as there are some. -/
theorem foldl_goOn (ws : List Waiting) (p : Progress) : ws.foldl (svc.goOn r) p =
    (List.replicate ws.length (Turn.goOn 0)).foldl (svc.turn r)
      { p with waiting := ws ++ p.waiting } := by
  induction ws generalizing p with
  | nil => rfl
  | cons w ws ih =>
    rw [List.foldl_cons, ih, List.length_cons, List.replicate_succ, List.foldl_cons]
    congr 1
    exact (startOrWait_with (p := { p with store := (w.args.resume p.store).2 }) ws).symm

theorem foldl_timeOut (ws : List Waiting) (p : Progress) : ws.foldl (svc.timeOut r) p =
    (List.replicate ws.length (Turn.timeOut 0)).foldl (svc.turn r)
      { p with waiting := ws ++ p.waiting } := by
  induction ws generalizing p with
  | nil => rfl
  | cons w ws ih =>
    rw [List.foldl_cons, ih, List.length_cons, List.replicate_succ, List.foldl_cons]
    rfl

theorem wake_eq_turns (p : Progress) :
    svc.wake r p = (List.replicate p.waiting.length (Turn.goOn 0)).foldl (svc.turn r) p := by
  rw [wake, foldl_goOn]
  simp

theorem expire_eq_turns (p : Progress) :
    svc.expire r p = (List.replicate p.waiting.length (Turn.timeOut 0)).foldl (svc.turn r) p := by
  rw [expire, foldl_timeOut]
  simp

theorem serve_eq_turns (n : Nat) (p : Progress) :
    ∃ turns : List Turn, svc.serve r n p = turns.foldl (svc.turn r) p := by
  induction n generalizing p with
  | zero => exact ⟨[], rfl⟩
  | succ n ih =>
    rw [serve]
    split
    · exact ⟨[.abandon], rfl⟩
    · split
      · exact ⟨_, expire_eq_turns p⟩
      · rename_i job queue hqueue
        have hfinish : svc.finish r { p with queue := queue } job = svc.turn r p (.finish 0) := by
          simp [turn, hqueue]
        dsimp only
        rw [hfinish]
        split
        · obtain ⟨turns, h⟩ := ih (svc.turn r p (.finish 0))
          exact ⟨.finish 0 :: turns, h⟩
        · rw [wake_eq_turns]
          obtain ⟨turns, h⟩ := ih (List.foldl (svc.turn r) (svc.turn r p (.finish 0))
            (List.replicate (svc.turn r p (.finish 0)).waiting.length (Turn.goOn 0)))
          exact ⟨.finish 0 :: (List.replicate _ (Turn.goOn 0) ++ turns),
            h.trans List.foldl_append.symm⟩

theorem performAll_eq_turns (fields : List RootField) (p : Progress) :
    ∃ turns : List Turn, svc.performAll r p fields = turns.foldl (svc.turn r) p := by
  induction fields generalizing p with
  | nil => exact ⟨[], rfl⟩
  | cons f rest ih =>
    rw [performAll]
    split
    · exact ⟨[.perform f], rfl⟩
    · obtain ⟨turns, h⟩ := ih (svc.carryOut r p f)
      exact ⟨.perform f :: turns, h⟩

/-- To answer a request is to follow some course. -/
theorem answer_eq_course {fields : List RootField} (h : r.rootFields = .ok fields)
    (state : State) : ∃ turns : List Turn, svc.answer r state =
      (respond fields (svc.course r state turns), (svc.course r state turns).state) := by
  rw [answer, h]
  dsimp only
  split
  · obtain ⟨turns, hturns⟩ := @performAll_eq_turns svc r fields { state := state }
    exact ⟨turns, by rw [hturns, course]⟩
  · have hrefuse : fields.foldl (svc.refuse r) { state := state } =
        (fields.map Turn.refuse).foldl (svc.turn r) { state := state } := by
      rw [List.foldl_map]
      rfl
    rw [serveAll, hrefuse]
    split
    · exact ⟨_, rfl⟩
    · have htake : fields.foldl (svc.takeUp r)
            ((fields.map Turn.refuse).foldl (svc.turn r) { state := state }) =
          (fields.map Turn.takeUp).foldl (svc.turn r)
            ((fields.map Turn.refuse).foldl (svc.turn r) { state := state }) := by
        rw [List.foldl_map (f := Turn.takeUp)]
        rfl
      rw [htake]
      obtain ⟨turns, hturns⟩ := @serve_eq_turns svc r (fields.length + 1)
        ((fields.map Turn.takeUp).foldl (svc.turn r)
          ((fields.map Turn.refuse).foldl (svc.turn r) { state := state }))
      exact ⟨fields.map Turn.refuse ++ (fields.map Turn.takeUp ++ turns), by
        rw [hturns, course, List.foldl_append, List.foldl_append]⟩

/-! ## The exchange behind a course -/

/-- The value that an event publishes, with its name. -/
def publication? : Event → Option (String × Value)
  | .publish name v => some (name, v)
  | _ => none

/-- What turns publish from some point on; the last of them what it publishes then. -/
theorem publishedBy_append (turns : List Turn) (t : Turn) :
    svc.publishedBy r p (turns ++ [t]) =
      svc.publishedBy r p turns ++ svc.published r (turns.foldl (svc.turn r) p) t := by
  induction turns generalizing p with
  | nil => simp [publishedBy]
  | cons first turns ih => simp [publishedBy, ih]

section Course

variable {turns earlier later : List Turn} {t : Turn} {es es' : List Event} {name : String}
  {id : Nat} {v : Value}

theorem course_append (turns : List Turn) (t : Turn) :
    svc.course r state (turns ++ [t]) = svc.turn r (svc.course r state turns) t := by
  rw [course, List.foldl_append]
  rfl

/-- Whether a value is given for a name that is asked for between two points of a course: of all
values that the course publishes under the name it is the last of those that were published by then,
or the first of all if there were none. -/
def Given (svc : Service) (r : Request) (state : State) (earlier turns : List Turn) (name : String)
    (v : Value) : Prop :=
  ∃ asking, earlier <+: asking ∧ asking <+: turns ∧
    (svc.valuesUnder r state turns name)[(svc.valuesUnder r state asking name).length - 1]? = some v

/-- Whether somebody has asked for a name between two points of a course. -/
def Asked (svc : Service) (r : Request) (state : State) (earlier turns : List Turn)
    (es : List Event) (name : String) (id : Nat) : Prop :=
  ∃ before after asking, es = before ++ .await name :: after ∧
    (Exchange.run before).store.waiters.length = id ∧ earlier <+: asking ∧ asking <+: turns ∧
    before.filterMap publication? = svc.publishedBy r { state := state } asking

theorem valuesUnder_append (turns : List Turn) (t : Turn) (name : String) :
    ∃ more, svc.valuesUnder r state (turns ++ [t]) name =
      svc.valuesUnder r state turns name ++ more := by
  rw [valuesUnder, publishedBy_append, List.filterMap_append]
  exact ⟨_, rfl⟩

theorem Given.append (h : svc.Given r state earlier turns name v) (t : Turn) :
    svc.Given r state earlier (turns ++ [t]) name v := by
  obtain ⟨asking, hearlier, hturns, hv⟩ := h
  obtain ⟨more, hmore⟩ := @valuesUnder_append svc r state turns t name
  refine ⟨asking, hearlier, hturns.trans (List.prefix_append _ _), ?_⟩
  rw [hmore]
  exact (List.getElem?_append_left (List.getElem?_eq_some_iff.mp hv).1).trans hv

theorem Asked.append (h : svc.Asked r state earlier turns es name id) (t : Turn)
    (es' : List Event) : svc.Asked r state earlier (turns ++ [t]) (es ++ es') name id := by
  obtain ⟨before, after, asking, rfl, hid, hearlier, hturns, hpublished⟩ := h
  exact ⟨before, after ++ es', asking, by simp, hid, hearlier,
    hturns.trans (List.prefix_append _ _), hpublished⟩

/-- Whether a field that waits was taken up in a course, and its arguments are underway. -/
def Expects (svc : Service) (r : Request) (state : State) (turns : List Turn) (es : List Event)
    (w : Waiting) : Prop :=
  ∃ earlier later written, turns = earlier ++ .takeUp w.field :: later ∧
    r.argumentsOf w.field = .ok written ∧ svc.needsExports written = true ∧
    Underway (svc.Given r state earlier turns) (svc.Asked r state earlier turns es) w.args
      (.object written)

theorem Expects.append (h : svc.Expects r state turns es w) (t : Turn) (es' : List Event) :
    svc.Expects r state (turns ++ [t]) (es ++ es') w := by
  obtain ⟨earlier, later, written, rfl, hargs, hneeds, hunderway⟩ := h
  exact ⟨earlier, later ++ [t], written, by simp, hargs, hneeds,
    hunderway.mono (fun _ _ hgiven => hgiven.append t) fun _ _ hasked => hasked.append t es'⟩

/-- An exchange that has taken place in a course: the store is as it has left it, the same values
were published in it, and who waits has asked in it. -/
structure Tracked (svc : Service) (r : Request) (state : State) (turns : List Turn)
    (es : List Event) : Prop where
  store : (svc.course r state turns).store = (Exchange.run es).store
  kept : .clear ∉ es
  published : es.filterMap publication? = svc.publishedBy r { state := state } turns
  waiting : ∀ w ∈ (svc.course r state turns).waiting, svc.Expects r state turns es w

theorem values_eq_valuesUnder {turns : List Turn} {es : List Event}
    (h : es.filterMap publication? = svc.publishedBy r { state := state } turns) (name : String) :
    es.filterMap (Event.published? name) = svc.valuesUnder r state turns name := by
  rw [valuesUnder, ← h, List.filterMap_filterMap]
  congr 1
  funext e
  cases e <;> rfl

theorem run_awaits (es : List Event) (names : List String) :
    (Exchange.run (es ++ names.map .await)).store = (Exchange.run es).store.awaitAll names := by
  rw [Exchange.run_append, List.foldl_map]
  generalize Exchange.run es = x
  induction names generalizing x with
  | nil => rfl
  | cons name names ih => exact ih _

theorem run_publishes (es : List Event) (values : List (String × Value)) :
    (Exchange.run (es ++ values.map fun kv => .publish kv.1 kv.2)).store =
      (Exchange.run es).store.publishAll values := by
  rw [Exchange.run_append, List.foldl_map]
  generalize Exchange.run es = x
  induction values generalizing x with
  | nil => rfl
  | cons kv values ih => exact ih _

/-- What stands in the store is given to who asks now. -/
theorem Tracked.offers (h : svc.Tracked r state turns es) (hearlier : earlier <+: turns) :
    Offers (svc.course r state turns).store (svc.Given r state earlier turns) := by
  intro name v hv
  rw [h.store, Exchange.get?_run h.kept, values_eq_valuesUnder h.published,
    List.getLast?_eq_getElem?] at hv
  exact ⟨turns, hearlier, List.prefix_refl _, hv⟩

/-- What those have received who have asked is given to them. -/
theorem Tracked.hands (h : svc.Tracked r state turns es) :
    Hands (svc.course r state turns).store (svc.Asked r state earlier turns es)
      (svc.Given r state earlier turns) := by
  rintro names name id v ⟨before, after, asking, rfl, rfl, hearlier, hturns, hpublished⟩ hv
  rw [h.store, ← run_awaits, List.append_assoc, List.cons_append] at hv
  have hbefore : .clear ∉ before := fun hmem => h.kept (List.mem_append_left _ hmem)
  have hposition := Exchange.received_position hbefore (Exchange.received_of_outcome hv)
  have hsame : (before ++ .await name :: (after ++ names.map Event.await)).filterMap
      (Event.published? name) = svc.valuesUnder r state turns name := by
    have hnone : (names.map Event.await).filterMap (Event.published? name) = [] := by
      rw [List.filterMap_map]
      exact List.filterMap_eq_nil_iff.mpr fun _ _ => rfl
    rw [← values_eq_valuesUnder h.published, ← List.cons_append, ← List.append_assoc,
      List.filterMap_append, hnone, List.append_nil]
  rw [hsame, values_eq_valuesUnder hpublished] at hposition
  exact ⟨asking, hearlier, hturns, hposition⟩

/-- Who asks now is noted. -/
theorem Tracked.asking (h : svc.Tracked r state turns es) (hearlier : earlier <+: turns)
    (names : List String) (t : Turn) : (svc.course r state turns).store.Asking names
      (svc.Asked r state earlier (turns ++ [t]) (es ++ names.map .await)) := by
  rintro before name after rfl
  refine ⟨es ++ before.map Event.await, after.map Event.await, turns, by simp, ?_, hearlier,
    List.prefix_append _ _, ?_⟩
  · rw [run_awaits, h.store]
  · rw [List.filterMap_append, h.published, List.filterMap_map]
    simp [publication?]

theorem Tracked.extend (h : svc.Tracked r state turns es)
    (hstore : (svc.turn r (svc.course r state turns) t).store = (Exchange.run (es ++ es')).store)
    (hkept : .clear ∉ es')
    (hpublished : es'.filterMap publication? = svc.published r (svc.course r state turns) t)
    (hwaiting : ∀ w ∈ (svc.turn r (svc.course r state turns) t).waiting,
      w ∈ (svc.course r state turns).waiting ∨ svc.Expects r state (turns ++ [t]) (es ++ es') w) :
    svc.Tracked r state (turns ++ [t]) (es ++ es') where
  store := by rw [course_append, hstore]
  kept hmem := (List.mem_append.mp hmem).elim h.kept hkept
  published := by
    rw [List.filterMap_append, h.published, hpublished, publishedBy_append]
    rfl
  waiting w hw := by
    rw [course_append] at hw
    rcases hwaiting w hw with hbefore | hexpects
    · exact (h.waiting w hbefore).append t es'
    · exact hexpects

/-- A turn that publishes is so many steps of the exchange; one that does not is none. -/
theorem Tracked.publish (h : svc.Tracked r state turns es)
    (hstore : (svc.turn r (svc.course r state turns) t).store =
      (svc.course r state turns).store.publishAll (svc.published r (svc.course r state turns) t))
    (hwaiting : ∀ w ∈ (svc.turn r (svc.course r state turns) t).waiting,
      w ∈ (svc.course r state turns).waiting) :
    ∃ es', svc.Tracked r state (turns ++ [t]) (es ++ es') := by
  refine ⟨(svc.published r (svc.course r state turns) t).map fun kv => .publish kv.1 kv.2,
    h.extend ?_ (by simp) ?_ fun w hw => .inl (hwaiting w hw)⟩
  · rw [run_publishes, hstore, h.store]
  · rw [List.filterMap_map]
    exact List.filterMap_some

/-- A turn that does not apply is no step of the exchange. -/
theorem Tracked.stay (h : svc.Tracked r state turns es)
    (hturn : svc.turn r (svc.course r state turns) t = svc.course r state turns)
    (hquiet : svc.published r (svc.course r state turns) t = []) :
    ∃ es', svc.Tracked r state (turns ++ [t]) (es ++ es') :=
  h.publish (by rw [hturn, hquiet]; rfl) fun w hw => by rwa [hturn] at hw

/-- A turn in which a field begins with its arguments, or goes on with them, asks for names. -/
theorem Tracked.ask (h : svc.Tracked r state turns es) {asked : String → Nat → Prop}
    {out : Resolution × Exports.Store} {written : Members Value} {ws : List Waiting}
    (hsplit : turns ++ [t] = earlier ++ .takeUp f :: later) (hearlier : earlier <+: turns)
    (hargs : r.argumentsOf f = .ok written)
    (hasked : ∀ name id, asked name id → svc.Asked r state earlier turns es name id)
    (hneeds : svc.needsExports written = true)
    (hout : Continues (svc.Given r state earlier turns) asked (svc.course r state turns).store out
      (.object written))
    (hws : ∀ w ∈ ws, w ∈ (svc.course r state turns).waiting)
    (hturn : svc.turn r (svc.course r state turns) t = svc.startOrWait r
      { svc.course r state turns with store := out.2, waiting := ws } f out.1)
    (hquiet : svc.published r (svc.course r state turns) t = []) :
    ∃ es', svc.Tracked r state (turns ++ [t]) (es ++ es') := by
  obtain ⟨names, hstore, hunderway⟩ := hout
  refine ⟨names.map .await, h.extend ?_ (by simp) ?_ fun w hw => ?_⟩
  · rw [hturn, store_startOrWait, run_awaits, ← h.store, hstore]
  · rw [hquiet, List.filterMap_map]
    exact List.filterMap_eq_nil_iff.mpr fun _ _ => rfl
  · rw [hturn] at hw
    rcases mem_waiting_startOrWait hw with hbefore | rfl
    · exact .inl (hws w hbefore)
    · refine .inr ⟨earlier, later, written, hsplit, hargs, hneeds, ?_⟩
      refine (hunderway _ (fun name id hid => ?_) (h.asking hearlier names t)).mono
        (fun _ _ hgiven => hgiven.append t) fun _ _ hid => hid
      exact (hasked name id hid).append t _

/-- A field that waits goes on with its arguments underway. -/
theorem Tracked.resume (h : svc.Tracked r state turns es)
    (hw : w ∈ (svc.course r state turns).waiting) :
    ∃ earlier later written, turns = earlier ++ .takeUp w.field :: later ∧
      r.argumentsOf w.field = .ok written ∧ svc.needsExports written = true ∧
      Continues (svc.Given r state earlier turns) (svc.Asked r state earlier turns es)
        (svc.course r state turns).store (w.args.resume (svc.course r state turns).store)
        (.object written) := by
  obtain ⟨earlier, later, written, hturns, hargs, hneeds, hunderway⟩ := h.waiting w hw
  have hearlier : earlier <+: turns := hturns ▸ List.prefix_append _ _
  exact ⟨earlier, later, written, hturns, hargs, hneeds,
    Resolution.continues_resume (h.offers hearlier) h.hands hunderway⟩

/-- A field that is taken up begins with its arguments underway. -/
theorem Tracked.start (h : svc.Tracked r state turns es) (v : Value) :
    Continues (svc.Given r state turns turns) (fun _ _ => False) (svc.course r state turns).store
      (Resolution.start (svc.course r state turns).store v) v :=
  Resolution.continues_start (h.offers (List.prefix_refl _)) v

theorem Tracked.takeUp (h : svc.Tracked r state turns es) (f : RootField) :
    ∃ es', svc.Tracked r state (turns ++ [.takeUp f]) (es ++ es') := by
  cases hargs : r.argumentsOf f with
  | error e =>
    exact h.stay (by rw [turn, Service.takeUp, hargs]) rfl
  | ok written =>
    by_cases hneeds : svc.needsExports written = true
    · refine h.ask rfl (List.prefix_refl _) hargs (fun _ _ hid => hid.elim) hneeds
        (h.start (.object written)) (fun w hw => hw) ?_ rfl
      rw [turn, Service.takeUp, hargs]
      simp [resolveArguments, hneeds]
    · have hturn : svc.turn r (svc.course r state turns) (.takeUp f) =
          svc.start r (svc.course r state turns) f written := by
        rw [turn, Service.takeUp, hargs]
        simp [resolveArguments, hneeds, startOrWait, Value.members?]
      refine h.publish ?_ fun w hw => ?_
      · rw [hturn, store_start]
        rfl
      · rwa [hturn, waiting_start] at hw

theorem Tracked.goOn (h : svc.Tracked r state turns es) (i : Nat) :
    ∃ es', svc.Tracked r state (turns ++ [.goOn i]) (es ++ es') := by
  cases hw : (svc.course r state turns).waiting[i]? with
  | none => exact h.stay (by simp only [turn, hw]) rfl
  | some w =>
    obtain ⟨earlier, later, written, hturns, hargs, hneeds, hout⟩ :=
      h.resume (List.mem_of_getElem? hw)
    have hsplit : turns ++ [.goOn i] = earlier ++ .takeUp w.field :: (later ++ [.goOn i]) := by
      simp [hturns]
    refine h.ask hsplit (hturns ▸ List.prefix_append _ _) hargs (fun _ _ hid => hid) hneeds hout
      (fun w' (hw' : w' ∈ (svc.course r state turns).waiting.eraseIdx i) =>
        List.mem_of_mem_eraseIdx hw') ?_ rfl
    simp only [turn, hw]
    rfl

theorem Tracked.step (h : svc.Tracked r state turns es) (t : Turn) :
    ∃ es', svc.Tracked r state (turns ++ [t]) (es ++ es') := by
  cases t with
  | refuse f =>
    refine h.publish ?_ fun w hw => ?_
    · rw [turn, store_refuse]
      rfl
    · rwa [turn, waiting_refuse] at hw
  | takeUp f => exact h.takeUp f
  | perform f => exact h.publish rfl fun w hw => hw
  | finish i =>
    cases hjob : (svc.course r state turns).queue[i]? with
    | none => exact h.stay (by simp only [turn, hjob]) (by simp only [Service.published, hjob])
    | some job =>
      refine h.publish ?_ fun w hw => ?_
      · simp only [turn, Service.published, hjob]
        rfl
      · simp only [turn, hjob] at hw
        exact hw
  | goOn i => exact h.goOn i
  | timeOut i =>
    cases hw : (svc.course r state turns).waiting[i]? with
    | none => exact h.stay (by simp only [turn, hw]) rfl
    | some w =>
      refine h.publish ?_ fun w' hmem => ?_
      · simp only [turn, hw]
        rfl
      · simp only [turn, hw] at hmem
        exact List.mem_of_mem_eraseIdx hmem
  | abandon => exact h.publish rfl fun w hw => hw

/-- Behind every course there is an exchange. -/
theorem exists_tracked (svc : Service) (r : Request) (state : State) (turns : List Turn) :
    ∃ es, svc.Tracked r state turns es := by
  induction turns using List.reverseRecOn with
  | nil => exact ⟨[], rfl, by simp, rfl, by simp [course]⟩
  | append_singleton turns t ih =>
    obtain ⟨es, h⟩ := ih
    obtain ⟨es', h'⟩ := h.step t
    exact ⟨_, h'⟩

/-! ## What fields begin with -/

/-- Arguments that are filled and settled are what the field begins with. -/
theorem filled_of_settledMembers {given : String → Value → Prop} {written : Members Value}
    {asked : String → Nat → Prop} {store : Exports.Store} {out : Resolution × Exports.Store}
    (hout : Continues given asked store out (.object written))
    (hsettled : settledMembers? out.1 = some args) :
    Filled given (.object written) (.object args) := by
  obtain ⟨res, store'⟩ := out
  cases res with
  | settled w =>
    have hw := hout.filled
    rw [Filled] at hw
    obtain ⟨ws, rfl, hws⟩ := hw
    obtain rfl : ws = args := Option.some.inj hsettled
    rw [Filled]
    exact ⟨ws, rfl, hws⟩
  | _ => cases hsettled

/-- A field that is taken up or goes on begins with its arguments as they are filled by then. -/
theorem begun_of_turn (h : svc.begun? r (svc.course r state turns) t = some (f, args)) :
    ∃ earlier later written,
      (turns ++ [t] = earlier ++ .takeUp f :: later ∨
        turns ++ [t] = earlier ++ .perform f :: later) ∧
      r.argumentsOf f = .ok written ∧
      if svc.needsExports written then
        Filled (svc.Given r state earlier turns) (.object written) (.object args)
      else args = written := by
  obtain ⟨es, htracked⟩ := exists_tracked svc r state turns
  cases t with
  | takeUp f' =>
    rw [begun?] at h
    split at h
    · rename_i written hargs
      obtain ⟨args', hsettled, heq⟩ := Option.map_eq_some_iff.mp h
      obtain ⟨rfl, rfl⟩ := Prod.mk.inj heq
      refine ⟨turns, [], written, .inl rfl, hargs, ?_⟩
      split
      · rename_i hneeds
        rw [resolveArguments, if_pos hneeds] at hsettled
        exact filled_of_settledMembers (htracked.start _) hsettled
      · rename_i hneeds
        rw [resolveArguments, if_neg hneeds] at hsettled
        exact (Option.some.inj hsettled).symm
    · cases h
  | perform f' =>
    obtain ⟨args', hargs, heq⟩ := Option.map_eq_some_iff.mp h
    obtain ⟨rfl, rfl⟩ := Prod.mk.inj heq
    have hargs : svc.argumentsNow r (svc.course r state turns) f' = .ok args' := by
      cases hnow : svc.argumentsNow r (svc.course r state turns) f' with
      | error e => simp [hnow, Except.toOption] at hargs
      | ok now => simpa [hnow, Except.toOption] using hargs
    obtain ⟨written, hwritten, hnow⟩ := Outcome.bind_eq_ok.mp hargs
    refine ⟨turns, [], written, .inr rfl, hwritten, ?_⟩
    split at hnow
    · rename_i hneeds
      rw [if_pos hneeds]
      split at hnow
      · rename_i v hv
        have hfilled := (Exports.substitute_eq_ok.mp hv).mono
          (htracked.offers (List.prefix_refl _))
        rw [Filled] at hfilled ⊢
        obtain ⟨ws, rfl, hws⟩ := hfilled
        exact ⟨ws, congrArg Value.object (Except.ok.inj hnow).symm, hws⟩
      · cases hnow
    · rename_i hneeds
      rw [if_neg hneeds]
      exact (Except.ok.inj hnow).symm
  | goOn i =>
    obtain ⟨w, hw, hbegun⟩ := Option.bind_eq_some_iff.mp h
    obtain ⟨args', hsettled, heq⟩ := Option.map_eq_some_iff.mp hbegun
    obtain ⟨rfl, rfl⟩ := Prod.mk.inj heq
    obtain ⟨earlier, later, written, hturns, hargs, hneeds, hout⟩ :=
      htracked.resume (List.mem_of_getElem? hw)
    refine ⟨earlier, later ++ [.goOn i], written, .inl (by simp [hturns]), hargs, ?_⟩
    rw [if_pos hneeds]
    exact filled_of_settledMembers hout hsettled
  | _ => cases h

/-- A request is answered by following a course. In every course, whatever its turns, a field begins
with its arguments as they were written, each placeholder filled with the value that was last
published under its name when the field asked for it, at some point since it was taken up, or with
the first of all values under the name if there was none by then. If only one value is published
under every name, the placeholders are filled with these, whoever waits for whom. -/
theorem begun_filled (svc : Service) (r : Request) (state : State) :
    (∀ fields, r.rootFields = .ok fields → ∃ turns, svc.answer r state =
      (respond fields (svc.course r state turns), (svc.course r state turns).state)) ∧
    (∀ turns t f args, svc.begun? r (svc.course r state turns) t = some (f, args) →
      ∃ earlier later written,
        (turns ++ [t] = earlier ++ .takeUp f :: later ∨
          turns ++ [t] = earlier ++ .perform f :: later) ∧
        r.argumentsOf f = .ok written ∧
        if svc.needsExports written then
          Filled (svc.Given r state earlier turns) (.object written) (.object args)
        else args = written) ∧
    ∀ turns t f args written (value : String → Value),
      svc.begun? r (svc.course r state turns) t = some (f, args) →
      r.argumentsOf f = .ok written → svc.needsExports written = true →
      (∀ name, ∀ v ∈ svc.valuesUnder r state turns name, v = value name) →
      Exports.substitute (fun name => some (value name)) (.object written) =
        .ok (.object args) := by
  refine ⟨fun fields h => answer_eq_course h state, fun turns t f args h => begun_of_turn h, ?_⟩
  intro turns t f args written value h hargs hneeds hone
  obtain ⟨earlier, -, written', -, hargs', hfilled⟩ := begun_of_turn h
  obtain rfl : written' = written := Except.ok.inj (hargs'.symm.trans hargs)
  rw [if_pos hneeds] at hfilled
  refine Exports.substitute_eq_ok.mpr (hfilled.mono fun name v hgiven => ?_)
  obtain ⟨asking, -, -, hv⟩ := hgiven
  rw [hone name v (List.mem_of_getElem? hv)]

end Course

/-! ## A name that is published twice -/

namespace Letters

open Operations.Journal (entry key name storage stored)
open Store Sql

/-- Entries can be found by their keys and names. -/
def entryFindMany : Graphql.FieldDefinition where
  name := "entryFindMany"
  args := [{ name := "where", type := .named "EntryFilter" }]
  type := .list (.named "Entry")

/-- The schema of entries. -/
def schema : Graphql.Schema where
  types := [
    ("String", .scalar { rule := .text }),
    ("StringFilter", .input [{ name := "eq", type := .named "String" }]),
    ("EntryFilter", .input [{ name := "id", type := .named "StringFilter" },
      { name := "name", type := .named "StringFilter" }]),
    ("Entry", .object [] [{ name := "id", type := .nonNull (.named "String") },
      { name := "name", type := .named "String" }]),
    ("Query", .object [] [entryFindMany])]
  roots := [(.query, "Query")]

/-- The interface to entries, with exports. -/
def entries : Service where
  api := Operations.Journal.api (.text false)
  access := .own
  exports := true

/-- The condition that a column equals a text. -/
def equals (column t : String) : String × Graphql.Literal := (column, .object [("eq", .text t)])

/-- A column that is exported under a name. -/
def exported (column name : String) : Graphql.Entry :=
  .field none column [] [⟨"export", [("as", .text name)]⟩] []

/-- A root field that finds entries. -/
def find (label : String) (args : Graphql.Arguments) (below : List Graphql.Entry) : RootField :=
  ⟨label, entryFindMany, [⟨some label, "entryFindMany", args, [], below⟩]⟩

/-- All entries, which export their keys and names. -/
def all : RootField := find "all" [] [exported "id" "y", exported "name" "x"]

/-- The entries with an exported name. -/
def early : RootField :=
  find "early" [("where", .object [equals "name" "$_x"])] [.field none "id" [] [] []]

/-- The entries with an exported name, which is asked for once a key has come. -/
def late : RootField :=
  find "late" [("where", .object [equals "id" "$_y", equals "name" "$_x"])]
    [.field none "id" [] [] []]

/-- The request for all three. -/
def request : Request where
  schema := schema
  kind := .query
  root := "Query"
  entries := [all, early, late].flatMap fun f => f.nodes.map fun n =>
    .field n.label n.name n.args n.directives n.entries
  given := {}

/-- Two entries. -/
def start : State := { storage := storage "l" "k" }

/-- The plan for all entries. -/
def everything : Node := { table := "entry", columns := ["id", "name"] }

/-- The statement of this plan. -/
def statement : Fetch := (Fetch.ofNode entries.api.registry everything).toOption.getD default

/-- An entry as it is found. -/
def found (id called : String) : Value := .object [("id", .text id), ("name", .text called)]

theorem rootRows_everything : Direct.rootRows (Direct.scanOf entries.api.registry)
    (start.storage.seen .own) (entry (.text false)) everything =
      [stored 1 "l" "a", stored 2 "k" "b"] := by
  cbv

theorem result_statement : Fetch.result .byName (start.storage.seen .own) statement =
    .ok [found "l" "a", found "k" "b"] := by
  have hcolumns : statement.columns = [key (.text false), name] := rfl
  have hnested : statement.nested = [] := rfl
  have hrow : ∀ number id called, Direct.fetchedRow (start.storage.seen .own) statement
      (stored number id called) = .ok (found id called) := by
    intro number id called
    rw [Direct.fetchedRow, hcolumns, hnested]
    rfl
  have hstatement : Fetch.ofNode entries.api.registry everything = .ok statement := rfl
  rw [Direct.result_eq_ok_iff (t := entry (.text false)) hstatement rfl rfl,
    rootRows_everything, List.mapM_cons, hrow, List.mapM_cons, hrow]
  rfl

theorem rows_everything : Hydration.rows entries.api.registry everything
    [found "l" "a", found "k" "b"] = .ok [found "l" "a", found "k" "b"] := by
  have hrow : ∀ id called, Hydration.row entries.api.registry everything (found id called) =
      .ok (found id called) := by
    intro id called
    have hcolumns : (everything.columns.mapM fun column => do
        return (column, ← Hydration.shownColumn (entry (.text false))
          [("id", .text id), ("name", .text called)] column)) =
        .ok [("id", .text id), ("name", .text called)] := rfl
    exact (Hydration.row_of_parts rfl hcolumns rfl).trans rfl
  rw [Hydration.rows, List.mapM_cons, hrow, List.mapM_cons, hrow]
  rfl

theorem fetch_everything : (Storage.fetch entries.api.registry .own everything start.storage).1 =
    .ok [found "l" "a", found "k" "b"] :=
  Storage.fetch_of_seen rfl rfl (by decide +kernel) result_statement rows_everything

/-- All three fields are taken up before the first is read. -/
def taken : List Turn := [.takeUp all, .takeUp early, .takeUp late]

theorem rootFields_request : request.rootFields = .ok [all, early, late] := by
  cbv

/-- The first field is ready to be read, and the others wait for what it exports. -/
def takenUp : Progress where
  state := start
  store := { waiters := [.waiting "x", .waiting "y"], pending := [("x", [0]), ("y", [1])] }
  waiting :=
    [⟨early, .object [] "where" (.object [] "name" (.object [] "eq" (.waiting 0) []) []) []⟩,
      ⟨late, .object [] "where" (.object [] "id" (.object [] "eq" (.waiting 1) [])
        [("name", .object [("eq", .text "$_x")])]) []⟩]
  queue := [⟨all, ⟨everything, false⟩⟩]

theorem course_taken : entries.course request start taken = takenUp := by
  cbv

theorem publications_all : entries.publications all
    (.ok (.list [found "l" "a", found "k" "b"])) =
      [("y", .text "l"), ("x", .text "a"), ("y", .text "k"), ("x", .text "b")] := by
  cbv

theorem read_everything : ((Operations.runRead entries.api entries.access
    ⟨everything, false⟩).run.run start).1 = .ok (.list [found "l" "a", found "k" "b"]) := by
  have hfetch : (Storage.fetch entries.api.registry entries.access everything start.storage).1 =
      .ok [found "l" "a", found "k" "b"] := fetch_everything
  rw [Operations.runRead, Operations.Step.run_bind, Operations.Step.run_store, hfetch]
  rfl

/-- When all entries are found, those who wait receive what the first of them exports, and what the
last exports stays. -/
theorem course_found : (entries.course request start (taken ++ [.finish 0])).store =
      { waiters := [.received (.text "a"), .received (.text "l")]
        values := [("y", .text "k"), ("x", .text "b")] } ∧
    (entries.course request start (taken ++ [.finish 0])).waiting = takenUp.waiting := by
  have hstore : (entries.course request start (taken ++ [.finish 0])).store =
      takenUp.store.publishAll (entries.publications all
        ((Operations.runRead entries.api entries.access ⟨everything, false⟩).run.run start).1) := by
    rw [course_append, course_taken]
    rfl
  refine ⟨?_, ?_⟩
  · rw [hstore, read_everything, publications_all]
    cbv
  · rw [course_append, course_taken]
    rfl

theorem begun_early :
    entries.begun? request (entries.course request start (taken ++ [.finish 0])) (.goOn 0) =
      some (early, [("where", .object [("name", .object [("eq", .text "a")])])]) := by
  simp only [begun?, course_found]
  cbv

/-- Two fields wait for one name. The one that asked for it before it was published begins with the
first value, and the one that asks for it after that with the last. -/
theorem begun_differently :
    request.rootFields = .ok [all, early, late] ∧
      request.argumentsOf early =
        .ok [("where", .object [("name", .object [("eq", .text "$_x")])])] ∧
      request.argumentsOf late = .ok [("where", .object [("id", .object [("eq", .text "$_y")]),
        ("name", .object [("eq", .text "$_x")])])] ∧
      entries.begun? request (entries.course request start (taken ++ [.finish 0])) (.goOn 0) =
        some (early, [("where", .object [("name", .object [("eq", .text "a")])])]) ∧
      entries.begun? request (entries.course request start (taken ++ [.finish 0])) (.goOn 1) =
        some (late, [("where", .object [("id", .object [("eq", .text "l")]),
          ("name", .object [("eq", .text "b")])])]) := by
  refine ⟨rootFields_request, by cbv, by cbv, begun_early, ?_⟩
  simp only [begun?, course_found]
  cbv

/-- The field that asked before the name was published begins with a value that the course gives for
the name. -/
theorem early_filled : ∃ earlier later written,
    (taken ++ [.finish 0] ++ [.goOn 0] = earlier ++ .takeUp early :: later ∨
      taken ++ [.finish 0] ++ [.goOn 0] = earlier ++ .perform early :: later) ∧
    request.argumentsOf early = .ok written ∧
    if entries.needsExports written then
      Filled (entries.Given request start earlier (taken ++ [.finish 0])) (.object written)
        (.object [("where", .object [("name", .object [("eq", .text "a")])])])
    else [("where", .object [("name", .object [("eq", .text "a")])])] = written :=
  (begun_filled entries request start).2.1 (taken ++ [.finish 0]) (.goOn 0) early
    [("where", .object [("name", .object [("eq", .text "a")])])] begun_early

end Letters

end RelGraph.Service
