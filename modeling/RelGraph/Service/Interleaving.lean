import RelGraph.Service
/-!
Requests in any order of their turns. Root fields run side by side, and which of them goes on next
is up to nobody: a read that takes its turn at the storage may be any that is queued, a field that
waits may go on or run out of time at any moment, and a field may be taken up late. A course is a
request in progress after such turns; to answer a request is to follow one of them.
-/
namespace RelGraph.Service

open Graphql (Request RootField)
open Operations (State)

/-- What comes next in a request: a field whose arguments cannot be read is refused, one is taken
up, or performed as a field of a mutation; one of the queued reads is run; one of the fields that
wait goes on or runs out of time; or the request is given up. -/
inductive Turn
  | refuse (f : RootField)
  | takeUp (f : RootField)
  | perform (f : RootField)
  | finish (i : Nat)
  | goOn (i : Nat)
  | timeOut (i : Nat)
  | abandon
deriving Inhabited

/-- One turn. A turn that does not apply changes nothing. -/
def turn (svc : Service) (r : Request) (p : Progress) : Turn → Progress
  | .refuse f => svc.refuse r p f
  | .takeUp f => svc.takeUp r p f
  | .perform f => svc.carryOut r p f
  | .finish i =>
    match p.queue[i]? with
    | some job => svc.finish r { p with queue := p.queue.eraseIdx i } job
    | none => p
  | .goOn i =>
    match p.waiting[i]? with
    | some w => svc.goOn r { p with waiting := p.waiting.eraseIdx i } w
    | none => p
  | .timeOut i =>
    match p.waiting[i]? with
    | some w => svc.timeOut r { p with waiting := p.waiting.eraseIdx i } w
    | none => p
  | .abandon => svc.abandon p

/-- A request in progress after some turns. -/
def course (svc : Service) (r : Request) (state : State) (turns : List Turn) : Progress :=
  turns.foldl (svc.turn r) { state := state }

/-- The values that a turn publishes, in order. -/
def published (svc : Service) (r : Request) (p : Progress) : Turn → List (String × Value)
  | .perform f => svc.publications f (svc.perform r p f).1
  | .finish i =>
    match p.queue[i]? with
    | some job =>
      svc.publications job.field
        ((Operations.runRead svc.api svc.access job.read).run.run p.state).1
    | none => []
  | _ => []

/-- The values that turns publish from some point on. -/
def publishedBy (svc : Service) (r : Request) (p : Progress) : List Turn → List (String × Value)
  | [] => []
  | t :: rest => svc.published r p t ++ svc.publishedBy r (svc.turn r p t) rest

/-- The values that are published under a name in the course of some turns. -/
def valuesUnder (svc : Service) (r : Request) (state : State) (turns : List Turn)
    (name : String) : List Value :=
  (svc.publishedBy r { state := state } turns).filterMap fun kv =>
    if kv.1 = name then some kv.2 else none

/-- The members of a value on its way, when it is settled. -/
def settledMembers? (args : Exports.Resolution) : Option (Members Value) :=
  args.value?.map fun v => v.members?.getD []

/-- The field that a turn begins, with the arguments that it begins with. -/
def begun? (svc : Service) (r : Request) (p : Progress) :
    Turn → Option (RootField × Members Value)
  | .takeUp f =>
    match r.argumentsOf f with
    | .ok args => (settledMembers? (svc.resolveArguments p.store args).1).map (f, ·)
    | .error _ => none
  | .perform f => (svc.argumentsNow r p f).toOption.map (f, ·)
  | .goOn i =>
    p.waiting[i]?.bind fun w =>
      (settledMembers? (w.args.resume p.store).1).map (w.field, ·)
  | _ => none

end RelGraph.Service
