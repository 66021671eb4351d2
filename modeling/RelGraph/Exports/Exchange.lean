import RelGraph.Exports.Store
/-!
Waiting at the store, step by step, as those who publish and those who wait take turns. Whoever asks
for a name that has a value takes the value and goes; all others are put on the list of the name. A
wait is over when a value is published, when its time is up, when the waiter is cancelled or when
the store is cleared. The waiter goes on some time after that, and only then takes itself off the
list if it is still there.
-/
namespace RelGraph.Exports

/-- Somebody who asked for a name, and whether they have gone on with what became of it. -/
structure Visit where
  name : String
  gone : Bool
deriving Repr, Inhabited

/-- The store and those who asked for names; a visit has the number of its waiter. -/
structure Exchange where
  store : Store := {}
  visits : List Visit := []
deriving Repr, Inhabited

/-- The steps of an exchange. -/
inductive Event
  | publish (name : String) (value : Value)
  | await (name : String)
  | timeOut (id : Nat)
  | cancel (id : Nat)
  | goOn (id : Nat)
  | clear
deriving Repr, Inhabited

namespace Exchange

/-- Ends the wait of a visit that still waits. It stays on the list of its name. -/
def stop (x : Exchange) (id : Nat) (outcome : Visit → Waiter) : Exchange :=
  match x.visits[id]? with
  | some visit => { x with store := x.store.settle [id] (outcome visit) }
  | none => x

/-- Lets a visit go on whose wait is over: it is no longer on the list of its name. -/
def goOn (x : Exchange) (id : Nat) : Exchange :=
  match x.visits[id]?, x.store.outcome? id with
  | some visit, some _ =>
    if visit.gone then x
    else ⟨x.store.leave visit.name id, x.visits.set id { visit with gone := true }⟩
  | _, _ => x

/-- One step. A step that does not apply changes nothing. -/
def step (x : Exchange) : Event → Exchange
  | .publish name value => { x with store := x.store.publish name value }
  | .await name => ⟨(x.store.await name).2, x.visits ++ [⟨name, x.store.has name⟩]⟩
  | .timeOut id => x.stop id fun visit => .timedOut visit.name
  | .cancel id => x.stop id fun _ => .cancelled
  | .goOn id => x.goOn id
  | .clear => { x with store := x.store.clear }

/-- The exchange after some steps. -/
def run (events : List Event) : Exchange := events.foldl step {}

/-- What a visit that has gone on has come to. -/
def returned? (x : Exchange) (id : Nat) : Option (Attempt Value) :=
  match x.visits[id]? with
  | some visit => if visit.gone then x.store.outcome? id else none
  | none => none

end Exchange
end RelGraph.Exports
