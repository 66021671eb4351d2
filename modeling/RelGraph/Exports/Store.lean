import RelGraph.Members
import RelGraph.Value
import RelGraph.Fault
/-!
The store of published values. Publishing a value hands it to everyone who waits for the name and
keeps it for those who ask later; the latest value stands. A waiter ends with a value, by running
out of time, or because the store is cleared.
-/
namespace RelGraph.Exports

/-- What became of a waiter. -/
inductive Waiter
  | waiting (name : String)
  | received (value : Value)
  | timedOut (name : String)
  | cancelled
deriving Repr, Inhabited

/-- The published values, the waiters by number, and for every name that is waited for the numbers
of those who wait. -/
structure Store where
  values : Members Value := []
  waiters : List Waiter := []
  pending : Members (List Nat) := []
deriving Repr, Inhabited

namespace Store

/-- The value under a name. -/
def get? (s : Store) (name : String) : Option Value := Members.get? s.values name

/-- Whether a value was published under a name. -/
def has (s : Store) (name : String) : Bool := (s.get? name).isSome

/-- The waiters on the list of a name. -/
def listed (s : Store) (name : String) : List Nat := (Members.get? s.pending name).getD []

/-- Settles the waiters with the given numbers that still wait. -/
def settle (s : Store) (ids : List Nat) (outcome : Waiter) : Store :=
  { s with waiters := s.waiters.mapIdx fun i w =>
      match w with
      | .waiting _ => if ids.contains i then outcome else w
      | w => w }

/-- Publishes a value. -/
def publish (s : Store) (name : String) (value : Value) : Store :=
  { s.settle (s.listed name) (.received value) with
    values := Members.put s.values name value
    pending := Members.erase s.pending name }

/-- Starts to wait for a name. A value that is there is received at once. -/
def await (s : Store) (name : String) : Nat × Store :=
  let id := s.waiters.length
  match s.get? name with
  | some v => (id, { s with waiters := s.waiters ++ [.received v] })
  | none =>
    (id, { s with
      waiters := s.waiters ++ [.waiting name]
      pending := Members.put s.pending name (s.listed name ++ [id]) })

/-- Takes a waiter off the list of a name, if it is there. -/
def leave (s : Store) (name : String) (id : Nat) : Store :=
  match Members.get? s.pending name with
  | some ids => { s with pending := Members.put s.pending name (ids.erase id) }
  | none => s

/-- Lets a waiter run out of time: it no longer waits for its name. -/
def expire (s : Store) (id : Nat) : Store :=
  match s.waiters[id]? with
  | some (.waiting name) => (s.settle [id] (.timedOut name)).leave name id
  | _ => s

/-- Forgets all values and cancels everyone who waits. -/
def clear (s : Store) : Store :=
  { s.settle (s.pending.flatMap Prod.snd) .cancelled with values := [], pending := [] }

/-- How many wait for each name that somebody waited for and that was not published since. -/
def counts (s : Store) : Members Nat := Members.mapValues List.length s.pending

/-- The outcome of a waiter; `none` while it waits. -/
def outcome? (s : Store) (id : Nat) : Option (Attempt Value) :=
  match s.waiters[id]? with
  | some (.received v) => some (.ok v)
  | some (.timedOut name) => some (Attempt.fault (.exportMissing name))
  | some .cancelled => some (Attempt.mishap .cancelled)
  | _ => none

end Store
end RelGraph.Exports
