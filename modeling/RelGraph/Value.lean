import RelGraph.Binary64
import RelGraph.Decimal
import RelGraph.Calendar
import RelGraph.Uuid
import RelGraph.Members
/-!
Values: what arguments, rows and results are made of. Truth values count as the numbers 0 and 1
wherever numbers are compared, and objects are equal when they hold equal values under the same
names, in whatever order.
-/
namespace RelGraph

/-- A value. A `tuple` is a list of fixed length: it behaves as a list and only shows otherwise. -/
inductive Value
  | null
  | bool (b : Bool)
  | int (n : Int)
  | float (x : Binary64)
  | decimal (d : Decimal)
  | text (s : String)
  | bytes (data : List UInt8)
  | date (d : Date)
  | moment (m : DateTime)
  | time (t : Time)
  | uuid (u : Uuid)
  | list (items : List Value)
  | tuple (items : List Value)
  | object (members : List (String × Value))
deriving Repr, Inhabited

namespace Value

/-- Whether the value is absent. -/
def isNull : Value → Bool
  | null => true
  | _ => false

/-- Whether a value counts as given: not null, false, zero or empty. -/
def truthy : Value → Bool
  | null => false
  | bool b => b
  | int n => n ≠ 0
  | float x => !x.isZero
  | decimal d => !d.isZero
  | text s => !s.isEmpty
  | bytes data => !data.isEmpty
  | list items => !items.isEmpty
  | tuple items => !items.isEmpty
  | object members => !members.isEmpty
  | _ => true

/-- The items of a list or tuple. -/
def items? : Value → Option (List Value)
  | list items => some items
  | tuple items => some items
  | _ => none

/-- The members of an object. -/
def members? : Value → Option (Members Value)
  | object members => some members
  | _ => none

/-- The text of a text. -/
def text? : Value → Option String
  | text s => some s
  | _ => none

/-- The value under a name of an object; null when there is none. -/
def field (v : Value) (name : String) : Value :=
  match v with
  | object members => (Members.get? members name).getD null
  | _ => null

/-- The exact value of a finite number, truth values included, as a signed ratio. -/
def ratio? : Value → Option (Int × Nat)
  | bool b => some (if b then 1 else 0, 1)
  | int n => some (n, 1)
  | float x => x.ratio?
  | decimal d => d.ratio?
  | _ => none

/-- Whether two values that are neither lists nor objects are equal: numbers by their exact value,
moments with a known offset by the instant. -/
def sameScalar (a b : Value) : Bool :=
  match a.ratio?, b.ratio? with
  | some x, some y => x.1 * y.2 == y.1 * x.2
  | some _, none | none, some _ => false
  | none, none =>
    match a, b with
    | null, null => true
    | float (.infinite p), float (.infinite q) => p == q
    | float (.infinite p), decimal (.infinite q) => p == q
    | decimal (.infinite p), float (.infinite q) => p == q
    | decimal (.infinite p), decimal (.infinite q) => p == q
    | text s, text t => s == t
    | bytes s, bytes t => s == t
    | date s, date t => s == t
    | moment s, moment t =>
      s.offset.isSome == t.offset.isSome && s.instant == t.instant
    | time s, time t =>
      s.offset.isSome == t.offset.isSome &&
        (s.clock.micros : Int) - s.offset.getD 0 == (t.clock.micros : Int) - t.offset.getD 0
    | uuid s, uuid t => s == t
    | _, _ => false

/-- Removes the first member under a name for which `test` holds of the value. -/
def takeMember (test : Value → Bool) (key : String) :
    List (String × Value) → Option (List (String × Value))
  | [] => none
  | (k, v) :: rest =>
    if k = key then if test v then some rest else none
    else (takeMember test key rest).map ((k, v) :: ·)

mutual

/-- Whether two values are equal, as a test tells of those that are neither lists nor objects. -/
def sameBy (test : Value → Value → Bool) : Value → Value → Bool
  | list a, b => match b with
    | list b => sameItems test a b
    | _ => false
  | tuple a, b => match b with
    | tuple b => sameItems test a b
    | _ => false
  | object a, b => match b with
    | object b => sameMembers test a b
    | _ => false
  | a, b => test a b

/-- Whether two lists hold equal values in the same order. -/
def sameItems (test : Value → Value → Bool) : List Value → List Value → Bool
  | [], [] => true
  | a :: as, b :: bs => sameBy test a b && sameItems test as bs
  | _, _ => false

/-- Whether two objects hold equal values under the same names. -/
def sameMembers (test : Value → Value → Bool) :
    List (String × Value) → List (String × Value) → Bool
  | [], rest => rest.isEmpty
  | (k, v) :: ms, rest =>
    match takeMember (sameBy test v) k rest with
    | some left => sameMembers test ms left
    | none => false

end

/-- Whether two values are equal. -/
def same (a b : Value) : Bool := sameBy sameScalar a b

/-- Whether two values are one failed computation, which is equal to nothing. -/
def sameNan : Value → Value → Bool
  | float .nan, float .nan => true
  | decimal (.notANumber negative signaling payload), decimal d =>
    d == .notANumber negative signaling payload
  | _, _ => false

/-- Whether two values are equal, or hold what they hold in common: failed computations too are
found to be the same there. -/
def alike (a b : Value) : Bool := sameBy (fun a b => sameScalar a b || sameNan a b) a b

end Value
end RelGraph
