import RelGraph.Fault
import RelGraph.Value.Display
/-!
Values of unknown shape. Callers may give anything where an object or a list is expected: what is
asked of a value that lacks it is a mishap that names the kind of the value. Objects are made of
their names, texts of their characters and bytes of numbers.
-/
namespace RelGraph.Shape

/-- The members of a value that is asked for a part; only objects have members. -/
def members (asked : String) (v : Value) : Attempt (Members Value) :=
  match v with
  | .object ms => .ok ms
  | v => Attempt.mishap (.attributeMissing v.fullKindName asked)

/-- The parts that a value is made of, one after the other. -/
def parts? : Value → Option (List Value)
  | .list items | .tuple items => some items
  | .object ms => some (ms.map fun kv => .text kv.1)
  | .text s => some (s.toList.map fun c => .text (String.singleton c))
  | .bytes data => some (data.map fun b => .int b.toNat)
  | _ => none

/-- Why a value has no parts. -/
def noParts (v : Value) : Mishap := .badKind s!"'{v.fullKindName}' object is not iterable"

/-- The parts that a value is made of; numbers, dates and the like have none. -/
def parts (v : Value) : Attempt (List Value) :=
  match parts? v with
  | some items => .ok items
  | none => Attempt.mishap (noParts v)

mutual

/-- Why a value cannot be looked up by value, if it cannot: lists and objects may change. -/
def unfitKey? : Value → Option Mishap
  | .list items => some (.badKind s!"unhashable type: '{(Value.list items).kindName}'")
  | .object ms => some (.badKind s!"unhashable type: '{(Value.object ms).kindName}'")
  | .tuple items => unfitItem? items
  | .decimal d =>
    if d.isSignaling then some (.badKind "Cannot hash a signaling NaN value") else none
  | _ => none

/-- Why the first item that cannot be looked up cannot. -/
def unfitItem? : List Value → Option Mishap
  | [] => none
  | v :: rest =>
    match unfitKey? v with
    | some m => some m
    | none => unfitItem? rest

end

/-- A value as a key of lookups. -/
def key (v : Value) : Attempt Value :=
  match unfitKey? v with
  | some m => Attempt.mishap m
  | none => .ok v

/-- Writes a value under a key: equal keys are one, under its first form. -/
def putPair : List (Value × Value) → Value → Value → List (Value × Value)
  | [], k, v => [(k, v)]
  | (k', v') :: rest, k, v =>
    if Value.same k' k then (k', v) :: rest else (k', v') :: putPair rest k v

/-- The pair that the part of a value at a position makes. -/
def pair (position : Nat) (v : Value) : Attempt (Value × Value) :=
  match parts? v with
  | none => Attempt.mishap (.badKind
      s!"cannot convert dictionary update sequence element #{position} to a sequence")
  | some [k, v] => do return (← key k, v)
  | some items => Attempt.mishap (.badValue
      s!"dictionary update sequence element #{position} has length {items.length}; 2 is required")

/-- The named values that a value makes: those of an object, or the pairs that the value is made
of. Names that are no texts are shown as texts. -/
def mapping (v : Value) : Attempt (Members Value) :=
  match v with
  | .object ms => .ok ms
  | v => do
    let pairs ← (← parts v).zipIdx.mapM fun (item, position) => pair position item
    let distinct := pairs.foldl (fun acc kv => putPair acc kv.1 kv.2) []
    return Members.ofPairs (distinct.map fun kv => (kv.1.display, kv.2))

end RelGraph.Shape
