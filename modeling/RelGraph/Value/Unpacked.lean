import RelGraph.Value.Packed
/-!
Values read back from the bytes that they are packed into: the instructions are carried out on a
stack and a memory. Bytes that are no such instructions hold no value.
-/
namespace RelGraph.Packed

/-- What lies on the stack: a fence before parts, a value, a kind of value, a span of time, a
distance from universal time, or parts that do not make a value. -/
inductive Entry
  | fence
  | value (v : Value)
  | kind (place name : String)
  | span (micros : Int)
  | offset (o : Offset)
  | parts (items : List Entry)
deriving Repr, Inhabited

namespace Entry

/-- The value that an entry is. -/
def value? : Entry → Option Value
  | value v => some v
  | _ => none

/-- Entries as one: a value if all of them are. -/
def grouped (items : List Entry) : Entry :=
  match items.mapM value? with
  | some values => value (.tuple values)
  | none => parts items

/-- The entries that were made one. -/
def ungrouped : Entry → List Entry
  | value (.tuple values) => values.map value
  | parts items => items
  | _ => []

end Entry

/-- The number that bytes spell, the lowest first. -/
def numberOf (data : List UInt8) : Nat := data.foldr (fun b n => n * 256 + b.toNat) 0

/-- The number that bytes spell whose highest bit is a sign. -/
def signedOf (data : List UInt8) : Int :=
  let n := numberOf data
  if 2 * n < Nat.pow 256 data.length then n else (n : Int) - Int.pow 256 data.length

/-- Some bytes, and those behind them. -/
def cut? (count : Nat) (data : List UInt8) : Option (List UInt8 × List UInt8) :=
  if count ≤ data.length then some (data.take count, data.drop count) else none

/-- The bytes behind their length, and those behind them. -/
def sized? (width : Nat) (data : List UInt8) : Option (List UInt8 × List UInt8) := do
  let (size, rest) ← cut? width data
  cut? (numberOf size) rest

/-- The text that bytes spell. -/
def text? (data : List UInt8) : Option Value :=
  (String.fromUTF8? (ByteArray.mk data.toArray)).map Value.text

/-- The date that bytes stand for. -/
def date? : List UInt8 → Option Date
  | [century, year, month, day] =>
    (Calendar.makeDate (century.toNat * 256 + year.toNat) month.toNat day.toNat).toOption
  | _ => none

/-- The time of day that bytes stand for. -/
def clock? : List UInt8 → Option TimeOfDay
  | hour :: minute :: second :: micro =>
    (Calendar.makeClock hour.toNat minute.toNat second.toNat (numberOf micro.reverse)).toOption
  | _ => none

/-- Something of the calendar, made of bytes and a distance from universal time. -/
def calendar? (name : String) (data : List UInt8) (o : Option Offset) : Option Value :=
  match name with
  | "date" => (date? data).map Value.date
  | "time" => (clock? data).map fun t => Value.time ⟨t, o⟩
  | "datetime" => do return .moment ⟨← date? (data.take 4), ← clock? (data.drop 4), o⟩
  | _ => none

/-- What a kind makes of parts. -/
def make? (place name : String) (parts : List Entry) : Option Entry :=
  match place, name, parts with
  | "decimal", _, [.value (.text s)] => (Decimal.read? s).map fun d => .value (.decimal d)
  | _, "timedelta", [.value (.int days), .value (.int seconds), .value (.int micros)] =>
    some (.span (days * Calendar.microsPerDay + seconds * 1000000 + micros))
  | _, "timezone", [.span micros] => some (.offset micros)
  | _, name, [.value (.bytes data)] => (calendar? name data none).map Entry.value
  | _, name, [.value (.bytes data), .offset o] => (calendar? name data (some o)).map Entry.value
  | _, _, _ => none

/-- The members that names and values in turn make. -/
def members? : List Entry → Option (List (String × Value))
  | [] => some []
  | .value (.text k) :: .value v :: rest => do return (k, v) :: (← members? rest)
  | _ => none

/-- The entries above the highest fence, the lowest first, and what lies below it. -/
def toFence : List Entry → List Entry × List Entry
  | [] => ([], [])
  | .fence :: rest => ([], rest)
  | e :: rest =>
    let (above, below) := toFence rest
    (above ++ [e], below)

/-- Adds items to the list, or members to the object, on top of the stack. -/
def extended? (new : List Entry) : List Entry → Option (List Entry)
  | .value (.list items) :: rest => do
    return .value (.list (items ++ (← new.mapM (·.value?)))) :: rest
  | .value (.object members) :: rest => do
    return .value (.object (members ++ (← members? new))) :: rest
  | _ => none

/-- What an instruction without data makes of the stack. -/
def plainStep? (code : UInt8) (stack : List Entry) : Option (List Entry) :=
  match code, stack with
  | 0x4E, stack => some (.value .null :: stack)
  | 0x88, stack => some (.value (.bool true) :: stack)
  | 0x89, stack => some (.value (.bool false) :: stack)
  | 0x28, stack => some (.fence :: stack)
  | 0x29, stack => some (.value (.tuple []) :: stack)
  | 0x5D, stack => some (.value (.list []) :: stack)
  | 0x7D, stack => some (.value (.object []) :: stack)
  | 0x61, e :: stack => extended? [e] stack
  | 0x65, stack | 0x75, stack => extended? (toFence stack).1 (toFence stack).2
  | 0x73, e :: name :: stack => extended? [name, e] stack
  | 0x74, stack => some (.grouped (toFence stack).1 :: (toFence stack).2)
  | 0x85, a :: stack => some (.grouped [a] :: stack)
  | 0x86, b :: a :: stack => some (.grouped [a, b] :: stack)
  | 0x87, c :: b :: a :: stack => some (.grouped [a, b, c] :: stack)
  | 0x93, .value (.text name) :: .value (.text place) :: stack => some (.kind place name :: stack)
  | 0x52, e :: .kind place name :: stack => do
    return (← make? place name e.ungrouped) :: stack
  | 0x81, _ :: stack => some stack
  | 0x62, .value (.object [(_, .int n)]) :: .kind _ _ :: stack =>
    if h : n.toNat < Nat.pow 2 128 then some (.value (.uuid ⟨⟨n.toNat, h⟩⟩) :: stack) else none
  | _, _ => none

/-- The value that the data of an instruction spells, and what follows the data. -/
def spelled? (code : UInt8) (data : List UInt8) : Option (Value × List UInt8) :=
  match code with
  | 0x4B => do let (d, rest) ← cut? 1 data; return (.int (numberOf d), rest)
  | 0x4D => do let (d, rest) ← cut? 2 data; return (.int (numberOf d), rest)
  | 0x4A => do let (d, rest) ← cut? 4 data; return (.int (signedOf d), rest)
  | 0x8A => do let (d, rest) ← sized? 1 data; return (.int (signedOf d), rest)
  | 0x8B => do let (d, rest) ← sized? 4 data; return (.int (signedOf d), rest)
  | 0x47 => do
    let (d, rest) ← cut? 8 data
    return (.float (Binary64.ofBits (numberOf d.reverse)), rest)
  | 0x8C => do let (d, rest) ← sized? 1 data; return (← text? d, rest)
  | 0x58 => do let (d, rest) ← sized? 4 data; return (← text? d, rest)
  | 0x43 => do let (d, rest) ← sized? 1 data; return (.bytes d, rest)
  | 0x42 => do let (d, rest) ← sized? 4 data; return (.bytes d, rest)
  | _ => none

/-- Carries out instructions, up to the one that says that the value is there. -/
def run? (memory : List Entry) (stack : List Entry) : Nat → List UInt8 → Option Value
  | 0, _ | _, [] => none
  | steps + 1, code :: data =>
    match code with
    | 0x80 => run? memory stack steps (data.drop 1)
    | 0x95 => run? memory stack steps (data.drop 8)
    | 0x2E => stack.head?.bind Entry.value?
    | 0x94 => run? (memory ++ stack.take 1) stack steps data
    | 0x68 => do
      run? memory ((← memory[numberOf (data.take 1)]?) :: stack) steps (data.drop 1)
    | 0x6A => do
      run? memory ((← memory[numberOf (data.take 4)]?) :: stack) steps (data.drop 4)
    | code =>
      match spelled? code data with
      | some (v, rest) => run? memory (.value v :: stack) steps rest
      | none => do run? memory (← plainStep? code stack) steps data

end RelGraph.Packed

namespace RelGraph.Value

/-- The value that bytes hold. -/
def unpacked? (data : List UInt8) : Option Value := Packed.run? [] [] (data.length + 1) data

end RelGraph.Value
