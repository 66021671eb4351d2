import RelGraph.Binary64.Arithmetic
import RelGraph.Calendar.Iso
import RelGraph.Value
/-!
Values packed into bytes. The bytes are instructions for a machine that has a stack and a memory:
each puts something on the stack, builds something of what lies on top, keeps the top in memory, or
fetches what was kept. What came up before is fetched rather than built again: names, short texts,
and the zone of universal time.
-/
namespace RelGraph.Packed

/-- By what an entry of the memory is known: a name that the instructions themselves need, a kind of
value, the name of a member, a text or bytes of at most one character, or the zone of universal
time. All else is kept, but never looked for. -/
inductive Mark
  | name (s : String)
  | kind (place name : String)
  | member (s : String)
  | brief (s : String)
  | briefBytes (data : List UInt8)
  | universal
  | other
deriving DecidableEq, Repr

/-- Packing, with the marks of what is in memory. -/
abbrev Packing := StateM (List Mark)

/-- The lowest bytes of a number, the lowest first. -/
def lowBytes (count n : Nat) : List UInt8 :=
  (List.range count).map fun i => UInt8.ofNat (n / Nat.pow 256 i % 256)

/-- Keeps what instructions build in memory. -/
def kept (m : Mark) (code : List UInt8) : Packing (List UInt8) := do
  modify (· ++ [m])
  return code ++ [0x94]

/-- Fetches what is in memory under a mark, and builds it otherwise. -/
def fetched (m : Mark) (build : Packing (List UInt8)) : Packing (List UInt8) := do
  match (← get).findIdx? fun known => m != .other && m == known with
  | some i => return if i < 256 then 0x68 :: lowBytes 1 i else 0x6A :: lowBytes 4 i
  | none => build

/-- How many bytes a number needs beside its sign. -/
def widthOf (n : Int) : Nat :=
  let size := if n < 0 then (-n - 1).toNat else n.toNat
  (if size = 0 then 0 else Nat.log2 size + 1) / 8 + 1

/-- A whole number. -/
def ofInt (n : Int) : List UInt8 :=
  if 0 ≤ n ∧ n < 256 then 0x4B :: lowBytes 1 n.toNat
  else if 0 ≤ n ∧ n < 65536 then 0x4D :: lowBytes 2 n.toNat
  else if -Int.pow 2 31 ≤ n ∧ n < Int.pow 2 31 then 0x4A :: lowBytes 4 (n % Int.pow 2 32).toNat
  else
    let width := widthOf n
    let size := if width < 256 then 0x8A :: lowBytes 1 width else 0x8B :: lowBytes 4 width
    size ++ lowBytes width (n % Int.pow 256 width).toNat

/-- Data behind its length. -/
def sized (short long : UInt8) (data : List UInt8) : List UInt8 :=
  let n := data.length
  (if n < 256 then short :: lowBytes 1 n else long :: lowBytes 4 n) ++ data

/-- A text under a mark. -/
def ofMarked (m : Mark) (s : String) : Packing (List UInt8) :=
  fetched m (kept m (sized 0x8C 0x58 s.toUTF8.toList))

/-- Whether a text has at most one character, and an early one. -/
def isBrief (s : String) : Bool :=
  match s.toList with
  | [] => true
  | [c] => c.toNat < 256
  | _ => false

/-- The mark of a text. -/
def textMark (s : String) : Mark := if isBrief s then .brief s else .other

/-- The mark of the name of a member. -/
def memberMark (s : String) : Mark := if isBrief s then .brief s else .member s

/-- Bytes. -/
def ofBytes (data : List UInt8) : Packing (List UInt8) :=
  let mark := if data.length ≤ 1 then .briefBytes data else .other
  fetched mark (kept mark (sized 0x43 0x42 data))

/-- A kind of value, by its place and name. -/
def ofKind (place name : String) : Packing (List UInt8) :=
  fetched (.kind place name) do
    let a ← ofMarked (.name place) place
    let b ← ofMarked .other name
    kept (.kind place name) (a ++ b ++ [0x93])

/-- A few parts as one. -/
def grouped (parts : List (List UInt8)) : Packing (List UInt8) :=
  let code := parts.flatten
  match parts with
  | [] => return [0x29]
  | [_] => kept .other (code ++ [0x85])
  | [_, _] => kept .other (code ++ [0x86])
  | [_, _, _] => kept .other (code ++ [0x87])
  | _ => kept .other (0x28 :: code ++ [0x74])

/-- A value of a kind that is made of parts. -/
def made (mark : Mark) (place name : String) (parts : Packing (List (List UInt8))) :
    Packing (List UInt8) := do
  let kind ← ofKind place name
  let parts ← grouped (← parts)
  kept mark (kind ++ parts ++ [0x52])

/-- A span of time in microseconds: whole days, the seconds beyond them, and the rest. -/
def ofSpan (micros : Int) : Packing (List UInt8) :=
  made .other "datetime" "timedelta" do
    return [ofInt (micros / Calendar.microsPerDay),
      ofInt (micros % Calendar.microsPerDay / 1000000), ofInt (micros % 1000000)]

/-- A distance from universal time. -/
def ofOffset (o : Offset) : Packing (List UInt8) :=
  let mark : Mark := if o = 0 then .universal else .other
  fetched mark (made mark "datetime" "timezone" do return [← ofSpan o])

/-- The bytes of a date. -/
def dateBytes (d : Date) : List UInt8 :=
  (lowBytes 2 d.year).reverse ++ [UInt8.ofNat d.month, UInt8.ofNat d.day]

/-- The bytes of a time of day. -/
def clockBytes (t : TimeOfDay) : List UInt8 :=
  [UInt8.ofNat t.hour, UInt8.ofNat t.minute, UInt8.ofNat t.second] ++ (lowBytes 3 t.micro).reverse

/-- Something of the calendar, with its distance from universal time where it is known. -/
def ofCalendar (name : String) (data : List UInt8) (o : Option Offset) : Packing (List UInt8) :=
  made .other "datetime" name do
    let data ← ofBytes data
    match o with
    | none => return [data]
    | some o => return [data, ← ofOffset o]

/-- An identifier: an empty value of its kind that is given its number. -/
def ofUuid (u : Uuid) : Packing (List UInt8) := do
  let kind ← ofKind "uuid" "UUID"
  let empty ← kept .other (kind ++ [0x29, 0x81])
  let members ← kept .other [0x7D]
  let name ← ofMarked (.name "int") "int"
  return empty ++ members ++ name ++ ofInt u.number.val ++ [0x73, 0x62]

/-- How many parts are added at a time. -/
def batch : Nat := 1000

/-- Parts behind a fence, added in batches of which some are left in the first. -/
def inBatches (add : UInt8) : Nat → List (List UInt8) → List UInt8
  | _, [] => [add]
  | 0, part :: rest => add :: 0x28 :: part ++ inBatches add (batch - 1) rest
  | left + 1, part :: rest => part ++ inBatches add left rest

/-- Parts added to what is empty. -/
def added (one many : UInt8) (parts : List (List UInt8)) : List UInt8 :=
  match parts with
  | [] => []
  | [part] => part ++ [one]
  | parts => 0x28 :: inBatches many batch parts

mutual

/-- A value. -/
def ofValue : Value → Packing (List UInt8)
  | .null => return [0x4E]
  | .bool b => return [if b then 0x88 else 0x89]
  | .int n => return ofInt n
  | .float x => return 0x47 :: (lowBytes 8 x.toBits).reverse
  | .decimal d => made .other "decimal" "Decimal" do return [← ofMarked .other d.text]
  | .text s => ofMarked (textMark s) s
  | .bytes data => ofBytes data
  | .date d => ofCalendar "date" (dateBytes d) none
  | .moment m => ofCalendar "datetime" (dateBytes m.date ++ clockBytes m.clock) m.offset
  | .time t => ofCalendar "time" (clockBytes t.clock) t.offset
  | .uuid u => ofUuid u
  | .list items => do
    let empty ← kept .other [0x5D]
    return empty ++ added 0x61 0x65 (← ofItems items)
  | .tuple items => do grouped (← ofItems items)
  | .object members => do
    let empty ← kept .other [0x7D]
    return empty ++ added 0x73 0x75 (← ofMembers members)

/-- Items. -/
def ofItems : List Value → Packing (List (List UInt8))
  | [] => return []
  | v :: rest => do
    let code ← ofValue v
    return code :: (← ofItems rest)

/-- Members, each with its name. -/
def ofMembers : List (String × Value) → Packing (List (List UInt8))
  | [] => return []
  | (k, v) :: rest => do
    let name ← ofMarked (memberMark k) k
    let code ← ofValue v
    return (name ++ code) :: (← ofMembers rest)

end

/-- Instructions behind their length, unless they are few. -/
def framed (code : List UInt8) : List UInt8 :=
  if code.length < 4 then code else 0x95 :: lowBytes 8 code.length ++ code

end RelGraph.Packed

namespace RelGraph.Value

open Packed in
/-- A value as bytes. -/
def packed (v : Value) : List UInt8 := [0x80, 0x05] ++ framed (((ofValue v).run []).1 ++ [0x2E])

end RelGraph.Value
