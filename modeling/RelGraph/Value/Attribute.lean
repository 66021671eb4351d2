import RelGraph.Fault
import RelGraph.Value.Display
/-!
The named parts of values: the members of an object, the year of a date, the digits of an
identifier. A value has no other parts, so what it is asked for beyond them is null. Parts that are
no values of their own, such as the least distance between two moments, are given by their texts.
-/
namespace RelGraph

namespace Value

/-- The parts of a whole number. -/
def wholeAttribute (n : Int) (name : String) : Value :=
  match name with
  | "real" | "numerator" => .int n
  | "imag" => .int 0
  | "denominator" => .int 1
  | _ => .null

/-- The parts of a date. -/
def dateAttribute (d : Date) (name : String) : Value :=
  match name with
  | "year" => .int d.year
  | "month" => .int d.month
  | "day" => .int d.day
  | "min" => .date default
  | "max" => .date { year := 9999, month := 12, day := 31 }
  | "resolution" => .text "1 day, 0:00:00"
  | _ => .null

/-- The last time of a day. -/
def lastOfDay : TimeOfDay := { hour := 23, minute := 59, second := 59, micro := 999999 }

/-- The name of a distance from universal time. -/
def offsetName (o : Offset) : Value :=
  .text (if o = 0 then "UTC" else "UTC" ++ Calendar.offsetText o)

/-- The parts of a time of day with its distance from universal time. -/
def clockAttribute (t : TimeOfDay) (o : Option Offset) (name : String) : Value :=
  match name with
  | "hour" => .int t.hour
  | "minute" => .int t.minute
  | "second" => .int t.second
  | "microsecond" => .int t.micro
  | "fold" => .int 0
  | "resolution" => .text "0:00:00.000001"
  | "tzinfo" => (o.map offsetName).getD .null
  | _ => .null

/-- The parts of a time. -/
def timeAttribute (t : Time) (name : String) : Value :=
  match name with
  | "min" => .time { clock := default, offset := none }
  | "max" => .time { clock := lastOfDay, offset := none }
  | name => clockAttribute t.clock t.offset name

/-- The parts of a moment. -/
def momentAttribute (m : DateTime) (name : String) : Value :=
  match clockAttribute m.clock m.offset name with
  | .null => match dateAttribute m.date name with
    | .date d =>
      let clock := if name = "max" then lastOfDay else default
      .moment { date := d, clock := clock, offset := none }
    | v => v
  | v => v

/-- A run of bits of an identifier, counted from its lowest bit. -/
def bitsOf (u : Uuid) (lowest count : Nat) : Nat :=
  u.number.val / Nat.pow 2 lowest % Nat.pow 2 count

/-- The bytes of an identifier. -/
def bytesOf (u : Uuid) : List UInt8 :=
  (List.range 16).map fun i => UInt8.ofNat (bitsOf u (8 * (15 - i)) 8)

/-- The layout that the upper bits of an identifier's ninth byte announce. -/
def layout (u : Uuid) : String :=
  let lead := bitsOf u 56 8
  if lead < 0x80 then "reserved for NCS compatibility"
  else if lead < 0xC0 then "specified in RFC 4122"
  else if lead < 0xE0 then "reserved for Microsoft compatibility"
  else "reserved for future definition"

/-- The time that an identifier states, in steps of 100 nanoseconds. -/
def stamp (u : Uuid) : Nat := 
  bitsOf u 64 12 * Nat.pow 2 48 + bitsOf u 80 16 * Nat.pow 2 32 + bitsOf u 96 32

/-- The parts of an identifier. -/
def uuidAttribute (u : Uuid) (name : String) : Value :=
  let bytes := bytesOf u
  let part := fun (lowest count : Nat) => Value.int (bitsOf u lowest count)
  match name with
  | "hex" => .text u.hex
  | "int" => .int u.number.val
  | "bytes" => .bytes bytes
  | "bytes_le" => .bytes ((bytes.take 4).reverse ++ ((bytes.drop 4).take 2).reverse ++
      ((bytes.drop 6).take 2).reverse ++ bytes.drop 8)
  | "urn" => .text ("urn:uuid:" ++ u.text)
  | "fields" => .tuple [part 96 32, part 80 16, part 64 16, part 56 8, part 48 8, part 0 48]
  | "time_low" => part 96 32
  | "time_mid" => part 80 16
  | "time_hi_version" => part 64 16
  | "clock_seq_hi_variant" => part 56 8
  | "clock_seq_low" => part 48 8
  | "clock_seq" => part 48 14
  | "node" => part 0 48
  | "time" => .int (stamp u)
  | "variant" => .text (layout u)
  | "is_safe" => .text "SafeUUID.unknown"
  | "version" => if 0x80 ≤ bitsOf u 56 8 && bitsOf u 56 8 < 0xC0 then part 76 4 else .null
  | _ => .null

/-- The part of a value by name. -/
def part (v : Value) (name : String) : Value :=
  match v with
  | object _ => v.field name
  | bool b => wholeAttribute (if b then 1 else 0) name
  | int n => wholeAttribute n name
  | float x =>
    match name with
    | "real" => .float x
    | "imag" => .float (Binary64.zero false)
    | _ => .null
  | decimal d =>
    match name with
    | "real" => .decimal d
    | "imag" => .decimal (.finite false 0 0)
    | _ => .null
  | date d => dateAttribute d name
  | time t => timeAttribute t name
  | moment m => momentAttribute m name
  | uuid u => uuidAttribute u name
  | _ => .null

end Value
end RelGraph
