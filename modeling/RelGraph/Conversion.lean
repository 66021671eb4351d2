import RelGraph.Schema.Registry
import RelGraph.Value.Display
/-!
Conversion between the values of requests and those of columns. `readValue` turns what a caller
gives into what a column binds; `showValue` turns what a store returns, directly or inside JSON,
into what a caller sees.
-/
namespace RelGraph.Conversion

/-- A conversion that can fail below the library. -/
abbrev Converted (α : Type) := Except Mishap α

/-- The byte that a value is. -/
def byteOf (v : Value) : Converted UInt8 :=
  let ofInt := fun (n : Int) =>
    if 0 ≤ n ∧ n < 256 then Except.ok (UInt8.ofNat n.toNat)
    else .error (Mishap.badValue "bytes must be in range(0, 256)")
  match v with
  | .int n => ofInt n
  | .bool b => ofInt (if b then 1 else 0)
  | v => .error (.badKind s!"'{v.fullKindName}' object cannot be interpreted as an integer")

/-- The number of zero bytes from which on no memory is had for them. -/
def memoryBound : Int := Int.pow 2 36

/-- So many zero bytes. -/
def zeroBytes (n : Int) : Converted (List UInt8) :=
  if n < -Int.pow 2 63 ∨ n ≥ Int.pow 2 63 then
    .error (.tooLarge "cannot fit 'int' into an index-sized integer")
  else if n < 0 then .error (.badValue "negative count")
  else if n ≥ Int.pow 2 63 - 33 then .error (.tooLarge "byte string is too large")
  else if n ≥ memoryBound then .error .memoryExhausted
  else .ok (List.replicate n.toNat 0)

/-- The bytes that a value stands for: a list of bytes, or a number of zeros. -/
def bytesOf (v : Value) : Converted (List UInt8) :=
  match v with
  | .bytes data => .ok data
  | .text _ => .error (.badKind "string argument without an encoding")
  | .int n => zeroBytes n
  | .bool b => zeroBytes (if b then 1 else 0)
  | .list items | .tuple items => items.mapM byteOf
  | .object [] => .ok []
  | .object _ => .error (.badKind "'str' object cannot be interpreted as an integer")
  | v => .error (.badKind s!"cannot convert '{v.fullKindName}' object to bytes")

/-- The characters of plain bytes. A byte beyond them stands as the replacement character, which
is no digit and no blank. -/
def byteText (data : List UInt8) : String :=
  String.ofList (data.map fun b => if b < 128 then Char.ofNat b.toNat else '\uFFFD')

/-- The whole number that a text spells. -/
def intOfText (s : String) : Converted Int :=
  match Numeral.readInt 10 s with
  | .ok n => .ok n
  | .error e => .error (.badValue (e.message 10 s))

/-- The whole number that a value is, comes to, or spells. -/
def intOf (v : Value) : Converted Int :=
  match v with
  | .int n => .ok n
  | .bool b => .ok (if b then 1 else 0)
  | .float .nan => .error (.badValue "cannot convert float NaN to integer")
  | .float (.infinite _) => .error (.tooLarge "cannot convert float infinity to integer")
  | .float x => .ok (x.truncate?.getD 0)
  | .decimal (.notANumber ..) => .error (.badValue "cannot convert NaN to integer")
  | .decimal (.infinite _) => .error (.tooLarge "cannot convert Infinity to integer")
  | .decimal d => .ok (d.truncate?.getD 0)
  | .text s => intOfText s
  | .bytes data =>
    match Numeral.readInt 10 (byteText data) with
    | .ok n => .ok n
    | .error .malformed => .error (.badValue ("invalid literal for int() with base 10: " ++
        String.ofList ((Text.quotedBytes (data.take 200)).toList.take 200)))
    | .error e => .error (.badValue (e.message 10 ""))
  | .uuid u => .ok u.number.val
  | v => .error (.badKind ("int() argument must be a string, a bytes-like object or a real " ++
      s!"number, not '{v.fullKindName}'"))

/-- The double that a text spells. -/
def floatOfText (s : String) : Converted Binary64 :=
  match Numeral.float? s with
  | some x => .ok x
  | none => .error (.badValue ("could not convert string to float: " ++ Text.quoted s))

/-- The double nearest to a whole number, which must not be beyond the largest. -/
def floatOfInt (n : Int) : Converted Binary64 :=
  let x := Binary64.ofInt n
  if x.isFinite then .ok x else .error (.tooLarge "int too large to convert to float")

/-- The double that a value is, comes to, or spells. -/
def floatOf (v : Value) : Converted Binary64 :=
  match v with
  | .float x => .ok x
  | .int n => floatOfInt n
  | .bool b => floatOfInt (if b then 1 else 0)
  | .decimal d =>
    if d.isSignaling then .error (.badValue "cannot convert signaling NaN to float")
    else .ok d.toBinary64
  | .text s => floatOfText s
  | .bytes data =>
    match Numeral.float? (byteText data) with
    | some x => .ok x
    | none => .error (.badValue ("could not convert string to float: " ++ Text.quotedBytes data))
  | v => .error (.badKind
      s!"float() argument must be a string or a real number, not '{v.fullKindName}'")

/-- Spells a final `Z` of a moment, and with it every other, as a distance of zero. -/
def spellZulu (s : String) : String :=
  let cs := s.toList
  if cs.getLast? = some 'Z' then
    String.ofList (cs.flatMap fun c => if c = 'Z' then "+00:00".toList else [c])
  else s

/-- Reads a moment, `Z` standing for a distance of zero. -/
def momentOfText (s : String) : Converted DateTime :=
  match Calendar.readMoment (spellZulu s) with
  | .ok m => .ok m
  | .error e => .error (.badValue (e.message (spellZulu s)))

/-- Reads a moment for a column: without a zoned type the distance is dropped. -/
def columnMoment (c : Column) (s : String) : Converted DateTime := do
  let m ← momentOfText s
  return if c.declaration.type.isZoned then m else m.naive

/-- Reads a date. -/
def dateOfText (s : String) : Converted Date :=
  match Calendar.readDate s with
  | .ok d => .ok d
  | .error e => .error (.badValue (e.message s))

/-- Reads the date in the first ten characters. -/
def leadingDate (s : String) : Converted Date := dateOfText (String.ofList (s.toList.take 10))

/-- Reads a time of day. -/
def timeOfText (s : String) : Converted Time :=
  match Calendar.readTime s with
  | .ok t => .ok t
  | .error e => .error (.badValue (e.message s))

/-- Reads an identifier. -/
def uuidOfText (s : String) : Converted Uuid :=
  match Uuid.read s with
  | .ok u => .ok u
  | .error e => .error (.badValue e.message)

/-- The value that a text stands for in a column. -/
def readText (c : Column) (s : String) : Converted Value :=
  match c.kind with
  | .moment => Value.moment <$> columnMoment c s
  | .date => Value.date <$> leadingDate s
  | .time => Value.time <$> timeOfText s
  | .bigInteger | .whole => Value.int <$> intOfText s
  | .fraction => Value.float <$> floatOfText s
  | .identifier => Value.uuid <$> uuidOfText s
  | _ => .ok (.text s)

/-- Whether a list given for a buffer column is a list of values: its first item is a list. -/
def startsWithList : List Value → Bool
  | first :: _ => first.items?.isSome
  | [] => false

mutual

/-- The value that a column binds for what a caller gives. Lists are read item by item, except
where a list is itself a value of the column. -/
def readValue (c : Column) : Value → Converted Value
  | .null => .ok .null
  | .list items => readList c (.list items) items
  | .tuple items => readList c (.tuple items) items
  | .text s => if c.kind = .buffer then Value.bytes <$> bytesOf (.text s) else readText c s
  | v => if c.kind = .buffer then Value.bytes <$> bytesOf v else .ok v

/-- Reads a list, given whole and as its items. -/
def readList (c : Column) (whole : Value) (items : List Value) : Converted Value :=
  if c.kind = .buffer then
    if startsWithList items then Value.list <$> readItems c items
    else Value.bytes <$> bytesOf whole
  else if c.kind.takesLists then .ok whole
  else Value.list <$> readItems c items

/-- Reads values one by one. -/
def readItems (c : Column) : List Value → Converted (List Value)
  | [] => .ok []
  | v :: rest => do
    let v ← readValue c v
    let rest ← readItems c rest
    return v :: rest

end

/-- The numbers of bytes. -/
def byteNumbers (data : List UInt8) : Value := .list (data.map fun b => .int b.toNat)

/-- Reads hexadecimal bytes, with or without the mark `\x` in front. -/
def bytesOfHex (s : String) : Converted (List UInt8) :=
  let digits := match s.toList with
    | '\\' :: 'x' :: rest => String.ofList rest
    | _ => s
  match Text.readHexBytes digits with
  | .ok data => .ok data
  | .error position => .error (.badValue
      s!"non-hexadecimal number found in fromhex() arg at position {position}")

/-- What a caller sees of a stored value. -/
def showValue (c : Column) (v : Value) : Converted Value :=
  if v.isNull then .ok .null
  else match c.kind, v with
    | .boolean, v => .ok (.bool v.truthy)
    | .moment, .text s => Value.moment <$> columnMoment c s
    | .date, .moment m => .ok (.date m.date)
    | .date, .text s => Value.date <$> leadingDate s
    | .time, .text s => Value.time <$> timeOfText s
    | .bigInteger, v => Value.int <$> intOf v
    | .fraction, v => Value.float <$> floatOf v
    | .whole, .decimal d => Value.int <$> intOf (.decimal d)
    | .whole, .float x => Value.int <$> intOf (.float x)
    | .whole, .text s => Value.int <$> intOf (.text s)
    | .buffer, .text s => byteNumbers <$> bytesOfHex s
    | .buffer, v => byteNumbers <$> bytesOf v
    | .text, .uuid u | .choice _, .uuid u | .identifier, .uuid u => .ok (.text u.text)
    | _, v => .ok v

end RelGraph.Conversion
