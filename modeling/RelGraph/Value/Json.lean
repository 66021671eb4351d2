import RelGraph.Value
import RelGraph.Numeral
import RelGraph.Text.Quoted
import RelGraph.Binary64.Shortest
/-!
JSON text. Reading keeps the members of an object in document order, a repeated name keeping its
first place and its last value; whole numbers may have any size, and `NaN` and the infinities are
read as numbers. Writing uses plain characters only and puts a space after commas and colons.
-/
namespace RelGraph.Json

/-- The character of four hexadecimal digits. -/
def unit? (a b c d : Char) : Option Nat := do
  let a ← Text.hexValue? a
  let b ← Text.hexValue? b
  let c ← Text.hexValue? c
  let d ← Text.hexValue? d
  return ((a * 16 + b) * 16 + c) * 16 + d

/-- The character that a one-letter escape stands for. -/
def simpleEscape? : Char → Option Char
  | '"' => some '"'
  | '\\' => some '\\'
  | '/' => some '/'
  | 'b' => some '\x08'
  | 'f' => some '\x0c'
  | 'n' => some '\n'
  | 'r' => some '\r'
  | 't' => some '\t'
  | _ => none

/-- The character of two surrogate halves. -/
def joinHalves (high low : Nat) : Char :=
  Char.ofNat (0x10000 + (high - 0xD800) * 0x400 + (low - 0xDC00))

/-- The character of one unit; a lone surrogate half becomes the replacement character. -/
def unitChar (n : Nat) : Char := if 0xD800 ≤ n ∧ n < 0xE000 then Char.ofNat 0xFFFD else Char.ofNat n

/-- Why a text is not read: what is wrong, with the number of characters from there to the end; or
a whole number of too many digits. -/
inductive Fault
  | wrong (reason : String) (left : Nat)
  | tooLong (digits : Nat)
deriving DecidableEq, Repr

/-- Fails with what is wrong before the rest of a text. -/
def wrong {α : Type} (reason : String) (rest : List Char) : Except Fault α :=
  .error (.wrong reason rest.length)

/-- The characters of a text and what stands behind its closing quote. -/
abbrev TextRead := Except Fault (List Char × List Char)

/-- Puts a character in front of a text that is read. -/
def TextRead.push (c : Char) (r : TextRead) : TextRead := r.map fun r => (c :: r.1, r.2)

/-- Reads the rest of a text after its opening quote, behind which `opening` characters stand. Four
digits of an escape have to be followed by something. -/
def readText (opening : Nat) : List Char → TextRead
  | [] => .error (.wrong "Unterminated string starting at" (opening + 1))
  | '"' :: rest => .ok ([], rest)
  | ['\\'] => .error (.wrong "Unterminated string starting at" (opening + 1))
  | '\\' :: 'u' :: a :: b :: c :: d :: '\\' :: 'u' :: e :: f :: g :: h :: next :: rest =>
    match unit? a b c d, unit? e f g h with
    | some high, some low =>
      if 0xD800 ≤ high ∧ high < 0xDC00 ∧ 0xDC00 ≤ low ∧ low < 0xE000 then
        TextRead.push (joinHalves high low) (readText opening (next :: rest))
      else
        TextRead.push (unitChar high)
          (readText opening ('\\' :: 'u' :: e :: f :: g :: h :: next :: rest))
    | some high, none =>
      TextRead.push (unitChar high)
        (readText opening ('\\' :: 'u' :: e :: f :: g :: h :: next :: rest))
    | none, _ => .error (.wrong "Invalid \\uXXXX escape" (rest.length + 12))
  | '\\' :: 'u' :: a :: b :: c :: d :: next :: rest =>
    match unit? a b c d with
    | some n => TextRead.push (unitChar n) (readText opening (next :: rest))
    | none => .error (.wrong "Invalid \\uXXXX escape" (rest.length + 6))
  | '\\' :: c :: rest =>
    if c = 'u' then .error (.wrong "Invalid \\uXXXX escape" (rest.length + 1))
    else match simpleEscape? c with
      | some e => TextRead.push e (readText opening rest)
      | none => .error (.wrong "Invalid \\escape" (rest.length + 2))
  | c :: rest =>
    if c.toNat < 32 then .error (.wrong "Invalid control character at" (rest.length + 1))
    else TextRead.push c (readText opening rest)
termination_by cs => cs.length

/-- Skips the characters that may stand between tokens. -/
def skipBlanks (cs : List Char) : List Char :=
  cs.dropWhile fun c => c = ' ' ∨ c = '\t' ∨ c = '\n' ∨ c = '\r'

/-- Reads a number: a float when it has a point or an exponent. -/
def readNumber (cs : List Char) : Except Fault (Value × List Char) :=
  let (negative, body) := match cs with
    | '-' :: rest => (true, rest)
    | _ => (false, cs)
  let run := body.takeWhile Char.isDigit
  let whole := match run with
    | '0' :: _ => ['0']
    | ds => ds
  let rest := body.drop whole.length
  if whole.isEmpty then wrong "Expecting value" cs
  else
    let (fraction, rest) := match rest with
      | '.' :: more =>
        let ds := more.takeWhile Char.isDigit
        if ds.isEmpty then ([], rest) else (ds, more.drop ds.length)
      | _ => ([], rest)
    let (power, rest) := match rest with
      | c :: more =>
        if c = 'e' ∨ c = 'E' then
          let (minus, digits) := Numeral.signed more
          let ds := digits.takeWhile Char.isDigit
          if ds.isEmpty then (none, rest)
          else
            let n : Int := Numeral.ofDigitChars ds
            (some (if minus then -n else n), digits.drop ds.length)
        else (none, rest)
      | [] => (none, rest)
    let digits := Numeral.ofDigitChars (whole ++ fraction)
    if fraction.isEmpty && power.isNone then
      if whole.length > Numeral.digitLimit then .error (.tooLong whole.length)
      else .ok (.int (if negative then -(digits : Int) else digits), rest)
    else
      .ok (.float (Binary64.ofDecimal negative digits (power.getD 0 - fraction.length)), rest)

/-- The words that stand for values. -/
def words : List (String × Value) :=
  [("null", .null), ("true", .bool true), ("false", .bool false), ("NaN", .float .nan),
    ("Infinity", .float (.infinite false)), ("-Infinity", .float (.infinite true))]

/-- Reads one of the words. -/
def readWord (cs : List Char) : Option (Value × List Char) :=
  words.findSome? fun (word, value) =>
    if word.toList.isPrefixOf cs then some (value, cs.drop word.length) else none

mutual

/-- Reads a value whose first character is not blank. The fuel bounds the nesting and the number of
items together. -/
def readValue : Nat → List Char → Except Fault (Value × List Char)
  | 0, cs => wrong "Expecting value" cs
  | fuel + 1, cs =>
    match cs with
    | '"' :: rest => (readText rest.length rest).map fun r => (.text (String.ofList r.1), r.2)
    | '[' :: rest =>
      match skipBlanks rest with
      | ']' :: rest => .ok (.list [], rest)
      | rest => (readItems fuel rest).map fun r => (.list r.1, r.2)
    | '\x7b' :: rest =>
      match skipBlanks rest with
      | '\x7d' :: rest => .ok (.object [], rest)
      | rest => (readMembers fuel rest).map fun r => (.object (Members.ofPairs r.1), r.2)
    | _ =>
      match readWord cs with
      | some r => .ok r
      | none => readNumber cs

/-- Reads items up to the closing bracket. -/
def readItems : Nat → List Char → Except Fault (List Value × List Char)
  | 0, cs => wrong "Expecting value" cs
  | fuel + 1, cs => do
    let (value, rest) ← readValue fuel cs
    match skipBlanks rest with
    | ',' :: rest => (readItems fuel (skipBlanks rest)).map fun r => (value :: r.1, r.2)
    | ']' :: rest => .ok ([value], rest)
    | rest => wrong "Expecting ',' delimiter" rest

/-- Reads members up to the closing brace. -/
def readMembers : Nat → List Char → Except Fault (List (String × Value) × List Char)
  | 0, cs => wrong "Expecting value" cs
  | fuel + 1, cs => do
    let (key, rest) ← match cs with
      | '"' :: rest => readText rest.length rest
      | _ => wrong "Expecting property name enclosed in double quotes" cs
    let rest ← match skipBlanks rest with
      | ':' :: rest => pure (skipBlanks rest)
      | rest => wrong "Expecting ':' delimiter" rest
    let (value, rest) ← readValue fuel rest
    match skipBlanks rest with
    | ',' :: rest =>
      (readMembers fuel (skipBlanks rest)).map fun r => ((String.ofList key, value) :: r.1, r.2)
    | '\x7d' :: rest => .ok ([(String.ofList key, value)], rest)
    | rest => wrong "Expecting ',' delimiter" rest

end

/-- Reads a whole text as one value. -/
def read (s : String) : Except Fault Value := do
  let cs := s.toList
  if cs.head? = some '\uFEFF' then
    wrong "Unexpected UTF-8 BOM (decode using utf-8-sig)" cs
  let (value, rest) ← readValue (2 * cs.length + 2) (skipBlanks cs)
  match skipBlanks rest with
  | [] => return value
  | rest => wrong "Extra data" rest

/-- What is wrong with a text, with the line, the column and the position where it is. -/
def Fault.message (s : String) : Fault → String
  | .wrong reason left =>
    let cs := s.toList
    let position := cs.length - left
    let before := cs.take position
    let line := before.count '\n' + 1
    let column := (before.reverse.takeWhile (· ≠ '\n')).length + 1
    s!"{reason}: line {line} column {column} (char {position})"
  | .tooLong digits =>
    s!"Exceeds the limit (4300 digits) for integer string conversion: value has {digits} " ++
      "digits; use sys.set_int_max_str_digits() to increase the limit"

/-- One character of a written text. -/
def escapeChar (c : Char) : List Char :=
  if c = '"' then ['\\', '"']
  else if c = '\\' then ['\\', '\\']
  else if c = '\n' then ['\\', 'n']
  else if c = '\r' then ['\\', 'r']
  else if c = '\t' then ['\\', 't']
  else if c = '\x08' then ['\\', 'b']
  else if c = '\x0c' then ['\\', 'f']
  else if 32 ≤ c.toNat ∧ c.toNat < 127 then [c]
  else if c.toNat < 65536 then ['\\', 'u'] ++ Text.hexText 4 c.toNat
  else
    let n := c.toNat - 65536
    ['\\', 'u'] ++ Text.hexText 4 (0xD800 + n / 0x400) ++
      ['\\', 'u'] ++ Text.hexText 4 (0xDC00 + n % 0x400)

/-- A text in quotes. -/
def writeText (s : String) : String :=
  String.ofList ('"' :: s.toList.flatMap escapeChar ++ ['"'])

/-- A number that is no whole number, as JSON writes it. -/
def writeFloat : Binary64 → String
  | .nan => "NaN"
  | .infinite negative => if negative then "-Infinity" else "Infinity"
  | x => x.text

/-- A value without inner values; the kind of a value that JSON cannot hold is the error. -/
def writeScalar : Value → Except Value String
  | .null => .ok "null"
  | .bool b => .ok (if b then "true" else "false")
  | .int n => .ok (toString n)
  | .float x => .ok (writeFloat x)
  | .text s => .ok (writeText s)
  | v => .error v

mutual

/-- Writes a value; fails with the first inner value that JSON cannot hold. -/
def write : Value → Except Value String
  | .list items => do return "[" ++ String.intercalate ", " (← writeItems items) ++ "]"
  | .tuple items => do return "[" ++ String.intercalate ", " (← writeItems items) ++ "]"
  | .object members => do
    return "\x7b" ++ String.intercalate ", " (← writeMembers members) ++ "\x7d"
  | v => writeScalar v

/-- Writes items. -/
def writeItems : List Value → Except Value (List String)
  | [] => .ok []
  | v :: rest => do
    let first ← write v
    return first :: (← writeItems rest)

/-- Writes members. -/
def writeMembers : List (String × Value) → Except Value (List String)
  | [] => .ok []
  | (k, v) :: rest => do
    let first ← write v
    return (writeText k ++ ": " ++ first) :: (← writeMembers rest)

end

end RelGraph.Json
