import RelGraph.Text.Printable
/-!
Quoted texts, as error messages show them: single quotes, unless the text holds a single quote and
no double one; the quote, the backslash and everything that is not printable are escaped.
-/
namespace RelGraph.Text

/-- A hexadecimal digit. -/
def hexDigit (n : Nat) : Char := if n < 10 then Char.ofNat (48 + n) else Char.ofNat (87 + n)

/-- A number in hexadecimal with exactly the given number of digits. -/
def hexText : Nat → Nat → List Char
  | 0, _ => []
  | width + 1, n => hexText width (n / 16) ++ [hexDigit (n % 16)]

/-- The quote character that surrounds a text. -/
def quoteFor (cs : List Char) : Char := if cs.contains '\'' && !cs.contains '"' then '"' else '\''

/-- One character inside quotes. -/
def escapeChar (quote c : Char) : List Char :=
  if c = quote ∨ c = '\\' then ['\\', c]
  else if c = '\n' then ['\\', 'n']
  else if c = '\r' then ['\\', 'r']
  else if c = '\t' then ['\\', 't']
  else if isPrintable c then [c]
  else if c.toNat < 256 then ['\\', 'x'] ++ hexText 2 c.toNat
  else if c.toNat < 65536 then ['\\', 'u'] ++ hexText 4 c.toNat
  else ['\\', 'U'] ++ hexText 8 c.toNat

/-- A text in quotes. -/
def quoted (s : String) : String :=
  let cs := s.toList
  let quote := quoteFor cs
  String.ofList (quote :: cs.flatMap (escapeChar quote) ++ [quote])

/-- One byte inside quotes. -/
def escapeByte (quote : Char) (b : UInt8) : List Char :=
  let c := Char.ofNat b.toNat
  if c = quote ∨ c = '\\' then ['\\', c]
  else if c = '\n' then ['\\', 'n']
  else if c = '\r' then ['\\', 'r']
  else if c = '\t' then ['\\', 't']
  else if 32 ≤ b.toNat ∧ b.toNat < 127 then [c]
  else ['\\', 'x'] ++ hexText 2 b.toNat

/-- Bytes in quotes, marked by a leading `b`. -/
def quotedBytes (bytes : List UInt8) : String :=
  let quote := quoteFor (bytes.map fun b => Char.ofNat b.toNat)
  String.ofList ('b' :: quote :: bytes.flatMap (escapeByte quote) ++ [quote])

/-- Bytes as pairs of hexadecimal digits. -/
def hexBytes (bytes : List UInt8) : String :=
  String.ofList (bytes.flatMap fun b => hexText 2 b.toNat)

/-- What a hexadecimal digit counts. -/
def hexValue? (c : Char) : Option Nat :=
  if '0' ≤ c ∧ c ≤ '9' then some (c.toNat - 48)
  else if 'a' ≤ c ∧ c ≤ 'f' then some (c.toNat - 87)
  else if 'A' ≤ c ∧ c ≤ 'F' then some (c.toNat - 55)
  else none

/-- Whether a character may stand between two pairs of hexadecimal digits. -/
def isHexGap (c : Char) : Bool := c = ' ' || (9 ≤ c.toNat && c.toNat ≤ 13)

/-- Reads pairs of hexadecimal digits with blanks between the pairs, counting positions from a
start; on failure the position of the character that is none. -/
def readHexPairs : Nat → List Char → Except Nat (List UInt8)
  | _, [] => .ok []
  | start, [c] =>
    if isHexGap c then .ok [] else .error (if (hexValue? c).isSome then start + 1 else start)
  | start, c :: d :: rest =>
    if isHexGap c then readHexPairs (start + 1) (d :: rest)
    else match hexValue? c, hexValue? d with
      | some high, some low =>
        (readHexPairs (start + 2) rest).map (UInt8.ofNat (high * 16 + low) :: ·)
      | none, _ => .error start
      | some _, none => .error (start + 1)

/-- Reads pairs of hexadecimal digits. A character outside the plain range is reported before any
other that is no digit. -/
def readHexBytes (s : String) : Except Nat (List UInt8) :=
  let cs := s.toList
  match cs.findIdx? fun c => 128 ≤ c.toNat with
  | some i => .error i
  | none => readHexPairs 0 cs

end RelGraph.Text
