import RelGraph.Binary64
import RelGraph.Text.Blank
import RelGraph.Text.Digit
/-!
Reading numerals. A numeral may be surrounded by blanks and carry a sign; its digits may come from
any script, and single underscores may stand between two digits.
-/
namespace RelGraph.Numeral

/-- Why a whole number is not read. -/
inductive Fault
  | malformed
  | tooLong (digits : Nat)
deriving DecidableEq, Repr

/-- The greatest number of digits of a decimal whole number. -/
def digitLimit : Nat := 4300

/-- Turns the digits of every script to plain digits and other blanks to spaces; other
characters beyond the plain ones become `?`, which no numeral contains. -/
def plain (cs : List Char) : List Char :=
  cs.map fun c =>
    if c.toNat < 128 then c
    else match Text.digitValue? c with
      | some d => Char.ofNat (48 + d)
      | none => if Text.isBlank c then ' ' else '?'

/-- Whether a character may pad a numeral at its ends. -/
def isPad (c : Char) : Bool := c = ' ' || (9 ≤ c.toNat && c.toNat ≤ 13)

/-- A numeral without its padding. -/
def unpadded (s : String) : List Char :=
  Text.trimRight isPad (Text.trimLeft isPad (plain s.toList))

/-- What a digit counts in a base of at most thirty-six. -/
def baseDigit? (base : Nat) (c : Char) : Option Nat :=
  let value :=
    if '0' ≤ c ∧ c ≤ '9' then some (c.toNat - 48)
    else if 'a' ≤ c ∧ c ≤ 'z' then some (c.toNat - 87)
    else if 'A' ≤ c ∧ c ≤ 'Z' then some (c.toNat - 55)
    else none
  value.filter (· < base)

/-- Reads digits with single underscores between them; `afterDigit` tells whether the character
before is a digit. Returns the digits' values. -/
def separatedDigits? (base : Nat) : Bool → List Char → Option (List Nat)
  | afterDigit, [] => if afterDigit then some [] else none
  | afterDigit, c :: rest =>
    if c = '_' then if afterDigit then separatedDigits? base false rest else none
    else match baseDigit? base c with
      | some d => (separatedDigits? base true rest).map (d :: ·)
      | none => none

/-- The number that digit values spell in a base. -/
def fromDigits (base : Nat) (ds : List Nat) : Nat := ds.foldl (fun n d => n * base + d) 0

/-- The number that plain decimal digits spell. -/
def ofDigitChars (cs : List Char) : Nat := fromDigits 10 (cs.map fun c => c.toNat - 48)

/-- Splits off a sign. -/
def signed : List Char → Bool × List Char
  | '-' :: rest => (true, rest)
  | '+' :: rest => (false, rest)
  | cs => (false, cs)

/-- Drops the mark `0x` of a hexadecimal numeral, with the one underscore that may follow it. -/
def dropHexMark : List Char → List Char
  | '0' :: x :: rest =>
    if x = 'x' ∨ x = 'X' then
      match rest with
      | '_' :: rest' => rest'
      | _ => rest
    else '0' :: x :: rest
  | cs => cs

/-- Reads a whole number in a base. The digits are counted before what follows them is looked at. -/
def readInt (base : Nat) (s : String) : Except Fault Int :=
  let (negative, body) := signed (unpadded s)
  let body := if base = 16 then dropHexMark body else body
  let inRun := fun c => c = '_' || (baseDigit? base c).isSome
  match separatedDigits? base false (body.takeWhile inRun) with
  | none => .error .malformed
  | some ds =>
    if base = 10 ∧ ds.length > digitLimit then .error (.tooLong ds.length)
    else if !(body.dropWhile inRun).isEmpty then .error .malformed
    else
      let n : Int := fromDigits base ds
      .ok (if negative then -n else n)

/-- Whether every underscore stands between two digits. -/
def underscoresPlaced : Char → List Char → Bool
  | previous, [] => previous ≠ '_'
  | previous, c :: rest =>
    (if c = '_' then previous.isDigit else if previous = '_' then c.isDigit else true) &&
      underscoresPlaced c rest

/-- Reads an exponent mark with its digits, if one stands here; then nothing may follow. -/
def exponent? : List Char → Option Int
  | [] => some 0
  | c :: rest =>
    if c = 'e' ∨ c = 'E' then
      let (negative, digits) := signed rest
      if digits.isEmpty ∨ !digits.all Char.isDigit then none
      else
        let n : Int := ofDigitChars digits
        some (if negative then -n else n)
    else none

/-- Reads an unsigned decimal with optional point and exponent. -/
def decimalFloat? (negative : Bool) (cs : List Char) : Option Binary64 :=
  let whole := cs.takeWhile Char.isDigit
  let afterWhole := cs.dropWhile Char.isDigit
  let (fraction, tail) := match afterWhole with
    | '.' :: rest => (rest.takeWhile Char.isDigit, rest.dropWhile Char.isDigit)
    | _ => ([], afterWhole)
  if whole.isEmpty && fraction.isEmpty then none
  else (exponent? tail).map fun power =>
    Binary64.ofDecimal negative (ofDigitChars (whole ++ fraction))
      (power - fraction.length)

/-- Reads a double: a decimal, or a name of infinity or of not-a-number in any case. -/
def float? (s : String) : Option Binary64 :=
  let body := unpadded s
  if !underscoresPlaced ' ' body then none
  else
    let (negative, cs) := signed (body.filter (· ≠ '_'))
    let word := String.ofList (cs.map Char.toLower)
    if word = "inf" ∨ word = "infinity" then some (.infinite negative)
    else if word = "nan" then some .nan
    else decimalFloat? negative cs

end RelGraph.Numeral
