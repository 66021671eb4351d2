import RelGraph.Binary64.Shortest
import RelGraph.Numeral
/-!
Decimal numbers that keep their trailing zeros: a coefficient and a power of ten, an infinity, or a
value that is not a number.
-/
namespace RelGraph

/-- A decimal number. What is not a number still has a sign, may be signaling, and carries a
payload, which is zero where none is written. -/
inductive Decimal
  | finite (negative : Bool) (coefficient : Nat) (power : Int)
  | infinite (negative : Bool)
  | notANumber (negative signaling : Bool) (payload : Nat)
deriving DecidableEq, Repr, Inhabited

namespace Decimal

/-- Reads what is not a number: its name with the digits of a payload, in lower case. -/
def readNotANumber? (negative : Bool) (word : List Char) : Option Decimal :=
  let read := fun (signaling : Bool) (payload : List Char) =>
    if payload.all Char.isDigit then
      some (notANumber negative signaling (Numeral.ofDigitChars payload))
    else none
  match word with
  | 'n' :: 'a' :: 'n' :: payload => read false payload
  | 's' :: 'n' :: 'a' :: 'n' :: payload => read true payload
  | _ => none

/-- Reads a decimal. -/
def read? (s : String) : Option Decimal :=
  let padded := Text.trimRight Text.isBlank (Text.trimLeft Text.isBlank s.toList)
  let cs := (Numeral.plain padded).filter (· ≠ '_')
  let (negative, body) := Numeral.signed cs
  let word := body.map Char.toLower
  if word = "inf".toList ∨ word = "infinity".toList then some (.infinite negative)
  else if let some d := readNotANumber? negative word then some d
  else
    let whole := body.takeWhile Char.isDigit
    let afterWhole := body.dropWhile Char.isDigit
    let (fraction, tail) := match afterWhole with
      | '.' :: rest => (rest.takeWhile Char.isDigit, rest.dropWhile Char.isDigit)
      | _ => ([], afterWhole)
    if whole.isEmpty && fraction.isEmpty then none
    else (Numeral.exponent? tail).map fun power =>
      .finite negative (Numeral.ofDigitChars (whole ++ fraction))
        (power - fraction.length)

/-- The written form: positional while the exponent is not positive and at most five zeros follow
the point, with an exponent otherwise. -/
def text : Decimal → String
  | .notANumber negative signaling payload =>
    (if negative then "-" else "") ++ (if signaling then "sNaN" else "NaN") ++
      (if payload = 0 then "" else toString payload)
  | .infinite negative => if negative then "-Infinity" else "Infinity"
  | .finite negative coefficient power =>
    let digits := Binary64.digitText coefficient
    let left : Int := power + digits.length
    let dot : Int := if power ≤ 0 ∧ left > -6 then left else 1
    let body :=
      if dot ≤ 0 then ['0', '.'] ++ List.replicate (-dot).toNat '0' ++ digits
      else if dot ≥ digits.length then digits ++ List.replicate (dot.toNat - digits.length) '0'
      else digits.take dot.toNat ++ ['.'] ++ digits.drop dot.toNat
    let shift := left - dot
    let mark := if shift = 0 then [] else
      ['E', if shift < 0 then '-' else '+'] ++ Binary64.digitText shift.natAbs
    (if negative then "-" else "") ++ String.ofList (body ++ mark)

/-- Whether this is a signaling value, which no conversion or lookup accepts. -/
def isSignaling : Decimal → Bool
  | .notANumber _ signaling _ => signaling
  | _ => false

/-- Whether the number is zero. -/
def isZero : Decimal → Bool
  | .finite _ c _ => c == 0
  | _ => false

/-- The exact value of a finite decimal as a signed ratio. -/
def ratio? : Decimal → Option (Int × Nat)
  | .finite negative c p =>
    let n : Int := c * Int.pow 10 p.toNat
    some (if negative then -n else n, Nat.pow 10 (-p).toNat)
  | _ => none

/-- The whole number towards zero of a finite decimal. -/
def truncate? : Decimal → Option Int
  | .finite negative c p =>
    let whole : Int := ((c * Nat.pow 10 p.toNat) / Nat.pow 10 (-p).toNat : Nat)
    some (if negative then -whole else whole)
  | _ => none

/-- The nearest double. -/
def toBinary64 : Decimal → Binary64
  | .finite negative c p => Binary64.ofDecimal negative c p
  | .infinite negative => .infinite negative
  | .notANumber .. => .nan

end Decimal

/-- The text of a double with a fixed number of places; a half goes to the even digit. -/
def Binary64.fixedText (places : Nat) : Binary64 → String
  | .nan => "nan"
  | .infinite negative => if negative then "-inf" else "inf"
  | .finite negative m e =>
    let ratio := Binary64.magnitude m e
    let units := Binary64.divideToEven (ratio.1 * Nat.pow 10 places) ratio.2
    let digits := Binary64.padLeft (places + 1) (Binary64.digitText units)
    let whole := digits.take (digits.length - places)
    let rest := digits.drop (digits.length - places)
    (if negative then "-" else "") ++
      String.ofList (whole ++ (if places = 0 then [] else '.' :: rest))

end RelGraph
