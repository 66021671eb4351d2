/-!
Double-precision numbers as exact data: a sign, a whole significand and a power of two. Rounding a
ratio, truncation and comparison are done in whole-number arithmetic, so every statement about them
is a statement about integers.
-/
namespace RelGraph

/-- A double: not a number, an infinity, or `± significand · 2 ^ exponent`. Numbers built by
`ofRatio` have a significand below `2 ^ 53` that fills 53 bits unless the exponent is the least. -/
inductive Binary64
  | nan
  | infinite (negative : Bool)
  | finite (negative : Bool) (significand : Nat) (exponent : Int)
deriving DecidableEq, Repr, Inhabited

namespace Binary64

/-- The exponent of the smallest steps. -/
def leastExponent : Int := -1074

/-- The exponent of the largest steps. -/
def greatestExponent : Int := 971

/-- Zero with a sign. -/
def zero (negative : Bool) : Binary64 := .finite negative 0 leastExponent

/-- The ratio `num / den` divided by `2 ^ e`, again as a ratio. -/
def scaleDown (num den : Nat) (e : Int) : Nat × Nat :=
  if 0 ≤ e then (num, den * Nat.pow 2 e.toNat) else (num * Nat.pow 2 (-e).toNat, den)

/-- The whole number nearest to `num / den`; a half goes to the even neighbour. -/
def divideToEven (num den : Nat) : Nat :=
  let quotient := num / den
  let remainder := num % den
  if 2 * remainder > den ∨ (2 * remainder = den ∧ quotient % 2 = 1) then quotient + 1 else quotient

/-- The double nearest to `± num / den`; a tie goes to the even significand, and what lies beyond
the largest double becomes an infinity. -/
def ofRatio (negative : Bool) (num den : Nat) : Binary64 :=
  if num = 0 ∨ den = 0 then zero negative
  else
    let guess : Int := max ((Nat.log2 num : Int) - Nat.log2 den - 53) leastExponent
    let wide := scaleDown num den guess
    let e := if wide.1 / wide.2 ≥ Nat.pow 2 53 then guess + 1 else guess
    let placed := scaleDown num den e
    let m := divideToEven placed.1 placed.2
    let (m, e) := if m = Nat.pow 2 53 then (Nat.pow 2 52, e + 1) else (m, e)
    if e > greatestExponent then .infinite negative else .finite negative m e

/-- The double nearest to `± coefficient · 10 ^ power`. Powers so far out that the result is zero
or infinite are settled without forming the ratio. -/
def ofDecimal (negative : Bool) (coefficient : Nat) (power : Int) : Binary64 :=
  let digits : Int := (Nat.log2 coefficient : Int) / 3 + 1
  if coefficient = 0 then zero negative
  else if power > 400 then .infinite negative
  else if power + digits < -400 then zero negative
  else if 0 ≤ power then ofRatio negative (coefficient * Nat.pow 10 power.toNat) 1
  else ofRatio negative coefficient (Nat.pow 10 (-power).toNat)

/-- The double nearest to a whole number. -/
def ofInt (n : Int) : Binary64 := ofRatio (n < 0) n.natAbs 1

/-- Whether the number is zero, of either sign. -/
def isZero : Binary64 → Bool
  | .finite _ m _ => m == 0
  | _ => false

/-- Whether the number is neither infinite nor not a number. -/
def isFinite : Binary64 → Bool
  | .finite .. => true
  | _ => false

/-- The magnitude of a finite number as a ratio. -/
def magnitude (m : Nat) (e : Int) : Nat × Nat :=
  if 0 ≤ e then (m * Nat.pow 2 e.toNat, 1) else (m, Nat.pow 2 (-e).toNat)

/-- The whole number towards zero; `none` for an infinity and for what is not a number. -/
def truncate? : Binary64 → Option Int
  | .finite negative m e =>
    let ratio := magnitude m e
    let whole : Int := (ratio.1 / ratio.2 : Nat)
    some (if negative then -whole else whole)
  | _ => none

/-- The exact value of a finite number as a signed ratio. -/
def ratio? : Binary64 → Option (Int × Nat)
  | .finite negative m e =>
    let r := magnitude m e
    some (if negative then -(r.1 : Int) else r.1, r.2)
  | _ => none

/-- The whole number that a finite number without fraction is. -/
def whole? (x : Binary64) : Option Int :=
  match x.ratio? with
  | some (n, d) => if n.natAbs % d = 0 then some (n / d) else none
  | none => none

/-- The order of two signed ratios with positive denominators. -/
def compareRatios (a b : Int × Nat) : Ordering := compare (a.1 * b.2) (b.1 * a.2)

/-- The order of a double against a signed ratio; `none` when it is not a number. -/
def compareRatio? (x : Binary64) (r : Int × Nat) : Option Ordering :=
  match x with
  | .nan => none
  | .infinite negative => some (if negative then .lt else .gt)
  | .finite negative m e =>
    let q := magnitude m e
    some (compareRatios (if negative then -(q.1 : Int) else q.1, q.2) r)

/-- The order of two doubles; `none` when one is not a number. -/
def compare? (x y : Binary64) : Option Ordering :=
  match x, y with
  | .nan, _ | _, .nan => none
  | .infinite a, .infinite b =>
    some (if a = b then .eq else if a then .lt else .gt)
  | .finite negative m e, _ =>
    let q := magnitude m e
    let signed : Int × Nat := (if negative then -(q.1 : Int) else q.1, q.2)
    (compareRatio? y signed).map Ordering.swap
  | .infinite negative, _ => some (if negative then .lt else .gt)

end Binary64
end RelGraph
