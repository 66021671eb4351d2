import RelGraph.Binary64
/-!
Extended numbers: `significand · 2 ^ exponent` with at most sixty-four significant bits and no bound
on the exponent. Every operation gives the extended number nearest to the exact result, a tie going
to the even significand. Stores reckon with them where they turn doubles into digits and back.
-/
namespace RelGraph

/-- An extended number; none is negative. -/
structure Extended where
  significand : Nat
  exponent : Int
deriving DecidableEq, Repr, Inhabited

namespace Extended

/-- The extended number nearest to `num / den · 2 ^ shift`. -/
def round (num den : Nat) (shift : Int) : Extended :=
  if num = 0 ∨ den = 0 then ⟨0, 0⟩
  else
    let guess : Int := (Nat.log2 num : Int) - Nat.log2 den - 64
    let wide := Binary64.scaleDown num den guess
    let e := if wide.1 / wide.2 ≥ Nat.pow 2 64 then guess + 1 else guess
    let placed := Binary64.scaleDown num den e
    let m := Binary64.divideToEven placed.1 placed.2
    if m = Nat.pow 2 64 then ⟨Nat.pow 2 63, e + 1 + shift⟩ else ⟨m, e + shift⟩

/-- A whole number. -/
def ofNat (n : Nat) : Extended := round n 1 0

/-- The magnitude of a finite double. -/
def ofParts (significand : Nat) (exponent : Int) : Extended := round significand 1 exponent

/-- The double nearest to `coefficient · 10 ^ power`, which has to be finite, as it stands in a
program. -/
def literal (coefficient : Nat) (power : Int) : Extended :=
  match Binary64.ofDecimal false coefficient power with
  | .finite _ m e => ofParts m e
  | _ => ⟨0, 0⟩

/-- The exact value as a ratio. -/
def ratio (x : Extended) : Nat × Nat := Binary64.magnitude x.significand x.exponent

/-- The product. -/
def mul (x y : Extended) : Extended :=
  round (x.significand * y.significand) 1 (x.exponent + y.exponent)

/-- The quotient. -/
def div (x y : Extended) : Extended :=
  round x.significand y.significand (x.exponent - y.exponent)

/-- The significands of two numbers at the lesser of their exponents, with that exponent. -/
def aligned (x y : Extended) : Nat × Nat × Int :=
  let e := min x.exponent y.exponent
  (x.significand * Nat.pow 2 (x.exponent - e).toNat,
    y.significand * Nat.pow 2 (y.exponent - e).toNat, e)

/-- The sum. -/
def add (x y : Extended) : Extended :=
  let (a, b, e) := aligned x y
  round (a + b) 1 e

/-- The difference; zero where it would be negative. -/
def sub (x y : Extended) : Extended :=
  let (a, b, e) := aligned x y
  round (a - b) 1 e

/-- Whether the first number is at most the second. -/
def le (x y : Extended) : Bool :=
  let (a, b, _) := aligned x y
  a ≤ b

/-- The whole number towards zero. -/
def whole (x : Extended) : Nat :=
  let r := x.ratio
  r.1 / r.2

/-- The nearest double, with a sign. -/
def toBinary64 (negative : Bool) (x : Extended) : Binary64 :=
  let r := x.ratio
  Binary64.ofRatio negative r.1 r.2

/-- A product times a power, given the square that the lowest bit of the power stands for. -/
def tenPowerFrom : Nat → Nat → Extended → Extended → Extended
  | 0, _, _, product => product
  | fuel + 1, power, square, product =>
    let product := if power % 2 = 1 then mul product square else product
    if power / 2 = 0 then product else tenPowerFrom fuel (power / 2) (mul square square) product

/-- `10 ^ power`, for powers below `2 ^ 16`. -/
def tenPower (power : Nat) : Extended := tenPowerFrom 16 power (ofNat 10) (ofNat 1)

end Extended
end RelGraph
