import RelGraph.Binary64
/-!
The shortest decimal that reads back as a double, and its written form. For one digit, two digits
and so on the two neighbours of the number on that decimal grid are tested against the interval of
reals that round to the number; the first grid with a hit wins, and of two hits the nearer.
-/
namespace RelGraph.Binary64

/-- A decimal `digits · 10 ^ power`. -/
structure Digits where
  digits : Nat
  power : Int
deriving DecidableEq, Repr

/-- Compares `a · 10 ^ p` with `b · 2 ^ q` exactly. -/
def compareScaled (a : Nat) (p : Int) (b : Nat) (q : Int) : Ordering :=
  let left := a * Nat.pow 10 p.toNat * Nat.pow 2 (-q).toNat
  let right := b * Nat.pow 2 q.toNat * Nat.pow 10 (-p).toNat
  compare left right

/-- The whole part of `b · 2 ^ q / 10 ^ p`. -/
def wholePart (b : Nat) (q p : Int) : Nat :=
  (b * Nat.pow 2 q.toNat * Nat.pow 10 (-p).toNat) /
    (Nat.pow 10 p.toNat * Nat.pow 2 (-q).toNat)

/-- The power of ten of the leading digit of `b · 2 ^ q`, for a positive `b`: a guess from the
binary length, moved by at most two steps. -/
def leadingPower (b : Nat) (q : Int) : Int :=
  let guess : Int := (((Nat.log2 b : Int) + q) * 30103) / 100000
  let up := fun (k : Int) => if compareScaled 1 (k + 1) b q ≠ .gt then k + 1 else k
  let down := fun (k : Int) => if compareScaled 1 k b q = .gt then k - 1 else k
  up (up (down (down guess)))

/-- Removes the trailing zeros of a decimal; the fuel bounds the number of digits. -/
def Digits.strip : Nat → Digits → Digits
  | 0, d => d
  | fuel + 1, d =>
    if d.digits ≠ 0 ∧ d.digits % 10 = 0 then strip fuel ⟨d.digits / 10, d.power + 1⟩ else d

/-- The decimal with `count` digits nearest to the number, if one lies in its rounding interval. -/
def onGrid? (m : Nat) (e : Int) (count : Nat) : Option Digits :=
  let q := e - 2
  let value := 4 * m
  let below := if m = Nat.pow 2 52 ∧ e > leastExponent then value - 1 else value - 2
  let above := value + 2
  let closed := m % 2 = 0
  let p := leadingPower value q - count + 1
  let low := wholePart value q p
  let inside := fun (d : Nat) =>
    let fromBelow := compareScaled d p below q
    let toAbove := compareScaled d p above q
    (fromBelow = .gt ∨ (closed ∧ fromBelow = .eq)) ∧ (toAbove = .lt ∨ (closed ∧ toAbove = .eq))
  let lowHit := inside low
  let highHit := inside (low + 1)
  if lowHit ∧ highHit then
    -- twice the value against the sum of both neighbours
    match compareScaled (2 * low + 1) p (2 * value) q with
    | .lt => some ⟨low + 1, p⟩
    | .gt => some ⟨low, p⟩
    | .eq => some ⟨if low % 2 = 0 then low else low + 1, p⟩
  else if lowHit then some ⟨low, p⟩
  else if highHit then some ⟨low + 1, p⟩
  else none

/-- The shortest decimal that rounds to `m · 2 ^ e`, for a positive `m`. Seventeen digits always
suffice. -/
def shortest (m : Nat) (e : Int) : Digits :=
  let found := ((List.range 17).findSome? fun i => onGrid? m e (i + 1)).getD
    ⟨wholePart (4 * m) (e - 2) 0, 0⟩
  found.strip 20

/-- The decimal digits of a number. -/
def digitText (n : Nat) : List Char := Nat.toDigits 10 n

/-- Pads a digit text with zeros on the left. -/
def padLeft (width : Nat) (cs : List Char) : List Char :=
  List.replicate (width - cs.length) '0' ++ cs

/-- The unsigned text of a decimal: positional while the point stands at most sixteen digits to the
right of the first digit and at most three zeros to its left, with an exponent otherwise. -/
def Digits.text (d : Digits) : String :=
  let cs := digitText d.digits
  let point : Int := cs.length + d.power
  if -4 < point ∧ point ≤ 16 then
    if point ≤ 0 then String.ofList ("0.".toList ++ List.replicate (-point).toNat '0' ++ cs)
    else
      let whole := cs.take point.toNat
      let rest := cs.drop point.toNat
      String.ofList (whole ++ List.replicate (point.toNat - cs.length) '0' ++ ['.'] ++
        (if rest.isEmpty then ['0'] else rest))
  else
    let mantissa := match cs with
      | [] => []
      | [c] => [c]
      | c :: rest => c :: '.' :: rest
    let power := point - 1
    String.ofList (mantissa ++ ['e', if power < 0 then '-' else '+'] ++
      padLeft 2 (digitText power.natAbs))

/-- The text of a double: the fewest digits that read back, always with a point or an exponent. -/
def text : Binary64 → String
  | .nan => "nan"
  | .infinite negative => if negative then "-inf" else "inf"
  | .finite negative m e =>
    (if negative then "-" else "") ++ (if m = 0 then "0.0" else (shortest m e).text)

end RelGraph.Binary64
