import RelGraph.Binary64.Extended
import RelGraph.Binary64.Shortest
/-!
Numbers as stores write and read them. A double is written with fifteen significant digits and a
text is read as a double; both reckon with extended numbers step by step, so the last digit may
differ from the nearest one, and always in the same way.
-/
namespace RelGraph.Binary64

/-- Climbs by a factor, which stands for a number of decimal places, while the scale stays within a
value; the scale and its places. -/
def climb (factor : Extended) (places : Nat) (value : Extended) :
    Nat → Extended × Nat → Extended × Nat
  | 0, at_ => at_
  | fuel + 1, (scale, sum) =>
    let next := factor.mul scale
    if next.le value then climb factor places value fuel (next, sum + places) else (scale, sum)

/-- Raises a value by a factor while it is below a bound; the value and the places that it fell
short. -/
def lift (bound factor : Extended) (places : Nat) : Nat → Extended × Nat → Extended × Nat
  | 0, at_ => at_
  | fuel + 1, (value, sum) =>
    if bound.le value then (value, sum)
    else lift bound factor places fuel (value.mul factor, sum + places)

/-- The scale of a positive value by powers of ten, and its places: by hundreds, tens and ones. -/
def scaleOf (value : Extended) : Extended × Nat :=
  let hundreds := climb (Extended.literal 1 100) 100 value 4 (Extended.ofNat 1, 0)
  let tens := climb (Extended.literal 1 10) 10 value 10 hundreds
  climb (Extended.ofNat 10) 1 value 10 tens

/-- What is added to a value below ten so that its fifteenth digit is rounded. -/
def rounder : Extended := Extended.literal 5000000000000001 (-30)

/-- A positive value moved to between one and ten, with the power of ten that it is moved by. -/
def normalized (value : Extended) : Extended × Int :=
  let (scale, up) := scaleOf value
  let one := Extended.ofNat 1
  let coarse := lift (Extended.literal 1 (-8)) (Extended.literal 1 8) 8 50 (value.div scale, 0)
  let (value, down) := lift one (Extended.ofNat 10) 1 10 coarse
  (value, (up : Int) - down)

/-- A normalized value with a rounder added, normalized again. -/
def roundedUp (rounder : Extended) (value : Extended × Int) : Extended × Int :=
  let sum := value.1.add rounder
  if (Extended.ofNat 10).le sum then (sum.mul (Extended.literal 1 (-1)), value.2 + 1)
  else (sum, value.2)

/-- A positive value between one and ten, ready to be cut after its fifteenth digit, with the power
of ten that it stands for. -/
def leading (m : Nat) (e : Int) : Extended × Int :=
  roundedUp rounder (normalized (Extended.ofParts m e))

/-- The digits of a value below ten, one after the other, behind those that are known. -/
def takeDigits : Nat → Extended → Nat → Nat
  | 0, _, known => known
  | count + 1, value, known =>
    let digit := value.whole
    let rest := (value.sub (Extended.ofNat digit)).mul (Extended.ofNat 10)
    takeDigits count rest (known * 10 + digit)

/-- The decimal with fifteen significant digits of `m · 2 ^ e`, for a positive `m`. -/
def significant (m : Nat) (e : Int) : Digits :=
  let (value, power) := leading m e
  Digits.strip 16 ⟨takeDigits 15 value 0, power - 14⟩

/-- The unsigned text of a decimal, always with a point: positional while the leading digit stands
at most four places behind the point and fewer than fifteen before it, with an exponent
otherwise. -/
def Digits.pointedText (d : Digits) : String :=
  let cs := digitText d.digits
  let point : Int := cs.length + d.power
  let fraction := fun (cs : List Char) => '.' :: (if cs.isEmpty then ['0'] else cs)
  if -4 < point ∧ point ≤ 15 then
    if point ≤ 0 then String.ofList ("0.".toList ++ List.replicate (-point).toNat '0' ++ cs)
    else
      let zeros := List.replicate (point.toNat - cs.length) '0'
      String.ofList (cs.take point.toNat ++ zeros ++ fraction (cs.drop point.toNat))
  else
    let power := point - 1
    String.ofList (cs.take 1 ++ fraction (cs.drop 1) ++ ['e', if power < 0 then '-' else '+'] ++
      padLeft 2 (digitText power.natAbs))

/-- The text of a double with fifteen significant digits. -/
def briefText : Binary64 → String
  | .nan => "NaN"
  | .infinite negative => if negative then "-Inf" else "Inf"
  | .finite negative m e =>
    if m = 0 then "0.0"
    else (if negative then "-" else "") ++ (significant m e).pointedText

/-- The double nearest to the fifteen significant digits of a double. -/
def brief : Binary64 → Binary64
  | .finite negative m e =>
    if m = 0 then zero false
    else
      let d := significant m e
      ofDecimal negative d.digits d.power
  | x => x

/-- The bound from which on further digits of a significand are passed over. -/
def significandBound : Nat := (Nat.pow 2 63 - 10) / 10

/-- The number that digits spell behind one that is known, and how many of them are passed over. -/
def gatherDigits : List Nat → Nat → Nat × Nat
  | [], known => (known, 0)
  | d :: rest, known =>
    if known ≥ significandBound then (known, rest.length + 1)
    else gatherDigits rest (known * 10 + d)

/-- Moves tens from a power into a significand, or out of it, as long as that is exact. -/
def settle (falling : Bool) : Nat → Nat → Nat → Nat × Nat
  | 0, s, power => (s, power)
  | _, s, 0 => (s, 0)
  | fuel + 1, s, power + 1 =>
    if falling then if s % 10 = 0 then settle falling fuel (s / 10) power else (s, power + 1)
    else if s ≥ (Nat.pow 2 63 - 1) / 10 then (s, power + 1) else settle falling fuel (s * 10) power

/-- A double times or divided by the greatest plain power of ten. -/
def farther (falling : Bool) (x : Binary64) : Binary64 :=
  match x, ofDecimal false 1 308 with
  | .finite negative m e, .finite _ m' e' =>
    let a := magnitude m e
    let b := magnitude m' e'
    if falling then ofRatio negative (a.1 * b.2) (a.2 * b.1)
    else ofRatio negative (a.1 * b.1) (a.2 * b.2)
  | x, _ => x

/-- The double that a significand times a power of ten is read as. -/
def scaled (negative : Bool) (s : Nat) (power : Int) : Binary64 :=
  if s = 0 then zero negative
  else
    let falling : Bool := power < 0
    let (s, n) := settle falling 20 s power.natAbs
    let stretch := fun (n : Nat) =>
      let scale := Extended.tenPower n
      let value := Extended.ofNat s
      ((if falling then value.div scale else value.mul scale)).toBinary64 negative
    if n = 0 then ofRatio negative s 1
    else if n ≥ 342 then if falling then zero negative else .infinite negative
    else if n > 307 then farther falling (stretch (n - 308))
    else stretch n

/-- The double that stores read for the digits before and behind a point and a power of ten. -/
def ofWritten (negative : Bool) (whole fraction : List Nat) (power : Int) : Binary64 :=
  let (s, omitted) := gatherDigits whole 0
  let (s, passed) := gatherDigits fraction s
  scaled negative s (power + omitted - (fraction.length - passed : Nat))

end RelGraph.Binary64
