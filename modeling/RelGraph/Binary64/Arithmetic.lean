import RelGraph.Binary64
/-!
Reckoning with doubles. Every operation gives the double nearest to the exact result; what has no
value, such as the difference of two infinities, is not a number. Doubles are also numbers of
sixty-four bits: a sign, an exponent and the bits of the significand that follow its first one.
-/
namespace RelGraph.Binary64

/-- The opposite. -/
def negate : Binary64 → Binary64
  | .nan => .nan
  | .infinite negative => .infinite (!negative)
  | .finite negative m e => .finite (!negative) m e

/-- The double nearest to a signed ratio; zero has the sign that is given. -/
def ofSigned (n : Int) (den : Nat) (negativeZero : Bool) : Binary64 :=
  ofRatio (n < 0 || (n = 0 && negativeZero)) n.natAbs den

/-- The sum. -/
def add (x y : Binary64) : Binary64 :=
  match x, y with
  | .nan, _ | _, .nan => .nan
  | .infinite a, .infinite b => if a = b then .infinite a else .nan
  | .infinite a, _ | _, .infinite a => .infinite a
  | .finite a m e, .finite b n f =>
    let p := magnitude m e
    let q := magnitude n f
    let left : Int := if a then -(p.1 : Int) else p.1
    let right : Int := if b then -(q.1 : Int) else q.1
    ofSigned (left * q.2 + right * p.2) (p.2 * q.2) (a && b)

/-- The difference. -/
def sub (x y : Binary64) : Binary64 := add x y.negate

/-- The product. -/
def mul (x y : Binary64) : Binary64 :=
  match x, y with
  | .nan, _ | _, .nan => .nan
  | .infinite a, .infinite b => .infinite (a != b)
  | .infinite a, .finite b m _ | .finite a m _, .infinite b =>
    if m = 0 then .nan else .infinite (a != b)
  | .finite a m e, .finite b n f =>
    let p := magnitude m e
    let q := magnitude n f
    ofRatio (a != b) (p.1 * q.1) (p.2 * q.2)

/-- The quotient. -/
def div (x y : Binary64) : Binary64 :=
  match x, y with
  | .nan, _ | _, .nan => .nan
  | .infinite _, .infinite _ => .nan
  | .infinite a, .finite b _ _ => .infinite (a != b)
  | .finite a _ _, .infinite b => zero (a != b)
  | .finite a m e, .finite b n f =>
    let p := magnitude m e
    let q := magnitude n f
    if n = 0 then (if m = 0 then .nan else .infinite (a != b))
    else ofRatio (a != b) (p.1 * q.2) (p.2 * q.1)

/-- The double that sixty-four bits stand for. -/
def ofBits (bits : Nat) : Binary64 :=
  let negative := bits / Nat.pow 2 63 % 2 == 1
  let exponent : Nat := bits / Nat.pow 2 52 % Nat.pow 2 11
  let fraction : Nat := bits % Nat.pow 2 52
  if exponent = 2047 then if fraction = 0 then .infinite negative else .nan
  else if exponent = 0 then .finite negative fraction leastExponent
  else .finite negative (Nat.pow 2 52 + fraction) ((exponent : Int) - 1075)

/-- The sixty-four bits of a double. -/
def toBits : Binary64 → Nat
  | .nan => 2047 * Nat.pow 2 52 + Nat.pow 2 51
  | .infinite negative => (if negative then Nat.pow 2 63 else 0) + 2047 * Nat.pow 2 52
  | .finite negative m e =>
    let sign := if negative then Nat.pow 2 63 else 0
    if m < Nat.pow 2 52 then sign + m
    else sign + (e + 1075).toNat * Nat.pow 2 52 + (m - Nat.pow 2 52)

/-- A function of machine numbers as a function of doubles. -/
def throughMachine (f : Float → Float) (x : Binary64) : Binary64 :=
  ofBits (f (Float.ofBits (UInt64.ofNat x.toBits))).toBits.toNat

/-- A function of two machine numbers as a function of doubles. -/
def throughMachine₂ (f : Float → Float → Float) (x y : Binary64) : Binary64 :=
  let machine := fun (x : Binary64) => Float.ofBits (UInt64.ofNat x.toBits)
  ofBits (f (machine x) (machine y)).toBits.toNat

end RelGraph.Binary64
