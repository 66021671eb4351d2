import RelGraph.Binary64.Arithmetic
import RelGraph.Store.Formula
/-!
Cells as numbers. Where a formula reckons, a text counts as the number that it begins with, and as
nothing when it begins with none. Whole numbers stay whole as long as they fit; beyond that doubles
take over. What has no value is null.
-/
namespace RelGraph.Store

/-- The number that a text begins with, in parts: whether it is negative, its digits before and
behind a point, its power of ten, and how it is written. -/
structure WrittenNumber where
  negative : Bool
  whole : List Char
  fraction : List Char
  pointed : Bool
  power : Int
  hasExponent : Bool
  exponentComplete : Bool
  isWhole : Bool
deriving Repr, Inhabited

namespace WrittenNumber

/-- The number that characters begin with. -/
def read (cs : List Char) : WrittenNumber :=
  let (negative, body) := Numeral.signed (cs.dropWhile Numeral.isPad)
  let whole := body.takeWhile Char.isDigit
  let (pointed, fraction, rest) := match body.dropWhile Char.isDigit with
    | '.' :: rest => (true, rest.takeWhile Char.isDigit, rest.dropWhile Char.isDigit)
    | rest => (false, [], rest)
  let marked := rest.head?.any fun c => c = 'e' || c = 'E'
  let (falls, digits) := if marked then Numeral.signed (rest.drop 1) else (false, [])
  let exponent := digits.takeWhile Char.isDigit
  let size : Int :=
    exponent.foldl (fun n c => if n < 10000 then n * 10 + (c.toNat - 48) else 10000) 0
  let rest := if marked then digits.dropWhile Char.isDigit else rest
  { negative := negative
    whole := whole
    fraction := fraction
    pointed := pointed
    power := if falls then -size else size
    hasExponent := marked
    exponentComplete := !marked || !exponent.isEmpty
    isWhole := rest.all Numeral.isPad }

/-- Whether there are digits. -/
def hasDigits (w : WrittenNumber) : Bool := !(w.whole.isEmpty && w.fraction.isEmpty)

/-- Whether the number is written with digits and a sign alone. -/
def isPlain (w : WrittenNumber) : Bool := !w.pointed && !w.hasExponent

/-- Whether a text is a number and nothing else. -/
def isNumber (w : WrittenNumber) : Bool := w.hasDigits && w.exponentComplete && w.isWhole

/-- The double that is written. -/
def real (w : WrittenNumber) : Binary64 :=
  Binary64.ofWritten w.negative (Cell.digitValues w.whole) (Cell.digitValues w.fraction) w.power

/-- The whole number that the digits before the point spell. -/
def integer (w : WrittenNumber) : Int :=
  let size : Int := Numeral.ofDigitChars w.whole
  if w.negative then -size else size

end WrittenNumber

namespace Cell

/-- A whole number, or the nearest that a cell holds. -/
def clamped (n : Int) : Int := max leastInteger (min greatestInteger n)

/-- The characters of a text, or of the text that bytes spell. -/
def writtenChars : Cell → List Char
  | text s => s.toList
  | blob data => charactersOfBytes data
  | _ => []

/-- The cell as a double. -/
def toReal : Cell → Binary64
  | null => Binary64.zero false
  | integer n => Binary64.ofInt n
  | real x => x
  | c => (WrittenNumber.read c.writtenChars).real

/-- The cell as a whole number; a double loses what is behind its point. -/
def toInteger : Cell → Int
  | null => 0
  | integer n => n
  | real (.infinite negative) => if negative then leastInteger else greatestInteger
  | real x => clamped ((x.truncate?).getD 0)
  | c => clamped (WrittenNumber.read c.writtenChars).integer

/-- The cell as a number: a text that begins with a whole number is that whole number, unless it
goes on as a number with a point or an exponent. -/
def toNumber : Cell → Cell
  | text s => ofWritten (WrittenNumber.read s.toList)
  | blob data => ofWritten (WrittenNumber.read (charactersOfBytes data))
  | c => c
where
  ofWritten (w : WrittenNumber) : Cell :=
    let goesOn := (w.pointed && w.hasExponent) ||
      ((w.pointed || w.hasExponent) && w.exponentComplete)
    if w.hasDigits && goesOn then ofReal w.real
    else if fits w.integer then integer w.integer
    else ofReal w.real

/-- Whether a whole double is safely told from its neighbours. -/
def isSafe (n : Int) : Bool := -2251799813685248 ≤ n && n < 2251799813685248

/-- The cell as a number that is whole where its value is. -/
def toNumeric (c : Cell) : Cell :=
  match c with
  | text _ | blob _ =>
    match c.toNumber with
    | real x =>
      match x.whole? with
      | some n => if isSafe n then integer n else real x
      | none => real x
    | c => c
  | c => c

/-- The cell as a value of a type. -/
def cast (a : Affinity) (c : Cell) : Cell :=
  if c.isNull then null
  else match a with
    | .integer => integer c.toInteger
    | .real => ofReal c.toReal
    | .numeric => c.toNumeric
    | .text => (c.text?.map text).getD null
    | .none =>
      match c with
      | blob data => blob data
      | c => blob ((c.text?.getD "").toUTF8.toList)

/-- Whether the cell counts as true; a null does not say. -/
def isTrue? : Cell → Option Bool
  | null => Option.none
  | integer n => some (n != 0)
  | c => some (!c.toReal.isZero)

end Cell

namespace Formula.Arithmetic

/-- A whole number in sixty-four bits with a sign. -/
def wrapped (n : Int) : Int := Int.bmod n (Nat.pow 2 64)

/-- The bits of a whole number. -/
def bits (n : Int) : Nat := (n % Int.pow 2 64).toNat

/-- A number shifted to the left by places, to the right where they are negative. -/
def shift (n places : Int) : Int :=
  if places ≥ 64 then 0
  else if places ≥ 0 then wrapped (n * Int.pow 2 places.toNat)
  else if places ≤ -64 then (if n < 0 then -1 else 0)
  else Int.fdiv n (Int.pow 2 places.natAbs)

/-- The result on whole numbers, where it is one. -/
def onIntegers? (op : Arithmetic) (m n : Int) : Option Int :=
  let fitting := fun (r : Int) => if Cell.fits r then some r else none
  match op with
  | add => fitting (m + n)
  | subtract => fitting (m - n)
  | multiply => fitting (m * n)
  | divide => fitting (Int.tdiv m n)
  | remainder => some (if n = -1 then 0 else Int.tmod m n)
  | _ => none

/-- The result on doubles; what is left of a division is reckoned in whole numbers. -/
def onReals (op : Arithmetic) (x y : Cell) : Cell :=
  let a := x.toReal
  let b := y.toReal
  match op with
  | add => Cell.ofReal (a.add b)
  | subtract => Cell.ofReal (a.sub b)
  | multiply => Cell.ofReal (a.mul b)
  | divide => if b.isZero then .null else Cell.ofReal (a.div b)
  | _ =>
    if y.toInteger = 0 then .null
    else Cell.ofReal (Binary64.ofInt
      (if y.toInteger = -1 then 0 else Int.tmod x.toInteger y.toInteger))

/-- The result of reckoning with two cells that are not null. -/
def onNumbers (op : Arithmetic) (x y : Cell) : Cell :=
  match x.toNumber, y.toNumber with
  | .integer m, .integer n =>
    if (op = divide ∨ op = remainder) ∧ n = 0 then .null
    else match onIntegers? op m n with
      | some r => .integer r
      | none => onReals op (.integer m) (.integer n)
  | _, _ => onReals op x y

/-- The result of an operator on two cells; with a null there is none. -/
def result (op : Arithmetic) (x y : Cell) : Cell :=
  if x.isNull || y.isNull then .null
  else match op with
    | bitAnd => .integer (wrapped (bits x.toInteger &&& bits y.toInteger : Nat))
    | bitOr => .integer (wrapped (bits x.toInteger ||| bits y.toInteger : Nat))
    | shiftLeft => .integer (shift x.toInteger y.toInteger)
    | shiftRight => .integer (shift x.toInteger (-y.toInteger))
    | concatenate => .text (x.text?.getD "" ++ y.text?.getD "")
    | op => onNumbers op x y

end Formula.Arithmetic
end RelGraph.Store
