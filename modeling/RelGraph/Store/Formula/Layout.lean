import RelGraph.Binary64.Significant
import RelGraph.Store.Formula.Number
/-!
Layouts: texts with places that arguments fill. A place says by a letter how its argument is
written, and before it, how wide and with how many digits. A place that says nothing known ends the
text.
-/
namespace RelGraph.Store.Formula

/-- What a place says before its letter. -/
structure Place where
  toLeft : Bool := false
  mark : Option Char := none
  marked : Bool := false
  exact : Bool := false
  zeros : Bool := false
  grouped : Bool := false
  width : Nat := 0
  digits : Option Nat := none
deriving Repr, Inhabited

namespace Place

/-- A text in the width of a place; the second number is how many of its bytes do not count. -/
def padded (p : Place) (s : String) (uncounted : Nat) : String :=
  let gap := String.ofList (List.replicate (p.width + uncounted - s.utf8ByteSize) ' ')
  if p.toLeft then s ++ gap else gap ++ s

/-- Digits with a comma between groups of three. -/
def groupedDigits (cs : List Char) : List Char :=
  (cs.foldr (fun c (acc : List Char × Nat) =>
    if acc.2 = 3 then (c :: ',' :: acc.1, 1) else (c :: acc.1, acc.2 + 1)) ([], 0)).1

/-- The ending of a number in a row. -/
def ordinalEnding (n : Nat) : String :=
  if n / 10 % 10 = 1 then "th"
  else match n % 10 with
    | 1 => "st"
    | 2 => "nd"
    | 3 => "rd"
    | _ => "th"

/-- A whole number in some base, without its sign. -/
def magnitudeText (p : Place) (base : Nat) (capitals : Bool) (sign : Option Char) (n : Nat)
    (ending : String) : List Char :=
  let least := (p.digits).getD 0
  let least := if p.zeros then max least (p.width - if sign.isSome then 1 else 0) else least
  let cs := Nat.toDigits base n
  let cs := (if capitals then cs.map Char.toUpper else cs) ++ ending.toList
  let cs := List.replicate (least - cs.length) '0' ++ cs
  if p.grouped then groupedDigits cs else cs

/-- A whole number with its sign. -/
def signedText (p : Place) (n : Int) (ending : String) : String :=
  let sign := if n < 0 then some '-' else p.mark
  p.padded (String.ofList (sign.toList ++ magnitudeText p 10 false sign n.natAbs ending)) 0

/-- The sixty-four bits of a whole number, in some base. -/
def bitsText (p : Place) (base : Nat) (capitals : Bool) (lead : String) (n : Int) : String :=
  let bits := (n % Int.pow 2 64).toNat
  let cs := magnitudeText p base capitals none bits ""
  let lead := if p.marked && bits != 0 then lead.toList else []
  p.padded (String.ofList (lead ++ cs)) 0

/-- How a double is written: with a point, with an exponent, or as it suits. -/
inductive RealForm
  | pointed
  | exponential
  | suitable
deriving DecidableEq, Repr

/-- Half a unit of a decimal place, by successive tenths. -/
def halfUnit (places : Nat) : Binary64 :=
  (List.range (places % 4096)).foldl (fun x _ => x.mul (Binary64.ofDecimal false 1 (-1)))
    (Binary64.ofDecimal false 5 (-1))

/-- A double that is not negative as an extended number. -/
def extended : Binary64 → Extended
  | .finite _ m e => Extended.ofParts m e
  | _ => ⟨0, 0⟩

/-- The next digit of a value below ten, as long as digits are left; zeros after that. -/
def takeDigit (state : Nat × Extended) : Char × (Nat × Extended) :=
  match state with
  | (0, value) => ('0', (0, value))
  | (left + 1, value) =>
    let digit := value.whole
    (Char.ofNat (48 + digit),
      (left, (value.sub (Extended.ofNat digit)).mul (Extended.ofNat 10)))

/-- The next digits. -/
def takeDigits : Nat → Nat × Extended → List Char × (Nat × Extended)
  | 0, state => ([], state)
  | count + 1, state =>
    let (c, state) := takeDigit state
    let (cs, state) := takeDigits count state
    (c :: cs, state)

/-- Digits without the zeros at their end, and without a point that nothing follows. -/
def withoutZeros (exact : Bool) (cs : List Char) : List Char :=
  let kept := cs.reverse.dropWhile (· = '0')
  match kept with
  | '.' :: before => (if exact then '0' :: '.' :: before else before).reverse
  | kept => kept.reverse

/-- The exponent of ten as it is written. -/
def exponentText (capital : Bool) (power : Int) : List Char :=
  let digits := Nat.toDigits 10 power.natAbs
  [if capital then 'E' else 'e', if power < 0 then '-' else '+'] ++
    List.replicate (2 - digits.length) '0' ++ digits

/-- A value of which a power of ten is known, with digits before and behind the point. -/
def pointedText (p : Place) (dropZeros : Bool) (behind : Int) (power : Int) (value : Extended) :
    List Char :=
  let state := (if p.exact then 26 else 16, value)
  let (before, state) := if power < 0 then (['0'], state) else takeDigits (power.toNat + 1) state
  let hasPoint := behind > 0 || p.marked || p.exact
  let zeros := min (-power - 1).toNat behind.toNat
  let zeros := if power < 0 then zeros else 0
  let (after, _) := takeDigits (behind.toNat - zeros) state
  let cs := before ++ (if hasPoint then ['.'] else []) ++ List.replicate zeros '0' ++ after
  if dropZeros && hasPoint then withoutZeros p.exact cs else cs

/-- The magnitude of a finite double. -/
def finiteText (p : Place) (form : RealForm) (capital : Bool) (x : Binary64) : List Char :=
  let asked := p.digits.getD 6
  let places := if form = .suitable && asked > 0 then asked - 1 else asked
  let unit := halfUnit places
  let isZero := x.isZero
  match form with
  | .pointed =>
    let binary := x.toBits / Nat.pow 2 52 % Nat.pow 2 11
    let unit := if (places : Int) + Int.tdiv ((binary : Int) - 1023) 3 < 15 then
      ((extended unit).add ((extended x).mul (Extended.literal 3 (-16)))).toBinary64 false
      else unit
    let sum := (extended x).add (extended unit)
    let (value, power) := if sum.significand = 0 then (sum, 0) else Binary64.normalized sum
    pointedText p p.exact places power value
  | form =>
    let start := if isZero then (extended x, 0) else Binary64.normalized (extended x)
    let (value, power) := Binary64.roundedUp (extended unit) start
    if form = .suitable then
      if power < -4 ∨ power > places then
        pointedText p (!p.marked) places 0 value ++ exponentText capital power
      else pointedText p (!p.marked) (places - power) power value
    else pointedText p p.exact places 0 value ++ exponentText capital power

/-- Whether a double is less than zero. -/
def isBelowZero (x : Binary64) : Bool := (Binary64.compareRatio? x (0, 1)).any (·.isLT)

/-- A double in a place. -/
def realText (p : Place) (form : RealForm) (capital : Bool) (x : Binary64) : String :=
  let sign := if isBelowZero x then some '-' else p.mark
  let magnitude := match x with
    | .nan => "NaN".toList
    | .infinite _ => "Inf".toList
    | x => finiteText p form capital x
  let sign := if x = .nan then none else sign
  let zeros := if p.zeros && !p.toLeft && x.isFinite then
    List.replicate (p.width - magnitude.length - sign.toList.length) '0' else []
  p.padded (String.ofList (sign.toList ++ zeros ++ magnitude)) 0

/-- The characters of a text that lie within a number of bytes. -/
def withinBytes : Nat → List Char → List Char
  | _, [] => []
  | limit, c :: rest =>
    if c.utf8Size ≤ limit then c :: withinBytes (limit - c.utf8Size) rest else []

/-- The characters of a text that a place shows. -/
def shownPart (p : Place) (cs : List Char) : List Char :=
  match p.digits with
  | none => cs
  | some limit => if p.exact then cs.take limit else withinBytes limit cs

/-- A text in a place; an exact place counts characters instead of bytes. -/
def text (p : Place) (cs : List Char) : String :=
  let s := String.ofList cs
  p.padded s (if p.exact then s.utf8ByteSize - cs.length else 0)

/-- A text with its quotes doubled, perhaps between quotes. -/
def quotedText (p : Place) (quote : Char) (between : Bool) (s : Option String) (absent : String) :
    String :=
  match s with
  | none => text p (shownPart p absent.toList)
  | some s =>
    let doubled := (shownPart p s.toList).flatMap fun c => if c = quote then [c, c] else [c]
    text p (if between then quote :: doubled ++ [quote] else doubled)

/-- The first character of a text, as often as a place says. -/
def characterText (p : Place) (s : Option String) : String :=
  let c := ((s.getD "").toList.head?).getD '\x00'
  let cs := List.replicate (max 1 (p.digits.getD 1)) c
  p.padded (String.ofList cs) (cs.length * (c.utf8Size - 1))

/-- An argument as a letter asks for it. A letter that is not known asks for nothing. -/
def filled? (p : Place) (letter : Char) (argument : Option Cell) : Option String :=
  let c := argument.getD .null
  match letter with
  | 'd' | 'i' => some (signedText p c.toInteger "")
  | 'u' => some (bitsText p 10 false "" c.toInteger)
  | 'o' => some (bitsText { p with grouped := false } 8 false "0" c.toInteger)
  | 'x' => some (bitsText { p with grouped := false } 16 false "0x" c.toInteger)
  | 'X' => some (bitsText { p with grouped := false } 16 true "0X" c.toInteger)
  | 'p' => some (bitsText { p with grouped := false } 16 true "0x" c.toInteger)
  | 'r' => some (signedText { p with grouped := false } c.toInteger
      (ordinalEnding c.toInteger.natAbs))
  | 'f' => some (realText p .pointed false c.toReal)
  | 'e' => some (realText p .exponential false c.toReal)
  | 'E' => some (realText p .exponential true c.toReal)
  | 'g' => some (realText p .suitable false c.toReal)
  | 'G' => some (realText p .suitable true c.toReal)
  | 's' | 'z' => some (text p (shownPart p ((c.text?.getD "").toList)))
  | 'q' => some (quotedText p '\'' false c.text? "(NULL)")
  | 'Q' => some (quotedText p '\'' true c.text? "NULL")
  | 'w' => some (quotedText p '"' false c.text? "(NULL)")
  | 'c' => some (characterText p c.text?)
  | _ => none

/-- The place after one of its marks; no other character is one. -/
def afterMark? (p : Place) : Char → Option Place
  | '-' => some { p with toLeft := true }
  | '+' => some { p with mark := some '+' }
  | ' ' => some { p with mark := some ' ' }
  | '#' => some { p with marked := true }
  | '!' => some { p with exact := true }
  | '0' => some { p with zeros := true }
  | ',' => some { p with grouped := true }
  | _ => none

/-- Reads the marks of a place. -/
def readMarks (p : Place) : List Char → Place × List Char
  | c :: rest =>
    match p.afterMark? c with
    | some p => readMarks p rest
    | none => (p, c :: rest)
  | [] => (p, [])

/-- Reads a number of a place, which an argument may give; with the arguments that are left. -/
def readCount (cs : List Char) (args : List Cell) : Option Int × List Char × List Cell :=
  match cs with
  | '*' :: rest =>
    (some (Int.bmod (args.head?.getD .null).toInteger (Nat.pow 2 32)), rest, args.drop 1)
  | cs =>
    let digits := cs.takeWhile Char.isDigit
    (if digits.isEmpty then none else some (Numeral.ofDigitChars digits : Int),
      cs.dropWhile Char.isDigit, args)

/-- Reads how wide a place is, and how many digits it has. -/
def readSizes (p : Place) (cs : List Char) (args : List Cell) : Place × List Char × List Cell :=
  let (width, cs, args) := readCount cs args
  let p := match width with
    | some n => if n < 0 then { p with width := n.natAbs, toLeft := true }
      else { p with width := n.toNat }
    | none => p
  match cs with
  | '.' :: rest =>
    let (digits, rest, args) := readCount rest args
    ({ p with digits := some (digits.getD 0).natAbs }, rest, args)
  | cs => (p, cs, args)

/-- What follows the letters that say how long a number is. -/
def afterLength : List Char → List Char
  | 'l' :: 'l' :: rest => rest
  | 'l' :: rest => rest
  | cs => cs

/-- The widest place that is filled, and the most digits. -/
def sizeLimit : Nat := 10000000

/-- Whether a place with a letter is small enough to be filled. Of a text, no more is shown than
there is. -/
def isFillable (p : Place) (letter : Char) : Bool :=
  p.width ≤ sizeLimit &&
    (['s', 'z', 'q', 'Q', 'w'].contains letter || p.digits.all (· ≤ sizeLimit))

/-- Fills the places of a layout with arguments, one after the other; nothing comes of a layout with
a place that is too wide. The fuel bounds the number of places. -/
def fill : Nat → List Char → List Cell → Option String
  | 0, _, _ => some ""
  | fuel + 1, cs, args =>
    let plain := String.ofList (cs.takeWhile (· ≠ '%'))
    match (cs.dropWhile (· ≠ '%')) with
    | [] => some plain
    | [_] => some (plain ++ "%")
    | _ :: rest =>
      let (p, rest) := readMarks {} rest
      let (p, rest, args) := readSizes p rest args
      match afterLength rest with
      | [] => some plain
      | letter :: rest =>
        if !p.isFillable letter then none
        else if letter = '%' then (fill fuel rest args).map (plain ++ p.padded "%" 0 ++ ·)
        else if letter = 'n' then (fill fuel rest args).map (plain ++ ·)
        else match p.filled? letter args.head? with
          | some s => (fill fuel rest (args.drop 1)).map (plain ++ s ++ ·)
          | none => some plain

/-- A layout filled with arguments. -/
def layoutText (layout : String) (args : List Cell) : Option String :=
  fill (layout.length + 1) layout.toList args

/-- A double with up to sixteen significant digits. -/
def generalText (x : Binary64) : String := realText { digits := some 16 } .suitable false x

/-- A double rounded to decimal places. -/
def roundedTo (places : Nat) (x : Binary64) : Binary64 :=
  let written := realText { digits := some places, exact := true } .pointed false x
  (WrittenNumber.read written.toList).real

end Place
end RelGraph.Store.Formula
