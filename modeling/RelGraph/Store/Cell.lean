import RelGraph.Binary64.Significant
import RelGraph.Numeral
import RelGraph.Schema.ColumnType
/-!
Cells: what a store keeps in the columns of its rows. A cell is of one of five classes, and cells of
all classes are ordered: nulls come first, then numbers by their value, then texts by their code
points, then bytes. A column has an affinity, which turns texts into numbers or numbers into texts
on the way in and when the column is compared.
-/
namespace RelGraph.Store

/-- A stored value. -/
inductive Cell
  | null
  | integer (n : Int)
  | real (x : Binary64)
  | text (s : String)
  | blob (data : List UInt8)
deriving DecidableEq, Repr, Inhabited

namespace Cell

/-- Whether the cell holds nothing. -/
def isNull : Cell → Bool
  | null => true
  | _ => false

/-- The cell of a double: what is not a number is not stored, and zero has no sign. -/
def ofReal : Binary64 → Cell
  | .nan => null
  | .finite negative m e => real (if m = 0 then Binary64.zero false else .finite negative m e)
  | x => real x

/-- The rank of a cell's class. -/
def rank : Cell → Nat
  | null => 0
  | integer _ | real _ => 1
  | text _ => 2
  | blob _ => 3

/-- The order of two lists by their first difference; a list comes before what continues it. -/
def orderOfLists : List Nat → List Nat → Ordering
  | [], [] => .eq
  | [], _ :: _ => .lt
  | _ :: _, [] => .gt
  | a :: as, b :: bs => (compare a b).then (orderOfLists as bs)

/-- The order of two cells. -/
def order (a b : Cell) : Ordering :=
  match a, b with
  | integer m, integer n => compare m n
  | integer m, real y => ((Binary64.compareRatio? y (m, 1)).map Ordering.swap).getD .eq
  | real x, integer n => (Binary64.compareRatio? x (n, 1)).getD .eq
  | real x, real y => (Binary64.compare? x y).getD .eq
  | text s, text t => orderOfLists (s.toList.map Char.toNat) (t.toList.map Char.toNat)
  | blob s, blob t => orderOfLists (s.map UInt8.toNat) (t.map UInt8.toNat)
  | a, b => compare a.rank b.rank

/-- The least whole number that a cell holds. -/
def leastInteger : Int := -Int.pow 2 63

/-- The greatest whole number that a cell holds. -/
def greatestInteger : Int := Int.pow 2 63 - 1

/-- Whether a whole number fits into a cell. -/
def fits (n : Int) : Bool := leastInteger ≤ n && n ≤ greatestInteger

/-- A real cell as a whole number where it is one. -/
def narrowed : Cell → Cell
  | real x =>
    match x.whole? with
    | some n => if leastInteger < n ∧ n < greatestInteger then integer n else real x
    | none => real x
  | c => c

/-- The values of plain digits. -/
def digitValues (cs : List Char) : List Nat := cs.map fun c => c.toNat - 48

/-- The power of ten that an exponent spells, if nothing follows it. Beyond ten thousand powers are
as good as one another. -/
def writtenPower? : List Char → Option Int
  | [] => some 0
  | c :: rest =>
    if c = 'e' ∨ c = 'E' then
      let (negative, digits) := Numeral.signed rest
      if digits.isEmpty ∨ !digits.all Char.isDigit then none
      else
        let n : Int :=
          digits.foldl (fun n c => if n < 10000 then n * 10 + (c.toNat - 48) else 10000) 0
        some (if negative then -n else n)
    else none

/-- The number that a text spells, blanks around it aside. -/
def numberOf? (s : String) : Option Cell :=
  let cs := Text.trimRight Numeral.isPad (Text.trimLeft Numeral.isPad s.toList)
  let (negative, body) := Numeral.signed cs
  let whole := body.takeWhile Char.isDigit
  let rest := body.dropWhile Char.isDigit
  let (fraction, tail) := match rest with
    | '.' :: rest => (rest.takeWhile Char.isDigit, rest.dropWhile Char.isDigit)
    | _ => ([], rest)
  let size : Int := Numeral.ofDigitChars whole
  let n := if negative then -size else size
  if whole.isEmpty && fraction.isEmpty then none
  else if rest.isEmpty && fits n then some (integer n)
  else (writtenPower? tail).map fun power =>
    ofReal (Binary64.ofWritten negative (digitValues whole) (digitValues fraction) power)

/-- A cell as a number where it spells one. -/
def asNumber : Cell → Cell
  | text s => ((numberOf? s).map narrowed).getD (text s)
  | c => c

/-- The low six bits of the bytes that go on with a character, and what follows them. -/
def continuation : List UInt8 → List Nat × List UInt8
  | [] => ([], [])
  | b :: rest =>
    if b.toNat / 64 = 2 then
      let (more, rest) := continuation rest
      (b.toNat % 64 :: more, rest)
    else ([], b :: rest)

theorem continuation_length (data : List UInt8) : (continuation data).2.length ≤ data.length := by
  induction data with
  | nil => simp [continuation]
  | cons b rest ih => grind [continuation]

/-- The character that a leading byte begins, given the bits that follow it. -/
def leadCharacter (lead : Nat) (more : List Nat) : Char :=
  let mark := if lead < 0xE0 then lead % 32 else if lead < 0xF0 then lead % 16
    else if lead < 0xFC then lead % 8 else if lead < 0xFE then lead % 2 else 0
  let n := more.foldl (fun n bits => (n * 64 + bits) % Nat.pow 2 32) mark
  if n < 0x80 ∨ (0xD800 ≤ n ∧ n < 0xE000) ∨ n = 0xFFFE ∨ n = 0xFFFF ∨ n > 0x10FFFF then '\uFFFD'
  else Char.ofNat n

/-- The characters that bytes spell. A byte that begins no character stands for itself. -/
def charactersOfBytes : List UInt8 → List Char
  | [] => []
  | b :: rest =>
    if b.toNat < 0xC0 then Char.ofNat b.toNat :: charactersOfBytes rest
    else leadCharacter b.toNat (continuation rest).1 :: charactersOfBytes (continuation rest).2
termination_by data => data.length
decreasing_by
  · simp
  · have := continuation_length rest
    simp
    omega

/-- The text that bytes spell. -/
def textOfBytes (data : List UInt8) : String := String.ofList (charactersOfBytes data)

/-- The text of a cell; a null has none. -/
def text? : Cell → Option String
  | null => none
  | integer n => some (toString n)
  | real x => some x.briefText
  | text s => some s
  | blob data => some (textOfBytes data)

/-- A number as a text. -/
def asText : Cell → Cell
  | integer n => text (toString n)
  | real x => text x.briefText
  | c => c

/-- A whole number as a real. -/
def asReal : Cell → Cell
  | integer n => ofReal (Binary64.ofInt n)
  | c => c

end Cell

/-- What a column makes of cells. -/
inductive Affinity
  | integer
  | real
  | numeric
  | text
  | none
deriving DecidableEq, Repr

namespace Affinity

/-- Whether the affinity is towards numbers. -/
def isNumeric : Affinity → Bool
  | integer | real | numeric => true
  | _ => false

/-- The affinity that the name of a type speaks for. -/
def ofTypeName (name : String) : Affinity :=
  let lowered := (Text.lower name).toList
  let names := fun (word : String) => ColumnType.occurs word.toList lowered
  if names "int" then integer
  else if names "char" || names "clob" || names "text" then text
  else if names "blob" || name.isEmpty then none
  else if names "real" || names "floa" || names "doub" then real
  else numeric

/-- The affinity of a column that stores a type. Types of the application's own are stored like
numbers, whatever their names. -/
def ofType (t : ColumnType) : Affinity :=
  match t.storage with
  | .integer | .smallInteger | .bigInteger => integer
  | .float => real
  | .text _ | .choice .. | .uuid false => text
  | .binary true => none
  | _ => numeric

/-- A cell as a column of the affinity keeps it. -/
def stored (a : Affinity) (c : Cell) : Cell :=
  match a with
  | integer | numeric => c.asNumber.narrowed
  | real => c.asNumber.asReal
  | text => c.asText
  | none => c

/-- Two cells as they are compared, each with the affinity of the side that it stands on: a side
towards numbers makes numbers of the other, and a side towards texts makes texts of a side without
affinity. -/
def meet (a b : Affinity) (x y : Cell) : Cell × Cell :=
  if a.isNumeric && !b.isNumeric then (x, y.asNumber)
  else if b.isNumeric && !a.isNumeric then (x.asNumber, y)
  else if a = text && b = none then (x, y.asText)
  else if b = text && a = none then (x.asText, y)
  else (x, y)

/-- The order of two cells on sides with affinities; `none` when one of them is null. -/
def compare? (a b : Affinity) (x y : Cell) : Option Ordering :=
  if x.isNull || y.isNull then Option.none
  else
    let (x, y) := meet a b x y
    some (x.order y)

end Affinity
end RelGraph.Store
