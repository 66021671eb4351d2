import RelGraph.Sql.Condition
import RelGraph.Sql.Operand
import RelGraph.Store.Formula.Function
import RelGraph.Store.Binding
import RelGraph.Store.Truth
/-!
The truth of conditions on the cells of a row. Operands stand without an affinity; the column gives
its own to them.
-/
namespace RelGraph.Store

open Sql

/-- The affinity of a column. -/
def affinityOf (c : Column) : Affinity := Affinity.ofType c.declaration.type

/-- The order of a column's cell against an operand; `none` when one of them is null. -/
def operandOrder? (c : Column) (cell operand : Cell) : Option Ordering :=
  (affinityOf c).compare? .none cell operand

/-- Whether two characters are the same, the case of plain letters aside. -/
def sameLetter (a b : Char) : Bool := a.toLower == b.toLower

/-- For every suffix of a text, from the whole to the empty one, whether it matches a pattern: `%`
stands for any characters, `_` for any one. -/
def suffixMatches : List Char → List Char → List Bool
  | [], s => s.map (fun _ => false) ++ [true]
  | p :: rest, s =>
    let after := suffixMatches rest s
    if p = '%' then (after.reverse.foldl (fun found here =>
      (found.head?.getD false || here) :: found) ([] : List Bool))
    else (s.zip after.tail).map (fun (c, m) => (p = '_' || sameLetter p c) && m) ++ [false]

/-- Whether a text matches a pattern. -/
def matchesPattern (pattern s : List Char) : Bool := (suffixMatches pattern s).head?.getD false

/-- The characters that take part in a match: those before the first null character. -/
def matchedPart (s : String) : List Char := s.toList.takeWhile (· ≠ '\x00')

/-- The truth of a match of a text with a pattern. -/
def textTruth (s pattern : Option String) : Truth :=
  match s, pattern with
  | some s, some p => some (matchesPattern (matchedPart p) (matchedPart s))
  | _, _ => none

/-- Whether a cell holds bytes. -/
def isBlob : Cell → Bool
  | .blob _ => true
  | _ => false

/-- The truth of a match of a cell with a pattern; bytes match nothing. -/
def patternTruth (cell pattern : Cell) : Truth :=
  if isBlob cell || isBlob pattern then some false else textTruth cell.text? pattern.text?

/-- The truth of a match in any case: both sides become texts first. -/
def patternTruthAnyCase (cell pattern : Cell) : Truth := textTruth cell.text? pattern.text?

/-- The truth of an order that some test accepts. -/
def orderTruth (test : Ordering → Bool) (o : Option Ordering) : Truth := o.map test

/-- The truth of a column's cell being among operands. -/
def memberTruth (c : Column) (cell : Cell) (operands : List Cell) : Truth :=
  Truth.any (operands.map fun operand => orderTruth (· == .eq) (operandOrder? c cell operand))

/-- The cells of a list of operands. -/
def itemCells (c : Column) (v : Value) : List Cell :=
  let items := v.items?.getD []
  items.map (Binding.accepted (itemType c items))

/-- The cell of a single operand: a truth value is written out as a number, all others are bound. -/
def operandCell (c : Column) (v : Value) : Cell :=
  match v with
  | .bool b => .integer (if b then 1 else 0)
  | v => Binding.accepted (operandType c v) v

/-- The truth of a comparison of a column's cell. -/
def comparisonTruth (c : Column) (op : Operator) (v : Value) (cell : Cell) : Truth :=
  let ordered := fun (test : Ordering → Bool) =>
    orderTruth test (operandOrder? c cell (operandCell c v))
  match op with
  | .eq => ordered (· == .eq)
  | .ne => ordered (· != .eq)
  | .lt => ordered (· == .lt)
  | .lte => ordered (· != .gt)
  | .gt => ordered (· == .gt)
  | .gte => ordered (· != .lt)
  | .like => patternTruth cell (operandCell c v)
  | .notLike => (patternTruth cell (operandCell c v)).negate
  | .ilike => patternTruthAnyCase cell (operandCell c v)
  | .notIlike => (patternTruthAnyCase cell (operandCell c v)).negate
  | .inArray => memberTruth c cell (itemCells c v)
  | .notInArray => (memberTruth c cell (itemCells c v)).negate
  | .isNull => some cell.isNull
  | .isNotNull => some (!cell.isNull)

mutual

/-- The truth of a condition, given the cells of the columns that it is about. -/
def conditionTruth (read : Column → Cell) : Condition → Truth
  | .compare c op v => comparisonTruth c op v (read c)
  | .all items => Truth.all (conditionTruths read items)
  | .any items => Truth.any (conditionTruths read items)

/-- The truths of conditions. -/
def conditionTruths (read : Column → Cell) : List Condition → List Truth
  | [] => []
  | c :: rest => conditionTruth read c :: conditionTruths read rest

end

/-- Whether a comparison is a match with a pattern that is too long. Bytes are no pattern, unless
their case is changed first. -/
def isLongMatch (c : Column) (op : Operator) (v : Value) : Bool :=
  let operand := operandCell c v
  let isLong := operand.text?.any fun s => s.utf8ByteSize > Formula.patternLimit
  match op with
  | .like | .notLike => !isBlob operand && isLong
  | .ilike | .notIlike => isLong
  | _ => false

mutual

/-- Whether a condition is made of a match with a pattern that is too long. -/
def hasLongMatch : Condition → Bool
  | .compare c op v => isLongMatch c op v
  | .all items | .any items => haveLongMatch items

/-- Whether any of some conditions is made of such a match. -/
def haveLongMatch : List Condition → Bool
  | [] => false
  | c :: rest => hasLongMatch c || haveLongMatch rest

end

/-- Refuses to test rows by a condition that has a pattern that is too long, if there are any rows.
-/
def checkPatterns {α : Type} (condition : Option Condition) (rows : List α) : Except Refusal Unit :=
  if !rows.isEmpty && condition.any hasLongMatch then
    .error (.refused "LIKE or GLOB pattern too complex")
  else .ok ()

end RelGraph.Store
