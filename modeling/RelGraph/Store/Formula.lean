import RelGraph.Store.Cell
/-!
Formulas: what a table says of the default of a column, or of the value that a column is computed
by. A formula is made of constants, names of columns, operators and calls of functions.
-/
namespace RelGraph.Store

namespace Formula

/-- Operators with one operand. The last two ask whether an operand is true, or false, and give an
answer also where it is null. -/
inductive Unary
  | plus
  | minus
  | complement
  | not
  | isNull
  | isNotNull
  | isTruth (value : Bool)
  | isNotTruth (value : Bool)
deriving DecidableEq, Repr, Inhabited

/-- Operators that reckon with two operands, or join them. -/
inductive Arithmetic
  | add
  | subtract
  | multiply
  | divide
  | remainder
  | bitAnd
  | bitOr
  | shiftLeft
  | shiftRight
  | concatenate
deriving DecidableEq, Repr, Inhabited

/-- Operators that compare two operands. The last two take nulls for values like any other. -/
inductive Relation
  | equal
  | unequal
  | less
  | atMost
  | greater
  | atLeast
  | same
  | different
deriving DecidableEq, Repr, Inhabited

/-- Operators with two operands. -/
inductive Binary
  | both
  | either
  | arithmetic (op : Arithmetic)
  | relation (op : Relation)
deriving DecidableEq, Repr, Inhabited

end Formula

/-- A formula. A name may stand between double quotes, where it may be a text. A branch of a choice
is a condition with a value; what the branches are compared with comes before them, and what holds
otherwise behind them. Operators that other databases write as functions are calls. -/
inductive Formula
  | constant (c : Cell)
  | wideNumber (written : String)
  | truth (value : Bool)
  | name (text : String) (doubleQuoted : Bool)
  | unary (op : Formula.Unary) (operand : Formula)
  | binary (op : Formula.Binary) (left right : Formula)
  | between (negated : Bool) (operand low high : Formula)
  | among (negated : Bool) (operand : Formula) (items : List Formula)
  | choice (operand : Option Formula) (branches : List (Formula × Formula))
      (otherwise : Option Formula)
  | cast (operand : Formula) (affinity : Affinity)
  | collate (operand : Formula) (collation : String)
  | call (function : String) (arguments : List Formula)
deriving Repr, Inhabited

namespace Formula

/-- The opposite of a formula where it is to be negated. -/
def negatedIf (negated : Bool) (f : Formula) : Formula := if negated then unary .not f else f

end Formula
end RelGraph.Store
