import RelGraph.Filter
import RelGraph.Ordering
import RelGraph.Sql.Operand
/-!
Conditions of statements: predicates whose columns are looked up in the table that they are about.
A column is compared with a truth value by equality only; any other comparison is refused before a
statement exists.
-/
namespace RelGraph.Sql

/-- A condition on the rows of one source. -/
inductive Condition
  | compare (column : Column) (op : Operator) (value : Value)
  | all (items : List Condition)
  | any (items : List Condition)
deriving Repr, Inhabited

namespace Condition

/-- Whether an operator may compare a column with a value. -/
def admits (op : Operator) : Value → Bool
  | .bool _ => op = .eq || op = .ne
  | _ => true

/-- Rows of values as a statement lists them. The values of all rows stand in one row of parameters,
from which each row takes as many as it has, at a place that its own length decides. -/
def listedRows (items : List Value) : Attempt Value := do
  let rows ← items.mapM Shape.parts
  let listed ← rows.zipIdx.mapM fun (row, i) =>
    (List.range row.length).mapM fun j =>
      match rows.flatten[i * row.length + j]? with
      | some v => Except.ok v
      | none => Attempt.mishap (.positionMissing "list")
  return .tuple (listed.map Value.tuple)

/-- The operand of a comparison as a statement takes it. -/
def operand (c : Column) (op : Operator) (value : Value) : Attempt Value :=
  match value.items? with
  | some items => if op.takesList && listsRows c items then listedRows items else .ok value
  | none => .ok value

mutual

/-- The condition that a predicate states of a table. -/
def ofPredicate (t : Table) : Predicate → Attempt Condition
  | .compare name op value => do
    let c ← t.column name
    if admits op value then return .compare c op (← operand c op value)
    else Attempt.mishap .literalComparison
  | .all items => do return .all (← ofPredicates t items)
  | .any items => do return .any (← ofPredicates t items)

/-- The conditions that predicates state of a table. -/
def ofPredicates (t : Table) : List Predicate → Attempt (List Condition)
  | [] => .ok []
  | p :: rest => do
    let c ← ofPredicate t p
    let rest ← ofPredicates t rest
    return c :: rest

end

/-- Whether a comparison has a parameter: tests for null have none, and truth values are written
out. -/
def hasParameter (op : Operator) : Value → Bool
  | .bool _ => false
  | _ => op != .isNull && op != .isNotNull

mutual

/-- The keys of the columns that parameters of a condition are compared with, in order. -/
def parameterKeys : Condition → List String
  | .compare c op v => if hasParameter op v then [c.name] else []
  | .all items | .any items => allParameterKeys items

/-- The keys of the columns that parameters of conditions are compared with. -/
def allParameterKeys : List Condition → List String
  | [] => []
  | c :: rest => parameterKeys c ++ allParameterKeys rest

end

/-- Whether a character does not stand in the name of a parameter. -/
def isAside (c : Char) : Bool := "%() $".contains c

/-- The stem of the names of parameters for a column: characters that do not stand in names become
one underscore for each stretch, and none is left at the ends. -/
def parameterStem (key : String) : String :=
  let plain := (key.toList.splitBy fun a b => isAside a == isAside b).flatMap fun stretch =>
    if stretch.any isAside then ['_'] else stretch
  let trimmed := (plain.dropWhile (· = '_')).reverse.dropWhile (· = '_')
  String.ofList trimmed.reverse

/-- The names of parameters with stems in order: the stem and how often it has come up. -/
def numberedNames : List String → List String → List String
  | _, [] => []
  | before, stem :: rest =>
    (stem ++ "_" ++ toString (before.count stem + 1)) :: numberedNames (stem :: before) rest

/-- The names of the parameters of a condition. -/
def parameterNames (c : Condition) : List String :=
  numberedNames [] (c.parameterKeys.map parameterStem)

/-- The condition of an optional predicate. -/
def ofPredicate? (t : Table) : Option Predicate → Attempt (Option Condition)
  | none => .ok none
  | some p => do return some (← ofPredicate t p)

end Condition

/-- A sort key of a statement. -/
structure SortKey where
  column : Column
  direction : Direction
deriving Repr, Inhabited

/-- The sort keys of an order. -/
def SortKey.ofOrder (t : Table) (entries : List OrderEntry) : Attempt (List SortKey) :=
  entries.mapM fun e => do return ⟨← t.column e.column, e.direction⟩

end RelGraph.Sql
