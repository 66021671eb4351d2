import RelGraph.Store.Database
/-!
Routes: in which order a statement comes by the rows of a table. It reads them by their numbers, or
along an index, in the order of the cells of its columns; or it goes through conditions of which a
row has to meet one, and comes by the rows that meet the first, then by others that meet the second,
and so on. A route never changes which rows there are.
-/
namespace RelGraph.Store

open Sql

/-- A way through the rows of a table, backwards if it is `reversed`. -/
inductive Route
  | byNumber (reversed : Bool)
  | along (columns : List Column) (reversed : Bool)
  | byCondition (ways : List (Condition × Route))
deriving Repr, Inhabited

namespace Route

/-- The order of two rows in an index of columns: by their cells, then by their numbers. -/
def indexOrder (columns : List Column) (a b : StoredRow) : Ordering :=
  columns.foldr (fun c rest => ((a.cell c).order (b.cell c)).then rest) (compare a.number b.number)

/-- Rows in one direction or the other. -/
def directed (reversed : Bool) (rows : List StoredRow) : List StoredRow :=
  if reversed then rows.reverse else rows

mutual

/-- The rows of a table, given in the order of their numbers, as the route comes by them. -/
def arrange (rows : List StoredRow) : Route → List StoredRow
  | byNumber reversed => directed reversed rows
  | along columns reversed =>
    directed reversed (rows.mergeSort fun a b => (indexOrder columns a b).isLE)
  | byCondition ways => arrangeWays rows ways

/-- The rows that meet conditions, each by the route of the first that it meets, and the others. -/
def arrangeWays (rows : List StoredRow) : List (Condition × Route) → List StoredRow
  | [] => rows
  | (c, route) :: rest =>
    let (met, others) := rows.partition fun r => (rowTruth (some c) r).holds
    arrange met route ++ arrangeWays others rest

end

end Route
end RelGraph.Store
