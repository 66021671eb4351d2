import RelGraph.Members
/-!
Runs of rows that name the same columns, so that each run can be written by one statement. Rows that
name no column stand alone.
-/
namespace RelGraph.Store

variable {α : Type}

/-- The names of a row in a fixed order, which tells rows with the same columns. -/
def columnSet (row : Members α) : List String :=
  (Members.names row).mergeSort fun a b => decide (a ≤ b)

/-- Puts a row in front of the first run when it names the same columns, and before it otherwise. -/
def joinRun (row : Members α) : List (List (Members α)) → List (List (Members α))
  | (first :: others) :: runs =>
    if columnSet row ≠ [] ∧ columnSet row = columnSet first then (row :: first :: others) :: runs
    else [row] :: (first :: others) :: runs
  | runs => [row] :: runs

/-- Splits rows into runs that name the same columns, in order. -/
def runsOf (rows : List (Members α)) : List (List (Members α)) := rows.foldr joinRun []

end RelGraph.Store
