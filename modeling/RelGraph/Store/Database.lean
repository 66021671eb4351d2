import RelGraph.Sql.Write
import RelGraph.Store.Capacity
import RelGraph.Store.Comparison
import RelGraph.Store.Creation
/-!
Databases: for every table its rows, each under a number, in the order of their numbers. Writes keep
the constraints of the table: columns that may not be null, and columns whose values may not repeat;
computed columns follow the others. A write either gives a new database or is refused and leaves the
old one as it was.
-/
namespace RelGraph.Store

open Sql

/-- A row of a table: its number, and its cells under the names of the stored columns. -/
structure StoredRow where
  number : Int
  cells : Members Cell
deriving DecidableEq, Repr, Inhabited

/-- The rows of all tables by the tables' names, in the order of their numbers. -/
structure Database where
  tables : Members (List StoredRow) := []
deriving DecidableEq, Repr, Inhabited

namespace Database

/-- The rows of a table. -/
def rows (db : Database) (t : Table) : List StoredRow :=
  (Members.get? db.tables t.declaration.name).getD []

/-- The database with other rows in a table. -/
def setRows (db : Database) (t : Table) (rows : List StoredRow) : Database :=
  ⟨Members.put db.tables t.declaration.name rows⟩

end Database

namespace StoredRow

/-- The cell of a column. -/
def cell (r : StoredRow) (c : Column) : Cell :=
  (Members.get? r.cells c.declaration.name).getD .null

end StoredRow

/-- The result of a write: the database after it, and the rows that it wrote or removed. -/
abbrev Written := Except Refusal (Database × List StoredRow)

/-- Whether a column is the number of its row: the only key column, of whole numbers. -/
def isRowNumber (t : Table) (c : Column) : Bool :=
  match t.declaration.primaryColumns, c.declaration.type.storage with
  | [key], .integer => key.key = c.name
  | _, _ => false

/-- Whether a column may not be null. The number of a row is never null. -/
def isRequired (t : Table) (c : Column) : Bool := !c.declaration.nullable && !isRowNumber t c

/-- The groups of columns whose values together may not repeat, in the order in which they are
looked at: the number of the row, then single columns from the last to the first, then the key. -/
def uniqueGroups (t : Table) : List (List Column) :=
  let key := t.columns.filter (·.declaration.primary)
  let singles := (t.columns.filter (·.declaration.unique)).reverse.map fun c => [c]
  if key.isEmpty then singles
  else if key.any (isRowNumber t) then key :: singles
  else singles ++ [key]

/-- A column as constraint messages name it. -/
def constraintName (t : Table) (c : Column) : String :=
  t.declaration.name ++ "." ++ c.declaration.name

/-- Columns as constraint messages name them. -/
def constraintNames (t : Table) (cs : List Column) : String :=
  String.intercalate ", " (cs.map (constraintName t))

/-- Whether two rows repeat the values of columns; a null repeats nothing. -/
def repeats (cs : List Column) (a b : StoredRow) : Bool :=
  cs.all fun c => !(a.cell c).isNull && (a.cell c).order (b.cell c) == .eq

/-- What a row violates among other rows, if anything. -/
def violation? (t : Table) (others : List StoredRow) (r : StoredRow) : Option String :=
  match t.columns.find? fun c => isRequired t c && (r.cell c).isNull with
  | some c => some ("NOT NULL constraint failed: " ++ constraintName t c)
  | none =>
    match (uniqueGroups t).find? fun cs => others.any (repeats cs r) with
    | some cs => some ("UNIQUE constraint failed: " ++ constraintNames t cs)
    | none => none

/-- Puts a row among others in the order of the numbers. -/
def placeRow (r : StoredRow) (rows : List StoredRow) : List StoredRow :=
  rows.takeWhile (fun other => other.number < r.number) ++
    r :: rows.dropWhile fun other => other.number < r.number

/-- The number for a row that comes without one. -/
def nextNumber (rows : List StoredRow) : Int :=
  match rows.getLast? with
  | some r => r.number + 1
  | none => 1

/-- A cell of a column as it is stored. -/
def storedCell (c : Column) (cell : Cell) : Cell := (affinityOf c).stored cell

/-- The number that the cells of a row give it, when a column stands for it. A cell that is neither
a number nor null is refused. -/
def givenNumber (t : Table) (cells : Members Cell) : Except Refusal (Option Int) :=
  match t.columns.find? (isRowNumber t) with
  | none => .ok none
  | some c =>
    match (Members.get? cells c.declaration.name).getD .null with
    | .integer n => .ok (some n)
    | .null => .ok none
    | _ => .error (.refused "datatype mismatch")

/-- The cells with the number of the row in the column that stands for it. -/
def numbered (t : Table) (number : Int) (cells : Members Cell) : Members Cell :=
  match t.columns.find? (isRowNumber t) with
  | none => cells
  | some c => Members.put cells c.declaration.name (.integer number)

/-! ## Computed columns -/

/-- The cells of a row as formulas see them. -/
def surroundings (t : Table) (cells : Members Cell) : Formula.Surroundings where
  cell name := (Members.get? cells name).getD .null
  affinity name :=
    ((t.columns.find? (·.declaration.name = name)).map affinityOf).getD .none
  isLasting := true

/-- The cell of a computed column, given the cells that it depends on. -/
def computedCell (t : Table) (cells : Members Cell) (c : Column) : Except Refusal Cell :=
  match computedBy? t.declaration c.declaration with
  | none => .ok .null
  | some f =>
    match f.value (surroundings t cells) with
    | .ok g => .ok (storedCell c g.cell)
    | .error message => .error (.unworkable message)

/-- Computes the cells of columns, first of those that depend on no others among them. -/
def computeCells (t : Table) : Nat → List Column → Members Cell → Except Refusal (Members Cell)
  | 0, _, cells => .ok cells
  | rounds + 1, columns, cells => do
    let open_ := columns.map (·.declaration.name)
    let (later, now) := columns.partition fun c =>
      (((computedBy? t.declaration c.declaration).map Formula.names).getD []).any open_.contains
    let cells ← now.foldlM (fun cells c => do
      return Members.put cells c.declaration.name (← computedCell t cells c)) cells
    if later.isEmpty then return cells else computeCells t rounds later cells

/-- The computed columns of a table. -/
def computedColumns (t : Table) : List Column := t.columns.filter (·.declaration.computed.isSome)

/-- The cells of a row with those that are computed. -/
def withComputed (t : Table) (cells : Members Cell) : Except Refusal (Members Cell) :=
  computeCells t (computedColumns t).length (computedColumns t) cells

/-- Refuses to write columns of which one is computed. -/
def refuseComputed (verb : String) (columns : List Column) : Except Refusal Unit :=
  match columns.find? (·.declaration.computed.isSome) with
  | some c => .error (.unworkable s!"cannot {verb} generated column \"{c.declaration.name}\"")
  | none => .ok ()

namespace Insert

/-- The columns that an insert binds parameters for, in order. -/
def bound (s : Insert) : List Column := s.given ++ s.defaulted

/-- Whether an insert binds a parameter for a column. -/
def binds (s : Insert) (c : Column) : Bool := (bound s).any (·.name = c.name)

/-- The value that a row has for a column: what it gives, or the default of the application's. -/
def valueFor (row : Members Value) (c : Column) : Value :=
  (Members.get? row c.name).getD (c.declaration.clientDefault.getD .null)

/-- The parameters of an insert. -/
def parameters (s : Insert) : List (Value × ColumnType) :=
  s.rows.flatMap fun row => (bound s).map fun c => (valueFor row c, c.declaration.type)

/-- The formula that a column of a new row gets its cell from, if it does. The number of a row does
not come from a formula. -/
def defaultFormula? (s : Insert) (c : Column) : Option Formula :=
  if binds s c || isRowNumber s.table c then none
  else c.declaration.serverDefault.bind Formula.default?

/-- The cell of a new row in a column: what is bound, or the default of the database's. -/
def newCell (s : Insert) (row : Members Value) (c : Column) : Except Refusal Cell :=
  if binds s c then
    .ok (storedCell c (Binding.accepted c.declaration.type (valueFor row c)))
  else match defaultFormula? s c with
    | none => .ok .null
    | some f =>
      match f.value {} with
      | .ok g => .ok (storedCell c g.cell)
      | .error message => .error (.unworkable message)

/-- The cells of a new row, before any are computed. -/
def newCells (s : Insert) (row : Members Value) : Except Refusal (Members Cell) :=
  s.table.columns.mapM fun c => do return (c.declaration.name, ← newCell s row c)

/-- Refuses an insert that cannot be run for any rows: it writes a computed column, or needs a
default that cannot be reckoned. -/
def check (s : Insert) : Except Refusal Unit := do
  refuseComputed "INSERT into" (s.table.columns.filter (binds s))
  match s.table.columns.findSome? fun c => (defaultFormula? s c).bind Formula.flaw? with
  | some message => .error (.unworkable message)
  | none => return ()

/-- Adds one row. -/
def addRow (s : Insert) (rows : List StoredRow) (row : Members Value) :
    Except Refusal (List StoredRow × StoredRow) := do
  let cells ← newCells s row
  let number := (← givenNumber s.table cells).getD (nextNumber rows)
  let cells ← withComputed s.table (numbered s.table number cells)
  let new : StoredRow := ⟨number, cells⟩
  match violation? s.table rows new with
  | some message => .error (.refused message)
  | none => return (placeRow new rows, new)

/-- Adds rows one by one; the new rows in order. -/
def addRows (s : Insert) (rows : List StoredRow) :
    List (Members Value) → Except Refusal (List StoredRow × List StoredRow)
  | [] => .ok (rows, [])
  | row :: rest => do
    let (rows, new) ← addRow s rows row
    let (rows, news) ← addRows s rows rest
    return (rows, new :: news)

/-- Runs an insert. -/
def run (db : Database) (s : Insert) : Written := do
  let _ ← Binding.bind (check s) (parameters s)
  let (rows, news) ← addRows s (db.rows s.table) s.rows
  return (db.setRows s.table rows, news)

end Insert

/-- The truth of a condition on a row. -/
def rowTruth (condition : Option Condition) (r : StoredRow) : Truth :=
  match condition with
  | none => some true
  | some c => conditionTruth r.cell c

namespace Update

/-- The cells of a row after an update. -/
def changedCells (s : Update) (r : StoredRow) : Members Cell :=
  Members.update r.cells (s.assigned.map fun (c, v) =>
    (c.declaration.name, storedCell c (Binding.accepted c.declaration.type v)))

/-- A row after an update. -/
def changedRow (s : Update) (r : StoredRow) : Except Refusal StoredRow := do
  let cells := changedCells s r
  match s.table.columns.find? (isRowNumber s.table) with
  | none => return ⟨r.number, ← withComputed s.table cells⟩
  | some _ =>
    match ← givenNumber s.table cells with
    | some number => return ⟨number, ← withComputed s.table cells⟩
    | none => .error (.refused "datatype mismatch")

/-- Changes one row among all. -/
def changeRow (s : Update) (rows : List StoredRow) (r : StoredRow) :
    Except Refusal (List StoredRow × StoredRow) := do
  let new ← changedRow s r
  let others := rows.filter fun other => other.number ≠ r.number
  match violation? s.table others new with
  | some message => .error (.refused message)
  | none => return (placeRow new others, new)

/-- Changes rows one by one; the changed rows in order. -/
def changeRows (s : Update) (rows : List StoredRow) :
    List StoredRow → Except Refusal (List StoredRow × List StoredRow)
  | [] => .ok (rows, [])
  | r :: rest => do
    let (rows, new) ← changeRow s rows r
    let (rows, news) ← changeRows s rows rest
    return (rows, new :: news)

/-- The rows that an update is about. -/
def chosen (db : Database) (s : Update) : List StoredRow :=
  (db.rows s.table).filter fun r => (rowTruth s.condition r).holds

/-- Refuses an update that cannot be run for any rows: it is too large, or sets a computed column.
-/
def check (s : Update) : Except Refusal Unit := do
  checkSize s
  refuseComputed "UPDATE" (s.assigned.map Prod.fst)

/-- Runs an update whose parameters are accepted. -/
def run (db : Database) (s : Update) : Written := do
  checkPatterns s.condition (db.rows s.table)
  let (rows, news) ← changeRows s (db.rows s.table) (chosen db s)
  return (db.setRows s.table rows, news)

end Update

namespace Delete

/-- Runs a deletion whose parameters are accepted. -/
def run (db : Database) (s : Delete) : Written := do
  checkPatterns s.condition (db.rows s.table)
  let (gone, kept) := (db.rows s.table).partition fun r => (rowTruth s.condition r).holds
  return (db.setRows s.table kept, gone)

end Delete

end RelGraph.Store
