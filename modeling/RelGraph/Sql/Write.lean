import RelGraph.Sql.Condition
/-!
Writes: the statements that insert, update and delete rows of one table. Each returns columns of
the rows that it wrote, the row key among them where the table has one.
-/
namespace RelGraph.Sql

/-- Inserts rows. Each row gives values for columns by key. -/
structure Insert where
  table : Table
  rows : List (Members Value)
deriving Repr, Inhabited

/-- Sets columns of the rows that meet a condition. -/
structure Update where
  table : Table
  values : Members Value
  condition : Option Condition
deriving Repr, Inhabited

/-- Deletes the rows that meet a condition. -/
structure Delete where
  table : Table
  condition : Option Condition
  columns : List Column
deriving Repr, Inhabited

/-- The names of the columns that a write returns: the given ones, and the row key. -/
def returnedNames (t : Table) (names : List String) : List String :=
  match t.rowKey with
  | some key => if names.contains key then names else names ++ [key]
  | none => names

/-- The columns that a write returns. -/
def returned (t : Table) (names : List String) : List Column :=
  (returnedNames t names).filterMap t.column?

/-- Fails when values are given for what is no column of a table. -/
def checkNames (t : Table) (values : Members Value) : Attempt Unit :=
  match (Members.names values).filter fun name => !t.hasColumn name with
  | [] => .ok ()
  | names => Attempt.mishap (.statementMalformed
      ("Unconsumed column names: " ++ String.intercalate ", " names))

namespace Insert

/-- Whether any row gives a value. -/
def hasValues (s : Insert) : Bool := s.rows.any fun row => !row.isEmpty

/-- The columns that the rows give, in table order; the first row speaks for all. -/
def given (s : Insert) : List Column :=
  let names := Members.names (s.rows.head?.getD [])
  s.table.columns.filter fun c => names.contains c.name

/-- The columns that no row gives and that have a default of the application's. -/
def defaulted (s : Insert) : List Column :=
  let names := Members.names (s.rows.head?.getD [])
  s.table.columns.filter fun c => !names.contains c.name && c.declaration.clientDefault.isSome

/-- The statement that inserts rows. What the first row gives has to be columns of the table, and
every other row has to give them as well, unless the application has a default for them. -/
def ofRows (t : Table) (rows : List (Members Value)) : Attempt Insert := do
  let s : Insert := ⟨t, rows⟩
  checkNames t (rows.head?.getD [])
  for row in rows.tail do
    match s.given.find? fun c => !Members.has row c.name && c.declaration.clientDefault.isNone with
    | some c => Attempt.mishap (.statementMalformed (
        s!"INSERT value for column {t.name}.{c.name} is explicitly rendered as a bound" ++
          "parameter in the VALUES clause; a default of the application's is required"))
    | none => pure ()
  return s

end Insert

namespace Update

/-- The statement that sets columns of the rows for which a predicate holds. -/
def ofPredicate (t : Table) (values : Members Value) (p : Option Predicate) : Attempt Update := do
  let condition ← Condition.ofPredicate? t p
  checkNames t values
  return ⟨t, values, condition⟩

/-- The columns that are set, in table order. -/
def assigned (s : Update) : List (Column × Value) :=
  s.table.columns.filterMap fun c => (Members.get? s.values c.name).map (c, ·)

/-- The name of a parameter that a condition needs as well as the values that are set, which go by
the names of their columns. Such a statement is refused. -/
def sharedName? (s : Update) : Option String :=
  let names := ((s.condition.map Condition.parameterNames).getD [])
  names.find? fun name => s.assigned.any fun (c, _) => c.name = name

/-- What is said of a statement in which two parameters would have one name. -/
def sharedNameMessage (name : String) : String :=
  s!"Bind parameter '{name}' conflicts with unique bind parameter of the same name"

/-- Refuses a statement in which two parameters would have one name. -/
def checkParameters (s : Update) : Attempt Unit :=
  match s.sharedName? with
  | some name => Attempt.mishap (.statementMalformed (sharedNameMessage name))
  | none => .ok ()

end Update

/-- The statement that deletes the rows for which a predicate holds and returns some columns. -/
def Delete.ofPredicate (t : Table) (p : Option Predicate) (names : List String) :
    Attempt Delete := do
  let condition ← Condition.ofPredicate? t p
  let columns ← (returnedNames t names).mapM t.column
  return ⟨t, condition, columns⟩

end RelGraph.Sql
