import RelGraph.Schema.Dependency
import RelGraph.Store.Formula.Admission
/-!
What a store takes as tables. Names of tables and of columns must be told apart without the case of
letters, every column needs a type that can be stored, foreign keys must lead to columns, and the
formulas of columns must be such that a table can have them. One table that is not taken stands in
the way of all.
-/
namespace RelGraph.Store

/-- The first name that occurs again later, the case of plain letters aside. -/
def nameTakenTwice? : List String → Option String
  | [] => none
  | name :: rest => if rest.any (Formula.sameName name) then some name else nameTakenTwice? rest

/-- The names of a table's columns, as they are stored. -/
def columnNames (t : TableDeclaration) : List String := t.columns.map (·.name)

/-- The formula that a column is computed by; nothing for columns that hold what is written. -/
def computedBy? (t : TableDeclaration) (c : ColumnDeclaration) : Option Formula :=
  c.computed.bind (Formula.computed? (columnNames t))

/-- The computed columns of a table, each with the computed columns that it depends on. -/
def computedDependencies (t : TableDeclaration) : Dependencies :=
  let computed := t.columns.filter (·.computed.isSome)
  let names := computed.map (·.name)
  computed.map fun c =>
    (c.name, (((computedBy? t c).map Formula.names).getD []).filter names.contains)

/-- Why a store does not take a column, if it does not. -/
def columnFault? (t : TableDeclaration) (c : ColumnDeclaration) : Option String :=
  if c.serverDefault.any fun s => (Formula.default? s).isNone then
    some s!"default value of column [{c.name}] is not constant"
  else if c.computed.isSome && (computedBy? t c).isNone then
    some s!"error in generated column \"{c.name}\""
  else if c.computed.isSome && c.primary then
    some "generated columns cannot be part of the PRIMARY KEY"
  else none

/-- Why a store that has tables already does not take a table, if it does not. -/
def tableFault? (taken : List String) (t : TableDeclaration) : Option String :=
  if "sqlite_".toList.isPrefixOf (t.name.map Char.toLower).toList then
    some s!"object name reserved for internal use: {t.name}"
  else if taken.any (Formula.sameName t.name) then some s!"table {t.name} already exists"
  else match nameTakenTwice? (columnNames t), t.columns.findSome? (columnFault? t) with
    | some name, _ => some s!"duplicate column name: {name}"
    | none, some reason => some reason
    | none, none =>
      if t.columns.all (·.computed.isSome) then
        some "must have at least one non-generated column"
      else if (computedDependencies t).any fun c => (computedDependencies t).isCircular c.1 then
        some "generated column loop"
      else none

/-- Creates a table in a store that has tables already. -/
def createTable (taken : List String) (t : TableDeclaration) : Attempt (List String) := do
  if t.columns.any (!·.type.isStorable) then Attempt.mishap (.statementMalformed "")
  for (_, reference) in t.references do
    let _ ← reference.resolve
  match tableFault? taken t with
  | some reason => Attempt.mishap (.refusedByStore reason)
  | none => return taken ++ [t.name]

/-- Creates the declared tables, each after those that it refers to. -/
def create (d : Declarations) : Attempt Unit := do
  for t in d.tables do
    for k in t.keys do
      let _ ← k.target?
  let _ ← (← d.byDependency).foldlM createTable []

end RelGraph.Store
