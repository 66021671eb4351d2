import RelGraph.Schema.Declaration
import RelGraph.Members
import RelGraph.Fault
/-!
The registry: the typed view of a loaded schema. Every table has its columns, its relations by name
and, where there is one, the column that identifies its rows.
-/
namespace RelGraph

/-- A column as the API sees it. -/
structure Column where
  name : String
  kind : ColumnKind
  nullable : Bool
  hasDefault : Bool
  declaration : ColumnDeclaration
  typeOverride : Value := .null
  description : Value := .null
deriving Repr, Inhabited

/-- A navigable link from the `fields` of one table to the `references` of another. -/
structure Relation where
  name : String
  toMany : Bool
  source : String
  target : String
  fields : List String
  references : List String
deriving DecidableEq, Repr, Inhabited

namespace Relation

/-- The pairs of source column and target column that join two rows. -/
def pairs (r : Relation) : List (String × String) := r.fields.zip r.references

/-- The name of the relation's cardinality. -/
def cardinality (r : Relation) : String := if r.toMany then "many" else "one"

end Relation

/-- A table of the registry. -/
structure Table where
  name : String
  declaration : TableDeclaration
  columns : List Column
  relations : Members Relation := []
  rowKey : Option String := none
  description : Value := .null
  model : Option String := none
deriving Repr, Inhabited

namespace Table

/-- The column with a name. -/
def column? (t : Table) (name : String) : Option Column := t.columns.find? (·.name = name)

/-- The column with a name; a missing one is a mishap. -/
def column (t : Table) (name : String) : Attempt Column :=
  match t.column? name with
  | some c => .ok c
  | none => Attempt.mishap (.keyMissing name)

/-- Whether the table has a column of a name. -/
def hasColumn (t : Table) (name : String) : Bool := (t.column? name).isSome

/-- The relation with a name. -/
def relation? (t : Table) (name : String) : Option Relation := Members.get? t.relations name

end Table

/-- The tables of a schema by name, in the order in which they were loaded. -/
structure Registry where
  tables : Members Table := []
deriving Repr, Inhabited

namespace Registry

/-- The table with a name. -/
def table? (r : Registry) (name : String) : Option Table := Members.get? r.tables name

/-- The table with a name; a missing one is a mishap. -/
def table (r : Registry) (name : String) : Attempt Table :=
  match r.table? name with
  | some t => .ok t
  | none => Attempt.mishap (.keyMissing s!"Unknown table '{name}'")

/-- All tables in order. -/
def all (r : Registry) : List Table := Members.values r.tables

end Registry

/-- A value where it counts as given, and else a text that may be absent. -/
def givenOr (v : Value) (other : Option String) : Value :=
  if v.truthy then v else (other.map Value.text).getD .null

/-- The text of a value that counts as given. -/
def givenText? (v : Value) : Option String := if v.truthy then some v.display else none

/-- Whether a column of a table gets its value by itself when none is given. -/
def TableDeclaration.hasDefault (t : TableDeclaration) (c : ColumnDeclaration) : Attempt Bool :=
  if c.isFilled then .ok true
  else if c.primary then do return (← t.numberedColumn?) == some c.key
  else .ok false

/-- A declared column as the API sees it. -/
def Column.ofDeclaration (t : TableDeclaration) (c : ColumnDeclaration) : Attempt Column := do
  let hasDefault ← t.hasDefault c
  return { name := c.key
           kind := c.type.kind
           nullable := c.nullable
           hasDefault := hasDefault
           declaration := c
           typeOverride := c.typeOverride
           description := givenOr c.descriptionOverride c.comment }

/-- A declared table as the API sees it, before it has relations. -/
def Table.ofDeclaration (name : String) (t : TableDeclaration) (model : Option String) :
    Attempt Table := do
  let columns ← t.columns.mapM (Column.ofDeclaration t)
  return { name := name
           declaration := t
           columns := columns
           rowKey := t.rowKey?
           description := givenOr t.description t.comment
           model := model }

end RelGraph
