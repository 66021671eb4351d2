import RelGraph.Schema.ColumnType
import RelGraph.Fault
/-!
Declarations: the tables, mapped classes and relations from which a schema is loaded, and the
source expression that says which of them take part and under which names.
-/
namespace RelGraph

/-- A column of some table, by keys. -/
structure ColumnRef where
  table : String
  column : String
deriving DecidableEq, Repr, Inhabited

/-- What a foreign key says that it refers to: a declared column, or a column that nobody declared,
in a table that is there or in one that is not. -/
inductive Reference
  | column (ref : ColumnRef)
  | missingColumn (table : String)
  | missingTable
deriving DecidableEq, Repr, Inhabited

namespace Reference

/-- The column that is referred to; one that nobody declared is a mishap. -/
def resolve : Reference → Attempt ColumnRef
  | column ref => .ok ref
  | missingColumn _ => Attempt.mishap (.misdeclared .referencedColumnMissing)
  | missingTable => Attempt.mishap (.misdeclared .referencedTableMissing)

end Reference

/-- A foreign key: own columns with the columns that they refer to. -/
structure ForeignKey where
  pairs : List (String × Reference)
deriving DecidableEq, Repr, Inhabited

/-- When the database numbers a key column by itself: where the column suits it, on demand, also
where the column refers to another, or not at all. -/
inductive Numbering
  | whereSuited
  | demanded
  | besideReferences
  | never
deriving DecidableEq, Repr, Inhabited

/-- A declared column. `key` is the name by which the column is known, `name` the name that it has
in the database. A computed column has the expression that it is computed by. -/
structure ColumnDeclaration where
  key : String
  name : String
  type : ColumnType := .unknown
  primary : Bool := false
  nullable : Bool := true
  clientDefault : Option Value := none
  serverDefault : Option String := none
  identity : Bool := false
  computed : Option String := none
  numbering : Numbering := .whereSuited
  unique : Bool := false
  comment : Option String := none
  typeOverride : Value := .null
  descriptionOverride : Value := .null
deriving Repr, Inhabited

/-- Whether the database fills the column by itself. -/
def ColumnDeclaration.isFilled (c : ColumnDeclaration) : Bool :=
  c.clientDefault.isSome || c.serverDefault.isSome || c.identity || c.computed.isSome

/-- A relationship declared on a mapped class. -/
structure Relationship where
  name : String
  target : String
  toMany : Option Bool := none
  foreignKeys : List ColumnRef := []
  remoteSide : List ColumnRef := []
  through : Option String := none
  inverse : Option String := none
  readOnly : Bool := false
deriving Repr, Inhabited

/-- A declared table, with the class that it is mapped to, if any. -/
structure TableDeclaration where
  name : String
  columns : List ColumnDeclaration
  keys : List ForeignKey := []
  comment : Option String := none
  description : Value := .null
  model : Option String := none
  relationships : List Relationship := []
deriving Repr, Inhabited

/-- What a declaration points at: a table, a mapped class, or a name. -/
inductive Target
  | table (name : String)
  | model (name : String)
  | name (text : String)
deriving DecidableEq, Repr, Inhabited

/-- A declared relation; the pairs may be left open. -/
structure RelationDeclaration where
  name : String
  target : Target
  fields : Option (List String) := none
  references : Option (List String) := none
deriving Repr, Inhabited

/-- The relations declared for one plain table. -/
structure RelationSet where
  owner : Target
  toOne : List RelationDeclaration := []
  toMany : List RelationDeclaration := []
deriving Repr, Inhabited

/-- What a schema is loaded from. -/
inductive SchemaSource
  | mapping (entries : List (String × SchemaSource))
  | listing (entries : List SchemaSource)
  | table (name : String)
  | model (name : String)
  | allTables
  | mappedBase
  | relations (index : Nat)
  | other (value : Value)
deriving Repr, Inhabited

/-- A change of how columns appear, given before loading. -/
structure Override where
  target : Target
  withDescriptions : Bool
  entries : List (String × Value)
deriving Repr, Inhabited

/-- Everything that is declared. -/
structure Declarations where
  tables : List TableDeclaration := []
  relationSets : List RelationSet := []
deriving Repr, Inhabited

namespace TableDeclaration

/-- The declared column with a key. -/
def column? (t : TableDeclaration) (key : String) : Option ColumnDeclaration :=
  t.columns.find? (·.key = key)

/-- The key columns. -/
def primaryColumns (t : TableDeclaration) : List ColumnDeclaration := t.columns.filter (·.primary)

/-- The column that identifies a row: the only key column, or a column called `id` in a table
without a key. -/
def rowKey? (t : TableDeclaration) : Option String :=
  match t.primaryColumns with
  | [c] => some c.key
  | [] => (t.column? "id").map (·.key)
  | _ => none

/-- What the columns of the table refer to, with the columns that do. -/
def references (t : TableDeclaration) : List (String × Reference) := t.keys.flatMap (·.pairs)

/-- What a column refers to. -/
def referencesOf (t : TableDeclaration) (key : String) : List Reference :=
  (t.references.filter (·.1 = key)).map Prod.snd

/-- Whether the database can number a column that is declared so. A demand that the column's type
does not meet is a mishap. -/
def admitsNumbering (t : TableDeclaration) (c : ColumnDeclaration) : Attempt Bool :=
  let demanded := c.numbering == .demanded
  match c.type.numberScale? with
  | some scale =>
    if demanded && scale ≠ some 0 then Attempt.mishap (.misdeclared .numberingUnsuited)
    else .ok demanded
  | none =>
    if !c.type.isWhole then
      if demanded then Attempt.mishap (.misdeclared .numberingUnsuited) else .ok false
    else
      let filled := c.clientDefault.isSome || c.serverDefault.isSome || c.computed.isSome
      let refers := !(t.referencesOf c.key).isEmpty
      .ok (demanded || (c.numbering != .never && !filled &&
        (!refers || c.numbering == .besideReferences)))

/-- The key column that the database numbers by itself: the only one where it suits, and of several
the one for which it is demanded. -/
def numberedColumn? (t : TableDeclaration) : Attempt (Option String) :=
  match t.primaryColumns with
  | [c] => do return if ← t.admitsNumbering c then some c.key else none
  | cs => (cs.filter (·.numbering == .demanded)).foldlM (fun found c => do
      let _ ← t.admitsNumbering c
      if found.isSome then Attempt.mishap (.misdeclared .numberingTwice)
      else return some c.key) none

/-- The pairs of own column and column of another table that the foreign keys form. -/
def keysTo (t : TableDeclaration) (other : String) : Attempt (List (String × String)) := do
  let pairs ← t.references.mapM fun (own, reference) => do return (own, ← reference.resolve)
  return (pairs.filter (·.2.table = other)).map fun (own, ref) => (own, ref.column)

end TableDeclaration

namespace Declarations

/-- The declared table with a name. -/
def table? (d : Declarations) (name : String) : Option TableDeclaration :=
  d.tables.find? (·.name = name)

/-- The table that a class is mapped to; of several classes with one name, the last. -/
def modelTable? (d : Declarations) (model : String) : Option TableDeclaration :=
  d.tables.reverse.find? (·.model = some model)

/-- The table of the class that a relationship names; the name has to be that of one class. -/
def relatedTable (d : Declarations) (model : String) : Attempt TableDeclaration :=
  match d.tables.filter (·.model = some model) with
  | [t] => .ok t
  | _ => Attempt.mishap (.misdeclared .classUnknown)

end Declarations
end RelGraph
