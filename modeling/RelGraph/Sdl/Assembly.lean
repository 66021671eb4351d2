import RelGraph.Typing
import RelGraph.Config
/-!
The definitions of a schema's API: for every table an object type, inputs for inserts, updates,
filters and orders, and the root fields; before them the scalars, enums and filter inputs that they
need. A schema whose names clash is refused. Root fields and the fields of relations have resolvers
of their own, which are found by the name of the type and that of the field.
-/
namespace RelGraph.Sdl

open Naming (Operation typeName rootField)

/-- The names that no table's type may have. -/
def reservedTypeNames : List String :=
  ["Query", "Mutation", "Subscription", "OrderByDirection", "InnerOrder", "String", "Int", "Float",
    "Boolean", "ID"]

/-- The operators that compare with one value of the column's type. -/
def comparisonOperators : List String := ["eq", "ne", "lt", "lte", "gt", "gte"]

/-- The operators that compare with a pattern. -/
def patternOperators : List String := ["like", "notLike", "ilike", "notIlike"]

/-- The name of a table's filter input. -/
def filtersName (table : String) : String := typeName table ++ "Filters"

/-- The name of a table's order input. -/
def orderByName (table : String) : String := typeName table ++ "OrderBy"

/-- The name of a table's input for new rows. -/
def insertInputName (table : String) : String := typeName table ++ "InsertInput"

/-- The name of a table's input for changes. -/
def updateInputName (table : String) : String := typeName table ++ "UpdateInput"

/-- A list of filter branches. -/
def branches (name : String) : TypeRef := .list (.nonNull (.named name))

/-- The filter input of a base type. -/
def filterInput (name : String) (base : TypeRef) : Definition :=
  .input name (
    comparisonOperators.map (fun op => { name := op, type := base }) ++
    patternOperators.map (fun op => { name := op, type := .named "String" }) ++
    [{ name := "inArray", type := .list (.nonNull base) },
      { name := "notInArray", type := .list (.nonNull base) },
      { name := "isNull", type := .named "Boolean" },
      { name := "isNotNull", type := .named "Boolean" },
      { name := "OR", type := branches name }])

/-- The directions of an order. -/
def orderDirection : Definition := .enum "OrderByDirection" ["asc", "desc"]

/-- One entry of an order. -/
def innerOrder : Definition :=
  .input "InnerOrder" [{ name := "direction", type := .nonNull (.named "OrderByDirection") },
    { name := "priority", type := .nonNull (.named "Int") }]

/-- Threads a book through a list. -/
def mapBook {α β : Type} (f : TypeBook → α → β × TypeBook) : TypeBook → List α → List β × TypeBook
  | b, [] => ([], b)
  | b, x :: rest =>
    let (y, b) := f b x
    let (ys, b) := mapBook f b rest
    (y :: ys, b)

/-- The fields of a table's columns at a position. -/
def columnFields (t : Table) (position : TypePosition) (b : TypeBook) : List Field × TypeBook :=
  mapBook (fun b c =>
    let (type, b) := columnType b t.name c position
    let description := if position = .output then givenText? c.description else none
    ({ name := c.name, type := type, description := description }, b)) b t.columns

/-- The list type of all rows that are there. -/
def rowsOf (table : String) : TypeRef := .nonNull (.list (.nonNull (.named (typeName table))))

/-- The arguments that choose, order and cut rows. -/
def listArguments (table : String) : List (String × TypeRef) :=
  [("where", .named (filtersName table)), ("orderBy", .named (orderByName table)),
    ("limit", .named "Int"), ("offset", .named "Int")]

/-- The field of a relation. -/
def relationField (rel : Relation) : Field :=
  if rel.toMany then
    { name := rel.name, type := rowsOf rel.target, arguments := listArguments rel.target }
  else
    { name := rel.name, type := .named (typeName rel.target)
      arguments := [("where", .named (filtersName rel.target))] }

/-- The object type of a table. -/
def objectType (t : Table) (b : TypeBook) : Definition × TypeBook :=
  let (fields, b) := columnFields t .output b
  (.object (typeName t.name) (fields ++ (Members.values t.relations).map relationField)
    (givenText? t.description), b)

/-- The filter input of a table. -/
def filtersInput (t : Table) (b : TypeBook) : Definition × TypeBook :=
  let name := filtersName t.name
  let (fields, b) := mapBook (fun b c =>
    let (base, b) := baseType b t.name c
    let (filter, b) := b.filterName base
    ({ name := c.name, type := .named filter : Field }, b)) b t.columns
  (.input name (fields ++ [{ name := "OR", type := branches name }]), b)

/-- The order input of a table. -/
def orderByInput (t : Table) : Definition :=
  .input (orderByName t.name) (t.columns.map fun c =>
    { name := c.name, type := .named "InnerOrder" })

/-- The five definitions of a table. -/
def tableDefinitions (b : TypeBook) (t : Table) : List Definition × TypeBook :=
  let (object, b) := objectType t b
  let (inserts, b) := columnFields t .insertInput b
  let (updates, b) := columnFields t .updateInput b
  let (filters, b) := filtersInput t b
  ([object, .input (insertInputName t.name) inserts, .input (updateInputName t.name) updates,
    filters, orderByInput t], b)

/-- The root fields that read a table. -/
def queryFields (t : Table) : List Field :=
  [{ name := rootField t.name .findMany, type := rowsOf t.name, arguments := listArguments t.name },
    { name := rootField t.name .findFirst, type := .named (typeName t.name)
      arguments := (listArguments t.name).take 2 }]

/-- The root fields that write a table. -/
def mutationFields (t : Table) : List Field :=
  let filter := ("where", TypeRef.named (filtersName t.name))
  [{ name := rootField t.name .insertMany, type := rowsOf t.name
     arguments := [("values", .nonNull (.list (.nonNull (.named (insertInputName t.name)))))] },
    { name := rootField t.name .updateMany, type := rowsOf t.name
      arguments := [filter, ("set", .nonNull (.named (updateInputName t.name)))] },
    { name := rootField t.name .deleteMany, type := rowsOf t.name, arguments := [filter] }]

/-- Refuses a table whose type name is reserved or taken, that has no columns, or that has a
relation to a table outside the schema; otherwise notes its type name. -/
def checkTable (r : Registry) (seen : Members String) (t : Table) : Attempt (Members String) :=
  let name := typeName t.name
  if reservedTypeNames.contains name then Attempt.fault (.typeNameReserved t.name name)
  else match Members.get? seen name with
    | some first => Attempt.fault (.typeNameShared first t.name name)
    | none =>
      if t.columns.isEmpty then Attempt.fault (.tableWithoutColumns t.name)
      else match (Members.values t.relations).find? fun rel => (r.table? rel.target).isNone with
        | some rel => Attempt.fault (.relationTargetUnknown t.name rel.name rel.target)
        | none => .ok (Members.put seen name t.name)

/-- Refuses a schema that is to be written when a table lacks a single key column. -/
def checkRowKeys (r : Registry) : Attempt Unit :=
  match (r.all.filter (·.rowKey.isNone)).map (·.name) with
  | [] => .ok ()
  | first :: others => Attempt.fault (.primaryKeysMissing first others)

/-- Refuses a schema whose API cannot be named. -/
def check (r : Registry) (config : Config) : Attempt Unit := do
  let _ ← r.all.foldlM (checkTable r) []
  if config.offersWrites then checkRowKeys r
  if r.all.any fun t => (Naming.fieldStem? t.name).isNone then
    Attempt.mishap (.positionMissing "string")

/-- Everything that is defined for a schema, with the book of what its types introduce. -/
structure Assembled where
  definitions : List Definition
  book : TypeBook
deriving Inhabited

/-- Assembles the definitions of a schema. -/
def assemble (r : Registry) (config : Config) : Attempt Assembled := do
  check r config
  let (tables, book) := mapBook tableDefinitions (← adoptForeignKeyTypes r {}) r.all
  let scalars := book.scalars.mergeSort fun a b => decide (a ≤ b)
  let definitions := scalars.map .scalar ++
    (Members.values book.enums).map EnumType.definition ++ [orderDirection, innerOrder] ++
    (Members.values book.filterNames).map (fun (base, name) => filterInput name base) ++
    tables.flatten ++ [.object "Query" (r.all.flatMap queryFields) none] ++
    (if config.offersWrites then [.object "Mutation" (r.all.flatMap mutationFields) none] else [])
  return ⟨definitions, book⟩

/-! ## Resolvers -/

/-- What a field with a resolver of its own does: it runs an operation on a table, or reads what was
fetched for a relation of a table. -/
inductive Resolver
  | operation (table : String) (op : Operation)
  | relation (table : String) (toMany : Bool)
deriving DecidableEq, Repr, Inhabited

/-- The resolvers of root fields, for certain operations on every table. -/
def rootResolvers (r : Registry) (ops : List Operation) : Members Resolver :=
  Members.ofPairs (r.all.flatMap fun t => ops.map fun op =>
    (rootField t.name op, .operation t.name op))

/-- The resolvers of a table's relations. -/
def relationResolvers (t : Table) : Members Resolver :=
  Members.ofPairs ((Members.values t.relations).map fun rel =>
    (rel.name, .relation t.name rel.toMany))

/-- All resolvers by type: those of the root types, and those of the tables that have relations. -/
def resolvers (r : Registry) (config : Config) : Members (Members Resolver) :=
  let roots := [("Query", rootResolvers r [.findMany, .findFirst])] ++
    (if config.offersWrites
      then [("Mutation", rootResolvers r [.insertMany, .updateMany, .deleteMany])] else [])
  Members.update roots ((r.all.filter (!·.relations.isEmpty)).map fun t =>
    (typeName t.name, relationResolvers t))

/-- The names of the fields that have resolvers of their own, by type. -/
def resolvedFields (r : Registry) (config : Config) : Members (List String) :=
  Members.mapValues Members.names (resolvers r config)

end RelGraph.Sdl
