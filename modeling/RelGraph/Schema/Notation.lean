import RelGraph.Schema.Declaration
import RelGraph.Schema.Enumeration
import RelGraph.Value.Tagged
/-!
The written notation of declarations: an object with `tables`, `relations`, `overrides` and
`source`. What is left out takes its default; without a source, the mapped base stands in when any
table has a class, and otherwise all tables under their names followed by all relation sets. What
cannot be declared is refused: types that do not exist, names that are taken, keys of uneven length,
and names that nothing goes by.
-/
namespace RelGraph.Notation

/-- The texts of a list. -/
def texts (v : Value) : List String := (v.items?.getD []).filterMap Value.text?

/-- A text that may be absent. -/
def optionalText (v : Value) : Option String := if v.isNull then none else some v.display

/-- Whether an object has a member. -/
def has (v : Value) (name : String) : Bool := Members.has (v.members?.getD []) name

/-- Splits a text at its last point; `none` when it has none. -/
def splitPoint? (s : String) : Option (String × String) :=
  let back := s.toList.reverse
  match back.dropWhile (· ≠ '.') with
  | [] => none
  | _ :: front =>
    some (String.ofList front.reverse, String.ofList (back.takeWhile (· ≠ '.')).reverse)

/-- The column that a foreign key of a column refers to: a table alone stands for its column of the
same name. -/
def referredColumn (own s : String) : ColumnRef :=
  match splitPoint? s with
  | some (table, column) => ⟨table, column⟩
  | none => ⟨s, own⟩

/-- The types that are written by a name alone. -/
def plainType (name : String) : ColumnType :=
  match name with
  | "Boolean" | "BOOLEAN" => .boolean
  | "Date" | "DATE" => .date
  | "DateTime" | "TIMESTAMP" | "DATETIME" => .moment false
  | "Time" | "TIME" => .time
  | "Integer" | "INTEGER" => .integer
  | "SmallInteger" | "SMALLINT" => .smallInteger
  | "BigInteger" | "BIGINT" => .bigInteger
  | "Float" | "FLOAT" | "REAL" | "Double" | "DOUBLE" => .float
  | "Numeric" | "NUMERIC" | "DECIMAL" => .numeric none
  | "String" | "Unicode" | "CHAR" | "VARCHAR" => .text false
  | "Text" | "UnicodeText" | "TEXT" | "CLOB" => .text true
  | "LargeBinary" | "BLOB" => .binary true
  | "BINARY" | "VARBINARY" => .binary false
  | "Uuid" => .uuid false
  | "UUID" => .uuid true
  | "JSON" => .json
  | "Interval" => .interval
  | "PickleType" => .pickle
  | _ => .unknown

/-- The texts of a choice; anything but texts is a mishap. -/
def choiceTexts (v : Value) : Attempt (List String) :=
  (v.items?.getD []).mapM fun i =>
    match i with
    | .text s => .ok s
    | _ => Attempt.mishap (.badKind "a choice lists texts")

/-- The members of an enumeration. -/
def members (v : Value) : List (String × Value) :=
  (v.items?.getD []).filterMap fun m =>
    match m.items? with
    | some [name, value] => some (name.display, value)
    | _ => none

/-- A type with parameters, read with a bound on the nesting. Lists of lists are not declared by
nesting the type, and a type of the application's own is a number unless it says what it is built
on. -/
def typeAt : Nat → Value → Attempt ColumnType
  | 0, _ => .ok .unknown
  | depth + 1, v =>
    match v with
    | .text name => .ok (plainType name)
    | .object _ =>
      match v.field "t" with
      | .text "ARRAY" => do
        match ← typeAt depth (v.field "of") with
        | .array _ => Attempt.mishap (.badValue "lists are not nested")
        | item => return .array item
      | .text "Enum" => do
        return .choice ((optionalText (v.field "name")).getD "e")
          (← choiceTexts (v.field "values"))
      | .text "PyEnum" => do
        let name := (v.field "name").display
        return .choice (Text.lower name)
          (← Enumeration.memberNames name (members (v.field "members")))
      | .text "UserDefined" =>
        .ok (.opaqueType (v.field "name").display (v.field "graphql_name"))
      | .text "Decorator" => do
        let inner ← if (v.field "impl").isNull then pure (.numeric none)
          else typeAt depth (v.field "impl")
        return .wrapped (v.field "name").display inner (v.field "graphql_name")
      | .text "Numeric" | .text "DECIMAL" | .text "NUMERIC" =>
        match v.field "scale" with
        | .int n => .ok (.numeric (some n.toNat))
        | _ => .ok (.numeric none)
      | .text "DateTime" | .text "TIMESTAMP" | .text "DATETIME" =>
        .ok (.moment (v.field "timezone").truthy)
      | .text name => .ok (plainType name)
      | _ => .ok .unknown
    | _ => .ok .unknown

/-- A type. -/
def columnType (v : Value) : Attempt ColumnType := typeAt 16 v

/-- How a key column is numbered. -/
def numbering (v : Value) : Numbering :=
  if has v "autoincrement" then
    match v.field "autoincrement" with
    | .bool true => .demanded
    | .text "auto" => .whereSuited
    | .text "ignore_fk" => .besideReferences
    | _ => .never
  else .whereSuited

/-- A column. The database fills it in one way at most. -/
def column (v : Value) : Attempt ColumnDeclaration := do
  let type ← columnType (v.field "type")
  let primary := (v.field "pk").truthy
  let name := (v.field "name").display
  let identity := (v.field "identity").truthy
  let c : ColumnDeclaration := {
    key := (optionalText (v.field "key")).getD name
    name := name
    type := type
    primary := primary
    nullable := if has v "nullable" then (v.field "nullable").truthy else !primary && !identity
    clientDefault := if (v.field "default").isNull then none else some (v.field "default").untag
    serverDefault := optionalText (v.field "server_default")
    identity := identity
    computed := optionalText (v.field "computed")
    numbering := numbering v
    unique := (v.field "unique").truthy
    comment := optionalText (v.field "comment")
    typeOverride := (v.field "info").field "graphql_type"
    descriptionOverride := (v.field "info").field "graphql_description" }
  let ways := [c.serverDefault.isSome, c.identity, c.computed.isSome]
  if (ways.filter id).length > 1 then Attempt.mishap (.misdeclared .valueGivenTwice)
  else return c

/-- A foreign key as it is written: own columns with the columns that they refer to. -/
abbrev WrittenKey := List (String × ColumnRef)

/-- The foreign key of a single column. -/
def columnKey (v : Value) : Option WrittenKey :=
  let own := ((optionalText (v.field "key")).getD (v.field "name").display)
  (v.field "fk").text?.map fun s => [(own, referredColumn own s)]

/-- A foreign key of several columns, which have to be columns of the table, as many as they refer
to, and all of one table. -/
def tableKey (columns : List ColumnDeclaration) (v : Value) : Attempt WrittenKey := do
  let own := texts (v.field "columns")
  let refs := texts (v.field "refs")
  if own.eraseDups.length ≠ refs.length then Attempt.mishap (.misdeclared .keyColumnsUneven)
  if own.any fun key => !columns.any (·.key = key) then
    Attempt.mishap (.misdeclared .keyColumnUnknown)
  let pairs := (own.zip refs).map fun (key, s) => (key, referredColumn key s)
  if (pairs.map (·.2.table)).eraseDups.length > 1 then
    Attempt.mishap (.misdeclared .keyColumnsUneven)
  return pairs

/-- A table as it is written: its foreign keys are not looked up, and neither are the columns that
its relationships name. -/
structure WrittenTable where
  declaration : TableDeclaration
  keys : List WrittenKey
  relationships : List Value
deriving Inhabited

/-- A table. Its columns have names and keys of their own. -/
def table (v : Value) : Attempt WrittenTable := do
  let written := (v.field "columns").items?.getD []
  let columns ← written.mapM column
  if (columns.map (·.key)).eraseDups.length < columns.length ||
      (columns.map (·.name)).eraseDups.length < columns.length then
    Attempt.mishap (.misdeclared .columnTwice)
  let keys ← ((v.field "fks").items?.getD []).mapM (tableKey columns)
  return {
    declaration := {
      name := (v.field "name").display
      columns := columns
      comment := optionalText (v.field "comment")
      description := v.field "description"
      model := optionalText (v.field "model") }
    keys := written.filterMap columnKey ++ keys
    relationships := (v.field "rels").items?.getD [] }

/-- What a foreign key refers to, looked up among the tables. -/
def reference (tables : List WrittenTable) (ref : ColumnRef) : Reference :=
  match tables.find? (·.declaration.name = ref.table) with
  | none => .missingTable
  | some t => if (t.declaration.column? ref.column).isSome then .column ref
    else .missingColumn ref.table

/-- The foreign keys of a table, looked up among all tables. -/
def foreignKeys (tables : List WrittenTable) (t : WrittenTable) : List ForeignKey :=
  t.keys.map fun k => ⟨k.map fun (own, ref) => (own, reference tables ref)⟩

/-- A column that is named by `table.column`; it has to be there. -/
def namedColumn (tables : List WrittenTable) (s : String) : Attempt ColumnRef := do
  match splitPoint? s with
  | none => Attempt.mishap (.badValue "a column is named by table and column")
  | some (table, key) =>
    match tables.find? (·.declaration.name = table) with
    | none => Attempt.mishap (.keyMissing table)
    | some t =>
      if (t.declaration.column? key).isSome then return ⟨table, key⟩
      else Attempt.mishap (.keyMissing key)

/-- A relationship of a mapped class. -/
def relationship (tables : List WrittenTable) (v : Value) : Attempt Relationship := do
  let foreignKeys ← (texts (v.field "foreign_keys")).mapM (namedColumn tables)
  let remoteSide ← (texts (v.field "remote_side")).mapM (namedColumn tables)
  let through := (v.field "secondary").text?
  match through.filter fun name => !tables.any (·.declaration.name = name) with
  | some name => Attempt.mishap (.keyMissing name)
  | none => return {
      name := (v.field "name").display
      target := (v.field "to").display
      toMany := if (v.field "uselist").isNull then none else some (v.field "uselist").truthy
      foreignKeys := foreignKeys
      remoteSide := remoteSide
      through := through
      inverse := (v.field "back_populates").text?
      readOnly := (v.field "viewonly").truthy }

/-- The relationships of a class; of several with one name the last one counts. -/
def relationships (tables : List WrittenTable) (vs : List Value) : Attempt (List Relationship) := do
  let rels ← vs.mapM (relationship tables)
  return Members.values (Members.ofPairs (rels.map fun r => (r.name, r)))

/-- A table with all that it names looked up. The table of a class needs a key, and none of its
columns goes by the name of a relationship. -/
def lookedUp (tables : List WrittenTable) (t : WrittenTable) : Attempt TableDeclaration := do
  let declared := { t.declaration with keys := foreignKeys tables t }
  if declared.model.isNone then return declared
  let relationships ← relationships tables t.relationships
  if declared.primaryColumns.isEmpty then Attempt.mishap (.misdeclared .keyMissing)
  if relationships.any fun r => (declared.column? r.name).isSome then
    Attempt.mishap (.misdeclared .columnShadowed)
  return { declared with relationships := relationships }

/-- What a declaration points at: a table or a class has to be there. -/
def target (d : Declarations) (v : Value) : Attempt Target :=
  match v with
  | .object _ =>
    match v.field "model" with
    | .text model =>
      if (d.modelTable? model).isSome then .ok (.model model)
      else Attempt.mishap (.keyMissing model)
    | _ => .ok (.name (v.field "str").display)
  | v =>
    if (d.table? v.display).isSome then .ok (.table v.display)
    else Attempt.mishap (.keyMissing v.display)

/-- The declared relations of one cardinality. -/
def relations (d : Declarations) (v : Value) : Attempt (List RelationDeclaration) :=
  (v.members?.getD []).mapM fun m => do
    return { name := m.1
             target := ← target d (m.2.field "target")
             fields := if (m.2.field "fields").isNull then none
               else some (texts (m.2.field "fields"))
             references := if (m.2.field "references").isNull then none
               else some (texts (m.2.field "references")) }

/-- A relation set. -/
def relationSet (d : Declarations) (v : Value) : Attempt RelationSet := do
  return { owner := ← target d (v.field "table")
           toOne := ← relations d (v.field "one")
           toMany := ← relations d (v.field "many") }

/-- An override. -/
def override (d : Declarations) (v : Value) : Attempt Override := do
  return { target := ← target d (v.field "table")
           withDescriptions := v.field "fn" matches .text "full"
           entries := (v.field "map").members?.getD [] }

/-- A source, read with a bound on the nesting. -/
def sourceAt (d : Declarations) : Nat → Value → Attempt SchemaSource
  | 0, _ => .ok (.listing [])
  | depth + 1, v =>
    match v with
    | .object [("map", .list entries)] => do
      let read ← entries.mapM fun e =>
        match e with
        | .list [key, inner] => do return some (key.display, ← sourceAt d depth inner)
        | _ => .ok none
      return .mapping (Members.ofPairs read.reduceOption)
    | .object [("list", .list entries)] => do
      return .listing (← entries.mapM (sourceAt d depth))
    | .object [("table", .text name)] =>
      if (d.table? name).isSome then .ok (.table name) else Attempt.mishap (.keyMissing name)
    | .object [("model", .text name)] =>
      if (d.modelTable? name).isSome then .ok (.model name) else Attempt.mishap (.keyMissing name)
    | .object [("metadata", _)] => .ok .allTables
    | .object [("base", _)] => .ok .mappedBase
    | .object [("relations", .int i)] =>
      if i < d.relationSets.length then .ok (.relations i.toNat)
      else Attempt.mishap (.positionMissing "list")
    | .object [("value", inner)] => .ok (.other inner)
    | _ => .ok (.listing [])

/-- The source that stands in when none is written. -/
def defaultSource (d : Declarations) : SchemaSource :=
  if d.tables.any (·.model.isSome) then .mappedBase
  else .mapping (d.tables.map (fun t => (t.name, .table t.name)) ++
    (List.range d.relationSets.length).map fun i => (s!"relations {i}", .relations i))

/-- A written schema: declarations, overrides and source. -/
structure Schema where
  declarations : Declarations
  overrides : List Override
  source : SchemaSource
deriving Inhabited

/-- The type of a column: one that is declared without a type has the type of the column that it
refers to. The fuel bounds the number of references in a row. -/
def adoptedType (tables : List TableDeclaration) :
    Nat → TableDeclaration → ColumnDeclaration → ColumnType
  | 0, _, c => c.type
  | fuel + 1, t, c =>
    match c.type with
    | .unknown =>
      ((t.referencesOf c.key).findSome? fun r =>
        match r with
        | .column ref =>
          match tables.find? (·.name = ref.table) with
          | none => none
          | some other => (other.column? ref.column).bind fun target =>
            match adoptedType tables fuel other target with
            | .unknown => none
            | type => some type
        | _ => none).getD .unknown
    | type => type

/-- The tables, with the types that their columns have by reference. -/
def withAdoptedTypes (tables : List TableDeclaration) : List TableDeclaration :=
  tables.map fun t =>
    { t with columns := t.columns.map fun c => { c with type := adoptedType tables 64 t c } }

/-- The tables of a schema, which have names of their own. -/
def tables (v : Value) : Attempt (List TableDeclaration) := do
  let written ← (v.items?.getD []).mapM table
  let names := written.map (·.declaration.name)
  if names.eraseDups.length < names.length then Attempt.mishap (.misdeclared .tableTwice)
  return withAdoptedTypes (← written.mapM (lookedUp written))

/-- Reads a schema. -/
def schema (v : Value) : Attempt Schema := do
  let plain : Declarations := { tables := ← tables (v.field "tables") }
  let sets ← ((v.field "relations").items?.getD []).mapM (relationSet plain)
  let d := { plain with relationSets := sets }
  let overrides ← ((v.field "overrides").items?.getD []).mapM (override d)
  let source ← if (v.field "source").isNull then pure (defaultSource d)
    else sourceAt d 64 (v.field "source")
  return { declarations := d, overrides := overrides, source := source }

end RelGraph.Notation
