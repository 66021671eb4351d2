import RelGraph.Graphql.Document
import RelGraph.Graphql.Scalar
/-!
Schemas: the types that a document defines, by name, with the extensions of the document worked in,
and the types that every schema has. The values of a choice may stand for values other than their
names.
-/
namespace RelGraph.Graphql

/-- What a value of a choice stands for. -/
structure Choice where
  stored : Value
  notes : Notes := {}
deriving Repr, Inhabited

/-- A type. -/
inductive NamedType
  | scalar (s : Scalar)
  | object (interfaces : List String) (fields : List FieldDefinition)
  | interface (interfaces : List String) (fields : List FieldDefinition)
  | union (types : List String)
  | choice (values : Members Choice)
  | input (fields : List InputDefinition)
deriving Repr, Inhabited

/-- A schema: its types and what is written about them, the types of its operations, and its
directives. -/
structure Schema where
  types : Members NamedType := []
  notes : Members Notes := []
  roots : List (OperationKind × String) := []
  directives : List DirectiveDefinition := []
  description : Option String := none
deriving Repr, Inhabited

namespace TypeExpr

/-- The name at the core of a reference. -/
def name : TypeExpr → String
  | .named name => name
  | .list item => item.name
  | .nonNull inner => inner.name

/-- Whether a value of the type may not be null. -/
def isNonNull : TypeExpr → Bool
  | .nonNull _ => true
  | _ => false

/-- The reference as written. -/
def text : TypeExpr → String
  | .named name => name
  | .list item => "[" ++ item.text ++ "]"
  | .nonNull inner => inner.text ++ "!"

end TypeExpr

namespace NamedType

/-- The type of a definition. -/
def ofDefinition (name : String) : TypeDefinition → NamedType
  | .scalar => .scalar { rule := Scalar.ruleOf name }
  | .object interfaces fields => .object interfaces fields
  | .interface interfaces fields => .interface interfaces fields
  | .union types => .union types
  | .choice values => .choice (values.map fun v => (v.name, ⟨.text v.name, v.notes⟩))
  | .input fields => .input fields

/-- A type with an extension of the same kind. -/
def extend (name : String) (t : NamedType) (d : TypeDefinition) : NamedType :=
  match t, ofDefinition name d with
  | .object is fields, .object js more => .object (is ++ js) (fields ++ more)
  | .interface is fields, .interface js more => .interface (is ++ js) (fields ++ more)
  | .union types, .union more => .union (types ++ more)
  | .choice values, .choice more => .choice (values ++ more)
  | .input fields, .input more => .input (fields ++ more)
  | t, _ => t

/-- The fields of a type that has some. -/
def fields : NamedType → List FieldDefinition
  | .object _ fields | .interface _ fields => fields
  | _ => []

/-- The interfaces of a type that may have some. -/
def interfaces : NamedType → List String
  | .object is _ | .interface is _ => is
  | _ => []

/-- Whether values of the type have fields to select. -/
def isComposite : NamedType → Bool
  | .object .. | .interface .. | .union _ => true
  | _ => false

/-- Whether the type may be the type of an argument or a variable. -/
def isInput : NamedType → Bool
  | .scalar _ | .choice _ | .input _ => true
  | _ => false

/-- The names of the types that a type refers to, in order. -/
def references : NamedType → List String
  | .object is fields | .interface is fields =>
    is ++ fields.flatMap fun f => f.type.name :: f.args.map (·.type.name)
  | .union types => types
  | .input fields => fields.map (·.type.name)
  | _ => []

end NamedType

/-! ## What every schema has -/

namespace Schema

/-- The scalars that every schema may refer to. -/
def builtInTypes : Members NamedType :=
  Scalar.builtIn.map fun (name, rule) => (name, .scalar { rule := rule })

/-- The field that every object has. -/
def typeNameField : FieldDefinition := { name := "__typename", type := .nonNull (.named "String") }

/-- The field of the query type that tells about the schema. -/
def schemaField : FieldDefinition := { name := "__schema", type := .nonNull (.named "__Schema") }

/-- The field of the query type that tells about one type. -/
def typeField : FieldDefinition :=
  { name := "__type", type := .named "__Type"
    args := [{ name := "name", type := .nonNull (.named "String") }] }

/-- A non-null list of types that are not null. -/
def listOf (name : String) : TypeExpr := .list (.nonNull (.named name))

/-- A field that tells something. -/
def telling (name : String) (type : TypeExpr) : FieldDefinition := { name := name, type := type }

/-- A field that tells of several things, of deprecated ones only on demand. -/
def tellingAll (name : String) (type : TypeExpr) : FieldDefinition :=
  { name := name, type := type
    args := [{ name := "includeDeprecated", type := .named "Boolean"
               default? := some (.bool false) }] }

/-- The fields of what has a name and a description. -/
def named : List FieldDefinition :=
  [telling "name" (.nonNull (.named "String")), telling "description" (.named "String")]

/-- The fields of what may be deprecated. -/
def deprecable : List FieldDefinition :=
  [telling "isDeprecated" (.nonNull (.named "Boolean")),
    telling "deprecationReason" (.named "String")]

/-- A choice among words that stand for themselves. -/
def words (names : List String) : NamedType :=
  .choice (names.map fun name => (name, { stored := .text name }))

/-- The kinds of types. -/
def typeKinds : List String :=
  ["SCALAR", "OBJECT", "INTERFACE", "UNION", "ENUM", "INPUT_OBJECT", "LIST", "NON_NULL"]

/-- The types in which a schema tells about itself. -/
def selfTypes : Members NamedType :=
  let type := TypeExpr.nonNull (.named "__Type")
  [("__Schema", .object [] [telling "description" (.named "String"),
      telling "types" (.nonNull (listOf "__Type")), telling "queryType" type,
      telling "mutationType" (.named "__Type"), telling "subscriptionType" (.named "__Type"),
      telling "directives" (.nonNull (listOf "__Directive"))]),
    ("__Type", .object [] [telling "kind" (.nonNull (.named "__TypeKind")),
      telling "name" (.named "String"), telling "description" (.named "String"),
      telling "specifiedByURL" (.named "String"), tellingAll "fields" (listOf "__Field"),
      telling "interfaces" (listOf "__Type"), telling "possibleTypes" (listOf "__Type"),
      tellingAll "enumValues" (listOf "__EnumValue"),
      tellingAll "inputFields" (listOf "__InputValue"), telling "ofType" (.named "__Type"),
      telling "isOneOf" (.named "Boolean")]),
    ("__TypeKind", words typeKinds),
    ("__Field", .object [] (named ++ [tellingAll "args" (.nonNull (listOf "__InputValue")),
      telling "type" type] ++ deprecable)),
    ("__InputValue", .object [] (named ++ [telling "type" type,
      telling "defaultValue" (.named "String")] ++ deprecable)),
    ("__EnumValue", .object [] (named ++ deprecable)),
    ("__Directive", .object [] (named ++ [telling "isRepeatable" (.nonNull (.named "Boolean")),
      telling "locations" (.nonNull (listOf "__DirectiveLocation")),
      tellingAll "args" (.nonNull (listOf "__InputValue"))])),
    ("__DirectiveLocation", words directivePlaces)]

/-- An argument with a description. -/
def explained (name : String) (type : TypeExpr) (description : String) : InputDefinition :=
  { name := name, type := type, notes := { description := some description } }

/-- The places of an entry of a selection. -/
def entryPlaces : List String := ["FIELD", "FRAGMENT_SPREAD", "INLINE_FRAGMENT"]

/-- The places of what may be deprecated. -/
def deprecablePlaces : List String :=
  ["FIELD_DEFINITION", "ARGUMENT_DEFINITION", "INPUT_FIELD_DEFINITION", "ENUM_VALUE"]

/-- The reason that is given where none is written. -/
def usualReason : String := "No longer supported"

/-- The directives that every schema has. -/
def builtInDirectives : List DirectiveDefinition :=
  let yesNo := TypeExpr.nonNull (.named "Boolean")
  let reason : InputDefinition :=
    { name := "reason", type := .named "String", default? := some (.text usualReason) }
  let url := explained "url" (.nonNull (.named "String"))
    "The URL that specifies the behavior of this scalar."
  [⟨"include", [explained "if" yesNo "Included when true."], false, entryPlaces,
      some ("Directs the executor to include this field or fragment only when the `if` argument" ++
        " is true.")⟩,
    ⟨"skip", [explained "if" yesNo "Skipped when true."], false, entryPlaces,
      some "Directs the executor to skip this field or fragment when the `if` argument is true."⟩,
    ⟨"deprecated", [reason], false, deprecablePlaces,
      some "Marks an element of a GraphQL schema as no longer supported."⟩,
    ⟨"specifiedBy", [url], false, ["SCALAR"],
      some "Exposes a URL that specifies the behavior of this scalar."⟩,
    ⟨"oneOf", [], false, ["INPUT_OBJECT"],
      some "Indicates exactly one field must be supplied and this field must not be `null`."⟩]

/-! ## Building -/

/-- The type of a name. -/
def type? (s : Schema) (name : String) : Option NamedType := Members.get? s.types name

/-- A field of a type by name. -/
def field? (s : Schema) (type field : String) : Option FieldDefinition :=
  (s.type? type).bind fun t => t.fields.find? (·.name = field)

/-- The root type of a kind of operation. -/
def root? (s : Schema) (kind : OperationKind) : Option String :=
  (s.roots.find? (·.1 = kind)).map Prod.snd

/-- A field of a type by name, fields that tell about the schema included. -/
def anyField? (s : Schema) (type field : String) : Option FieldDefinition :=
  if field = typeNameField.name then some typeNameField
  else if s.root? .query = some type && field = schemaField.name then some schemaField
  else if s.root? .query = some type && field = typeField.name then some typeField
  else s.field? type field

/-- Adds a type to the names in use, and then the types that it refers to. -/
def reach (lookup : String → Option NamedType) : Nat → List String → String → List String
  | 0, found, _ => found
  | fuel + 1, found, name =>
    if found.contains name then found
    else match lookup name with
      | none => found
      | some t => t.references.foldl (reach lookup fuel) (found ++ [name])

/-- The types in use: the defined ones in order, each followed by types of every schema that it is
the first to refer to, and then those that the schema needs to tell about itself. -/
def inUse (defined : Members NamedType) (directives : List DirectiveDefinition) :
    Members NamedType :=
  let lookup := fun name => Members.get? (defined ++ builtInTypes ++ selfTypes) name
  let depth := defined.length + builtInTypes.length + selfTypes.length + 1
  let given := Members.names defined
  let foreign := fun (t : NamedType) => t.references.filter (!given.contains ·)
  let found := defined.foldl (fun found (name, t) =>
    (foreign t).foldl (reach lookup depth) (found ++ [name])) []
  let argumentTypes := directives.flatMap fun d => d.args.map (·.type.name)
  let found := (argumentTypes ++ ["__Schema"]).foldl (reach lookup depth) found
  found.filterMap fun name => (lookup name).map (name, ·)

/-- The root types by their usual names, where no document names them. -/
def usualRoots (types : Members NamedType) : List (OperationKind × String) :=
  [(OperationKind.query, "Query"), (.mutation, "Mutation"), (.subscription, "Subscription")].filter
    fun root => Members.has types root.2

/-- The notes of a definition with those of an extension. -/
def addNotes (a b : Notes) : Notes := { a with directives := a.directives ++ b.directives }

/-- The types that a document defines, with its extensions. -/
def definedTypes (d : Document) : Members NamedType :=
  d.foldl (fun types part => match part with
    | .extension name _ e =>
      match Members.get? types name with
      | some t => Members.put types name (t.extend name e)
      | none => types
    | _ => types) (Members.ofPairs (d.filterMap fun part => match part with
      | .type name _ t => some (name, NamedType.ofDefinition name t)
      | _ => none))

/-- What a document writes about its types. -/
def definedNotes (d : Document) : Members Notes :=
  d.foldl (fun notes part => match part with
    | .type name n _ | .extension name n _ =>
      Members.put notes name (((Members.get? notes name).map (addNotes · n)).getD n)
    | _ => notes) []

/-- The schema that a document defines. -/
def ofDocument (d : Document) : Schema :=
  let defined := definedTypes d
  let named := d.flatMap fun part => match part with
    | .roots _ _ roots => roots
    | _ => []
  let own := d.filterMap fun part => match part with
    | .directive d => some d
    | _ => none
  let directives := own ++ builtInDirectives.filter fun b => !(own.any (·.name = b.name))
  { types := inUse defined directives
    notes := definedNotes d
    roots := if named.isEmpty then usualRoots defined else named
    directives := directives
    description := d.findSome? fun part => match part with
      | .roots false notes _ => notes.description
      | _ => none }

/-- The object types that are of a type that may be of several. -/
def possibleTypes (s : Schema) (name : String) : List String :=
  match s.type? name with
  | some (.union types) => types
  | some (.interface ..) => s.types.filterMap fun (object, t) => match t with
    | .object interfaces _ => if interfaces.contains name then some object else none
    | _ => none
  | some (.object ..) => [name]
  | _ => []

/-- Whether an object type answers for a type that has been asked for. -/
def isPossible (s : Schema) (asked object : String) : Bool :=
  asked = object || (s.possibleTypes asked).contains object

/-- The schema with some scalars made lenient. -/
def makeLenient (s : Schema) (names : List String) : Schema :=
  { s with types := s.types.map fun (name, t) =>
      match t with
      | .scalar scalar => (name, .scalar { scalar with lenient := names.contains name })
      | t => (name, t) }

/-- Gives the values of a choice the values that they stand for. -/
def setChoice (name : String) (s : Schema) (stored : Members Value) : Attempt Schema :=
  match s.type? name with
  | some (.choice values) => do
    let values ← stored.foldlM (fun acc kv =>
      match Members.get? acc kv.1 with
      | some c => Except.ok (Members.put acc kv.1 { c with stored := kv.2 })
      | none => Attempt.mishap (.keyMissing kv.1)) values
    return { s with types := Members.put s.types name (.choice values) }
  | _ => .ok s

/-- Gives the values of choices the values that they stand for; what is no choice is passed over. -/
def setChoices (s : Schema) (stored : Members (Members Value)) : Attempt Schema :=
  stored.foldlM (fun s kv => setChoice kv.1 s kv.2) s

/-- Refuses resolvers for what is no object type, or for fields that its type does not have. -/
def admitResolvers (s : Schema) (fields : Members (List String)) : Attempt Unit :=
  fields.forM fun (type, names) =>
    match s.type? type with
    | some (.object _ _) =>
      match names.find? fun name => (s.field? type name).isNone with
      | some name =>
        Attempt.mishap (.badValue s!"Resolver given for unknown field '{type}.{name}'")
      | none => .ok ()
    | _ => Attempt.mishap (.badValue s!"Resolvers given for unknown object type '{type}'")

end Schema
end RelGraph.Graphql
