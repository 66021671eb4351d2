import RelGraph.Graphql.Reader
import RelGraph.Graphql.Schema
/-!
The rules for schemas. A document that breaks the rules for definitions defines no schema. A schema
can have flaws nevertheless, and answers no request then.
-/
namespace RelGraph.Graphql

/-! ## Definitions -/

namespace Document

/-- Whether no two names are the same. -/
def areDistinct (names : List String) : Bool := decide names.Nodup

/-- Directives with the place where they stand. -/
abbrev Placed := String × List Directive

/-- The directives on arguments or input fields. -/
def onInputs (place : String) (ds : List InputDefinition) : List Placed :=
  ds.map fun d => (place, d.notes.directives)

/-- The directives on fields and their arguments. -/
def onFields (fs : List FieldDefinition) : List Placed :=
  fs.flatMap fun f =>
    ("FIELD_DEFINITION", f.notes.directives) :: onInputs "ARGUMENT_DEFINITION" f.args

/-- The directives on a type and inside it. -/
def onType (notes : Notes) : TypeDefinition → List Placed
  | .scalar => [("SCALAR", notes.directives)]
  | .object _ fields => ("OBJECT", notes.directives) :: onFields fields
  | .interface _ fields => ("INTERFACE", notes.directives) :: onFields fields
  | .union _ => [("UNION", notes.directives)]
  | .choice values =>
    ("ENUM", notes.directives) :: values.map fun v => ("ENUM_VALUE", v.notes.directives)
  | .input fields => ("INPUT_OBJECT", notes.directives) :: onInputs "INPUT_FIELD_DEFINITION" fields

/-- The directives on a definition of a schema and inside it. -/
def onDefinition : Definition → List Placed
  | .type _ notes d | .extension _ notes d => onType notes d
  | .roots _ notes _ => [("SCHEMA", notes.directives)]
  | .directive d => onInputs "ARGUMENT_DEFINITION" d.args
  | _ => []

/-- Whether a directive is known, may stand in a place, and has the arguments that it needs, each
once, and no others. -/
def allows (known : List DirectiveDefinition) (place : String) (d : Directive) : Bool :=
  match known.find? (·.name = d.name) with
  | none => false
  | some k =>
    k.places.contains place && areDistinct (d.args.map Prod.fst) &&
      (d.args.all fun arg => k.args.any (·.name = arg.1)) &&
      (k.args.all fun a => !a.type.isNonNull || a.default?.isSome || Members.has d.args a.name)

/-- Whether directives are allowed in a place, those that are not repeatable once each. -/
def allowsAll (known : List DirectiveDefinition) (placed : Placed) : Bool :=
  let single := placed.2.filter fun d => !(known.any fun k => k.name = d.name && k.repeatable)
  placed.2.all (allows known placed.1) && areDistinct (single.map (·.name))

/-- The definitions of directives in a document. -/
def directives (d : Document) : List DirectiveDefinition :=
  d.filterMap fun part => match part with
    | .directive d => some d
    | _ => none

/-- The names of the types that a document defines. -/
def typeNames (d : Document) : List String :=
  d.filterMap fun part => match part with
    | .type name _ _ => some name
    | _ => none

/-- Whether a definition adds to a type. -/
def isSameKind (t : NamedType) (d : TypeDefinition) : Bool :=
  match t, d with
  | .scalar _, .scalar | .object .., .object .. | .interface .., .interface ..
  | .union _, .union _ | .choice _, .choice _ | .input _, .input _ => true
  | _, _ => false

/-- Whether the extensions of a document add to types of their kind that it defines. -/
def hasExtensible (d : Document) (types : Members NamedType) : Bool :=
  d.all fun part => match part with
    | .extension name _ e => ((Members.get? types name).map (isSameKind · e)).getD false
    | _ => true

/-- Whether the names inside a type are distinct. -/
def hasDistinctParts : NamedType → Bool
  | .object _ fields | .interface _ fields =>
    areDistinct (fields.map (·.name)) && fields.all fun f => areDistinct (f.args.map (·.name))
  | .choice values => areDistinct (Members.names values)
  | .input fields => areDistinct (fields.map (·.name))
  | _ => true

/-- The root types that a document names. -/
def rootTypes (d : Document) : List (OperationKind × String) :=
  d.flatMap fun part => match part with
    | .roots _ _ types => types
    | _ => []

/-- Whether the root types are named in one place, each once. -/
def hasOneRoot (d : Document) : Bool :=
  let places := d.filter fun part => match part with
    | .roots false _ _ => true
    | _ => false
  places.length ≤ 1 && areDistinct ((rootTypes d).map (·.1.word))

/-- Whether a document keeps the rules for definitions: names are defined once, types and directives
that it refers to are known, and extensions find what they extend. -/
def definesSchema (d : Document) : Bool :=
  let types := Schema.definedTypes d
  let known := fun name => Members.has types name || Members.has Schema.builtInTypes name ||
    Members.has Schema.selfTypes name
  let own := directives d
  let directives := own ++ Schema.builtInDirectives.filter fun b => !(own.any (·.name = b.name))
  hasOneRoot d && areDistinct (typeNames d) && areDistinct (own.map (·.name)) &&
    (own.all fun d => areDistinct (d.args.map (·.name)) && d.args.all fun a => known a.type.name) &&
    hasExtensible d types && (types.all fun t => hasDistinctParts t.2) &&
    (types.all fun t => t.2.references.all known) &&
    ((rootTypes d).all fun root => known root.2) &&
    (d.flatMap onDefinition).all (allowsAll directives)

end Document

namespace Schema

/-- The schema that a text defines. -/
def ofText (text : String) : Attempt Schema :=
  match Document.ofText text with
  | .error reason => .error (.request reason)
  | .ok d =>
    if Document.definesSchema d then .ok (ofDocument d)
    else Attempt.mishap (.badKind "The document defines no schema.")

/-! ## Flaws -/

/-- The flaw of a name that is kept for what schemas tell about themselves. -/
def nameFlaws (name : String) : List String :=
  if name.startsWith "__" then
    [s!"Name '{name}' must not begin with '__', which is reserved by GraphQL introspection."]
  else []

/-- The flaw of a position that takes types of one kind only. -/
def positionFlaws (s : Schema) (position kind : String) (accepts : NamedType → Bool)
    (t : TypeExpr) : List String :=
  match s.type? t.name with
  | some found =>
    if accepts found then []
    else [s!"The type of {position} must be {kind} Type but got: {t.text}."]
  | none => []

/-- The flaws of a field of a type. -/
def fieldFlaws (s : Schema) (type : String) (f : FieldDefinition) : List String :=
  let isOutput := fun (t : NamedType) => match t with
    | .input _ => false
    | _ => true
  nameFlaws f.name ++ positionFlaws s s!"{type}.{f.name}" "Output" isOutput f.type ++
    f.args.flatMap fun a =>
      nameFlaws a.name ++
        positionFlaws s s!"{type}.{f.name}({a.name}:)" "Input" NamedType.isInput a.type

/-- The flaws of fields of a type, of which there has to be one. -/
def fieldsFlaws (s : Schema) (type : String) (fields : List FieldDefinition) : List String :=
  (if fields.isEmpty then [s!"Type {type} must define one or more fields."] else []) ++
    fields.flatMap (fieldFlaws s type)

/-- The flaws of a type that should have the fields of its interfaces. -/
def interfaceFlaws (s : Schema) (type : String) (interfaces : List String)
    (fields : List FieldDefinition) : List String :=
  interfaces.flatMap fun name =>
    match s.type? name with
    | some (.interface _ expected) => expected.flatMap fun e =>
      if fields.any (·.name = e.name) then []
      else [s!"Interface field {name}.{e.name} expected but {type} does not provide it."]
    | _ => [s!"Type {type} must only implement Interface types, it cannot implement {name}."]

/-- The flaws of a type. -/
def typeFlaws (s : Schema) (name : String) (t : NamedType) : List String :=
  nameFlaws name ++ match t with
    | .scalar _ => []
    | .object interfaces fields | .interface interfaces fields =>
      fieldsFlaws s name fields ++ interfaceFlaws s name interfaces fields
    | .union types =>
      if types.isEmpty then [s!"Union type {name} must define one or more member types."] else []
    | .choice values =>
      (if values.isEmpty then [s!"Enum type {name} must define one or more values."] else []) ++
        (Members.names values).flatMap nameFlaws
    | .input fields =>
      (if fields.isEmpty then [s!"Input Object type {name} must define one or more fields."]
        else []) ++ fields.flatMap fun f =>
          nameFlaws f.name ++ positionFlaws s s!"{name}.{f.name}" "Input" NamedType.isInput f.type

/-- The flaws of the type of a kind of operation, which is an object type. -/
def rootFlaws (s : Schema) (kind : OperationKind) (word condition : String) : List String :=
  match s.root? kind with
  | none => []
  | some name =>
    match s.type? name with
    | some (.object ..) => []
    | _ => [s!"{word} root type must be Object type{condition}, it cannot be {name}."]

/-- The flaws of the types of operations, of which the one of queries has to be there. -/
def rootsFlaws (s : Schema) : List String :=
  (if (s.root? .query).isNone then ["Query root type must be provided."] else []) ++
    rootFlaws s .query "Query" "" ++ rootFlaws s .mutation "Mutation" " if provided" ++
    rootFlaws s .subscription "Subscription" " if provided"

/-- Everything that keeps a schema from answering requests. -/
def flaws (s : Schema) : List String :=
  let own := s.types.filter fun (name, _) => !Members.has selfTypes name
  rootsFlaws s ++ own.flatMap fun (name, t) => typeFlaws s name t

end Schema
end RelGraph.Graphql
