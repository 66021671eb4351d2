import RelGraph.Graphql.Collection
import RelGraph.Graphql.Written
/-!
What a schema tells about itself. A schema, its types, their fields and arguments, the values of its
choices and its directives are told about in the types that every schema has for that. Nothing is
told before it is asked for, so that types may refer to each other without end.
-/
namespace RelGraph.Graphql

/-- A thing that a schema tells about. -/
inductive Subject
  | schema
  | type (t : TypeExpr)
  | field (f : FieldDefinition)
  | input (d : InputDefinition)
  | choice (name : String) (notes : Notes)
  | directive (d : DirectiveDefinition)
deriving Repr, Inhabited

/-- What is told about a thing under a name. -/
inductive Told
  | value (v : Value)
  | one (about : Subject)
  | many (about : List Subject)
deriving Repr, Inhabited

namespace Told

/-- Nothing. -/
def nothing : Told := .value .null

/-- A truth value. -/
def flag (b : Bool) : Told := .value (.bool b)

/-- A text that may be missing. -/
def text? (s : Option String) : Told := .value ((s.map Value.text).getD .null)

end Told

namespace Notes

/-- A text that a directive gives. -/
def textFrom? (n : Notes) (directive argument : String) (default? : Option String) :
    Option String :=
  match n.directives.find? (·.name = directive) with
  | none => none
  | some d =>
    match Members.get? (Members.ofPairs d.args) argument with
    | some (.text s) => some s
    | some _ => none
    | none => default?

/-- Why something is deprecated, if it is. -/
def deprecation? (n : Notes) : Option String :=
  n.textFrom? "deprecated" "reason" (some Schema.usualReason)

end Notes

namespace Subject

/-- The type in which a thing is told about. -/
def typeName : Subject → String
  | schema => "__Schema"
  | type _ => "__Type"
  | field _ => "__Field"
  | input _ => "__InputValue"
  | choice .. => "__EnumValue"
  | directive _ => "__Directive"

/-- What is written about a thing. -/
def notes : Subject → Notes
  | field f => f.notes
  | input d => d.notes
  | choice _ notes => notes
  | _ => {}

/-- Those that are not deprecated, or all. -/
def current (all : Bool) (subjects : List Subject) : List Subject :=
  subjects.filter fun s => all || s.notes.deprecation?.isNone

/-- What is told about a thing that has a name, a description, and may be deprecated. -/
def tellNamed (subject : Subject) (ownName : String) (asked : String) : Told :=
  match asked with
  | "name" => .value (.text ownName)
  | "description" => .text? subject.notes.description
  | "isDeprecated" => .flag subject.notes.deprecation?.isSome
  | "deprecationReason" => .text? subject.notes.deprecation?
  | _ => .nothing

/-- The descriptions of types that bring their own. -/
def usualDescriptions : Members String := [
  ("Int", "The `Int` scalar type represents non-fractional signed whole numeric values. Int can" ++
    " represent values between -(2^31) and 2^31 - 1."),
  ("String", "The `String` scalar type represents textual data, represented as UTF-8 character" ++
    " sequences. The String type is most often used by GraphQL to represent free-form" ++
    " human-readable text."),
  ("Boolean", "The `Boolean` scalar type represents `true` or `false`."),
  ("ID", "The `ID` scalar type represents a unique identifier, often used to refetch an object " ++
    "or as key for a cache. The ID type appears in a JSON response as a String; however, it is " ++
    "not intended to be human-readable. When expected as an input type, any string (such as " ++
    "`\"4\"`) or integer (such as `4`) input value will be accepted as an ID."),
  ("Date", "ISO-8601 calendar date"), ("DateTime", "ISO-8601 date and time"),
  ("Time", "ISO-8601 time of day"), ("BigInt", "Integer that may exceed 32 bits"),
  ("JSON", "Arbitrary JSON value")]

/-- The description of a type. -/
def typeDescription? (s : Schema) (name : String) : Option String :=
  let written := (Members.get? s.notes name).bind (·.description)
  match s.type? name with
  | some (.scalar _) => (written.filter (!·.isEmpty)).orElse fun _ =>
      Members.get? usualDescriptions name
  | _ => written

/-- The kind of a type, as schemas call it. -/
def kindWord : NamedType → String
  | .scalar _ => "SCALAR"
  | .object .. => "OBJECT"
  | .interface .. => "INTERFACE"
  | .union _ => "UNION"
  | .choice _ => "ENUM"
  | .input _ => "INPUT_OBJECT"

/-- Types by name. -/
def types (names : List String) : Told := .many (names.map fun name => .type (.named name))

/-- What is told about a type that has a name. -/
def tellNamedType (s : Schema) (name : String) (t : NamedType) (asked : String) (all : Bool) :
    Told :=
  let notes := (Members.get? s.notes name).getD {}
  match asked, t with
  | "kind", t => .value (.text (kindWord t))
  | "name", _ => .value (.text name)
  | "description", _ => .text? (typeDescription? s name)
  | "specifiedByURL", .scalar _ => .text? (notes.textFrom? "specifiedBy" "url" none)
  | "fields", .object _ fields | "fields", .interface _ fields =>
    .many (current all (fields.map .field))
  | "interfaces", .object is _ | "interfaces", .interface is _ => types is
  | "possibleTypes", .interface .. | "possibleTypes", .union _ => types (s.possibleTypes name)
  | "enumValues", .choice values =>
    .many (current all (values.map fun (value, c) => .choice value c.notes))
  | "inputFields", .input fields => .many (current all (fields.map .input))
  | "isOneOf", .input _ => .flag (notes.directives.any (·.name = "oneOf"))
  | _, _ => .nothing

/-- What is told about a type. -/
def tellType (s : Schema) (t : TypeExpr) (asked : String) (all : Bool) : Told :=
  let wrapped := fun (kind : String) (inner : TypeExpr) => match asked with
    | "kind" => Told.value (.text kind)
    | "ofType" => .one (.type inner)
    | _ => .nothing
  match t with
  | .list item => wrapped "LIST" item
  | .nonNull inner => wrapped "NON_NULL" inner
  | .named name =>
    match s.type? name with
    | some t => tellNamedType s name t asked all
    | none => .nothing

/-- The type of a kind of operation. -/
def tellRoot (s : Schema) (kind : OperationKind) : Told :=
  match s.root? kind with
  | some name => .one (.type (.named name))
  | none => .nothing

/-- What a schema tells about itself. -/
def tellSchema (s : Schema) (asked : String) : Told :=
  match asked with
  | "description" => .text? s.description
  | "types" => types (Members.names s.types)
  | "queryType" => tellRoot s .query
  | "mutationType" => tellRoot s .mutation
  | "subscriptionType" => tellRoot s .subscription
  | "directives" => .many (s.directives.map .directive)
  | _ => .nothing

/-- What is told about a directive. -/
def tellDirective (d : DirectiveDefinition) (asked : String) (all : Bool) : Told :=
  match asked with
  | "name" => .value (.text d.name)
  | "description" => .text? d.description
  | "isRepeatable" => .flag d.repeatable
  | "locations" => .value (.list (d.places.map .text))
  | "args" => .many (current all (d.args.map .input))
  | _ => .nothing

/-- What a schema tells about a thing under a name; of things that are deprecated only when all are
asked for. -/
def tell (s : Schema) (subject : Subject) (asked : String) (all : Bool) : Told :=
  match subject with
  | schema => tellSchema s asked
  | type t => tellType s t asked all
  | field f =>
    match asked with
    | "args" => .many (current all (f.args.map .input))
    | "type" => .one (.type f.type)
    | asked => tellNamed subject f.name asked
  | input d =>
    match asked with
    | "type" => .one (.type d.type)
    | "defaultValue" => .text? (d.default?.map Literal.written)
    | asked => tellNamed subject d.name asked
  | choice name _ => tellNamed subject name asked
  | directive d => tellDirective d asked all

/-- The thing that a field of the query type tells about. -/
def ofField? (s : Schema) (d : FieldDefinition) (args : Members Value) : Option Told :=
  if d.name = Schema.schemaField.name then some (.one .schema)
  else if d.name = Schema.typeField.name then
    match Members.get? args "name" with
    | some (.text name) =>
      some (if (s.type? name).isSome then .one (.type (.named name)) else .nothing)
    | _ => some .nothing
  else none

mutual

/-- What is told, with what is asked for below it, as many levels of selections down as there
are. -/
def answer (s : Schema) (vars : Variables) (levels : Nat) (nodes : List FieldNode) (told : Told) :
    Attempt Value :=
  match told with
  | .value v => .ok v
  | .one subject => answerAbout s vars levels nodes subject
  | .many subjects => do
    return .list (← subjects.mapM (answerAbout s vars levels nodes))
termination_by (levels, 1)

/-- What is asked for about a thing. -/
def answerAbout (s : Schema) (vars : Variables) (levels : Nat) (nodes : List FieldNode)
    (subject : Subject) : Attempt Value :=
  match levels with
  | 0 => .ok (.object [])
  | levels + 1 => do
    let groups ← collectBelow s vars subject.typeName nodes
    let members ← groups.filterMapM fun (key, nodes) => do
      let name := nameOf nodes
      match s.anyField? subject.typeName name with
      | none => return none
      | some d =>
        if d.name = Schema.typeNameField.name then
          return some (key, Value.text subject.typeName)
        else
          let args ← argumentsOf s vars d nodes
          let all := ((Members.get? args "includeDeprecated").getD .null).truthy
          return some (key, ← answer s vars levels nodes (tell s subject name all))
    return .object members
termination_by (levels, 0)

end

end Subject
end RelGraph.Graphql
