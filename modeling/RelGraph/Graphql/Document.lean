import RelGraph.Members
/-!
Documents: what a request asks for, and what a schema defines, as written. Nothing is looked up
here: a name may stand for anything.
-/
namespace RelGraph.Graphql

/-- A written value. Numbers are kept as they are written. -/
inductive Literal
  | null
  | bool (b : Bool)
  | int (digits : String)
  | float (digits : String)
  | text (s : String)
  | name (s : String)
  | variable (name : String)
  | list (items : List Literal)
  | object (members : List (String × Literal))
deriving Repr, Inhabited

/-- A reference to a type. -/
inductive TypeExpr
  | named (name : String)
  | list (item : TypeExpr)
  | nonNull (inner : TypeExpr)
deriving DecidableEq, Repr, Inhabited

/-- Arguments as written. Of several under one name the last counts. -/
abbrev Arguments := List (String × Literal)

/-- A directive with its arguments. -/
structure Directive where
  name : String
  args : Arguments
deriving Repr, Inhabited

/-- An entry of a selection: a field, which may be labelled with an alias, the entries of a named
fragment, or entries under a type condition. These are written where they stand, or they have been
put in place of the spread of a fragment, whose name they keep. -/
inductive Entry
  | field (label : Option String) (name : String) (args : Arguments)
      (directives : List Directive) (entries : List Entry)
  | spread (fragment : String) (directives : List Directive)
  | within (fragment : Option String) (condition : Option String) (directives : List Directive)
      (entries : List Entry)
deriving Repr, Inhabited

/-- The kinds of operations. -/
inductive OperationKind
  | query
  | mutation
  | subscription
deriving DecidableEq, Repr, Inhabited

/-- The word for a kind of operation. -/
def OperationKind.word : OperationKind → String
  | query => "query"
  | mutation => "mutation"
  | subscription => "subscription"

/-- A variable of an operation. -/
structure VariableDefinition where
  name : String
  type : TypeExpr
  default? : Option Literal
  directives : List Directive
deriving Repr, Inhabited

/-- An operation. -/
structure OperationDefinition where
  kind : OperationKind
  name : Option String
  parameters : List VariableDefinition
  directives : List Directive
  entries : List Entry
deriving Repr, Inhabited

/-- A named fragment. -/
structure Fragment where
  condition : String
  directives : List Directive
  entries : List Entry
deriving Repr, Inhabited

/-- What is written about a definition beside what it defines. -/
structure Notes where
  description : Option String := none
  directives : List Directive := []
deriving Repr, Inhabited

/-- An argument or input field as a schema defines it. -/
structure InputDefinition where
  name : String
  type : TypeExpr
  default? : Option Literal := none
  notes : Notes := {}
deriving Repr, Inhabited

/-- A field as a schema defines it. -/
structure FieldDefinition where
  name : String
  args : List InputDefinition := []
  type : TypeExpr
  notes : Notes := {}
deriving Repr, Inhabited

/-- A value of a choice as a schema defines it. -/
structure ChoiceDefinition where
  name : String
  notes : Notes := {}
deriving Repr, Inhabited

/-- What a schema defines under a name. -/
inductive TypeDefinition
  | scalar
  | object (interfaces : List String) (fields : List FieldDefinition)
  | interface (interfaces : List String) (fields : List FieldDefinition)
  | union (types : List String)
  | choice (values : List ChoiceDefinition)
  | input (fields : List InputDefinition)
deriving Repr, Inhabited

/-- A directive as a schema defines it. -/
structure DirectiveDefinition where
  name : String
  args : List InputDefinition := []
  repeatable : Bool := false
  places : List String
  description : Option String := none
deriving Repr, Inhabited

/-- The places where a directive may stand. -/
def directivePlaces : List String := ["QUERY", "MUTATION", "SUBSCRIPTION", "FIELD",
  "FRAGMENT_DEFINITION", "FRAGMENT_SPREAD", "INLINE_FRAGMENT", "VARIABLE_DEFINITION", "SCHEMA",
  "SCALAR", "OBJECT", "FIELD_DEFINITION", "ARGUMENT_DEFINITION", "INTERFACE", "UNION", "ENUM",
  "ENUM_VALUE", "INPUT_OBJECT", "INPUT_FIELD_DEFINITION"]

/-- A definition of a document. An extension adds to the type of its name, or to the schema. -/
inductive Definition
  | operation (o : OperationDefinition)
  | fragment (name : String) (f : Fragment)
  | type (name : String) (notes : Notes) (d : TypeDefinition)
  | extension (name : String) (notes : Notes) (d : TypeDefinition)
  | roots (extending : Bool) (notes : Notes) (types : List (OperationKind × String))
  | directive (d : DirectiveDefinition)
deriving Repr, Inhabited

/-- A document. -/
abbrev Document := List Definition

end RelGraph.Graphql
