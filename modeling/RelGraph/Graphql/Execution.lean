import RelGraph.Graphql.Introspection
import RelGraph.Value.Computation
/-!
Execution: what fields resolve to is completed as their types say. A problem at a field that may be
null makes it null; at one that may not, it makes the nearest field around it null that may. Every
problem is reported with the path to where it came up.
-/
namespace RelGraph.Graphql

/-- A step of the path to a value of the response. -/
inductive PathStep
  | key (name : String)
  | index (n : Nat)
deriving DecidableEq, Repr

/-- A reported problem. -/
structure Problem where
  message : String
  path : List PathStep
  extensions : List (String × String) := []
deriving Repr, Inhabited

/-- The problem that a failure at some path is. -/
def Problem.ofFailure (path : List PathStep) (f : Failure) : Problem :=
  match f with
  | .fault cause => ⟨cause.message, path, cause.extensions⟩
  | f => ⟨f.message, path, []⟩

/-- A value being completed: it may fail with a problem, and it reports problems that it stands. -/
abbrev Completion (α : Type) := ExceptT Problem (StateM (List Problem)) α

/-- Fails with a problem. -/
def fail {α : Type} (path : List PathStep) (message : String) : Completion α :=
  throw { message := message, path := path }

/-- Goes on with an attempt, or fails with its failure as a problem. -/
def attempt {α : Type} (path : List PathStep) (a : Attempt α) : Completion α :=
  match a with
  | .ok v => pure v
  | .error f => throw (Problem.ofFailure path f)

/-- Makes a problem null and reports it where null may stand. -/
def orNull (t : TypeExpr) (c : Completion Value) : Completion Value :=
  tryCatch c fun problem =>
    if t.isNonNull then throw problem
    else do
      modify (· ++ [problem])
      return .null

/-- A call of a resolver: the field of a value of some type, under its response key. -/
structure Call where
  type : String
  field : String
  key : String
  parent : Value
  args : Members Value
deriving Repr, Inhabited

/-- What fields resolve to. -/
abbrev Resolver := Call → Attempt Value

/-- A field resolves to what its value has under its name where nothing else is said. -/
def resolveMember : Resolver := fun call =>
  call.parent.lookUp call.field (Members.names call.args)

/-- A request on a schema: an operation whose fragments are put in, with its variables. -/
structure Request where
  schema : Schema
  kind : OperationKind
  root : String
  entries : List Entry
  given : Variables
deriving Inhabited

mutual

/-- Whether a value can be looked up among others. -/
def isKey : Value → Bool
  | .list _ | .object _ => false
  | .tuple items => areKeys items
  | _ => true

/-- Whether all values can be looked up among others. -/
def areKeys : List Value → Bool
  | [] => true
  | v :: rest => isKey v && areKeys rest

end

/-- The name of the first value of a choice that stands for a stored value. Where the values can be
looked up, one that stands for null goes out by its name. -/
def choiceName? (values : Members Choice) (v : Value) : Option String :=
  let outgoing := fun (kv : String × Choice) =>
    if isKey v && kv.2.stored.isNull then Value.text kv.1 else kv.2.stored
  (values.find? fun kv => Value.same (outgoing kv) v).map Prod.fst

/-- A value of a leaf type as it goes out. -/
def writeLeaf (path : List PathStep) (name : String) (t : NamedType) (v : Value) :
    Completion Value :=
  match t with
  | .scalar s => attempt path (s.write v)
  | .choice values =>
    match choiceName? values v with
    | some choice => pure (.text choice)
    | none => fail path s!"Enum '{name}' cannot represent value: {v.preview}"
  | _ => fail path s!"Cannot complete value of unexpected output type: '{name}'."

/-- The object type of a value of a type that may be of several: the one that the value names; or
why there is none. -/
def objectType (s : Schema) (owner field name : String) (t : NamedType) (v : Value) :
    Except String String :=
  match t, v.field "__typename" with
  | .object _ _, _ => .ok name
  | _, .text object =>
    match s.type? object with
    | none => .error (s!"Abstract type '{name}' was resolved to a type '{object}'" ++
        " that does not exist inside the schema.")
    | some (.object ..) =>
      if s.isPossible name object then .ok object
      else .error s!"Runtime Object type '{object}' is not a possible type for '{name}'."
    | some _ => .error s!"Abstract type '{name}' was resolved to a non-object type '{object}'."
  | _, _ => .error (s!"Abstract type '{name}' must resolve to an Object type at runtime for " ++
      s!"field '{owner}.{field}'. Either the '{name}' type should provide a 'resolve_type' " ++
      "function or each possible type should provide an 'is_type_of' function.")

/-- Completes the items of a list. -/
def completeItems (item : TypeExpr) (path : List PathStep)
    (complete : List PathStep → Value → Completion Value) :
    Nat → List Value → Completion (List Value)
  | _, [] => return []
  | n, v :: rest => do
    let v ← orNull item (complete (path ++ [.index n]) v)
    let rest ← completeItems item path complete (n + 1) rest
    return v :: rest

/-- Completes a value as a type says; `below` completes the values of object types. -/
def completeValue (s : Schema) (owner field : String)
    (below : String → List PathStep → Value → Completion Value) :
    TypeExpr → List PathStep → Value → Completion Value
  | .nonNull inner, path, v => do
    let v ← completeValue s owner field below inner path v
    if v.isNull then fail path s!"Cannot return null for non-nullable field {owner}.{field}."
    else return v
  | .list item, path, v =>
    match v with
    | .null => return .null
    | v =>
      match v.items? with
      | none =>
        fail path s!"Expected Iterable, but did not find one for field '{owner}.{field}'."
      | some items =>
        return .list (← completeItems item path (completeValue s owner field below item) 0 items)
  | .named name, path, v =>
    if v.isNull then return .null
    else match s.type? name with
      | none => fail path s!"Cannot complete value of unexpected output type: '{name}'."
      | some t =>
        match t with
        | .object .. | .interface .. | .union _ =>
          match objectType s owner field name t v with
          | .ok object => below object path v
          | .error reason => fail path reason
        | t => writeLeaf path name t v

/-- Completes a field of a value of some type with what it resolved to. Fields about the schema are
answered by the schema. -/
def completeField (r : Request) (levels : Nat) (type : String) (d : FieldDefinition)
    (nodes : List FieldNode) (path : List PathStep)
    (below : String → List PathStep → Value → Completion Value) (outcome : Attempt Value) :
    Completion Value :=
  orNull d.type (do
    if d.name = Schema.typeNameField.name then return .text type
    else if d.name = Schema.schemaField.name || d.name = Schema.typeField.name then
      let args ← attempt path (argumentsOf r.schema r.given d nodes)
      match Subject.ofField? r.schema d args with
      | some told => attempt path (Subject.answer r.schema r.given levels nodes told)
      | none => return .null
    else
      let v ← attempt path outcome
      completeValue r.schema type d.name below d.type path v)

/-- What a field resolves to. -/
def resolveField (r : Request) (resolve : Resolver) (type key : String) (d : FieldDefinition)
    (parent : Value) (nodes : List FieldNode) : Attempt Value := do
  let args ← argumentsOf r.schema r.given d nodes
  resolve ⟨type, d.name, key, parent, args⟩

/-- Completes a value of an object type, as many levels of selections down as there are. -/
def completeObject (r : Request) (resolve : Resolver) :
    Nat → List FieldNode → String → List PathStep → Value → Completion Value
  | 0, _, _, _, _ => return .object []
  | levels + 1, nodes, type, path, v => do
    let groups ← attempt path (collectBelow r.schema r.given type nodes)
    let members ← groups.filterMapM fun (key, nodes) => do
      match r.schema.anyField? type (nameOf nodes) with
      | none => return none
      | some d =>
        let path := path ++ [.key key]
        let below := completeObject r resolve levels nodes
        let outcome := resolveField r resolve type key d v nodes
        return some (key, ← completeField r levels type d nodes path below outcome)
    return .object members

/-- A field of the root of a request. -/
structure RootField where
  key : String
  definition : FieldDefinition
  nodes : List FieldNode
deriving Inhabited

/-- What became of a root field: its value, or a problem that it could not stand; with the problems
that it stood. -/
structure Settled where
  key : String
  value : Except Problem Value
  problems : List Problem
deriving Inhabited

/-- Whether a problem came up at a root field or below. -/
def Settled.hasFailed (s : Settled) : Bool :=
  !s.problems.isEmpty || match s.value with
    | .error _ => true
    | .ok _ => false

/-- The response to a request. -/
structure Response where
  data : Value
  problems : List Problem
deriving Repr, Inhabited

namespace Request

/-- The operations of a document. -/
def operations (d : Document) : List OperationDefinition :=
  d.filterMap fun part => match part with
    | .operation o => some o
    | _ => none

/-- The fragments of a document; of several under one name the last. -/
def fragments (d : Document) : Members Fragment :=
  Members.ofPairs (d.filterMap fun part => match part with
    | .fragment name f => some (name, f)
    | _ => none)

/-- The operation of a document by name; without a name the only one. -/
def operation (d : Document) (name : Option String) : Except String OperationDefinition :=
  match name, operations d with
  | none, [o] => .ok o
  | none, [] => .error "Must provide an operation."
  | none, _ => .error "Must provide operation name if query contains multiple operations."
  | some name, os =>
    match (os.filter (·.name = some name)).getLast? with
    | some o => .ok o
    | none => .error s!"Unknown operation named '{name}'."

/-- The request that an operation of a document makes on a schema. -/
def ofDocument (s : Schema) (d : Document) (name : Option String) (given : Members Value) :
    Attempt Request := do
  match operation d name with
  | .error reason => .error (.request reason)
  | .ok o =>
    let vars ← Coercion.variableValues s o.parameters given
    match s.root? o.kind with
    | none =>
      .error (.request s!"Schema is not configured to execute {o.kind.word} operation.")
    | some root => return ⟨s, o.kind, root, Entry.expand (fragments d) o.entries, vars⟩

/-- The fields of the root, in order; fields that the root does not have are passed over. -/
def rootFields (r : Request) : Attempt (List RootField) := do
  let groups ← fieldsFor r.schema r.given r.root r.entries
  return groups.filterMap fun (key, nodes) =>
    (r.schema.anyField? r.root (nameOf nodes)).map fun d => ⟨key, d, nodes⟩

/-- The arguments of a root field. -/
def argumentsOf (r : Request) (f : RootField) : Attempt (Members Value) :=
  Graphql.argumentsOf r.schema r.given f.definition f.nodes

/-- The tree of what a root field asks for. -/
def selectionOf (r : Request) (f : RootField) (args : Members Value) :
    Attempt RelGraph.Selection :=
  Graphql.selectionOf r.schema r.given f.definition f.key args f.nodes

/-- Whether a root field is answered by the schema alone. -/
def isAboutSchema (f : RootField) : Bool :=
  [Schema.typeNameField, Schema.schemaField, Schema.typeField].any (·.name = f.definition.name)

/-- Completes what a root field resolved to. -/
def settle (r : Request) (resolve : Resolver) (f : RootField) (outcome : Attempt Value) : Settled :=
  let levels := Entry.depthOf r.entries
  let below := completeObject r resolve levels f.nodes
  let completed := completeField r levels r.root f.definition f.nodes [.key f.key] below outcome
  let (value, problems) := completed.run.run []
  ⟨f.key, value, problems⟩

/-- The response made of settled root fields: one that could not stand its problem leaves no data,
and the first such problem is reported. -/
def respond (settled : List Settled) : Response :=
  let stood := settled.flatMap (·.problems)
  let failed := settled.filterMap fun s => match s.value with
    | .error p => some p
    | .ok _ => none
  let members := settled.filterMap fun s => match s.value with
    | .ok v => some (s.key, v)
    | .error _ => none
  match failed with
  | [] => ⟨.object members, stood⟩
  | p :: _ => ⟨.null, stood ++ [p]⟩

/-- Settles root fields one by one, up to the first that could not stand its problem. -/
def settleAll (r : Request) (resolve : Resolver) : List RootField → List Settled
  | [] => []
  | f :: rest =>
    let outcome := resolveField r resolve r.root f.key f.definition .null f.nodes
    let settled := r.settle resolve f outcome
    match settled.value with
    | .error _ => [settled]
    | .ok _ => settled :: settleAll r resolve rest

/-- Executes a request with resolvers that depend on nothing but their calls. -/
def execute (r : Request) (resolve : Resolver) : Response :=
  match r.rootFields with
  | .error f => ⟨.null, [Problem.ofFailure [] f]⟩
  | .ok fields => respond (r.settleAll resolve fields)

end Request
end RelGraph.Graphql
