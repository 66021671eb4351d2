import RelGraph.Graphql.Schema
/-!
Coercion: values as the types of a schema ask for them. A single value given for a list becomes a
list of one, choices become what they stand for, and an input object has its members in the order in
which its type defines them, with the defaults of those that are not given.
-/
namespace RelGraph.Graphql

/-- The variables of a request: what each was given, and what it came to. -/
structure Variables where
  given : Members Value := []
  coerced : Members Value := []
deriving Repr, Inhabited

/-- The default of an input where it is left out. -/
abbrev Defaults := InputDefinition → Option Value

namespace Coercion

/-- The members of an input object in the order of its type: given ones, else defaults. Nothing when
a member is left out that may not be. -/
def inOrder (defaults : Defaults) (given : Members Value) :
    List InputDefinition → Option (Members Value)
  | [] => some []
  | d :: rest => do
    let rest ← inOrder defaults given rest
    match Members.get? given d.name with
    | some v => return (d.name, v) :: rest
    | none =>
      match d.default? with
      | some _ => return (d.name, ← defaults d) :: rest
      | none => if d.type.isNonNull then none else return rest

/-- What a variable came to, as a type asks for it. -/
def variableAs (vars : Variables) (t : TypeExpr) (name : String) : Option Value :=
  match Members.get? vars.coerced name with
  | none => none
  | some .null => if t.isNonNull then none else some .null
  | some v => some v

mutual

/-- A literal as a type asks for it. -/
def literalAs (s : Schema) (defaults : Defaults) (vars : Variables) (t : TypeExpr) (l : Literal) :
    Option Value :=
  match l with
  | .variable name => variableAs vars t name
  | .null => if t.isNonNull then none else some .null
  | .list items => listAs s defaults vars t items
  | .object members => objectAs s defaults vars t members
  | l => leafAs s vars t l
termination_by (sizeOf l, sizeOf t + 1)
decreasing_by all_goals simp_wf; omega

/-- A list literal as a type asks for it. -/
def listAs (s : Schema) (defaults : Defaults) (vars : Variables) (t : TypeExpr)
    (items : List Literal) : Option Value :=
  match t with
  | .nonNull inner => listAs s defaults vars inner items
  | .list item => (itemsAs s defaults vars item items).map .list
  | .named name => leafAs s vars (.named name) (.list items)
termination_by (sizeOf items, sizeOf t + 2)
decreasing_by all_goals simp_wf; omega

/-- The items of a list literal; a variable that was given nothing is null. -/
def itemsAs (s : Schema) (defaults : Defaults) (vars : Variables) (t : TypeExpr)
    (items : List Literal) : Option (List Value) :=
  match items with
  | [] => some []
  | l :: rest => do
    let v ← if l.isUnset (Members.has vars.coerced) && !t.isNonNull then some .null
      else literalAs s defaults vars t l
    let rest ← itemsAs s defaults vars t rest
    return v :: rest
termination_by (sizeOf items, sizeOf t)
decreasing_by all_goals simp_wf; omega

/-- An object literal as a type asks for it. -/
def objectAs (s : Schema) (defaults : Defaults) (vars : Variables) (t : TypeExpr)
    (members : List (String × Literal)) : Option Value :=
  match t with
  | .nonNull inner => objectAs s defaults vars inner members
  | .list item => (objectAs s defaults vars item members).map fun v => .list [v]
  | .named name =>
    match s.type? name with
    | some (.input fields) => do
      let given ← membersAs s defaults vars fields members
      return .object (← inOrder defaults given fields)
    | _ => leafAs s vars (.named name) (.object members)
termination_by (sizeOf members, sizeOf t + 2)
decreasing_by all_goals simp_wf; omega

/-- The members of an object literal, of several under one name the last; one whose variable was
given nothing is left out. -/
def membersAs (s : Schema) (defaults : Defaults) (vars : Variables)
    (fields : List InputDefinition) (members : List (String × Literal)) :
    Option (Members Value) :=
  match members with
  | [] => some []
  | (key, l) :: rest => do
    let d ← fields.find? (·.name = key)
    if l.isUnset (Members.has vars.coerced) || Members.has rest key then
      membersAs s defaults vars fields rest
    else
      let v ← literalAs s defaults vars d.type l
      let rest ← membersAs s defaults vars fields rest
      return (key, v) :: rest
termination_by (sizeOf members, 0)
decreasing_by all_goals simp_wf; omega

/-- A literal of a leaf type. -/
def leafAs (s : Schema) (vars : Variables) (t : TypeExpr) (l : Literal) : Option Value :=
  match t with
  | .nonNull inner => leafAs s vars inner l
  | .list item => (leafAs s vars item l).map fun v => .list [v]
  | .named name =>
    match s.type? name, l with
    | some (.scalar scalar), l => (scalar.readLiteral (Members.get? vars.given) l).toOption
    | some (.choice values), .name value => (Members.get? values value).map (·.stored)
    | _, _ => none
termination_by (0, sizeOf t)
decreasing_by all_goals simp_wf; omega

end

mutual

/-- A request value as a type asks for it. -/
def valueAs (s : Schema) (defaults : Defaults) (t : TypeExpr) (v : Value) : Option Value :=
  match v with
  | .null => if t.isNonNull then none else some .null
  | .list items => valueListAs s defaults t items
  | .tuple items => valueListAs s defaults t items
  | .object members => valueObjectAs s defaults t members
  | v => valueLeafAs s t v
termination_by (sizeOf v, sizeOf t + 1)
decreasing_by all_goals simp_wf; omega

/-- A list as a type asks for it. -/
def valueListAs (s : Schema) (defaults : Defaults) (t : TypeExpr) (items : List Value) :
    Option Value :=
  match t with
  | .nonNull inner => valueListAs s defaults inner items
  | .list item => (valueItemsAs s defaults item items).map .list
  | .named name => valueLeafAs s (.named name) (.list items)
termination_by (sizeOf items, sizeOf t + 2)
decreasing_by all_goals simp_wf; omega

/-- The items of a list. -/
def valueItemsAs (s : Schema) (defaults : Defaults) (t : TypeExpr) (items : List Value) :
    Option (List Value) :=
  match items with
  | [] => some []
  | v :: rest => do
    let v ← valueAs s defaults t v
    let rest ← valueItemsAs s defaults t rest
    return v :: rest
termination_by (sizeOf items, sizeOf t)
decreasing_by all_goals simp_wf; omega

/-- An object as a type asks for it. -/
def valueObjectAs (s : Schema) (defaults : Defaults) (t : TypeExpr)
    (members : List (String × Value)) : Option Value :=
  match t with
  | .nonNull inner => valueObjectAs s defaults inner members
  | .list item => (valueObjectAs s defaults item members).map fun v => .list [v]
  | .named name =>
    match s.type? name with
    | some (.input fields) => do
      let given ← valueMembersAs s defaults fields members
      return .object (← inOrder defaults given fields)
    | _ => valueLeafAs s (.named name) (.object members)
termination_by (sizeOf members, sizeOf t + 2)
decreasing_by all_goals simp_wf; omega

/-- The members of an object. -/
def valueMembersAs (s : Schema) (defaults : Defaults) (fields : List InputDefinition)
    (members : List (String × Value)) : Option (Members Value) :=
  match members with
  | [] => some []
  | (key, v) :: rest => do
    let d ← fields.find? (·.name = key)
    let v ← valueAs s defaults d.type v
    let rest ← valueMembersAs s defaults fields rest
    return (key, v) :: rest
termination_by (sizeOf members, 0)
decreasing_by all_goals simp_wf; omega

/-- A value of a leaf type. -/
def valueLeafAs (s : Schema) (t : TypeExpr) (v : Value) : Option Value :=
  match t with
  | .nonNull inner => valueLeafAs s inner v
  | .list item => (valueLeafAs s item v).map fun v => .list [v]
  | .named name =>
    match s.type? name, v with
    | some (.scalar scalar), v => (scalar.readValue v).toOption
    | some (.choice values), .text value => (Members.get? values value).map (·.stored)
    | _, _ => none
termination_by (0, sizeOf t)
decreasing_by all_goals simp_wf; omega

end

/-- The defaults of inputs, as deep as defaults may hold inputs with defaults. -/
def defaultsTo (s : Schema) : Nat → Defaults
  | 0 => fun _ => none
  | depth + 1 => fun d => d.default?.bind (literalAs s (defaultsTo s depth) {} d.type)

/-- The defaults of the inputs of a schema. -/
def defaults (s : Schema) : Defaults := defaultsTo s (s.types.length + 1)

/-- A variable of an operation: what it was given, else its default. A variable that is given
nothing and has no default is left out, unless it may not be null. -/
def variableValue (s : Schema) (given : Members Value) (d : VariableDefinition) :
    Attempt (Option Value) :=
  let refused := Except.error (Failure.request s!"Variable '${d.name}' has invalid value.")
  if !((s.type? d.type.name).map (·.isInput)).getD false then
    .error (.request (s!"Variable '${d.name}' expected value of type '{d.type.text}'" ++
      " which cannot be used as an input type."))
  else match Members.get? given d.name with
  | some v =>
    match valueAs s (defaults s) d.type v with
    | some v => .ok (some v)
    | none => refused
  | none =>
    match d.default? with
    | some l =>
      match literalAs s (defaults s) {} d.type l with
      | some v => .ok (some v)
      | none => refused
    | none => if d.type.isNonNull then refused else .ok none

/-- What a variable counts as given: the value of the request, else the default as written. -/
def sourceValue (given : Members Value) (d : VariableDefinition) : Option Value :=
  match Members.get? given d.name with
  | some v => some v
  | none => d.default?.map fun l => l.untyped fun _ => none

/-- The variables of an operation. -/
def variableValues (s : Schema) (definitions : List VariableDefinition) (given : Members Value) :
    Attempt Variables := do
  let coerced ← definitions.mapM fun d => do
    return (← variableValue s given d).map (d.name, ·)
  let sources := definitions.filterMap fun d => (sourceValue given d).map (d.name, ·)
  return { given := sources, coerced := coerced.filterMap id }

/-- An argument: the written value, else the default. An argument whose variable was given nothing
counts as left out. -/
def argumentValue (s : Schema) (vars : Variables) (written : Arguments) (d : InputDefinition) :
    Attempt (Option Value) :=
  let leftOut : Attempt (Option Value) :=
    match d.default? with
    | some _ => .ok (defaults s d)
    | none =>
      if d.type.isNonNull then .error (.request s!"Argument '{d.name}' was not provided.")
      else .ok none
  let coerced := fun (l : Literal) =>
    match literalAs s (defaults s) vars d.type l with
    | some v => Except.ok (some v)
    | none => .error (.request s!"Argument '{d.name}' has invalid value.")
  match Members.get? (Members.ofPairs written) d.name with
  | none => leftOut
  | some (.variable name) =>
    if Members.has vars.coerced name then coerced (.variable name) else leftOut
  | some l => coerced l

/-- The arguments of a field, in the order in which the field defines them. -/
def arguments (s : Schema) (vars : Variables) (definitions : List InputDefinition)
    (written : Arguments) : Attempt (Members Value) := do
  let found ← definitions.mapM fun d => do
    return (← argumentValue s vars written d).map (d.name, ·)
  return found.filterMap id

end Coercion
end RelGraph.Graphql
