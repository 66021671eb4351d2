import RelGraph.Graphql.Coercion
import RelGraph.Selection
/-!
Collecting fields. `expand` puts the entries of fragments where they are spread, so that what is
left are fields and conditions. Execution collects, for a value of one object type, the fields that
apply to it, under their response keys; a resolver is told the whole tree of what is asked for below
its field.
-/
namespace RelGraph.Graphql

/-- A field as a request writes it. -/
structure FieldNode where
  label : Option String
  name : String
  args : Arguments
  directives : List Directive
  entries : List Entry
deriving Repr, Inhabited

/-- The key of a field in the response. -/
def FieldNode.key (n : FieldNode) : String := n.label.getD n.name

namespace Entry

mutual

/-- An entry with what is put in place of its spreads: entries under a condition. -/
def expandWith (inPlaceOf : String → Option (Option String × List Entry)) : Entry → Entry
  | .field label name args directives entries =>
    .field label name args directives (expandAllWith inPlaceOf entries)
  | .spread fragment directives =>
    match inPlaceOf fragment with
    | some (condition, entries) => .within (some fragment) condition directives entries
    | none => .spread fragment directives
  | .within _ condition directives entries =>
    .within none condition directives (expandAllWith inPlaceOf entries)

/-- Entries with what is put in place of their spreads. -/
def expandAllWith (inPlaceOf : String → Option (Option String × List Entry)) :
    List Entry → List Entry
  | [] => []
  | e :: rest => expandWith inPlaceOf e :: expandAllWith inPlaceOf rest

end

/-- Entries with fragments put in, to a number of fragments inside each other. Nothing is put in
place of unknown ones. -/
def expandTo (fragments : Members Fragment) : Nat → List Entry → List Entry
  | 0, entries =>
    expandAllWith (fun name =>
      match Members.get? fragments name with
      | none => some (none, [])
      | some _ => none) entries
  | depth + 1, entries =>
    expandAllWith (fun name =>
      match Members.get? fragments name with
      | none => some (none, [])
      | some f => some (some f.condition, expandTo fragments depth f.entries)) entries

/-- Entries with all fragments put in; only what is put in is marked with the name of a fragment.
Fragments that do not spread themselves are no deeper inside each other than there are fragments;
what spreads are left are of those that do. -/
def expand (fragments : Members Fragment) (entries : List Entry) : List Entry :=
  expandTo fragments fragments.length entries

mutual

/-- How deep the selections of an entry nest. -/
def depth : Entry → Nat
  | .field _ _ _ _ entries => depthOf entries + 1
  | .spread _ _ => 0
  | .within _ _ _ entries => depthOf entries

/-- How deep the selections of entries nest. -/
def depthOf : List Entry → Nat
  | [] => 0
  | e :: rest => max (depth e) (depthOf rest)

end

end Entry

/-- The truth value that a directive states, if it is there. -/
def statedBy (vars : Variables) (directives : List Directive) (name : String) :
    Attempt (Option Value) :=
  match directives.find? (·.name = name) with
  | none => .ok none
  | some d => do
    let condition : InputDefinition := { name := "if", type := .nonNull (.named "Boolean") }
    let args ← Coercion.arguments { types := Schema.builtInTypes } vars [condition] d.args
    return Members.get? args "if"

/-- Whether execution leaves an entry in. What counts as given is taken for true. -/
def isIncluded (vars : Variables) (directives : List Directive) : Attempt Bool := do
  if ((← statedBy vars directives "skip").map Value.truthy).getD false then return false
  else return ((← statedBy vars directives "include").map Value.truthy).getD true

/-- Whether what a resolver is told leaves an entry in: only truth values leave one out. -/
def isTold (vars : Variables) (directives : List Directive) : Attempt Bool := do
  match ← statedBy vars directives "skip" with
  | some (.bool true) => return false
  | _ =>
    match ← statedBy vars directives "include" with
    | some (.bool false) => return false
    | _ => return true

/-- Fields by response key, in the order in which the keys came up. -/
abbrev FieldGroups := Members (List FieldNode)

/-- Adds a field under its key. -/
def FieldGroups.add (groups : FieldGroups) (node : FieldNode) : FieldGroups :=
  Members.put groups node.key (((Members.get? groups node.key).getD []) ++ [node])

/-- What has been collected: fields, and the fragments gone through for them. -/
structure Collected where
  groups : FieldGroups := []
  visited : List String := []
deriving Repr, Inhabited

/-- Marks the fragment that entries are of, if they are of one. -/
def Collected.visit (c : Collected) (fragment : Option String) : Collected :=
  { c with visited := fragment.toList ++ c.visited }

mutual

/-- Adds the fields of an entry that apply to an object type. A fragment is gone through once. -/
def collectEntry (s : Schema) (vars : Variables) (object : String) (c : Collected) :
    Entry → Attempt Collected
  | .field label name args directives entries => do
    if ← isIncluded vars directives then
      return { c with groups := FieldGroups.add c.groups ⟨label, name, args, directives, entries⟩ }
    else return c
  | .within fragment condition directives entries => do
    if fragment.any c.visited.contains then return c
    else if ← isIncluded vars directives then
      let c := c.visit fragment
      if condition.all (s.isPossible · object) then collectEntries s vars object c entries
      else return c
    else return c
  | .spread _ _ => return c

/-- Adds the fields of entries that apply to an object type. -/
def collectEntries (s : Schema) (vars : Variables) (object : String) (c : Collected) :
    List Entry → Attempt Collected
  | [] => .ok c
  | e :: rest => do
    let c ← collectEntry s vars object c e
    collectEntries s vars object c rest

end

/-- The fields of entries that apply to an object type. -/
def fieldsFor (s : Schema) (vars : Variables) (object : String) (entries : List Entry) :
    Attempt FieldGroups := do
  return (← collectEntries s vars object {} entries).groups

/-- The fields below some fields of one key, for a value of an object type. -/
def collectBelow (s : Schema) (vars : Variables) (object : String) (nodes : List FieldNode) :
    Attempt FieldGroups :=
  fieldsFor s vars object (nodes.flatMap (·.entries))

/-- The name of the field that some nodes of one key ask for. -/
def nameOf (nodes : List FieldNode) : String := (nodes.head?.map (·.name)).getD ""

/-- The arguments of a field as the first of some nodes of one key writes them. -/
def argumentsOf (s : Schema) (vars : Variables) (d : FieldDefinition) (nodes : List FieldNode) :
    Attempt (Members Value) :=
  Coercion.arguments s vars d.args ((nodes.head?.map (·.args)).getD [])

/-- The selection of a key when another field asks for the same: name and arguments have to
agree. -/
def mergedWith (key name : String) (label : Option String) (args : Members Value) :
    Option RelGraph.Selection → Attempt RelGraph.Selection
  | none => .ok ⟨name, label, args, []⟩
  | some s =>
    if s.name = name && Value.alike (.object s.args) (.object args) then .ok s
    else Attempt.fault (.selectionConflict key name)

mutual

/-- Adds an entry to the selections below a type. Type conditions are not looked at, fields about
the schema are left out, and a field that the type does not have is asked for without arguments.
There is no end to a fragment that spreads itself. -/
def requestEntry (s : Schema) (vars : Variables) (parent : String)
    (found : List (String × RelGraph.Selection)) :
    Entry → Attempt (List (String × RelGraph.Selection))
  | .field label name written directives entries => do
    if !(← isTold vars directives) || name.startsWith "__" then return found
    else
      let key := label.getD name
      match s.field? parent name with
      | none =>
        let selection ← mergedWith key name label [] (Members.get? found key)
        return Members.put found key selection
      | some d =>
        let args ← Coercion.arguments s vars d.args written
        let selection ← mergedWith key name label args (Members.get? found key)
        let below ← requestEntries s vars d.type.name selection.fields entries
        return Members.put found key { selection with fields := below }
  | .within _ _ directives entries => do
    if ← isTold vars directives then requestEntries s vars parent found entries
    else return found
  | .spread fragment directives => do
    if ← isTold vars directives then
      .error (.request s!"Cannot spread fragment '{fragment}' within itself.")
    else return found

/-- Adds entries to the selections below a type. -/
def requestEntries (s : Schema) (vars : Variables) (parent : String)
    (found : List (String × RelGraph.Selection)) :
    List Entry → Attempt (List (String × RelGraph.Selection))
  | [] => .ok found
  | e :: rest => do
    let found ← requestEntry s vars parent found e
    requestEntries s vars parent found rest

end

/-- The tree of what some fields of one key ask for. -/
def selectionOf (s : Schema) (vars : Variables) (d : FieldDefinition) (key : String)
    (args : Members Value) (nodes : List FieldNode) : Attempt RelGraph.Selection := do
  let label := if key = d.name then none else some key
  let fields ← requestEntries s vars d.type.name [] (nodes.flatMap (·.entries))
  return ⟨d.name, label, args, fields⟩

end RelGraph.Graphql
