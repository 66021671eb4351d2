import RelGraph.Graphql.Merging
import RelGraph.Graphql.SchemaRules
import RelGraph.Text.Resemblance
/-!
The rules for requests. A request that breaks one is not executed: the flaws of its operations and
fragments are reported in the order of the document, with those of the document as a whole behind
them.
-/
namespace RelGraph.Graphql

namespace Scope

/-- Names of which one may have been meant. -/
def meant (name : String) (names : List String) : String :=
  Text.question "" (Text.resembling name names)

/-! ## Values -/

/-- The flaw of every name that stands before. -/
def repeated (what : String) (names : List String) : List String :=
  (names.zipIdx.filter fun (name, i) => (names.take i).contains name).map fun (name, _) =>
    s!"There can be only one {what} named '{name}'."

/-- The flaw of a value for a choice. -/
def choiceFlaws (name : String) (values : Members Choice) (l : Literal) : List String :=
  let near := fun (written : String) =>
    Text.question "the enum value " (Text.resembling written (Members.names values))
  match l with
  | .name value =>
    if Members.has values value then []
    else [s!"Value '{value}' does not exist in '{name}' enum." ++ near value]
  | .text s => [s!"Enum '{name}' cannot represent non-enum value: {l.written}." ++ near s]
  | l => [s!"Enum '{name}' cannot represent non-enum value: {l.written}." ++ near l.written]

/-- The flaw of a value for a scalar. -/
def scalarFlaws (name : String) (s : Scalar) (l : Literal) : List String :=
  match s.readLiteral (fun _ => none) l with
  | .ok _ => []
  | .error (.request message) => [message]
  | .error e =>
    [s!"Expected value of type '{name}', but encountered error '{e.message}'; found: {l.written}."]

/-- The input fields of a type. -/
def inputFields? (c : Scope) (t : TypeExpr) : Option (List InputDefinition) :=
  match c.schema.type? t.name with
  | some (.input fields) => some fields
  | _ => none

/-- The flaws of a value that is no variable and no list or object whose parts have types of their
own. -/
def leafFlaws (c : Scope) (t : TypeExpr) (l : Literal) : List String :=
  let name := t.name
  match l, c.schema.type? name with
  | .null, _ =>
    if t.isNonNull then [s!"Expected value of non-null type '{t.text}' not to be null."] else []
  | l, some (.scalar s) => scalarFlaws name s l
  | l, some (.choice values) => choiceFlaws name values l
  | l, some (.input _) => [s!"Expected value of type '{name}' to be an object, found: {l.written}."]
  | _, _ => []

/-- The flaws of the members of an input object that are not known or that are missing. -/
def memberFlaws (fields : List InputDefinition) (name : String) (members : Arguments) :
    List String :=
  let shown := (Literal.object members).written
  let unknown := members.filter fun m => !(fields.any (·.name = m.1))
  let missing := fields.filter fun f =>
    f.type.isNonNull && f.default?.isNone && !Members.has members f.name
  repeated "input field" (members.map Prod.fst) ++
    (missing.map fun f =>
      s!"Expected value of type '{name}' to include required field '{f.name}', found: {shown}.") ++
    unknown.map fun m => s!"Expected value of type '{name}' not to include unknown field '{m.1}'" ++
      (if (meant m.1 (fields.map (·.name))).isEmpty then "" else
        "." ++ meant m.1 (fields.map (·.name))) ++ s!", found: {shown}."

mutual

/-- The flaws of a written value where a type is asked for. -/
def literalFlaws (c : Scope) (t : TypeExpr) (l : Literal) : List String :=
  match l with
  | .variable _ => []
  | .list items =>
    match t with
    | .list item | .nonNull (.list item) => itemsFlaws c item items
    | t => leafFlaws c t (.list items)
  | .object members =>
    match c.inputFields? t with
    | some fields => memberFlaws fields t.name members ++ membersFlaws c fields members
    | none => leafFlaws c t (.object members)
  | l => leafFlaws c t l

/-- The flaws of the items of a list. -/
def itemsFlaws (c : Scope) (t : TypeExpr) (items : List Literal) : List String :=
  match items with
  | [] => []
  | l :: rest => literalFlaws c t l ++ itemsFlaws c t rest

/-- The flaws of the values of an input object. -/
def membersFlaws (c : Scope) (fields : List InputDefinition) (members : Arguments) :
    List String :=
  match members with
  | [] => []
  | (key, l) :: rest =>
    ((fields.find? (·.name = key)).map fun d => literalFlaws c d.type l).getD [] ++
      membersFlaws c fields rest

end

/-! ## Arguments and directives -/

/-- The flaws of arguments. A missing one is reported under the place that asks for it. -/
def argumentFlaws (c : Scope) (place owner : String) (known : List InputDefinition)
    (args : Arguments) : List String :=
  repeated "argument" (args.map Prod.fst) ++ args.flatMap fun (name, l) =>
    match known.find? (·.name = name) with
    | some d => c.literalFlaws d.type l
    | none => [s!"Unknown argument '{name}' on {place} '{owner}'." ++
        meant name (known.map (·.name))]

/-- The arguments that are missing. -/
def missingFlaws (owner : String) (known : List InputDefinition) (args : Arguments) :
    List String :=
  let missing := known.filter fun d =>
    d.type.isNonNull && d.default?.isNone && !Members.has args d.name
  missing.map fun d => s!"Argument '{owner}({d.name}:)' of type '{d.type.text}' is required," ++
    " but it was not provided."

/-- The words for a place in a document. -/
def placeWords (place : String) : String :=
  String.ofList (place.toList.map fun ch => if ch = '_' then ' ' else ch.toLower)

/-- The flaws of directives in a place. -/
def directiveFlaws (c : Scope) (place : String) (ds : List Directive) : List String :=
  let known? := fun (d : Directive) => c.schema.directives.find? (·.name = d.name)
  let single := ds.filter fun d => ((known? d).map (!·.repeatable)).getD false
  let names := single.map (·.name)
  let again := names.zipIdx.filter fun (name, i) => (names.take i).contains name
  (again.map fun (name, _) =>
    s!"The directive '@{name}' can only be used once at this location.") ++
    ds.flatMap fun d =>
      match known? d with
      | none => [s!"Unknown directive '@{d.name}'."]
      | some k =>
        (if k.places.contains place then []
          else [s!"Directive '@{d.name}' may not be used on {placeWords place}."]) ++
        c.argumentFlaws "directive" s!"@{d.name}" k.args d.args ++
        missingFlaws s!"@{d.name}" k.args d.args

/-! ## Selections -/

/-- Whether some object may be of two types. -/
def overlap (c : Scope) (a b : String) : Bool :=
  (c.schema.possibleTypes a).any (c.schema.possibleTypes b).contains

/-- The flaw of a condition under which nothing can be selected. -/
def conditionFlaws (c : Scope) (what : String) (parent : Option String) (condition : String) :
    List String :=
  match parent, c.composite? condition with
  | some parent, some condition =>
    if c.overlap parent condition then []
    else [s!"{what} cannot be spread here as objects of type '{parent}' can never be of type" ++
      s!" '{condition}'."]
  | _, _ => []

/-- The flaw of a condition that is no type with fields. -/
def compositeFlaws (c : Scope) (what condition : String) : List String :=
  match c.schema.type? condition with
  | none => [s!"Unknown type '{condition}'." ++ meant condition (Members.names c.schema.types)]
  | some t =>
    if t.isComposite then []
    else [s!"{what} cannot condition on non composite type '{condition}'."]

/-- The types of which one may have been meant by who asked for a field that a type does not
have. -/
def typesWith (c : Scope) (parent field : String) : List String :=
  match c.schema.type? parent with
  | some (.interface ..) | some (.union _) =>
    (c.schema.possibleTypes parent).filter fun t => (c.schema.field? t field).isSome
  | _ => []

/-- The flaw of a field that a type does not have. -/
def unknownField (c : Scope) (parent field : String) : String :=
  let types := c.typesWith parent field
  let names := ((c.schema.type? parent).map fun t => t.fields.map (·.name)).getD []
  s!"Cannot query field '{field}' on type '{parent}'." ++
    if types.isEmpty then meant field names else Text.question "to use an inline fragment on " types

/-- The flaw of a field that has no selection though its type has fields, or the other way round. -/
def selectionFlaws (c : Scope) (d : FieldDefinition) (entries : List Entry) : List String :=
  match c.schema.type? d.type.name with
  | none => []
  | some t =>
    if t.isComposite && entries.isEmpty then
      [s!"Field '{d.name}' of type '{d.type.text}' must have a selection of subfields." ++
        s!" Did you mean '{d.name} \x7b ... \x7d'?"]
    else if !t.isComposite && !entries.isEmpty then
      [s!"Field '{d.name}' must not have a selection since type '{d.type.text}' has no subfields."]
    else []

/-- The flaw of a selection at a place that holds fields that cannot be merged. -/
def mergingFlaws (clashes : List (Place × Clashes)) (place : Place) : List String :=
  ((clashes.find? (·.1 = place)).map fun (_, found) =>
    found.map fun (key, clash) => clash.message key).getD []

mutual

/-- The flaws of an entry of a selection below a type, at a place. -/
def entryFlaws (c : Scope) (clashes : List (Place × Clashes)) (parent : Option String)
    (place : Place) (e : Entry) : List String :=
  match e with
  | .field _ name args directives entries =>
    let within := fun (parent : Option String) =>
      mergingFlaws clashes place ++ c.entriesFlaws clashes parent place 0 entries
    match parent with
    | none =>
      c.directiveFlaws "FIELD" directives ++ within none
    | some type =>
      match c.schema.anyField? type name with
      | none =>
        c.unknownField type name :: c.directiveFlaws "FIELD" directives ++ within none
      | some d =>
        let owner := s!"{type}.{name}"
        c.selectionFlaws d entries ++ c.argumentFlaws "field" owner d.args args ++
          c.directiveFlaws "FIELD" directives ++ within (c.composite? d.type.name) ++
          missingFlaws owner d.args args
  | .spread fragment directives =>
    (match Members.get? c.fragments fragment with
      | none => [s!"Unknown fragment '{fragment}'."]
      | some f => c.conditionFlaws s!"Fragment '{fragment}'" parent f.condition) ++
      c.directiveFlaws "FRAGMENT_SPREAD" directives
  | .within _ condition directives entries =>
    let within := fun (parent : Option String) =>
      mergingFlaws clashes place ++ c.entriesFlaws clashes parent place 0 entries
    match condition with
    | none => c.directiveFlaws "INLINE_FRAGMENT" directives ++ within parent
    | some condition =>
      c.conditionFlaws "Fragment" parent condition ++ c.compositeFlaws "Fragment" condition ++
        c.directiveFlaws "INLINE_FRAGMENT" directives ++ within (c.composite? condition)

/-- The flaws of entries of a selection below a type; the first stands at an index of a place. -/
def entriesFlaws (c : Scope) (clashes : List (Place × Clashes)) (parent : Option String)
    (place : Place) (i : Nat) (es : List Entry) : List String :=
  match es with
  | [] => []
  | e :: rest =>
    c.entryFlaws clashes parent (place ++ [i]) e ++
      c.entriesFlaws clashes parent place (i + 1) rest

end

/-! ## Variables -/

/-- A use of a variable: where a type is asked for, perhaps with a default. -/
structure Use where
  name : String
  type? : Option TypeExpr
  hasDefault : Bool := false
deriving Repr, Inhabited

mutual

/-- The uses of variables in a value. -/
def usesIn (c : Scope) (t : Option TypeExpr) (hasDefault : Bool) (l : Literal) : List Use :=
  match l with
  | .variable name => [⟨name, t, hasDefault⟩]
  | .list items =>
    match t with
    | some (.list item) | some (.nonNull (.list item)) => usesInItems c (some item) items
    | t => usesInItems c t items
  | .object members => usesInMembers c ((t.bind c.inputFields?).getD []) members
  | _ => []

/-- The uses of variables in items. -/
def usesInItems (c : Scope) (t : Option TypeExpr) (items : List Literal) : List Use :=
  match items with
  | [] => []
  | l :: rest => usesIn c t false l ++ usesInItems c t rest

/-- The uses of variables in members. -/
def usesInMembers (c : Scope) (fields : List InputDefinition) (members : Arguments) : List Use :=
  match members with
  | [] => []
  | (key, l) :: rest =>
    let d := fields.find? (·.name = key)
    usesIn c (d.map (·.type)) ((d.bind (·.default?)).isSome) l ++ usesInMembers c fields rest

end

/-- The uses of variables in directives. -/
def usesInDirectives (c : Scope) (ds : List Directive) : List Use :=
  ds.flatMap fun d =>
    let known := ((c.schema.directives.find? (·.name = d.name)).map (·.args)).getD []
    c.usesInMembers known d.args

mutual

/-- The uses of variables in an entry of a selection. -/
def usesInEntry (c : Scope) (parent : Option String) (e : Entry) : List Use :=
  match e with
  | .field _ name args directives entries =>
    let d := parent.bind (c.schema.anyField? · name)
    c.usesInMembers ((d.map (·.args)).getD []) args ++ c.usesInDirectives directives ++
      c.usesInEntries (d.bind fun d => c.composite? d.type.name) entries
  | .spread _ directives => c.usesInDirectives directives
  | .within _ condition directives entries =>
    c.usesInDirectives directives ++ c.usesInEntries (c.inside parent condition) entries

/-- The uses of variables in entries of a selection. -/
def usesInEntries (c : Scope) (parent : Option String) (es : List Entry) : List Use :=
  match es with
  | [] => []
  | e :: rest => c.usesInEntry parent e ++ c.usesInEntries parent rest

end

mutual

/-- The fragments that an entry spreads. -/
def spreadsIn (e : Entry) : List String :=
  match e with
  | .field _ _ _ _ entries | .within _ _ _ entries => spreadsInAll entries
  | .spread fragment _ => [fragment]

/-- The fragments that entries spread. -/
def spreadsInAll (es : List Entry) : List String :=
  match es with
  | [] => []
  | e :: rest => spreadsIn e ++ spreadsInAll rest

end

/-- Adds fragments with those that they spread, as many inside each other as the fuel lasts. -/
def reach (c : Scope) : Nat → List String → List String → List String
  | 0, found, _ => found
  | fuel + 1, found, names =>
    names.foldl (fun found name =>
      if found.contains name then found
      else match Members.get? c.fragments name with
        | none => found
        | some f => c.reach fuel (found ++ [name]) (spreadsInAll f.entries)) found

/-- The fragments that entries make use of. -/
def fragmentsOf (c : Scope) (entries : List Entry) : List String :=
  c.reach (c.fragments.length + 1) [] (spreadsInAll entries)

/-- The uses of variables in an operation and in the fragments that it makes use of. -/
def usesInOperation (c : Scope) (o : OperationDefinition) : List Use :=
  let inFragments := (c.fragmentsOf o.entries).flatMap fun name =>
    match Members.get? c.fragments name with
    | some f => c.usesInEntries (c.composite? f.condition) f.entries
    | none => []
  c.usesInDirectives o.directives ++ c.usesInEntries (c.schema.root? o.kind) o.entries ++
    inFragments

/-- Whether values of a type may stand where another is asked for. -/
def suits : TypeExpr → TypeExpr → Bool
  | .nonNull a, .nonNull b => suits a b
  | .nonNull a, b => suits a b
  | _, .nonNull _ => false
  | .list a, .list b => suits a b
  | .named a, .named b => a = b
  | _, _ => false

/-- Whether a variable may stand where it is used. -/
def mayStand (d : VariableDefinition) (u : Use) (t : TypeExpr) : Bool :=
  match t, d.type.isNonNull with
  | .nonNull inner, false =>
    let hasValue := match d.default? with
      | none | some .null => false
      | some _ => true
    (hasValue || u.hasDefault) && suits d.type inner
  | t, _ => suits d.type t

/-- The words behind a variable of an operation that has a name. -/
def inOperation (word : String) (o : OperationDefinition) : String :=
  match o.name with
  | some name => s!" {word} operation '{name}'."
  | none => "."

/-- The flaws of the variables of an operation. -/
def variableFlaws (c : Scope) (o : OperationDefinition) : List String :=
  let uses := c.usesInOperation o
  let defined? := fun (u : Use) => o.parameters.find? (·.name = u.name)
  let undefinedUses := uses.filter fun u => (defined? u).isNone
  let unused := o.parameters.filter fun d => !(uses.any (·.name = d.name))
  let misplaced := uses.filterMap fun u => do
    let d ← defined? u
    let t ← u.type?
    if mayStand d u t then none
    else some (s!"Variable '${d.name}' of type '{d.type.text}' used in position expecting type" ++
      s!" '{t.text}'.")
  (undefinedUses.map fun u => s!"Variable '${u.name}' is not defined" ++ inOperation "by" o) ++
    (unused.map fun d => s!"Variable '${d.name}' is never used" ++ inOperation "in" o) ++ misplaced

/-- The flaws of the definition of a variable. -/
def parameterFlaws (c : Scope) (d : VariableDefinition) : List String :=
  let kind := match c.schema.type? d.type.name with
    | none => [s!"Unknown type '{d.type.name}'." ++
        meant d.type.name (Members.names c.schema.types)]
    | some t =>
      if t.isInput then [] else [s!"Variable '${d.name}' cannot be non-input type '{d.type.text}'."]
  kind ++ ((d.default?.map (c.literalFlaws d.type)).getD []) ++
    c.directiveFlaws "VARIABLE_DEFINITION" d.directives

/-! ## Documents -/

/-- The place of a kind of operation. -/
def operationPlace : OperationKind → String
  | .query => "QUERY"
  | .mutation => "MUTATION"
  | .subscription => "SUBSCRIPTION"

/-- The flaws of the selections of a definition. -/
def definedFlaws (c : Scope) (clashes : List (Place × Clashes)) (parent : Option String)
    (place : Place) (es : List Entry) : List String :=
  mergingFlaws clashes place ++ c.entriesFlaws clashes parent place 0 es

/-- The flaws of an operation. -/
def operationFlaws (c : Scope) (clashes : List (Place × Clashes)) (place : Place)
    (o : OperationDefinition) : List String :=
  let os := Request.operations c.document
  let lone := if o.name.isNone && 1 < os.length then
    ["This anonymous operation must be the only defined operation."] else []
  let names := o.parameters.map (·.name)
  let again := names.zipIdx.filter fun (name, i) => (names.take i).contains name
  lone ++ (again.map fun (name, _) => s!"There can be only one variable named '${name}'.") ++
    o.parameters.flatMap c.parameterFlaws ++
    c.directiveFlaws (operationPlace o.kind) o.directives ++
    c.definedFlaws clashes (c.schema.root? o.kind) place o.entries ++ c.variableFlaws o

/-- A walk through fragments: those that are done, and the flaws found. -/
abbrev Walk := List String × List String

/-- Follows the spreads of a fragment along a path of fragments. -/
def follow (c : Scope) : Nat → List String → Walk → String → Walk
  | 0, _, walk, _ => walk
  | fuel + 1, path, walk, name =>
    if walk.1.contains name then walk
    else
      let spreads := ((Members.get? c.fragments name).map (spreadsInAll ·.entries)).getD []
      let path := path ++ [name]
      spreads.foldl (fun walk next =>
        if path.contains next then
          let via := (path.dropWhile (· ≠ next)).drop 1
          let through := if via.isEmpty then "" else
            " via " ++ String.intercalate ", " (via.map fun name => "'" ++ name ++ "'")
          (walk.1, walk.2 ++ [s!"Cannot spread fragment '{next}' within itself{through}."])
        else c.follow fuel path walk next) (name :: walk.1, walk.2)

/-- The flaws of fragments that spread themselves. -/
def cycleFlaws (c : Scope) : List String :=
  ((Members.names c.fragments).foldl
    (fun walk name => c.follow (c.fragments.length + 1) [] walk name) ([], [])).2

/-- The flaws of a definition. -/
def definitionFlaws (c : Scope) (clashes : List (Place × Clashes)) (place : Place) :
    Definition → List String
  | .operation o => c.operationFlaws clashes place o
  | .fragment name f =>
    c.compositeFlaws s!"Fragment '{name}'" f.condition ++
      c.directiveFlaws "FRAGMENT_DEFINITION" f.directives ++
      c.definedFlaws clashes (c.composite? f.condition) place f.entries
  | .type name .. | .extension name .. => [s!"The '{name}' definition is not executable."]
  | .directive d => [s!"The '{d.name}' definition is not executable."]
  | .roots .. => ["The schema definition is not executable."]

/-- The names of the fragments of the document, repeated ones included. -/
def fragmentNames (c : Scope) : List String :=
  c.document.filterMap fun part => match part with
    | .fragment name _ => some name
    | _ => none

/-- How many flaws are reported. -/
def reportedFlaws : Nat := 100

/-- Flaws cut off where there are too many. -/
def reported (flaws : List String) : List String :=
  if flaws.length ≤ reportedFlaws then flaws
  else flaws.take reportedFlaws ++
    ["Too many validation errors, error limit reached. Validation aborted."]

/-- Everything that keeps a request from being executed. -/
def flaws (c : Scope) : List String :=
  let os := Request.operations c.document
  let clashes := c.clashes
  let used := os.flatMap fun o => c.fragmentsOf o.entries
  let unused := c.fragmentNames.filter fun name => !used.contains name
  repeated "operation" (os.filterMap (·.name)) ++ repeated "fragment" c.fragmentNames ++
    (c.document.zipIdx.flatMap fun (d, i) => c.definitionFlaws clashes [i] d) ++ c.cycleFlaws ++
    unused.map fun name => s!"Fragment '{name}' is never used."

end Scope

namespace Schema

/-- The request that a text makes: the operation of its document by name, or the only one. It is
refused for the flaws of the schema, what the text has in place of a document, and the rules for
requests that the document breaks. -/
def request (s : Schema) (text : String) (operation : Option String) (given : Members Value) :
    Except (List String) Request := do
  if !s.flaws.isEmpty then throw s.flaws
  match Document.ofText text with
  | .error reason => throw [reason]
  | .ok d =>
    let flaws := Scope.reported (Scope.mk s d).flaws
    if !flaws.isEmpty then throw flaws
    match Request.ofDocument s d operation given with
    | .error e => throw [e.message]
    | .ok r => return r

/-- A response that reports problems with a request as a whole. -/
def refusal (messages : List String) : Response :=
  ⟨.null, messages.map fun m => { message := m, path := [] }⟩

/-- Answers the request that a text makes, with resolvers that depend on nothing but their calls. -/
def answer (s : Schema) (text : String) (operation : Option String) (given : Members Value)
    (resolve : Resolver) : Response :=
  match s.request text operation given with
  | .error messages => refusal messages
  | .ok r => r.execute resolve

end Schema
end RelGraph.Graphql
