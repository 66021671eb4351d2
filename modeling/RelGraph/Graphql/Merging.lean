import RelGraph.Graphql.Scope
import RelGraph.Graphql.Written
/-!
Merging fields. Fields of one response key are answered once, so a selection may only hold several
that ask for the same: one field with the same arguments and with answers of one shape. Fields that
no object has both of are free to differ in all but the shape of their answers. `Scope.clashes`
lists where a document holds fields that cannot be merged, selection by selection.
-/
namespace RelGraph.Graphql

/-! ## Sameness -/

mutual

/-- A value with the members of its objects in the order of their names. -/
def Literal.arranged : Literal → Literal
  | .list items => .list (arrangedItems items)
  | .object members =>
    .object ((arrangedMembers members).mergeSort fun a b => decide (a.1 ≤ b.1))
  | l => l

/-- Items with the members of their objects in order. -/
def Literal.arrangedItems : List Literal → List Literal
  | [] => []
  | l :: rest => l.arranged :: arrangedItems rest

/-- Members with the members of their objects in order. -/
def Literal.arrangedMembers : List (String × Literal) → List (String × Literal)
  | [] => []
  | (key, l) :: rest => (key, l.arranged) :: arrangedMembers rest

end

/-- Whether arguments state the same values, in whatever order. -/
def Arguments.same (a b : Arguments) : Bool :=
  let values := Members.ofPairs b
  a.length == b.length && a.all fun (name, l) =>
    match Members.get? values name with
    | some other => l.arranged.written == other.arranged.written
    | none => false

/-- Whether answers of two types differ in shape: lists stand beside lists, values that are there
always beside such, and values without fields beside values of the same type. -/
def Scope.shapesClash (c : Scope) : TypeExpr → TypeExpr → Bool
  | .list a, .list b | .nonNull a, .nonNull b => c.shapesClash a b
  | .named a, .named b => ((c.composite? a).isNone || (c.composite? b).isNone) && a ≠ b
  | _, _ => true

/-! ## Selections -/

/-- A field of a selection, with the type that it is selected on. -/
structure Selected where
  parent : Option String
  place : Place
  node : FieldNode
deriving Inhabited

/-- What a selection holds: its fields by response key, and the fragments that it spreads. -/
structure Holding where
  place : Place
  fields : Members (List Selected) := []
  fragments : List String := []
deriving Inhabited

namespace Holding

/-- Adds a field under its response key. -/
def addField (h : Holding) (f : Selected) : Holding :=
  let before := (Members.get? h.fields f.node.key).getD []
  { h with fields := Members.put h.fields f.node.key (before ++ [f]) }

/-- Adds a fragment if it is not there yet. -/
def addFragment (h : Holding) (name : String) : Holding :=
  if h.fragments.contains name then h else { h with fragments := h.fragments ++ [name] }

end Holding

namespace Scope

mutual

/-- Adds what an entry at a place brings into a selection. -/
def hold (c : Scope) (parent : Option String) (place : Place) (e : Entry) (h : Holding) :
    Holding :=
  match e with
  | .field label name args directives entries =>
    h.addField ⟨parent, place, ⟨label, name, args, directives, entries⟩⟩
  | .spread fragment _ => h.addFragment fragment
  | .within _ condition _ entries => holdAll c (c.inside parent condition) place 0 entries h

/-- Adds what entries bring into a selection; the first of them stands at an index of a place. -/
def holdAll (c : Scope) (parent : Option String) (place : Place) (i : Nat) (es : List Entry)
    (h : Holding) : Holding :=
  match es with
  | [] => h
  | e :: rest =>
    holdAll c parent place (i + 1) rest (hold c parent (place ++ [i]) e h)

end

/-- What a selection at a place holds. -/
def holding (c : Scope) (parent : Option String) (place : Place) (es : List Entry) : Holding :=
  c.holdAll parent place 0 es { place := place }

/-- What a fragment holds. -/
def fragmentHolding? (c : Scope) (name : String) : Option Holding :=
  c.document.zipIdx.foldl (fun found (d, i) =>
    match d with
    | .fragment other f =>
      if other = name then some (c.holding (c.composite? f.condition) [i] f.entries) else found
    | _ => found) none

/-- The definition of a field that is selected on a type with fields of its own. -/
def definition? (c : Scope) (f : Selected) : Option FieldDefinition :=
  f.parent.bind (c.schema.field? · f.node.name)

/-- Whether two fields are selected on objects of different types, so that none has both. -/
def apart (c : Scope) (f g : Selected) : Bool :=
  let isObject := fun (type : Option String) =>
    match type.bind c.schema.type? with
    | some (.object ..) => true
    | _ => false
  f.parent ≠ g.parent && isObject f.parent && isObject g.parent

/-- What the field of a selection selects in turn. -/
def below (c : Scope) (f : Selected) : Holding :=
  c.holding ((c.definition? f).bind fun d => c.composite? d.type.name) f.place f.node.entries

end Scope

/-! ## Clashes -/

/-- Why two fields cannot be merged. -/
inductive Clash
  | differentFields (first second : String)
  | differentArguments
  | differentShapes (first second : TypeExpr)
  | nested (clashes : List (String × Clash))
deriving Inhabited

namespace Clash

mutual

/-- The wording of a clash. -/
def reason : Clash → String
  | .differentFields first second => s!"'{first}' and '{second}' are different fields"
  | .differentArguments => "they have differing arguments"
  | .differentShapes first second =>
    s!"they return conflicting types '{first.text}' and '{second.text}'"
  | .nested clashes => String.intercalate " and " (reasons clashes)

/-- The wordings of clashes below. -/
def reasons : List (String × Clash) → List String
  | [] => []
  | (key, clash) :: rest => s!"subfields '{key}' conflict because {reason clash}" :: reasons rest

end

/-- What is said of the fields of a response key. -/
def message (key : String) (clash : Clash) : String :=
  s!"Fields '{key}' conflict because {clash.reason}. Use different aliases on the fields to" ++
    " fetch both if this was intentional."

end Clash

/-- Clashes under their response keys. -/
abbrev Clashes := List (String × Clash)

/-- What has been compared with fragments so far, and whether as fields that are apart: other
fragments, and selections at their places. -/
structure Compared where
  fragments : List ((String × String) × Bool) := []
  selections : List ((Place × String) × Bool) := []
deriving Inhabited

/-- Whether a comparison is done. One of fields that may stand beside each other settles that of
fields that are apart. -/
def Compared.settles {α : Type} [BEq α] (done : List (α × Bool)) (pair : α) (isApart : Bool) :
    Bool :=
  done.any fun (other, wasApart) => other == pair && (isApart || !wasApart)

/-- Marks the comparison of two fragments; false if it was done before. -/
def Compared.takeFragments (first second : String) (isApart : Bool) : StateM Compared Bool := do
  let pair := if first < second then (first, second) else (second, first)
  let s ← get
  if Compared.settles s.fragments pair isApart then return false
  set { s with fragments := (pair, isApart) :: s.fragments }
  return true

/-- Marks the comparison of a selection with a fragment; false if it was done before. -/
def Compared.takeSelection (place : Place) (fragment : String) (isApart : Bool) :
    StateM Compared Bool := do
  let s ← get
  if Compared.settles s.selections (place, fragment) isApart then return false
  set { s with selections := ((place, fragment), isApart) :: s.selections }
  return true

/-- The results of a search for each of a list, one behind the other. -/
def Compared.gather {α β : Type} (xs : List α) (search : α → StateM Compared (List β)) :
    StateM Compared (List β) := do
  return (← xs.mapM search).flatten

namespace Scope
open Compared

mutual

/-- The clash of two fields of a response key. The fuel of this and of what follows bounds how deep
selections and fragments are inside each other. -/
def clash (c : Scope) (fuel : Nat) (isApart : Bool) (key : String) (f g : Selected) :
    StateM Compared Clashes :=
  match fuel with
  | 0 => return []
  | fuel + 1 => do
    let isApart := isApart || c.apart f g
    if !isApart && f.node.name ≠ g.node.name then
      return [(key, .differentFields f.node.name g.node.name)]
    if !isApart && !Arguments.same f.node.args g.node.args then
      return [(key, .differentArguments)]
    match c.definition? f, c.definition? g with
    | some d, some e =>
      if c.shapesClash d.type e.type then return [(key, .differentShapes d.type e.type)]
    | _, _ => pure ()
    if f.node.entries.isEmpty || g.node.entries.isEmpty then return []
    let found ← clashesOfTwo c fuel isApart (c.below f) (c.below g)
    return if found.isEmpty then [] else [(key, .nested found)]

/-- The clashes of the fields of one selection with those of another. -/
def clashesBetween (c : Scope) (fuel : Nat) (isApart : Bool) (h k : Holding) :
    StateM Compared Clashes :=
  match fuel with
  | 0 => return []
  | fuel + 1 => gather h.fields fun (key, fs) =>
    gather fs fun f =>
      gather ((Members.get? k.fields key).getD []) fun g => clash c fuel isApart key f g

/-- The clashes of the fields of a selection with those of a fragment. -/
def clashesWithFragment (c : Scope) (fuel : Nat) (isApart : Bool) (h : Holding)
    (fragment : String) : StateM Compared Clashes :=
  match fuel, c.fragmentHolding? fragment with
  | 0, _ | _, none => return []
  | fuel + 1, some k => do
    if h.place = k.place then return []
    if !(← takeSelection h.place fragment isApart) then return []
    let found ← clashesBetween c fuel isApart h k
    let more ← gather k.fragments fun name => clashesWithFragment c fuel isApart h name
    return found ++ more

/-- The clashes of the fields of a fragment with those of another. -/
def clashesOfFragments (c : Scope) (fuel : Nat) (isApart : Bool) (first second : String) :
    StateM Compared Clashes :=
  match fuel with
  | 0 => return []
  | fuel + 1 => do
    if first = second then return []
    if !(← takeFragments first second isApart) then return []
    match c.fragmentHolding? first, c.fragmentHolding? second with
    | some h, some k =>
      let found ← clashesBetween c fuel isApart h k
      let ahead ← gather k.fragments fun name => clashesOfFragments c fuel isApart first name
      let more ← gather h.fragments fun name => clashesOfFragments c fuel isApart name second
      return found ++ ahead ++ more
    | _, _ => return []

/-- The clashes of a selection with another whose fields are merged with its own. -/
def clashesOfTwo (c : Scope) (fuel : Nat) (isApart : Bool) (h k : Holding) :
    StateM Compared Clashes :=
  match fuel with
  | 0 => return []
  | fuel + 1 => do
    let found ← clashesBetween c fuel isApart h k
    let first ← gather k.fragments fun name => clashesWithFragment c fuel isApart h name
    let second ← gather h.fragments fun name => clashesWithFragment c fuel isApart k name
    let more ← gather h.fragments fun name =>
      gather k.fragments fun other => clashesOfFragments c fuel isApart name other
    return found ++ first ++ second ++ more

end

/-- Every element of a list with those behind it. -/
def withLater {α : Type} : List α → List (α × List α)
  | [] => []
  | x :: rest => (x, rest) :: withLater rest

/-- How many selections and fragments are looked at inside each other. -/
def comparedDepth : Nat := 1000

/-- The clashes inside a selection. -/
def clashesWithin (c : Scope) (h : Holding) : StateM Compared Clashes := do
  let found ← gather h.fields fun (key, fs) =>
    gather (withLater fs) fun (f, later) =>
      gather later fun g => clash c comparedDepth false key f g
  let more ← gather (withLater h.fragments) fun (name, later) => do
    let first ← clashesWithFragment c comparedDepth false h name
    let second ← gather later fun other => clashesOfFragments c comparedDepth false name other
    return first ++ second
  return found ++ more

mutual

/-- The clashes inside the selection of an entry at a place, and inside those below it. -/
def entryClashes (c : Scope) (parent : Option String) (place : Place) (e : Entry) :
    StateM Compared (List (Place × Clashes)) :=
  match e with
  | .field _ name _ _ entries => do
    let parent := (parent.bind (c.schema.anyField? · name)).bind fun d =>
      c.composite? d.type.name
    let here ← clashesWithin c (c.holding parent place entries)
    return (place, here) :: (← entriesClashes c parent place 0 entries)
  | .spread .. => return []
  | .within _ condition _ entries => do
    let parent := c.inside parent condition
    let here ← clashesWithin c (c.holding parent place entries)
    return (place, here) :: (← entriesClashes c parent place 0 entries)

/-- The clashes inside the selections of entries; the first stands at an index of a place. -/
def entriesClashes (c : Scope) (parent : Option String) (place : Place) (i : Nat)
    (es : List Entry) : StateM Compared (List (Place × Clashes)) :=
  match es with
  | [] => return []
  | e :: rest => do
    let first ← entryClashes c parent (place ++ [i]) e
    return first ++ (← entriesClashes c parent place (i + 1) rest)

end

/-- The clashes inside the selections of a definition. -/
def definitionClashes (c : Scope) (d : Definition) (i : Nat) :
    StateM Compared (List (Place × Clashes)) := do
  let all := fun (parent : Option String) (entries : List Entry) => do
    let here ← clashesWithin c (c.holding parent [i] entries)
    return ([i], here) :: (← entriesClashes c parent [i] 0 entries)
  match d with
  | .operation o => all (c.schema.root? o.kind) o.entries
  | .fragment _ f => all (c.composite? f.condition) f.entries
  | _ => return []

/-- The clashes of a document by the places of the selections that hold them. -/
def clashes (c : Scope) : List (Place × Clashes) :=
  ((gather c.document.zipIdx fun (d, i) => c.definitionClashes d i).run {}).1

end Scope
end RelGraph.Graphql
