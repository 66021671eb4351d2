import RelGraph.Conversion
import RelGraph.Shape
import RelGraph.Text.LowerCase
/-!
Orders of rows. A caller gives a direction and a priority for columns; the compiled order lists the
columns by ascending priority, equal priorities in the order given.
-/
namespace RelGraph

/-- The direction of an order. -/
inductive Direction
  | asc
  | desc
deriving DecidableEq, Repr, Inhabited

/-- The name of a direction. -/
def Direction.name : Direction → String
  | asc => "asc"
  | desc => "desc"

/-- The name of a direction in capitals. -/
def Direction.keyword : Direction → String
  | asc => "ASC"
  | desc => "DESC"

/-- One sort key. -/
structure OrderEntry where
  column : String
  direction : Direction := .asc
  priority : Int := 0
deriving DecidableEq, Repr, Inhabited

/-- A sort key in words. -/
def OrderEntry.text (e : OrderEntry) : String := e.column ++ " " ++ e.direction.keyword

namespace OrderBy

/-- An entry as a caller gives it: a column, a direction, and a priority that is the position when
it is left out. -/
structure Entry where
  column : Value
  direction : Value
  priority : Value
deriving Repr, Inhabited

/-- An item of an order: where the column comes from, and what is said about it. -/
inductive Item
  | under (column : String) (spec : Value)
  | naming (spec : Value)
deriving Repr, Inhabited

/-- What an item says. -/
def Item.spec : Item → Value
  | under _ spec => spec
  | naming spec => spec

/-- The items that a value lists: the members of an object, or the parts of anything else. -/
def items (v : Value) : Attempt (List Item) :=
  match v with
  | .object ms => .ok (ms.map fun kv => .under kv.1 kv.2)
  | v => do return (← Shape.parts v).map Item.naming

/-- The entry that an item writes at a position. -/
def Item.entry (position : Nat) (item : Item) : Attempt Entry := do
  let ms ← Shape.members "get" item.spec
  let column := match item with
    | under name _ => Value.text name
    | naming _ => (Members.get? ms "column").getD .null
  return ⟨column, (Members.get? ms "direction").getD .null,
    (Members.get? ms "priority").getD (.int position)⟩

/-- The direction that a value names. What is left out or empty means ascending. -/
def direction? (v : Value) : Option Direction :=
  let word := if v.isNull then "" else Text.lower v.display
  if word = "" ∨ word = "asc" then some .asc
  else if word = "desc" then some .desc
  else none

/-- The number that a priority comes to. -/
def priorityOf (v : Value) : Attempt Int :=
  if v.isNull then .ok 0
  else match Conversion.intOf v with
    | .ok n => .ok n
    | .error m => Attempt.mishap m

/-- The sort key of an entry; entries for unknown columns give none. -/
def compileEntry (t : Table) (e : Entry) : Attempt (Option OrderEntry) := do
  match ← Shape.key e.column with
  | .text name =>
    match t.column? name with
    | none => return none
    | some c =>
      match direction? e.direction with
      | none => Attempt.fault (.directionUnknown t.name c.name e.direction.display)
      | some d => return some ⟨c.name, d, ← priorityOf e.priority⟩
  | _ => return none

/-- The sort key of an item at a position; empty items give none. -/
def compileItem (t : Table) (position : Nat) (item : Item) : Attempt (Option OrderEntry) := do
  if item.spec.truthy then compileEntry t (← item.entry position) else return none

/-- The order that a value writes; `none` when it names no column of the table. -/
def compile (t : Table) (v : Value) : Attempt (Option (List OrderEntry)) :=
  if !v.truthy then .ok none
  else do
    let found ← (← items v).zipIdx.mapM fun (item, position) => compileItem t position item
    match (found.filterMap id).mergeSort fun a b => decide (a.priority ≤ b.priority) with
    | [] => return none
    | keys => return some keys

end OrderBy
end RelGraph
