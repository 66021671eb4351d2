import RelGraph.Plan
import RelGraph.Value.Json
/-!
Rows as callers see them. A fetched row holds columns and, for every relation, the rows below as
JSON; it is turned into an object with exactly the keys of its plan.
-/
namespace RelGraph.Hydration

/-- The JSON value that a fetched relation holds: texts and bytes are read, all else stands. -/
def decode (v : Value) : Attempt Value :=
  let read := fun (s : String) =>
    match Json.read s with
    | .ok v => Except.ok v
    | .error (.wrong reason left) =>
      Attempt.mishap (.jsonMalformed ((Json.Fault.wrong reason left).message s))
    | .error e => Attempt.mishap (.badValue (e.message s))
  match v with
  | .text s => read s
  | .bytes data =>
    match String.fromUTF8? (ByteArray.mk data.toArray) with
    | some s => read s
    | none => Attempt.mishap .textUndecodable
  | v => .ok v

/-- What resolves where a relation was cut off. -/
def emptyValue (rel : Relation) : Value := if rel.toMany then .list [] else .null

/-- The columns of a row as callers see them. -/
def columns (t : Table) (row : Value) : List String → Attempt (Members Value)
  | [] => .ok []
  | name :: rest => do
    let c ← t.column name
    let ms ← Shape.members "get" row
    let v ← match Conversion.showValue c ((Members.get? ms name).getD .null) with
      | .ok v => pure v
      | .error m => Attempt.mishap m
    let rest ← columns t row rest
    return (name, v) :: rest

mutual

/-- A row as callers see it. -/
def row (r : Registry) : Node → Value → Attempt Value
  | ⟨table, names, _, _, _, _, _, relations, truncated⟩, fetched => do
    let t ← r.table table
    let own ← columns t fetched names
    let below ← relationValues r relations fetched
    return .object (Members.update (Members.update (Members.ofPairs own) below)
      (Members.mapValues emptyValue truncated))

/-- The values of the relations of a row. -/
def relationValues (r : Registry) : List (String × Node) → Value → Attempt (Members Value)
  | [], _ => .ok []
  | (key, child) :: rest, fetched => do
    let ms ← Shape.members "get" fetched
    let payload ← decode ((Members.get? ms key).getD .null)
    let v ← relationValue r child payload
    let rest ← relationValues r rest fetched
    return (key, v) :: rest

/-- The value of one relation: a list of rows, or one row or null. -/
def relationValue (r : Registry) (child : Node) (payload : Value) : Attempt Value :=
  if (child.relation.map (·.toMany)).getD true then do
    let items ← if payload.truthy then Shape.parts payload else pure []
    return .list (← items.mapM (row r child))
  else if payload.truthy then row r child payload
  else .ok .null

end

/-- All rows as callers see them. -/
def rows (r : Registry) (n : Node) (fetched : List Value) : Attempt (List Value) :=
  fetched.mapM (row r n)

/-- What a relation field resolves to on a row, by its response key. -/
def readRelation (t : Table) (rel : Relation) (responseKey : String) (parent : Value) : Value :=
  let v := parent.field (Plan.relationKey t responseKey)
  if v.isNull then emptyValue rel else v

end RelGraph.Hydration
