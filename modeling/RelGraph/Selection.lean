import RelGraph.Shape
/-!
Selections: the fields that a request asks for, each with its response key, its arguments and the
fields asked for below it.
-/
namespace RelGraph

/-- One requested field. `label` is the alias that it is requested under, if any; `fields` holds the
fields below by response key. -/
structure Selection where
  name : String
  label : Option String
  args : Members Value
  fields : List (String × Selection)
deriving Repr, Inhabited

namespace Selection

/-- The key under which the field's value appears: the label when there is one that is not empty. -/
def key (s : Selection) : String :=
  match s.label with
  | some a => if a.isEmpty then s.name else a
  | none => s.name

/-- Splits `label:name`. Without a name behind a colon the whole text is the name. -/
def splitKey (raw : String) : Option String × String :=
  let cs := raw.toList
  let before := cs.takeWhile (· ≠ ':')
  match cs.dropWhile (· ≠ ':') with
  | _ :: c :: rest => (some (String.ofList before), String.ofList (c :: rest))
  | _ => (none, raw)

/-- The arguments that a value writes; none when it is empty. -/
def writtenArgs (v : Value) : Attempt (Members Value) :=
  if v.truthy then Shape.mapping v else .ok []

/-- Why a value that is no object writes no field. -/
def misshapen (v : Value) : Mishap :=
  match v with
  | .list _ | .tuple _ | .text _ => .attributeMissing v.fullKindName "items"
  | .bytes _ => .badKind "a bytes-like object is required, not 'str'"
  | v => .badKind s!"argument of type '{v.fullKindName}' is not iterable"

/-- Whether a written field gives its fields and arguments by name. -/
def isSpelledOut (ms : Members Value) : Bool := Members.has ms "fields" || Members.has ms "args"

mutual

/-- The fields that members write, after those that are known: a key, and below it either the
fields themselves or an object with `fields` and `args`. -/
def ofMembers (acc : List (String × Selection)) :
    List (String × Value) → Attempt (List (String × Selection))
  | [] => .ok acc
  | (raw, sub) :: rest => do
    let (label, name) := splitKey raw
    let (args, fields) ← ofField sub
    let s : Selection := ⟨name, label, args, fields⟩
    ofMembers (Members.put acc s.key s) rest

/-- The arguments and the fields below that the value of a field writes. -/
def ofField : Value → Attempt (Members Value × List (String × Selection))
  | .object ms => do
    if isSpelledOut ms then
      let args ← writtenArgs ((Members.get? ms "args").getD .null)
      let fields ← ofFieldsMember ms
      return (args, fields)
    else return ([], ← ofMembers [] ms)
  | v => if v.truthy then Attempt.mishap (misshapen v) else .ok ([], [])

/-- The fields under the name `fields`. -/
def ofFieldsMember : List (String × Value) → Attempt (List (String × Selection))
  | [] => .ok []
  | (key, value) :: rest => if key = "fields" then ofFields value else ofFieldsMember rest

/-- The fields that a value writes; none when it is empty. -/
def ofFields : Value → Attempt (List (String × Selection))
  | .object ms => ofMembers [] ms
  | v => if v.truthy then Attempt.mishap (.attributeMissing v.fullKindName "items") else .ok []

end

/-- The selection that a value writes for a root field. -/
def ofValue (name : String) (fields args : Value) : Attempt Selection := do
  let args ← writtenArgs args
  let fields ← ofFields fields
  return ⟨name, none, args, fields⟩

end Selection
end RelGraph
