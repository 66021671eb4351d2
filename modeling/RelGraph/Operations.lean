import RelGraph.Api
import RelGraph.Store.Storage
/-!
The operations behind the root fields. Reads plan first and then fetch in one statement. Inserts and
updates write first and then select the written rows again by their keys, with the fields that the
caller asked for; deletions return the rows as they were, with their relations cut off. What a
caller asked for is read when it is needed, so it may be found wrong only then.
-/
namespace RelGraph.Operations

open Store (Access Storage)

/-- What operations change: the storage, and the warnings that planning leaves. -/
structure State where
  storage : Storage := {}
  warnings : List String := []
deriving DecidableEq, Repr, Inhabited

/-- A step that may change the state and may fail; what it changed before it fails stays changed. -/
abbrev Step (α : Type) := ExceptT Failure (StateM State) α

/-- A step that changes nothing. -/
def Step.ofAttempt {α : Type} (a : Attempt α) : Step α := ExceptT.mk (pure a)

/-- The plan that planning comes to; its warnings are kept. -/
def Step.plan (p : Plan.Planned) : Step Node := do
  modify fun s => { s with warnings := s.warnings ++ p.2 }
  Step.ofAttempt p.1

/-- A call of the storage. -/
def Step.store {α : Type} (call : Storage → Storage.Outcome α) : Step α := ExceptT.mk do
  let s ← get
  let (outcome, after) := call s.storage
  set { s with storage := after }
  return outcome

/-- What a read gives: rows, or the first row. -/
structure Read where
  node : Node
  first : Bool
deriving Repr, Inhabited

/-- Whether an operation reads the first row only. -/
def readsFirst : Naming.Operation → Bool
  | .findFirst => true
  | _ => false

/-- The plan of a read; a read of the first row asks for one row. -/
def planRead (api : Api) (t : Table) (op : Naming.Operation) (s : Selection)
    (args : Members Value) : Step Read := do
  let n ← Step.plan (Plan.ofSelection api.registry api.config.maxDepth t.name s args)
  return if readsFirst op then ⟨{ n with limit := some 1 }, true⟩ else ⟨n, false⟩

/-- Fetches what a read asks for. -/
def runRead (api : Api) (access : Access) (read : Read) : Step Value := do
  let rows ← Step.store (Storage.fetch api.registry access read.node)
  return if read.first then (rows.head?).getD .null else .list rows

/-- A payload as the table binds it. -/
def payload (t : Table) (action : WriteAction) (given : Members Value) : Attempt (Members Value) :=
  given.foldlM (fun row (name, v) =>
    match t.column? name with
    | none => Attempt.fault (.payloadColumnUnknown t.name action name)
    | some c =>
      match Conversion.readValue c v with
      | .ok v => .ok (Members.put row name v)
      | .error m =>
        if m.isAboutInput then Attempt.fault (.payloadInvalid t.name action name m.reason)
        else Attempt.mishap m) []

/-- The payload that a value writes. -/
def payloadOf (t : Table) (action : WriteAction) (v : Value) : Attempt (Members Value) := do
  payload t action (← Shape.members "items" v)

/-- The payloads that the parts of a value write. -/
def payloadsOf (t : Table) (action : WriteAction) (v : Value) : Attempt (List (Members Value)) := do
  (← Shape.parts v).mapM (payloadOf t action)

/-- The last position of a value among keys; behind all of them when it is none. -/
def positionOf (keys : List Value) (v : Value) : Nat :=
  (keys.zipIdx.foldl (fun found (k, i) => if Value.same k v then some i else found)
    none).getD keys.length

/-- Rows in the order of their keys, all of which have to be fit for lookups. -/
def arranged (key : String) (keys : List Value) (rows : List Value) : Attempt (List Value) := do
  let keys ← keys.mapM Shape.key
  let placed ← rows.mapM fun r => do return (positionOf keys (← Shape.key (r.field key)), r)
  return (placed.mergeSort fun a b => decide (a.1 ≤ b.1)).map Prod.snd

/-- A row without one member. -/
def without (key : String) : Value → Value
  | .object members => .object (Members.erase members key)
  | v => v

/-- The plan that selects rows by their keys, and whether the key was asked for. -/
def planByKeys (api : Api) (t : Table) (key : String) (s : Attempt Selection) (keys : List Value) :
    Step (Node × Bool) := do
  let s ← Step.ofAttempt s
  let n ← Step.plan (Plan.ofSelection api.registry api.config.maxDepth t.name s [])
  let chosen := Predicate.compare key .inArray (.tuple keys)
  let condition := Predicate.conjoin [n.condition, some chosen]
  return (Plan.addColumn { n with condition := condition } key, n.columns.contains key)

/-- Selects written rows again by their keys, in the order of the keys. -/
def selectByKeys (api : Api) (access : Access) (t : Table) (s : Attempt Selection)
    (keys : List Value) : Step Value := do
  match keys, t.rowKey with
  | [], _ | _, none => return .list []
  | keys, some key =>
    let (n, askedFor) ← planByKeys api t key s keys
    let rows ← Step.store (Storage.fetch api.registry access n)
    let rows ← Step.ofAttempt (arranged key keys rows)
    return .list (if askedFor then rows else rows.map (without key))

/-- Inserts rows and selects them again. -/
def insertMany (api : Api) (access : Access) (t : Table) (s : Attempt Selection)
    (args : Members Value) : Step Value := do
  let values := Plan.argument args "values"
  if !values.truthy then Step.ofAttempt (Attempt.fault (.nothingToWrite t.name .insert))
  else
    let rows ← Step.ofAttempt (payloadsOf t .insert values)
    let keys ← Step.store (Storage.insert t access rows)
    selectByKeys api access t s keys

/-- Updates rows and selects them again. -/
def updateMany (api : Api) (access : Access) (t : Table) (s : Attempt Selection)
    (args : Members Value) : Step Value := do
  let given := Plan.argument args "set"
  if !given.truthy then Step.ofAttempt (Attempt.fault (.nothingToWrite t.name .update))
  else
    let values ← Step.ofAttempt (payloadOf t .update given)
    let condition ← Step.ofAttempt (compileWhere t (Plan.argument args "where"))
    let keys ← Step.store (Storage.update t access values condition)
    selectByKeys api access t s keys

/-- Deletes rows and returns them as they were. -/
def deleteMany (api : Api) (access : Access) (t : Table) (s : Attempt Selection)
    (args : Members Value) : Step Value := do
  let s ← Step.ofAttempt s
  let chosen := [("where", Plan.argument args "where")]
  let n ← Step.plan (Plan.ofSelection api.registry api.config.maxDepth t.name s chosen)
  return .list (← Step.store (Storage.delete api.registry t access n.withoutRelations))

/-- The arguments that a caller gives in a value; none when it is empty. -/
def argumentsOf (v : Value) : Attempt (Members Value) :=
  if v.truthy then Shape.members "get" v else .ok []

/-- Runs an operation on a table. -/
def run (api : Api) (access : Access) (t : Table) (op : Naming.Operation) (s : Attempt Selection)
    (args : Members Value) : Step Value :=
  match op with
  | .findMany | .findFirst => do runRead api access (← planRead api t op (← Step.ofAttempt s) args)
  | .insertMany => insertMany api access t s args
  | .updateMany => updateMany api access t s args
  | .deleteMany => deleteMany api access t s args

end RelGraph.Operations
