import RelGraph.Exports.Placeholder
import RelGraph.Exports.Store
/-!
Values whose placeholders are still awaited. The members of an object are awaited one after the
other, the items of a list together; each placeholder waits on its own at the store, and so receives
the first value that is published after it began to wait.
-/
namespace RelGraph.Exports

/-- A value on its way: settled, waiting at the store under a number, a list of such values, or an
object with its settled members, the member that is awaited, and the members still to come. -/
inductive Resolution
  | settled (v : Value)
  | waiting (id : Nat)
  | list (parts : List Resolution)
  | object (before : List (String × Value)) (key : String) (part : Resolution)
      (after : List (String × Value))
deriving Repr, Inhabited

namespace Resolution

/-- The value, when it is settled. -/
def value? : Resolution → Option Value
  | settled v => some v
  | _ => none

/-- A list of parts; it is settled when all of them are. -/
def ofItems (parts : List Resolution) : Resolution :=
  match parts.mapM value? with
  | some items => settled (.list items)
  | none => list parts

/-- A placeholder's value, when the store has it for a waiter. -/
def received (s : Store) (id : Nat) : Resolution :=
  match s.outcome? id with
  | some (.ok v) => settled v
  | _ => waiting id

mutual

/-- Begins to settle a value. -/
def start (s : Store) : Value → Resolution × Store
  | .text t =>
    match placeholderName? t with
    | none => (settled (.text t), s)
    | some name =>
      let (id, s) := s.await name
      (received s id, s)
  | .list items =>
    let (parts, s) := startItems s items
    (ofItems parts, s)
  | .tuple items =>
    let (parts, s) := startItems s items
    (ofItems parts, s)
  | .object ms => startMembers s [] ms
  | v => (settled v, s)

/-- Begins to settle all items. -/
def startItems (s : Store) : List Value → List Resolution × Store
  | [] => ([], s)
  | v :: rest =>
    let (part, s) := start s v
    let (parts, s) := startItems s rest
    (part :: parts, s)

/-- Settles members in order, up to the first that has to wait. -/
def startMembers (s : Store) (before : List (String × Value)) :
    List (String × Value) → Resolution × Store
  | [] => (settled (.object before), s)
  | (key, v) :: rest =>
    match start s v with
    | (settled v, s) => startMembers s (before ++ [(key, v)]) rest
    | (part, s) => (object before key part rest, s)

end

mutual

/-- Goes on with what the store has by now. -/
def resume (s : Store) : Resolution → Resolution × Store
  | settled v => (settled v, s)
  | waiting id => (received s id, s)
  | list parts =>
    let (parts, s) := resumeItems s parts
    (ofItems parts, s)
  | object before key part after =>
    match resume s part with
    | (settled v, s) => startMembers s (before ++ [(key, v)]) after
    | (part, s) => (object before key part after, s)

/-- Goes on with all items. -/
def resumeItems (s : Store) : List Resolution → List Resolution × Store
  | [] => ([], s)
  | part :: rest =>
    let (part, s) := resume s part
    let (parts, s) := resumeItems s rest
    (part :: parts, s)

end

/-- Of two missing names the sooner, if there are any. -/
def soonerOf : Option Missing → Option Missing → Option Missing
  | some a, some b => some (a.sooner b)
  | some a, none => some a
  | none, b => b

mutual

/-- The name that runs out of time first. -/
def missing? (s : Store) : Resolution → Option Missing
  | settled _ => none
  | waiting id =>
    match s.waiters[id]? with
    | some (.waiting name) => some ⟨name, 0⟩
    | _ => none
  | list parts => (missingItem? s parts).map fun m => { m with depth := m.depth + 1 }
  | object _ _ part _ => missing? s part

/-- The name that runs out of time first among items. -/
def missingItem? (s : Store) : List Resolution → Option Missing
  | [] => none
  | part :: rest => soonerOf (missing? s part) (missingItem? s rest)

end

end Resolution
end RelGraph.Exports
