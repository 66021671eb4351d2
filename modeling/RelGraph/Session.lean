import RelGraph.Value
/-!
Finding the database session of a request. A request carries an object of named values or a record
with attributes; the session is the first of four known names that holds something.
-/
namespace RelGraph

/-- What a request carries. A record has attributes, and one called `context` stands for what the
record wraps. -/
inductive Carrier
  | mapping (entries : Members Value)
  | record (attributes : Members Value)
  | other
deriving Repr, Inhabited

namespace Carrier

/-- The names under which a session is looked for, in order. -/
def sessionNames : List String := ["db_session", "db", "session", "async_session"]

/-- What a plain value carries. -/
def ofValue : Value → Carrier
  | .object members => mapping members
  | _ => other

/-- The first entry under a session name that is not null. -/
def firstSession (entries : Members Value) : Option Value :=
  sessionNames.findSome? fun name => (Members.get? entries name).filter fun v => !v.isNull

/-- The session that a carrier holds, without unwrapping it. -/
def heldSession : Carrier → Option Value
  | mapping entries => firstSession entries
  | record attributes => firstSession attributes
  | other => none

/-- What a record wraps; any other carrier stands for itself. -/
def unwrap : Carrier → Carrier
  | record attributes =>
    match Members.get? attributes "context" with
    | some inner => ofValue inner
    | none => record attributes
  | carrier => carrier

/-- The session that a carrier leads to. -/
def session (c : Carrier) : Option Value := c.unwrap.heldSession

end Carrier
end RelGraph
