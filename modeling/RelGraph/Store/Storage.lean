import RelGraph.Session
import RelGraph.Sql.Written
import RelGraph.Store.Evaluation
import RelGraph.Store.Grouping
import RelGraph.Hydration
/-!
Storage: a database with a transaction on top of it. Writes change what the transaction sees; a
commit makes that the database, a rollback forgets it. A call of the storage works on the session of
the request, or on one of its own that ends with the call.
-/
namespace RelGraph.Store

open Sql

/-- The committed database, what the borrowed session sees of it, and how many statements were
sent. -/
structure Storage where
  committed : Database := {}
  working : Database := {}
  statements : Nat := 0
deriving DecidableEq, Repr, Inhabited

/-- Where a call gets its session from: it opens its own, or takes that of the request. -/
inductive Access
  | own
  | borrowed (carrier : Carrier)
deriving Repr, Inhabited

/-- Whether there is a session. -/
def Access.hasSession : Access → Bool
  | own => true
  | borrowed carrier => carrier.session.isSome

namespace Storage

/-- Makes what the transaction sees the database. -/
def commit (s : Storage) : Storage := { s with committed := s.working }

/-- Forgets what the transaction changed. -/
def rollback (s : Storage) : Storage := { s with working := s.committed }

/-- One more statement was sent. -/
def count (s : Storage) : Storage := { s with statements := s.statements + 1 }

/-- Counts a statement unless it was refused before it was sent. -/
def counted {α : Type} (s : Storage) (outcome : Except Refusal α) : Storage :=
  match outcome with
  | .error e => if e.wasSent then s.count else s
  | .ok _ => s.count

/-- The outcome of a call, with the storage after it. -/
abbrev Outcome (α : Type) := Attempt α × Storage

/-- Runs a call in a session. A session of the call's own starts from the database and ends with the
call; a borrowed one goes on. -/
def inSession {α : Type} (s : Storage) (access : Access) (call : Storage → Outcome α) :
    Outcome α :=
  match access with
  | .own =>
    let (outcome, after) := call s.rollback
    (outcome, after.rollback)
  | .borrowed _ =>
    if access.hasSession then call s else (Attempt.fault .sessionMissing, s)

/-- The parameters of a statement as cells; reading the statement may refuse it. -/
def boundCells (reading : Except Refusal Unit) (p : Phrase) : Except Refusal (List Cell) :=
  Binding.bind reading (Dialect.typedParameters p)

/-- The result of a fetch on a database. -/
def fetchResult (db : Database) (f : Fetch) : Except Refusal (List Value) := do
  let _ ← boundCells (Fetch.checkSize f) (Dialect.sqlite.fetch f)
  Fetch.result .byName db f

/-- Runs a fetch in a session: one statement that changes nothing. -/
def runFetch (table : String) (f : Fetch) (s : Storage) : Outcome (List Value) :=
  let outcome := fetchResult s.working f
  (outcome.mapError (Refusal.failure table), s.counted outcome)

/-- What a write comes to: the database after it, and what can be read of the rows that it
returns. -/
abbrev Change (α : Type) := Database × Except Refusal α

/-- Ends a write that failed: what the database refused is rolled back, all else is left open. -/
def failWrite {α : Type} (table : String) (e : Refusal) (s : Storage) : Outcome α :=
  (.error (e.failure table), if e.isOwn then s.rollback else s)

/-- Ends a write: what went well is committed. -/
def settleWrite {α : Type} (table : String) (outcome : Except Refusal (Change α)) (s : Storage) :
    Outcome α :=
  let after := s.counted outcome
  match outcome with
  | .ok (db, .ok rows) => (.ok rows, { after with working := db }.commit)
  | .ok (db, .error e) => failWrite table e { after with working := db }
  | .error e => failWrite table e after

/-- The rows that a write returns. A write that returns no columns returns no rows, not even
none. -/
def writtenRows (columns : List Column) (rows : List StoredRow) : Except Refusal (List Value) :=
  if columns.isEmpty then
    .error (.refused "This result object does not return rows. It has been closed automatically.")
  else returnedRows columns rows

/-- The keys of the rows that a write returns. -/
def writtenKeys (t : Table) (rows : List StoredRow) : Except Refusal (List Value) := do
  let rows ← writtenRows (returned t []) rows
  return rows.map fun r => (t.rowKey.map r.field).getD .null

/-- The result of an update on a database: the database after it, and the keys of its rows. -/
def updateResult (db : Database) (u : Update) : Except Refusal (Change (List Value)) := do
  if let some name := u.sharedName? then .error (.unsent (Update.sharedNameMessage name))
  let _ ← boundCells (Update.check u) (Dialect.sqlite.update u)
  let (db, rows) ← Update.run db u
  return (db, writtenKeys u.table rows)

/-- The result of a deletion on a database: the database after it, and the rows that are gone. -/
def deleteResult (db : Database) (d : Delete) : Except Refusal (Change (List Value)) := do
  let _ ← boundCells (Delete.checkSize d) (Dialect.sqlite.delete d)
  let (db, rows) ← Delete.run db d
  return (db, writtenRows d.columns rows)

/-- The result of an insert on a database: the database after it, and the keys of its rows. What
the first row gives has to be columns of the table. -/
def insertResult (db : Database) (i : Insert) : Except Refusal (Change (List Value)) := do
  if let .error e := checkNames i.table (i.rows.head?.getD []) then .error (.unsent e.message)
  let (db, rows) ← Insert.run db i
  return (db, writtenKeys i.table rows)

/-- Runs one insert for every run of rows, all in one transaction that is not ended. -/
def insertRuns (t : Table) (s : Storage) :
    List (List (Members Value)) → Except Refusal (List Value) × Storage
  | [] => (.ok [], s)
  | run :: rest =>
    let outcome := insertResult s.working ⟨t, run⟩
    let after := s.counted outcome
    match outcome with
    | .error e => (.error e, after)
    | .ok (db, .error e) => (.error e, { after with working := db })
    | .ok (db, .ok keys) =>
      match insertRuns t { after with working := db } rest with
      | (.ok more, after) => (.ok (keys ++ more), after)
      | (.error e, after) => (.error e, after)

/-- Runs the inserts of rows in a session, and commits when all went well. -/
def runInserts (t : Table) (rows : List (Members Value)) (s : Storage) : Outcome (List Value) :=
  match insertRuns t s (runsOf rows) with
  | (.ok keys, s) => (.ok keys, s.commit)
  | (.error e, s) => failWrite t.name e s

/-- The rows of a plan as callers see them. -/
def fetch (r : Registry) (access : Access) (n : Node) (s : Storage) : Outcome (List Value) :=
  let (rows, s) := s.inSession access fun s =>
    match Fetch.ofNode r n with
    | .error e => (.error e, s)
    | .ok f => runFetch n.table f s
  (rows.bind (Hydration.rows r n), s)

/-- Inserts rows; the keys of the new rows, in order. -/
def insert (t : Table) (access : Access) (rows : List (Members Value)) (s : Storage) :
    Outcome (List Value) :=
  s.inSession access (runInserts t rows)

/-- Sets columns of the rows for which a predicate holds; the keys of the changed rows. -/
def update (t : Table) (access : Access) (values : Members Value) (p : Option Predicate)
    (s : Storage) : Outcome (List Value) :=
  s.inSession access fun s =>
    match Update.ofPredicate t values p with
    | .error e => (.error e, s)
    | .ok u => settleWrite t.name (updateResult s.working u) s

/-- Deletes the rows that a plan is about; the rows as callers see them. -/
def delete (r : Registry) (t : Table) (access : Access) (n : Node) (s : Storage) :
    Outcome (List Value) :=
  let (rows, s) := s.inSession access fun s =>
    match Delete.ofPredicate t n.condition n.columns with
    | .error e => (.error e, s)
    | .ok d => settleWrite n.table (deleteResult s.working d) s
  (rows.bind (Hydration.rows r n), s)

end Storage
end RelGraph.Store
