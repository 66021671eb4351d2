import RelGraph.Sql.Fetch
import RelGraph.Store.Planning
/-!
The rows that a fetch gives. Every level reads rows in the scope of the rows above it. The text of a
statement knows its sources by name only, so a name means the nearest source that goes by it; what
the builder of a statement means is the source itself. Both readings are given, and they agree
wherever the names in a scope are apart.
-/
namespace RelGraph.Store

open Sql

/-- How a reference finds its source: by its name, or by what it is. -/
inductive Scoping
  | byName
  | bySource
deriving DecidableEq, Repr

/-- Whether a reference to one source may mean another; the case of plain letters does not tell
names apart. -/
def Scoping.admits (how : Scoping) (reference source : Source) : Bool :=
  match how with
  | byName => reference.name.toLower == source.name.toLower
  | bySource => reference == source

/-- A row of a source, its cells under the names that the source has for its columns. -/
structure Frame where
  source : Source
  cells : Members Cell
deriving DecidableEq, Repr, Inhabited

/-- The rows that a reference may mean, the nearest first. -/
abbrev Scope := List Frame

/-- The cell that a reference to a column of a source means. -/
def cellIn (how : Scoping) (scope : Scope) (s : Source) (c : Column) : Cell :=
  (scope.findSome? fun f =>
    if how.admits s f.source then Members.get? f.cells (s.columnName c) else none).getD .null

/-- The truth of a join condition. -/
def joinTruth (how : Scoping) (scope : Scope) (source above : Source) (j : Join) : Truth :=
  orderTruth (· == .eq) ((affinityOf j.own).compare? (affinityOf j.outer)
    (cellIn how scope source j.own) (cellIn how scope above j.outer))

/-- The truth of all that joins rows to the row above. -/
def joinsTruth (how : Scoping) (scope : Scope) (r : Rows) : Truth :=
  match r.above with
  | some above => Truth.all (r.joins.map (joinTruth how scope r.source above))
  | none => some true

/-- The truth of all that rows have to meet. -/
def rowsTruth (how : Scoping) (scope : Scope) (r : Rows) : Truth :=
  let met := match r.condition with
    | some c => conditionTruth (cellIn how scope r.source) c
    | none => some true
  (joinsTruth how scope r).both met

/-- The order of two cells in a direction. -/
def orderAlong (d : Direction) (a b : Cell) : Ordering :=
  match d with
  | .asc => a.order b
  | .desc => b.order a

/-- The order of two rows by sort keys, the first that tells them apart. -/
def orderByKeys (read : Frame → Column → Cell) (keys : List SortKey) (a b : Frame) : Ordering :=
  keys.foldr (fun k rest => (orderAlong k.direction (read a k.column) (read b k.column)).then rest)
    .eq

/-- The part of a list behind an offset, up to a limit. -/
def window {α : Type} (limit offset : Option Nat) (items : List α) : List α :=
  let rest := items.drop (offset.getD 0)
  match limit with
  | some n => rest.take n
  | none => rest

/-- The rows that a level reads in a scope to show some columns. Rows that no sort key tells apart
stay in the order in which the database comes by them. -/
def chosenRows (how : Scoping) (db : Database) (scope : Scope) (r : Rows) (shown : List Column) :
    List Frame :=
  let all := ((Rows.route r shown).arrange (db.rows r.table)).map fun row =>
    Frame.mk r.source row.cells
  let met := all.filter fun f => (rowsTruth how (f :: scope) r).holds
  let read := fun (f : Frame) (c : Column) => cellIn how (f :: scope) r.source c
  window r.limit r.offset (met.mergeSort fun a b => (orderByKeys read r.orderBy a b).isLE)

/-- Refuses to test the rows that are joined to the row above if a pattern is too long. -/
def checkRows (how : Scoping) (db : Database) (scope : Scope) (r : Rows) : Except Refusal Unit :=
  checkPatterns r.condition ((db.rows r.table).filter fun row =>
    (joinsTruth how (⟨r.source, row.cells⟩ :: scope) r).holds)

/-- The JSON value of a cell. Bytes are no JSON value. An infinity is written into objects although
JSON has no form for it: what is not a number marks such a place. -/
def jsonOfCell : Cell → Except Refusal Value
  | .real x => .ok (.float (if x.isFinite then x.brief else .nan))
  | .blob _ => .error (.refused "JSON cannot hold BLOB values")
  | c => .ok (Binding.plain c)

/-- What a statement says of text that is not JSON. -/
def malformed : Refusal := .refused "malformed JSON"

mutual

/-- Whether a value holds a double that meets a test. -/
def holdsDouble (test : Binary64 → Bool) : Value → Bool
  | .float x => test x
  | .list items => itemsHoldDouble test items
  | .object members => membersHoldDouble test members
  | _ => false

/-- Whether any item holds a double that meets a test. -/
def itemsHoldDouble (test : Binary64 → Bool) : List Value → Bool
  | [] => false
  | v :: rest => holdsDouble test v || itemsHoldDouble test rest

/-- Whether any member holds a double that meets a test. -/
def membersHoldDouble (test : Binary64 → Bool) : List (String × Value) → Bool
  | [] => false
  | (_, v) :: rest => holdsDouble test v || membersHoldDouble test rest

end

/-- Whether a value holds a place that JSON has no form for. -/
def holdsNoJson (v : Value) : Bool := holdsDouble (· = .nan) v

/-- A value that is embedded as JSON, which has to be JSON throughout. -/
def embedded (v : Value) : Except Refusal Value :=
  if holdsNoJson v then .error malformed else .ok v

/-- The JSON value that a text holds; the names of numbers that are not finite are not JSON. -/
def jsonOfText (s : String) : Except Refusal Value :=
  match Json.read s with
  | .ok v => if holdsDouble (!·.isFinite) v then .error malformed else .ok v
  | .error _ => .error malformed

/-- The JSON value of a cell in a column: large bytes as hexadecimal digits, JSON as it is. -/
def jsonOf (c : Column) (cell : Cell) : Except Refusal Value :=
  match c.declaration.type, cell with
  | .binary true, .blob data => .ok (.text (Text.hexBytes data))
  | .binary true, cell => .ok (.text ((cell.text?.map fun s =>
      Text.hexBytes s.toUTF8.toList).getD ""))
  | .json, .text s => jsonOfText s
  | .json, cell => do embedded (← jsonOfCell cell)
  | _, cell => jsonOfCell cell

/-- The members of an object that hold columns of a row. -/
def jsonMembers (how : Scoping) (scope : Scope) (s : Source) :
    List Column → Except Refusal (Members Value)
  | [] => .ok []
  | c :: rest => do
    let v ← jsonOf c (cellIn how scope s c)
    let rest ← jsonMembers how scope s rest
    return (c.name, v) :: rest

/-- The row of a subquery that exposes columns of a row. -/
def exposedFrame (how : Scoping) (scope : Scope) (source derived : Source) (columns : List Column)
    (f : Frame) : Frame :=
  ⟨derived, columns.map fun c => (c.name, cellIn how (f :: scope) source c)⟩

mutual

/-- The value of a relation in a scope. The objects of a list are embedded in it. -/
def gatheredValue (how : Scoping) (db : Database) (scope : Scope) :
    Gathered → Except Refusal Value
  | ⟨toMany, rows, exposed, derived, columns, nested⟩ => do
    checkRows how db scope rows
    let found := (chosenRows how db scope rows exposed).map
      (exposedFrame how scope rows.source derived exposed)
    let objects ← (if toMany then found else found.take 1).mapM fun f => do
      let own ← jsonMembers how (f :: scope) derived columns
      let below ← gatheredMembers how db (f :: scope) nested
      let object := Value.object (Members.ofPairs (own ++ below))
      if toMany then embedded object else .ok object
    return if toMany then .list objects else (objects.head?).getD .null

/-- The values of relations in a scope, under their keys, each embedded in what lies above. -/
def gatheredMembers (how : Scoping) (db : Database) (scope : Scope) :
    List (String × Gathered) → Except Refusal (Members Value)
  | [] => .ok []
  | (key, g) :: rest => do
    let v ← embedded (← gatheredValue how db scope g)
    let rest ← gatheredMembers how db scope rest
    return (key, v) :: rest

end

/-- The values of the relations of a row of the root, under their keys. -/
def rootMembers (how : Scoping) (db : Database) (scope : Scope)
    (nested : List (String × Gathered)) : Except Refusal (Members Value) :=
  nested.mapM fun (key, g) => do return (key, ← gatheredValue how db scope g)

/-- A text as objects hold it: only what has to be escaped is. -/
def heldQuoted (s : String) : String :=
  let held := s.toList.flatMap fun c => if c.toNat < 127 then Json.escapeChar c else [c]
  String.ofList ('"' :: held ++ ['"'])

mutual

/-- A value as the text that an object holds it by, without blanks. -/
def heldText : Value → String
  | .float x => if x = .nan then "Inf" else x.briefText
  | .list items => "[" ++ String.intercalate "," (heldItems items) ++ "]"
  | .object members => "\x7b" ++ String.intercalate "," (heldMembers members) ++ "\x7d"
  | .text s => heldQuoted s
  | v => (Json.write v).toOption.getD "null"

/-- Items as texts. -/
def heldItems : List Value → List String
  | [] => []
  | v :: rest => heldText v :: heldItems rest

/-- Members as texts. -/
def heldMembers : List (String × Value) → List String
  | [] => []
  | (k, v) :: rest => (heldQuoted k ++ ":" ++ heldText v) :: heldMembers rest

end

/-- The value of a relation that leaves the database as text: it is read again, and what JSON has no
form for cannot be read. -/
def leaving (v : Value) : Except Refusal Value :=
  if holdsNoJson v then
    match Json.read (heldText v) with
    | .error (.wrong reason left) =>
      .error (.mishap (.jsonMalformed ((Json.Fault.wrong reason left).message (heldText v))))
    | _ => .ok v
  else .ok v

/-- The result columns of a row. -/
def resultMembers (read : Column → Cell) : List Column → Except Refusal (Members Value)
  | [] => .ok []
  | c :: rest => do
    let v ← Binding.result c.declaration.type (read c)
    let rest ← resultMembers read rest
    return (c.name, v) :: rest

/-- The first name that occurs again later. -/
def repeatedName? : List String → Option String
  | [] => none
  | name :: rest => if rest.contains name then some name else repeatedName? rest

/-- A row as an object. Two result columns of one name cannot be told apart. -/
def resultRow (members : Members Value) : Except Refusal Value :=
  match repeatedName? (Members.names members) with
  | some name =>
    .error (.refused s!"Ambiguous column name '{name}' in result set column descriptions")
  | none => .ok (.object members)

namespace Fetch

/-- The columns of the root that a fetch reads: those that it shows, and those that its relations
are joined on. -/
def shown (f : Fetch) : List Column :=
  f.columns ++ f.nested.flatMap fun (_, g) => g.rows.joins.map (·.outer)

/-- The rows that a fetch gives: all of them are found before any leaves the database. -/
def result (how : Scoping) (db : Database) (f : Fetch) : Except Refusal (List Value) := do
  checkRows how db [] f.rows
  let found ← (chosenRows how db [] f.rows (shown f)).mapM fun frame => do
    return (frame, ← rootMembers how db [frame] f.nested)
  found.mapM fun (frame, below) => do
    let own ← resultMembers (cellIn how [frame] f.rows.source) f.columns
    let below ← below.mapM fun (key, v) => do return (key, ← leaving v)
    resultRow (own ++ below)

end Fetch

/-- The result columns of rows that a write returns. -/
def returnedRows (columns : List Column) (rows : List StoredRow) : Except Refusal (List Value) :=
  rows.mapM fun r => do return .object (← resultMembers r.cell columns)

end RelGraph.Store
