import RelGraph.Sql.Fetch
import RelGraph.Sql.Write
import RelGraph.Store.Binding
/-!
How large a statement may be. The reader of statements keeps what it has begun and not finished, and
can keep a limited number of entries; expressions may be nested so deep only; a function takes a
limited number of arguments. A statement beyond these is refused for what is met first in its text.

`room` always stands for the number of entries that the reader keeps already when it comes to some
part of a statement.
-/
namespace RelGraph.Store

open Sql

namespace Capacity

/-- How many entries the reader of statements can keep. -/
def mostEntries : Nat := 100

/-- How deep an expression may be nested. -/
def mostLevels : Nat := 1000

/-- How many arguments a function takes. -/
def mostArguments : Nat := 127

/-- The refusal of a statement before it runs. -/
abbrev Checked (α : Type) := Except Refusal α

/-- Refuses a statement of which the reader would have to keep too many entries. -/
def hold (entries : Nat) : Checked Unit :=
  if entries ≤ mostEntries then .ok () else .error (.refused "parser stack overflow")

/-- An expression of some levels, if it may be that deep. -/
def level (n : Nat) : Checked Nat :=
  if n ≤ mostLevels then .ok n
  else .error (.refused s!"Expression tree is too large (maximum depth {mostLevels})")

/-- Refuses a function that is given too many arguments. -/
def checkArguments (name : String) (n : Nat) : Checked Unit :=
  if n ≤ mostArguments then .ok ()
  else .error (.refused s!"too many arguments on function {name}")

/-- The entries that a column takes: its source, a dot and its name. -/
def columnEntries : Nat := 3

/-- The levels of a column in its source. -/
def columnLevels : Nat := 2

/-- The entries that a comparison takes. -/
def comparisonEntries (op : Operator) (v : Value) : Nat :=
  let listed := if ((v.items?.getD []).drop 1).isEmpty then 5 else 6
  match op with
  | .ilike | .notIlike => 7
  | .inArray => listed
  | .notInArray => 1 + listed
  | .isNotNull => 4
  | _ => 3

/-- The levels of a comparison: some are the negation of another, and some first change the case of
what they compare. -/
def comparisonLevels : Operator → Nat
  | .notLike | .notInArray | .ilike => 4
  | .notIlike => 5
  | _ => 3

/-- The entries that stand before the next item of a chain of "and" or "or". -/
def before (chain : Option Nat) : Nat := if chain.isSome then 2 else 0

/-- A chain with one more item, by their levels. -/
def linked (chain : Option Nat) (item : Nat) : Checked (Option Nat) :=
  match chain with
  | none => .ok (some item)
  | some n => do return some (← level (max n item + 1))

/-- A comparison as the next item of a chain. -/
def comparison (room : Nat) (chain : Option Nat) (op : Operator) (v : Value) :
    Checked (Option Nat) := do
  hold (room + before chain + comparisonEntries op v)
  linked chain (comparisonLevels op)

mutual

/-- Conditions as the next items of a chain of "and". -/
def conjuncts (room : Nat) (chain : Option Nat) : List Condition → Checked (Option Nat)
  | [] => .ok chain
  | .compare _ op v :: rest => do conjuncts room (← comparison room chain op v) rest
  | .all items :: rest => do conjuncts room (← conjuncts room chain items) rest
  | .any items :: rest => do
    let inner ← disjuncts (room + before chain + 1) none items
    hold (room + before chain + 3)
    conjuncts room (← linked chain (inner.getD 0)) rest

/-- Conditions as the next items of a chain of "or". -/
def disjuncts (room : Nat) (chain : Option Nat) : List Condition → Checked (Option Nat)
  | [] => .ok chain
  | .compare _ op v :: rest => do disjuncts room (← comparison room chain op v) rest
  | .any items :: rest => do disjuncts room (← disjuncts room chain items) rest
  | .all items :: rest => do
    let inner ← conjuncts (room + before chain) none items
    disjuncts room (← linked chain (inner.getD 0)) rest

end

/-- A condition that stands alone. -/
def condition (room : Nat) : Condition → Checked (Option Nat)
  | .compare _ op v => comparison room none op v
  | .all items => conjuncts room none items
  | .any items => disjuncts room none items

/-- The conditions of rows: what joins them to the rows above, and what they have to meet. -/
def rowConditions (room : Nat) (r : Rows) : Checked (Option Nat) :=
  match r.joins, r.condition with
  | [], none => .ok none
  | [], some c => condition room c
  | joins, c => do
    let chain ← joins.foldlM (fun chain _ => do
      hold (room + before chain + 2 + columnEntries)
      linked chain (columnLevels + 1)) none
    conjuncts room chain c.toList

/-- What follows the columns of a selection from a table. -/
def selection (room : Nat) (r : Rows) : Checked Unit := do
  hold (room + 9)
  let _ ← rowConditions (room + 5) r
  if let _ :: more := r.orderBy then
    hold (room + 9 + columnEntries)
    if !more.isEmpty then hold (room + 11 + columnEntries)
  if r.limit.isSome || r.offset.isSome then hold (room + 12)

/-- The entries and the levels that the value of a column takes in an object. -/
def memberSize (c : Column) : Nat × Nat :=
  match c.declaration.type with
  | .binary true => (columnEntries + 6, columnLevels + 2)
  | .json => (columnEntries + 3, columnLevels + 1)
  | _ => (columnEntries, columnLevels)

/-- The columns of an object, by their levels. -/
def members (room : Nat) (columns : List Column) : Checked Nat :=
  columns.foldlM (fun deepest c => do
    hold (room + 5 + (memberSize c).1)
    return max deepest (memberSize c).2) 1

mutual

/-- The value of a relation, by its levels. -/
def gathered (room : Nat) : Gathered → Checked Nat
  | ⟨toMany, rows, exposed, _, columns, nested⟩ => do
    let object := room + if toMany then 14 else 5
    let deepest ← gatheredMembers object (← members object columns) nested
    checkArguments "json_object" (2 * (columns.length + nested.length))
    let value ← level (deepest + if toMany then 4 else 1)
    for _ in exposed do hold (room + 15)
    selection (room + 7) rows
    level (value + 1)

/-- The relations of an object, by their levels and those of what stands before them. -/
def gatheredMembers (room deepest : Nat) : List (String × Gathered) → Checked Nat
  | [] => .ok deepest
  | (_, g) :: rest => do
    let n ← gathered (room + 8) g
    gatheredMembers room (max deepest (n + 1)) rest

end

/-- The relations of the rows of the root. -/
def gatheredColumns (room : Nat) : List (String × Gathered) → Checked Unit
  | [] => .ok ()
  | (_, g) :: rest => do
    let _ ← gathered room g
    gatheredColumns room rest

end Capacity

open Capacity

/-- Refuses a fetch that is too large. -/
def Fetch.checkSize (f : Fetch) : Except Refusal Unit := do
  gatheredColumns 5 f.nested
  selection 1 f.rows

/-- Refuses a write that is too large for the condition that begins behind some entries. -/
def checkWriteSize (room : Nat) (c : Option Condition) : Except Refusal Unit :=
  match c with
  | some c => do let _ ← condition room c
  | none => .ok ()

/-- Refuses an update that is too large. -/
def Update.checkSize (u : Update) : Except Refusal Unit := checkWriteSize 10 u.condition

/-- Refuses a deletion that is too large. -/
def Delete.checkSize (d : Delete) : Except Refusal Unit := checkWriteSize 7 d.condition

end RelGraph.Store
