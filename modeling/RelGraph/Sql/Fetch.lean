import RelGraph.Sql.Condition
import RelGraph.Plan
/-!
Fetches. One statement fetches a whole plan: each relation is a value of the row that owns it,
gathered from the rows of the related table. Every level reads from a `Source`; the sources below
the root are numbered in the order in which they come up, so no two of them share a name.
-/
namespace RelGraph.Sql

/-- What rows are read from: the table of the root, a table again under a number, or the rows of a
numbered subquery. -/
inductive Source
  | table (name : String)
  | again (number : Nat)
  | derived (number : Nat)
deriving DecidableEq, Repr, Inhabited

namespace Source

/-- The name by which a statement refers to a source. -/
def name : Source → String
  | table name => name
  | again number => "t" ++ toString number
  | derived number => "s" ++ toString number

/-- The name of a column within a source: subqueries know their columns by key. -/
def columnName (s : Source) (c : Column) : String :=
  match s with
  | derived _ => c.name
  | _ => c.declaration.name

end Source

/-- A condition that a row agrees with a row of another source on a pair of columns. -/
structure Join where
  own : Column
  outer : Column
deriving Repr, Inhabited

/-- The rows of a table that one level reads: those that agree with the row of the level above,
meet the condition, and lie in the window of the order. -/
structure Rows where
  table : Table
  source : Source
  above : Option Source := none
  joins : List Join := []
  condition : Option Condition := none
  orderBy : List SortKey := []
  limit : Option Nat := none
  offset : Option Nat := none
deriving Repr, Inhabited

/-- The value of a relation: one object, or a list of objects, made of the rows of a subquery that
exposes some columns. `columns` and `nested` are the members of an object. -/
structure Gathered where
  toMany : Bool
  rows : Rows
  exposed : List Column
  derived : Source
  columns : List Column
  nested : List (String × Gathered)
deriving Repr, Inhabited

/-- The statement that fetches a plan. -/
structure Fetch where
  rows : Rows
  columns : List Column
  nested : List (String × Gathered)
deriving Repr, Inhabited

namespace Fetch

/-- The column that stands for a row of which no column is needed: the row key, or the first. -/
def fallback (t : Table) : Attempt Column :=
  match t.rowKey, t.columns with
  | some key, _ => t.column key
  | none, c :: _ => .ok c
  | none, [] => Attempt.mishap (.keyMissing "")

/-- Names added once each. -/
def addNames (names more : List String) : List String :=
  more.foldl (fun acc n => if acc.contains n then acc else acc ++ [n]) names

/-- The names that a subquery has to expose: the columns asked for, and those that the relations
below are joined on. -/
def neededNames (n : Node) : List String :=
  n.relations.foldl (fun acc kv => addNames acc ((kv.2.relation.map (·.fields)).getD [])) n.columns

/-- The columns that a subquery exposes: the needed ones, or one that stands for the row. -/
def exposedColumns (t : Table) (names : List String) : Attempt (List Column) :=
  match names with
  | [] => do return [← fallback t]
  | names => names.mapM t.column

/-- The joins of a relation from the table above. -/
def joins (above target : Table) (rel : Relation) : Attempt (List Join) :=
  rel.pairs.mapM fun (field, reference) => do
    let own ← target.column reference
    let outer ← above.column field
    return ⟨own, outer⟩

/-- The rows of a level, read from a source. -/
def rowsOf (t : Table) (source : Source) (n : Node) : Attempt Rows := do
  let condition ← Condition.ofPredicate? t n.condition
  let orderBy ← SortKey.ofOrder t (n.orderBy.getD [])
  return { table := t, source := source, condition := condition, orderBy := orderBy,
           limit := n.limit, offset := n.offset }

/-- The rows of a relation under the row above; a relation to one row reads at most one. -/
def relatedRows (above : Table) (aboveSource : Source) (target : Table) (source : Source)
    (rel : Relation) (n : Node) : Attempt Rows := do
  let pairs ← joins above target rel
  let rows ← rowsOf target source n
  return { rows with above := some aboveSource, joins := pairs,
                     limit := if rel.toMany then n.limit else some 1 }

mutual

/-- The value of a relation under a source, and the number for the next source. -/
def gathered (r : Registry) (above : Table) (aboveSource : Source) (number : Nat) :
    Node → Attempt (Gathered × Nat)
  | ⟨table, names, condition, orderBy, limit, offset, relation, relations, truncated⟩ => do
    let target ← r.table table
    let node : Node :=
      ⟨table, names, condition, orderBy, limit, offset, relation, relations, truncated⟩
    match relation with
    | none => Attempt.mishap (.keyMissing table)
    | some rel =>
      let exposed ← exposedColumns target (neededNames node)
      let rows ← relatedRows above aboveSource target (.again number) rel node
      let derived := Source.derived (number + 1)
      let columns ← names.mapM target.column
      let (nested, next) ← gatheredAll r target derived (number + 2) relations
      return (⟨rel.toMany, rows, exposed, derived, columns, nested⟩, next)

/-- The values of the relations of a level. -/
def gatheredAll (r : Registry) (above : Table) (aboveSource : Source) (number : Nat) :
    List (String × Node) → Attempt (List (String × Gathered) × Nat)
  | [] => .ok ([], number)
  | (key, child) :: rest => do
    let (g, number) ← gathered r above aboveSource number child
    let (rest, number) ← gatheredAll r above aboveSource number rest
    return ((key, g) :: rest, number)

end

/-- The statement that fetches a plan. -/
def ofNode (r : Registry) (n : Node) : Attempt Fetch := do
  let t ← r.table n.table
  let source := Source.table t.declaration.name
  let own ← n.columns.mapM t.column
  let (nested, _) ← gatheredAll r t source 1 n.relations
  let rows ← rowsOf t source n
  match own, nested with
  | [], [] => return ⟨rows, [← fallback t], []⟩
  | own, nested => return ⟨rows, own, nested⟩

end Fetch
end RelGraph.Sql
