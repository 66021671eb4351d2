import RelGraph.Schema.Declaration
/-!
Tables by dependency: each after the tables that its foreign keys refer to, by name among those that
could come next. Tables that depend on one another in a circle are put as if they depended on
nothing.
-/
namespace RelGraph

/-- Tables by name, each with the names of the other tables that it depends on. -/
abbrev Dependencies := List (String × List String)

namespace Dependencies

/-- Adds to names the names that some of them depend on. -/
def widen (ds : Dependencies) (names : List String) : List String :=
  (ds.filter fun t => names.contains t.1).foldl
    (fun names t => names ++ t.2.filter (!names.contains ·)) names

/-- What the given names lead to in any number of steps; the fuel bounds the steps. -/
def reached (ds : Dependencies) : Nat → List String → List String
  | 0, names => names
  | fuel + 1, names => reached ds fuel (ds.widen names)

/-- Whether a table depends on itself by way of others. -/
def isCircular (ds : Dependencies) (name : String) : Bool :=
  ((ds.filter (·.1 = name)).any fun t => (ds.reached ds.length t.2).contains name)

/-- The same tables where those in circles depend on nothing. -/
def cutCircles (ds : Dependencies) : Dependencies :=
  ds.map fun t => if ds.isCircular t.1 then (t.1, []) else t

/-- The names that come out round by round: in every round those that depend on nothing that is
left, and none once a round is empty. -/
def rounds : Nat → Dependencies → List String
  | 0, _ => []
  | fuel + 1, ds =>
    let left := ds.map (·.1)
    let (out, rest) := ds.partition fun t => t.2.all (!left.contains ·)
    if out.isEmpty then [] else out.map (·.1) ++ rounds fuel rest

/-- The names in the order of dependency. -/
def sorted (ds : Dependencies) : List String :=
  rounds ds.length (if ds.any fun t => ds.isCircular t.1 then ds.cutCircles else ds)

end Dependencies

namespace ForeignKey

/-- The table that a foreign key refers to, by its first column. -/
def target? (k : ForeignKey) : Attempt (Option String) :=
  match k.pairs with
  | [] => .ok none
  | (_, reference) :: _ => do return some (← reference.resolve).table

end ForeignKey

namespace Declarations

/-- The names of the tables that a table depends on. -/
def dependenciesOf (t : TableDeclaration) : Attempt (List String) := do
  let targets ← t.keys.mapM ForeignKey.target?
  return targets.reduceOption.filter (· ≠ t.name)

/-- All tables, each after the tables that its foreign keys refer to, by name within a round. -/
def byDependency (d : Declarations) : Attempt (List TableDeclaration) := do
  let named := d.tables.mergeSort fun a b => decide (a.name ≤ b.name)
  let ds ← named.mapM fun t => do return (t.name, ← dependenciesOf t)
  return (Dependencies.sorted ds).filterMap d.table?

end Declarations
end RelGraph
