import RelGraph.Filter
import RelGraph.Ordering
import RelGraph.Selection
/-!
Plans. A plan says what to fetch from one table at one level of a request: columns, condition,
order and limits, and below it one plan for every relation asked for. Relations deeper than the
limit are cut off: they are named in the plan and resolve empty.
-/
namespace RelGraph

/-- What to fetch from one table. `relations` and `truncated` are keyed by row key. -/
structure Node where
  table : String
  columns : List String := []
  condition : Option Predicate := none
  orderBy : Option (List OrderEntry) := none
  limit : Option Nat := none
  offset : Option Nat := none
  relation : Option Relation := none
  relations : List (String × Node) := []
  truncated : Members Relation := []
deriving Repr, Inhabited

namespace Node

mutual

/-- How many levels of relations a plan has. -/
def depth : Node → Nat
  | ⟨_, _, _, _, _, _, _, relations, _⟩ => depthBelow relations

/-- One more than the depth of the deepest plan below, if there is one. -/
def depthBelow : List (String × Node) → Nat
  | [] => 0
  | (_, n) :: rest => max (n.depth + 1) (depthBelow rest)

end

/-- The plan with all its relations cut off. -/
def withoutRelations (n : Node) : Node :=
  let cut := n.relations.filterMap fun (key, child) => child.relation.map (key, ·)
  { n with relations := [], truncated := Members.update n.truncated cut }

end Node

namespace Plan

/-- The row key of a relation's value: the response key, marked when a column has that name. -/
def relationKey (t : Table) (responseKey : String) : String :=
  if t.hasColumn responseKey then "_" ++ responseKey else responseKey

/-- A limit or offset: a whole number that is not negative. -/
def pagination (t : Table) (argument : String) (v : Value) : Attempt (Option Nat) :=
  match v with
  | .null => .ok none
  | .int n =>
    if 0 ≤ n then .ok (some n.toNat)
    else Attempt.fault (.paginationInvalid t.name argument v.literal)
  | v => Attempt.fault (.paginationInvalid t.name argument v.literal)

/-- An argument by name; null when it is not given. -/
def argument (args : Members Value) (name : String) : Value := (Members.get? args name).getD .null

/-- The outcome of planning, with the warnings that came up on the way to it. -/
abbrev Planned := Attempt Node × List String

/-- The plan of one level before its fields: condition, and order and limits unless a single row
is asked for. -/
def level (t : Table) (args : Members Value) (relation : Option Relation) : Attempt Node := do
  let condition ← compileWhere t (argument args "where")
  let node : Node := { table := t.name, relation := relation, condition := condition }
  if relation.all (·.toMany) then
    let orderBy ← OrderBy.compile t (argument args "orderBy")
    let limit ← pagination t "limit" (argument args "limit")
    let offset ← pagination t "offset" (argument args "offset")
    return { node with orderBy := orderBy, limit := limit, offset := offset }
  else return node

/-- Adds a column once. -/
def addColumn (n : Node) (name : String) : Node :=
  if n.columns.contains name then n else { n with columns := n.columns ++ [name] }

/-- The warning for a relation that lies too deep. -/
def depthWarning (t : Table) (relation : String) (maxDepth : Nat) : String :=
  s!"relation {t.name}.{relation} exceeds max_depth={maxDepth}; resolving it empty"

mutual

/-- Adds the fields of one level to its plan. -/
def addFields (r : Registry) (maxDepth depth : Nat) (t : Table) (n : Node)
    (warnings : List String) : List (String × Selection) → Planned
  | [] => (.ok n, warnings)
  | (key, s) :: rest =>
    match addField r maxDepth depth t n warnings key s with
    | (.error f, warnings) => (.error f, warnings)
    | (.ok n, warnings) => addFields r maxDepth depth t n warnings rest

/-- Adds one field: a column, or a relation with the plan below it. Other fields are none of the
plan's concern. -/
def addField (r : Registry) (maxDepth depth : Nat) (t : Table) (n : Node)
    (warnings : List String) (key : String) : Selection → Planned
  | ⟨name, _, args, fields⟩ =>
    if t.hasColumn name then (.ok (addColumn n name), warnings)
    else match t.relation? name with
      | none => (.ok n, warnings)
      | some rel =>
        let rowKey := relationKey t key
        if depth + 1 > maxDepth then
          (.ok { n with truncated := Members.put n.truncated rowKey rel },
            warnings ++ [depthWarning t name maxDepth])
        else
          match r.table rel.target with
          | .error f => (.error f, warnings)
          | .ok target =>
            match level target args (some rel) with
            | .error f => (.error f, warnings)
            | .ok start =>
              match addFields r maxDepth (depth + 1) target start warnings fields with
              | (.error f, warnings) => (.error f, warnings)
              | (.ok child, warnings) =>
                (.ok { n with relations := Members.put n.relations rowKey child }, warnings)

end

/-- The plan for a root field with given arguments. -/
def ofSelection (r : Registry) (maxDepth : Nat) (table : String) (s : Selection)
    (args : Members Value) : Planned :=
  match r.table table with
  | .error f => (.error f, [])
  | .ok t =>
    match level t args none with
    | .error f => (.error f, [])
    | .ok start => addFields r maxDepth 0 t start [] s.fields

end Plan
end RelGraph
