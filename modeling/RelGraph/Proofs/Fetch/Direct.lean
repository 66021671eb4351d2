import RelGraph.Store.Evaluation
/-!
What a plan asks for, said without a statement: no sources, no scopes, no subqueries. A level of a
plan reads the rows of its table; a level below reads those that are joined to one row of the table
above. Each reads in an order of its own, that of the database where no sort key decides.

`result` is the meaning against which the one statement of `Sql.Fetch` is held.
-/
namespace RelGraph.Direct

open Store Sql

/-- In which order the database comes by the rows of a plan's table, under a table above or at the
root. It comes by all of them, and by each once. -/
structure Scan where
  arrange : Option Table → Node → List StoredRow → List StoredRow
  perm : ∀ above n rows, (arrange above n rows).Perm rows

/-! ## Rows -/

/-- The operand of a comparison as the database takes it. -/
def operandOf (c : Column) (op : Operator) (v : Value) : Value :=
  match Condition.operand c op v with
  | .ok v => v
  | .error _ => v

mutual

/-- The truth of a predicate on a row of a table. -/
def truth (t : Table) (row : StoredRow) : Predicate → Truth
  | .compare name op v =>
    match t.column? name with
    | some c => comparisonTruth c op (operandOf c op v) (row.cell c)
    | none => none
  | .all items => Truth.all (truths t row items)
  | .any items => Truth.any (truths t row items)

/-- The truths of predicates on a row of a table. -/
def truths (t : Table) (row : StoredRow) : List Predicate → List Truth
  | [] => []
  | p :: rest => truth t row p :: truths t row rest

end

/-- Whether a row meets a condition: it is true of the row, not merely unknown. -/
def meets (t : Table) (condition : Option Predicate) (row : StoredRow) : Bool :=
  condition.all fun p => (truth t row p).holds

/-- Whether the cells of two columns are equal. A null equals nothing. -/
def sameCell (own outer : Column) (x y : Cell) : Bool :=
  (affinityOf own).compare? (affinityOf outer) x y == some .eq

/-- Whether a row of a related table belongs to a row of the table above: the cells of all pairs of
columns are equal. -/
def linked (above target : Table) (rel : Relation) (parent child : StoredRow) : Bool :=
  rel.pairs.all fun (field, reference) =>
    match above.column? field, target.column? reference with
    | some outer, some own => sameCell own outer (child.cell own) (parent.cell outer)
    | _, _ => false

/-- The order of two rows of a table by the entries of an order, the first that tells them apart. -/
def rowOrder (t : Table) (entries : List OrderEntry) (a b : StoredRow) : Ordering :=
  entries.foldr (fun e rest =>
    match t.column? e.column with
    | some c => (orderAlong e.direction (a.cell c) (b.cell c)).then rest
    | none => rest) .eq

/-- Rows in the order of a plan. -/
def sorted (t : Table) (n : Node) (rows : List StoredRow) : List StoredRow :=
  rows.mergeSort fun a b => (rowOrder t (n.orderBy.getD []) a b).isLE

/-- The rows of the root. -/
def rootRows (scan : Scan) (db : Database) (t : Table) (n : Node) : List StoredRow :=
  window n.limit n.offset
    (sorted t n ((scan.arrange none n (db.rows t)).filter (meets t n.condition)))

/-- The rows of a relation under a row of the table above; the first of them if one is asked for. -/
def relatedRows (scan : Scan) (db : Database) (above : Table) (parent : StoredRow) (target : Table)
    (rel : Relation) (n : Node) : List StoredRow :=
  window (if rel.toMany then n.limit else some 1) n.offset
    (sorted target n ((scan.arrange (some above) n (db.rows target)).filter fun row =>
      linked above target rel parent row && meets target n.condition row))

/-! ## What the database refuses -/

mutual

/-- Whether a predicate is made of a match with a pattern that is too long. -/
def hasLongMatch (t : Table) : Predicate → Bool
  | .compare name op v =>
    match t.column? name with
    | some c => isLongMatch c op (operandOf c op v)
    | none => false
  | .all items | .any items => haveLongMatch t items

/-- Whether any of some predicates is made of such a match. -/
def haveLongMatch (t : Table) : List Predicate → Bool
  | [] => false
  | p :: rest => hasLongMatch t p || haveLongMatch t rest

end

/-- Refuses a pattern that is too long as soon as there is a row to match it with. -/
def checkMatches (t : Table) (condition : Option Predicate) (rows : List StoredRow) :
    Except Refusal Unit :=
  if !rows.isEmpty && condition.any (hasLongMatch t) then
    .error (.refused "LIKE or GLOB pattern too complex")
  else .ok ()

/-! ## Values -/

/-- The columns of a table under some names. -/
def columnsOf (t : Table) (names : List String) : List Column := names.filterMap t.column?

/-- The columns of a row under some names, each in its JSON form. -/
def jsonCells (row : StoredRow) : List Column → Except Refusal (Members Value)
  | [] => .ok []
  | c :: rest => do
    let v ← jsonOf c (row.cell c)
    let rest ← jsonCells row rest
    return (c.name, v) :: rest

mutual

/-- The value of a relation for a row of the table above: the list of the objects of its rows, or
the object of the one row, or null when there is none. -/
def value (scan : Scan) (r : Registry) (db : Database) (above : Table) (parent : StoredRow) :
    Node → Except Refusal Value
  | ⟨table, names, condition, orderBy, limit, offset, relation, relations, truncated⟩ =>
    match r.table? table, relation with
    | some target, some rel => do
      let n : Node :=
        ⟨table, names, condition, orderBy, limit, offset, relation, relations, truncated⟩
      checkMatches target condition ((db.rows target).filter (linked above target rel parent))
      let objects ← (relatedRows scan db above parent target rel n).mapM fun row => do
        let own ← jsonCells row (columnsOf target names)
        let below ← values scan r db target row relations
        let object := Value.object (Members.ofPairs (own ++ below))
        if rel.toMany then embedded object else .ok object
      return if rel.toMany then .list objects else (objects.head?).getD .null
    | _, _ => .ok .null

/-- The values of relations for a row, under their keys. -/
def values (scan : Scan) (r : Registry) (db : Database) (t : Table) (row : StoredRow) :
    List (String × Node) → Except Refusal (Members Value)
  | [] => .ok []
  | (key, child) :: rest => do
    let v ← embedded (← value scan r db t row child)
    let rest ← values scan r db t row rest
    return (key, v) :: rest

end

/-- The columns that the root shows: those asked for, or one that stands for the row when nothing
is asked for. -/
def rootColumns (t : Table) (n : Node) : List Column :=
  if n.columns.isEmpty && n.relations.isEmpty then (Fetch.fallback t).toOption.toList
  else columnsOf t n.columns

/-- What a plan asks for: all values below the root are found before any leaves the database. -/
def result (scan : Scan) (r : Registry) (db : Database) (n : Node) :
    Except Refusal (List Value) :=
  match r.table? n.table with
  | none => .ok []
  | some t => do
    checkMatches t n.condition (db.rows t)
    let found ← (rootRows scan db t n).mapM fun row => do
      let below ← n.relations.mapM fun (key, child) => do
        return (key, ← value scan r db t row child)
      return (row, below)
    found.mapM fun (row, below) => do
      let own ← resultMembers row.cell (rootColumns t n)
      let below ← below.mapM fun (key, v) => do return (key, ← leaving v)
      resultRow (own ++ below)

end RelGraph.Direct
