import RelGraph.Sql.Dialect
import RelGraph.Sql.Operand
import RelGraph.Sql.Fetch
import RelGraph.Sql.Write
/-!
Statements as text. A phrase is a row of pieces of text and parameters, so the parameters of a
statement are listed in the order in which its text mentions them.
-/
namespace RelGraph.Sql

/-- The types to which parameters are cast where a dialect asks for it. -/
inductive Cast
  | json
  | uuid
deriving DecidableEq, Repr

/-- The cast that a type calls for; a wrapped type calls for that of the type right inside. -/
def Cast.ofType? : ColumnType → Option Cast
  | .json | .wrapped _ .json _ => some .json
  | .uuid _ | .wrapped _ (.uuid _) _ => some .uuid
  | _ => none

/-- A piece of a statement: text, or a parameter with the type by which it binds. -/
inductive Piece
  | text (s : String)
  | parameter (v : Value) (type : ColumnType)
deriving Repr

/-- A part of a statement. -/
abbrev Phrase := List Piece

namespace Phrase

/-- A phrase of text alone. -/
def word (s : String) : Phrase := [.text s]

/-- Phrases with text between them. -/
def joined (separator : String) : List Phrase → Phrase
  | [] => []
  | [p] => p
  | p :: rest => p ++ .text separator :: joined separator rest

/-- A phrase between two texts. -/
def between (before : String) (p : Phrase) (after : String) : Phrase :=
  .text before :: p ++ [.text after]

end Phrase

open Phrase

namespace Dialect

/-- The text of a piece; parameters are question marks. -/
def pieceText (d : Dialect) : Piece → String
  | .text s => s
  | .parameter _ type =>
    match d, Cast.ofType? type with
    | .postgres, some .json => "?::JSON"
    | .postgres, some .uuid => "?::UUID"
    | _, _ => "?"

/-- The text of a phrase. -/
def text (d : Dialect) (p : Phrase) : String := String.join (p.map d.pieceText)

/-- The parameters of a phrase with their types, in the order of its text. -/
def typedParameters (p : Phrase) : List (Value × ColumnType) :=
  p.filterMap fun piece => match piece with
    | .parameter v type => some (v, type)
    | .text _ => none

/-- The parameters of a phrase in the order of its text. -/
def parameters (p : Phrase) : List Value := (typedParameters p).map Prod.fst

/-- A column of a source. -/
def columnText (d : Dialect) (s : Source) (c : Column) : String :=
  d.quote s.name ++ "." ++ d.quote (s.columnName c)

/-- A truth value written out. -/
def truthText (d : Dialect) (b : Bool) : String :=
  match d, b with
  | sqlite, true => "1"
  | sqlite, false => "0"
  | postgres, true => "true"
  | postgres, false => "false"

/-- A comparison of a column with a pattern in any case; a dialect without such a comparison lowers
both sides. -/
def patternAnyCase (d : Dialect) (column : String) (negated : Bool) (operand : Piece) : Phrase :=
  let keyword := if negated then " NOT " else " "
  match d with
  | sqlite => between ("lower(" ++ column ++ ")" ++ keyword ++ "LIKE lower(") [operand] ")"
  | postgres => [.text (column ++ keyword ++ "ILIKE "), operand]

/-- What stands before rows of values: one dialect marks them as such. -/
def rowsKeyword (d : Dialect) (before : String) : String :=
  match d with
  | sqlite => before ++ "VALUES "
  | postgres => before

/-- A comparison of a column with an operand. -/
def comparison (d : Dialect) (s : Source) (c : Column) (op : Operator) (v : Value) : Phrase :=
  let column := d.columnText s c
  let binary := fun (word : String) (p : Phrase) => Piece.text (column ++ word) :: p
  let operand : Phrase := match v with
    | .bool b => word (d.truthText b)
    | v => [.parameter v (operandType c v)]
  let pattern := Piece.parameter v (operandType c v)
  let items := v.items?.getD []
  let listed := fun (type : ColumnType) (items : List Value) =>
    between "(" (joined ", " (items.map fun i => [.parameter i type])) ")"
  let list :=
    if listsRows c items then
      between (d.rowsKeyword "(")
        (joined ", " (items.map fun row => listed .unknown (row.items?.getD []))) ")"
    else listed (itemType c items) items
  match op with
  | .eq => binary " = " operand
  | .ne => binary " != " operand
  | .lt => binary " < " operand
  | .lte => binary " <= " operand
  | .gt => binary " > " operand
  | .gte => binary " >= " operand
  | .like => binary " LIKE " [pattern]
  | .notLike => binary " NOT LIKE " [pattern]
  | .ilike => d.patternAnyCase column false pattern
  | .notIlike => d.patternAnyCase column true pattern
  | .inArray => binary " IN " list
  | .notInArray => between "(" (binary " NOT IN " list) ")"
  | .isNull => word (column ++ " IS NULL")
  | .isNotNull => word (column ++ " IS NOT NULL")

mutual

/-- A condition; "and" binds closer than "or". -/
def condition (d : Dialect) (s : Source) : Condition → Phrase
  | .compare c op v => d.comparison s c op v
  | .all items => joined " AND " (d.conjuncts s items)
  | .any items => joined " OR " (d.disjuncts s items)

/-- Conditions as operands of "and", inner ones of the same kind spread out. -/
def conjuncts (d : Dialect) (s : Source) : List Condition → List Phrase
  | [] => []
  | .all items :: rest => d.conjuncts s items ++ d.conjuncts s rest
  | .any items :: rest =>
    between "(" (joined " OR " (d.disjuncts s items)) ")" :: d.conjuncts s rest
  | .compare c op v :: rest => d.comparison s c op v :: d.conjuncts s rest

/-- Conditions as operands of "or", inner ones of the same kind spread out. -/
def disjuncts (d : Dialect) (s : Source) : List Condition → List Phrase
  | [] => []
  | .any items :: rest => d.disjuncts s items ++ d.disjuncts s rest
  | .all items :: rest => joined " AND " (d.conjuncts s items) :: d.disjuncts s rest
  | .compare c op v :: rest => d.comparison s c op v :: d.disjuncts s rest

end

/-- A join condition. -/
def join (d : Dialect) (source above : Source) (j : Join) : Phrase :=
  word (d.columnText source j.own ++ " = " ++ d.columnText above j.outer)

/-- The conditions of rows, ready to stand behind "where"; nothing when there are none. -/
def rowConditions (d : Dialect) (r : Rows) : Phrase :=
  let joins := match r.above with
    | some above => r.joins.map (d.join r.source above)
    | none => []
  match joins, r.condition with
  | [], none => []
  | [], some c => d.condition r.source c
  | joins, none => joined " AND " joins
  | joins, some c => joined " AND " (joins ++ d.conjuncts r.source [c])

/-- A clause with a leading keyword; nothing when it is empty. -/
def clause (keyword : String) : Phrase → Phrase
  | [] => []
  | p => .text keyword :: p

/-- A sort key. -/
def sortKey (d : Dialect) (s : Source) (k : SortKey) : Phrase :=
  word (d.columnText s k.column ++ " " ++ k.direction.keyword)

/-- The window of rows. Only one dialect can leave out either bound. -/
def window (d : Dialect) (limit offset : Option Nat) : Phrase :=
  let bound := fun (n : Int) => Piece.parameter (.int n) .integer
  match d, limit, offset with
  | _, none, none => []
  | sqlite, limit, offset =>
    [.text "\n LIMIT ", bound ((limit.map Int.ofNat).getD (-1)), .text " OFFSET ",
      bound (offset.getD 0)]
  | postgres, some l, none => [.text " \n LIMIT ", bound l]
  | postgres, some l, some o => [.text " \n LIMIT ", bound l, .text " OFFSET ", bound o]
  | postgres, none, some o => [.text "\n LIMIT ALL OFFSET ", bound o]

/-- What rows are read from. -/
def sourceText (d : Dialect) (r : Rows) : String :=
  let name := d.quote r.table.declaration.name
  match r.source with
  | .table _ => name
  | s => name ++ " AS " ++ d.quote s.name

/-- The selection of columns and values from rows. -/
def selection (d : Dialect) (columns : List Phrase) (r : Rows) : Phrase :=
  .text "SELECT " :: joined ", " columns ++ word (" \nFROM " ++ d.sourceText r) ++
    clause " \nWHERE " (d.rowConditions r) ++
    clause " ORDER BY " (joined ", " (r.orderBy.map (d.sortKey r.source))) ++
    d.window r.limit r.offset

/-- A column of a selection under its key. -/
def selected (d : Dialect) (s : Source) (c : Column) : Phrase :=
  word (d.columnText s c ++ " AS " ++ d.quote c.name)

/-- A text between single quotes. -/
def literal (s : String) : String :=
  "'" ++ String.ofList (s.toList.flatMap fun c => if c = '\'' then [c, c] else [c]) ++ "'"

/-- A member of an object: bytes travel as hexadecimal digits and JSON as JSON where the dialect has
no types to tell them. -/
def member (d : Dialect) (s : Source) (c : Column) : Phrase :=
  let column := d.columnText s c
  let value := match d, c.declaration.type with
    | sqlite, .binary true => "lower(hex(" ++ column ++ "))"
    | sqlite, .json => "json(" ++ column ++ ")"
    | _, _ => column
  word (literal c.name ++ ", " ++ value)

/-- The function that makes objects. -/
def objectFunction : Dialect → String
  | sqlite => "json_object"
  | postgres => "json_build_object"

/-- How many lists and how many objects have been labelled. -/
structure Labels where
  lists : Nat := 0
  objects : Nat := 0
deriving Repr, Inhabited

/-- A gathered object as the value of a selection, or a list of all of them. -/
def gatheredValue (d : Dialect) (toMany : Bool) (labels : Labels) (object : Phrase) : Phrase :=
  match toMany, d with
  | false, d =>
    object ++ word (" AS " ++ d.objectFunction ++ "_" ++ toString (labels.objects + 1))
  | true, sqlite =>
    between "coalesce(json_group_array(json(" object ")), " ++
      [.parameter (.text "[]") (.text false),
        .text (") AS coalesce_" ++ toString (labels.lists + 1))]
  | true, postgres =>
    between "coalesce(json_agg(" object "), " ++
      [.parameter (.text "[]") .json,
        .text (") AS coalesce_" ++ toString (labels.lists + 1))]

/-- A gathered value embedded in an object. -/
def embedded (d : Dialect) (p : Phrase) : Phrase :=
  match d with
  | sqlite => between "json(" p ")"
  | postgres => p

/-- The labels after one more value. -/
def Labels.next (l : Labels) (toMany : Bool) : Labels :=
  if toMany then { l with lists := l.lists + 1 } else { l with objects := l.objects + 1 }

mutual

/-- The value of a relation. Labels are numbered from the outside in. -/
def gathered (d : Dialect) (labels : Labels) : Gathered → Phrase × Labels
  | ⟨toMany, rows, exposed, derived, columns, nested⟩ =>
    let (members, next) := d.gatheredMembers (labels.next toMany) nested
    let own := columns.map (d.member derived)
    let object := between (d.objectFunction ++ "(") (joined ", " (own ++ members)) ")"
    let inner := d.selection (exposed.map (d.selected rows.source)) rows
    (.text "(SELECT " :: d.gatheredValue toMany labels object ++
      between " \nFROM (" inner (") AS " ++ d.quote derived.name ++ ")"), next)

/-- The values of relations as members of an object. -/
def gatheredMembers (d : Dialect) (labels : Labels) :
    List (String × Gathered) → List Phrase × Labels
  | [] => ([], labels)
  | (key, g) :: rest =>
    let (p, labels) := d.gathered labels g
    let (ps, labels) := d.gatheredMembers labels rest
    ((.text (literal key ++ ", ") :: d.embedded p) :: ps, labels)

end

/-- The values of relations as columns of a selection. -/
def gatheredColumns (d : Dialect) (labels : Labels) : List (String × Gathered) → List Phrase
  | [] => []
  | (key, g) :: rest =>
    let (p, labels) := d.gathered labels g
    (p ++ word (" AS " ++ d.quote key)) :: d.gatheredColumns labels rest

/-- The statement of a fetch. -/
def fetch (d : Dialect) (f : Fetch) : Phrase :=
  d.selection (f.columns.map (d.selected f.rows.source) ++ d.gatheredColumns {} f.nested) f.rows

/-- The columns that a write returns. -/
def returning (d : Dialect) (t : Table) (columns : List Column) : Phrase :=
  clause " RETURNING " (joined ", " (columns.map fun c =>
    let column := match d with
      | sqlite => d.quote c.declaration.name
      | postgres => d.columnText (.table t.declaration.name) c
    word (column ++ " AS " ++ d.quote c.name)))

/-- A value for a column. -/
def columnValue (c : Column) (v : Value) : Phrase := [.parameter v c.declaration.type]

/-- The values of one row to insert; what the row does not give stays open. -/
def insertedRow (columns : List Column) (row : Members Value) : Phrase :=
  between "(" (joined ", " (columns.map fun c =>
    columnValue c ((Members.get? row c.name).getD .null))) ")"

/-- The statement of an insert. Without any value it names every column. -/
def insert (d : Dialect) (s : Insert) : Phrase :=
  let (columns, rows) :=
    if s.hasValues then (s.given ++ s.defaulted, s.rows) else (s.table.columns, [[]])
  let names := String.intercalate ", " (columns.map fun c => d.quote c.declaration.name)
  let values :=
    if columns.isEmpty then word " DEFAULT VALUES"
    else word (" (" ++ names ++ ") VALUES ") ++ joined ", " (rows.map (insertedRow columns))
  word ("INSERT INTO " ++ d.quote s.table.declaration.name) ++ values ++
    d.returning s.table (returned s.table [])

/-- The condition of a write. -/
def writeCondition (d : Dialect) (t : Table) (c : Option Condition) : Phrase :=
  clause " WHERE " ((c.map (d.condition (.table t.declaration.name))).getD [])

/-- The statement of an update. -/
def update (d : Dialect) (s : Update) : Phrase :=
  let set := s.assigned.map fun (c, v) =>
    Piece.text (d.quote c.declaration.name ++ "=") :: columnValue c v
  word ("UPDATE " ++ d.quote s.table.declaration.name ++ " SET ") ++ joined ", " set ++
    d.writeCondition s.table s.condition ++ d.returning s.table (returned s.table [])

/-- The statement of a delete. -/
def delete (d : Dialect) (s : Delete) : Phrase :=
  word ("DELETE FROM " ++ d.quote s.table.declaration.name) ++
    d.writeCondition s.table s.condition ++ d.returning s.table s.columns

end Dialect
end RelGraph.Sql
