import RelGraph.Conversion
import RelGraph.Shape
/-!
Filters. What a caller writes is a `TableFilter`: a level has entries for columns, or branches of
which one has to hold. It is compiled to a `Predicate` over the columns of one table. An entry whose
operand is null or false counts as not given, and a level without any given entry gives no
predicate, which is told apart from one that never holds.
-/
namespace RelGraph

/-- The operators of filters. -/
inductive Operator
  | eq
  | ne
  | lt
  | lte
  | gt
  | gte
  | like
  | notLike
  | ilike
  | notIlike
  | inArray
  | notInArray
  | isNull
  | isNotNull
deriving DecidableEq, Repr, Inhabited

namespace Operator

/-- All operators with their names. -/
def named : List (String × Operator) :=
  [("eq", eq), ("ne", ne), ("lt", lt), ("lte", lte), ("gt", gt), ("gte", gte), ("like", like),
    ("notLike", notLike), ("ilike", ilike), ("notIlike", notIlike), ("inArray", inArray),
    ("notInArray", notInArray), ("isNull", isNull), ("isNotNull", isNotNull)]

/-- The operator with a name. -/
def ofName? (name : String) : Option Operator := Members.get? named name

/-- The name of an operator. -/
def name (op : Operator) : String := ((named.find? (·.2 = op)).map Prod.fst).getD ""

/-- How an operator is written between a column and a value. -/
def symbol : Operator → String
  | eq => "="
  | ne => "<>"
  | lt => "<"
  | lte => "<="
  | gt => ">"
  | gte => ">="
  | like => "LIKE"
  | notLike => "NOT LIKE"
  | ilike => "ILIKE"
  | notIlike => "NOT ILIKE"
  | inArray => "IN"
  | notInArray => "NOT IN"
  | isNull => "IS NULL"
  | isNotNull => "IS NOT NULL"

/-- Whether the operator asks for a null and takes no value. -/
def asksForNull (op : Operator) : Bool := op = isNull || op = isNotNull

/-- Whether the operator takes a list of values. -/
def takesList (op : Operator) : Bool := op = inArray || op = notInArray

/-- Whether the operator takes a pattern. -/
def takesPattern (op : Operator) : Bool :=
  op = like || op = notLike || op = ilike || op = notIlike

end Operator

/-- A condition on the rows of one table. -/
inductive Predicate
  | compare (column : String) (op : Operator) (value : Value)
  | all (items : List Predicate)
  | any (items : List Predicate)
deriving Repr, Inhabited

namespace Predicate

mutual

/-- A value as a condition shows it: texts in quotes, lists in parentheses. -/
def operandText : Value → String
  | .list items => "(" ++ String.intercalate ", " (operandTexts items) ++ ")"
  | .tuple items => "(" ++ String.intercalate ", " (operandTexts items) ++ ")"
  | .text s => Text.quoted s
  | v => v.display

/-- The items of a list as a condition shows them. -/
def operandTexts : List Value → List String
  | [] => []
  | v :: rest => operandText v :: operandTexts rest

end

/-- A comparison in words. -/
def comparisonText (column : String) (op : Operator) (value : Value) : String :=
  if op.asksForNull then column ++ " " ++ op.symbol
  else column ++ " " ++ op.symbol ++ " " ++ operandText value

mutual

/-- A condition in words; nested groups stand in parentheses. -/
def textAt (nested : Bool) : Predicate → String
  | compare column op value => comparisonText column op value
  | all items => grouped nested (String.intercalate " AND " (itemTexts items))
  | any items => grouped nested (String.intercalate " OR " (itemTexts items))
where
  /-- Parentheses around a nested group. -/
  grouped (nested : Bool) (s : String) : String := if nested then "(" ++ s ++ ")" else s

/-- The parts of a group in words. -/
def itemTexts : List Predicate → List String
  | [] => []
  | p :: rest => textAt true p :: itemTexts rest

end

/-- A condition in words. -/
def text (p : Predicate) : String := textAt false p

/-- The conditions that are there, joined by "and". -/
def conjoin (parts : List (Option Predicate)) : Option Predicate :=
  match parts.filterMap id with
  | [] => none
  | [p] => some p
  | ps => some (all ps)

/-- The conditions that are there, joined by "or". -/
def disjoin (parts : List (Option Predicate)) : Option Predicate :=
  match parts.filterMap id with
  | [] => none
  | [p] => some p
  | ps => some (any ps)

end Predicate

/-- The name under which a level lists its branches. -/
def branchKey : String := "OR"

/-- The filter of one column: the operators of the level by name, and its branches. What is written
may also have no such shape, which shows only when the filter is compiled. -/
inductive ColumnFilter
  | level (branches : List ColumnFilter) (operators : Members Value)
  | misshapen (reason : Mishap)
deriving Repr, Inhabited

/-- The entry of a level for one column. An entry is present unless it is null, and its filter is
there when it is not empty. -/
structure ColumnEntry where
  column : String
  present : Bool
  filter : Option ColumnFilter
deriving Repr, Inhabited

/-- The filter of a table: the entries of the level, and its branches. What is written may also have
no such shape, which shows only when the filter is compiled. -/
inductive TableFilter
  | level (branches : List TableFilter) (entries : List ColumnEntry)
  | misshapen (reason : Mishap)
deriving Repr, Inhabited

/-- Why a value that is no object holds no filter. -/
def noFilter (v : Value) : Mishap := .attributeMissing v.fullKindName "get"

namespace ColumnFilter

mutual

/-- The column filter that an object writes. -/
def ofMembers (ms : List (String × Value)) : ColumnFilter :=
  level (branchesOf ms) (ms.filter fun kv => kv.1 ≠ branchKey)

/-- The branches among the members of a level. -/
def branchesOf : List (String × Value) → List ColumnFilter
  | [] => []
  | (key, value) :: rest => if key = branchKey then ofBranches value else branchesOf rest

/-- The branches that a value lists. -/
def ofBranches : Value → List ColumnFilter
  | .list items => ofItems items
  | .tuple items => ofItems items
  | v =>
    if !v.truthy then []
    else match Shape.parts? v with
      | some parts => parts.map fun p => misshapen (noFilter p)
      | none => [misshapen (Shape.noParts v)]

/-- The filters that items write. -/
def ofItems : List Value → List ColumnFilter
  | [] => []
  | v :: rest => ofItem v :: ofItems rest

/-- The filter that an item writes. -/
def ofItem : Value → ColumnFilter
  | .object ms => ofMembers ms
  | v => misshapen (noFilter v)

end

/-- The column filter that a value writes. -/
def ofValue (v : Value) : ColumnFilter := ofItem v

end ColumnFilter

namespace TableFilter

/-- The entry that a member of a level writes. -/
def entryOf (kv : String × Value) : ColumnEntry :=
  ⟨kv.1, !kv.2.isNull, if kv.2.truthy then some (ColumnFilter.ofValue kv.2) else none⟩

/-- The filter that a value other than an object writes: none when it is empty. -/
def ofOther (v : Value) : TableFilter :=
  if v.truthy then misshapen (noFilter v) else level [] []

mutual

/-- The table filter that an object writes. -/
def ofMembers (ms : List (String × Value)) : TableFilter :=
  level (branchesOf ms) ((ms.filter fun kv => kv.1 ≠ branchKey).map entryOf)

/-- The branches among the members of a level. -/
def branchesOf : List (String × Value) → List TableFilter
  | [] => []
  | (key, value) :: rest => if key = branchKey then ofBranches value else branchesOf rest

/-- The branches that a value lists. -/
def ofBranches : Value → List TableFilter
  | .list items => ofItems items
  | .tuple items => ofItems items
  | v =>
    if !v.truthy then []
    else match Shape.parts? v with
      | some parts => parts.map ofOther
      | none => [misshapen (Shape.noParts v)]

/-- The filters that items write. -/
def ofItems : List Value → List TableFilter
  | [] => []
  | v :: rest => ofItem v :: ofItems rest

/-- The filter that an item writes. -/
def ofItem : Value → TableFilter
  | .object ms => ofMembers ms
  | v => ofOther v

end

/-- The table filter that a value writes. -/
def ofValue (v : Value) : TableFilter := ofItem v

end TableFilter

/-- Whether the operand of an operator counts as given. -/
def isGiven : Value → Bool
  | .null => false
  | .bool false => false
  | _ => true

/-- Reads an operand for a column. -/
def readOperand (t : Table) (c : Column) (op : Operator) (v : Value) : Attempt Value :=
  match Conversion.readValue c v with
  | .ok v => .ok v
  | .error m =>
    if m.isAboutInput then Attempt.fault (.operandInvalid t.name c.name op.name m.reason)
    else Attempt.mishap m

/-- The comparison that a given operand asks for. -/
def comparison (t : Table) (c : Column) (op : Operator) (v : Value) : Attempt Predicate :=
  if op.asksForNull then .ok (.compare c.name op .null)
  else if op.takesList then
    match v.items?.getD [v] with
    | [] => Attempt.fault (.operandsEmpty t.name c.name op.name)
    | items => do
      let items ← items.mapM (readOperand t c op)
      return .compare c.name op (.tuple items)
  else if op.takesPattern then .ok (.compare c.name op (.text v.display))
  else do return .compare c.name op (← readOperand t c op v)

/-- The comparison of one operator entry, if its operand is given. -/
def operatorEntry (t : Table) (c : Column) (entry : String × Value) : Attempt (Option Predicate) :=
  if !isGiven entry.2 then .ok none
  else match Operator.ofName? entry.1 with
    | none => Attempt.fault (.operatorUnknown t.name c.name entry.1)
    | some op => some <$> comparison t c op entry.2

mutual

/-- Compiles the filter of a column. -/
def compileColumn (t : Table) (c : Column) : ColumnFilter → Attempt (Option Predicate)
  | .misshapen reason => Attempt.mishap reason
  | .level [] operators => do
    let parts ← operators.mapM (operatorEntry t c)
    return Predicate.conjoin parts
  | .level (first :: rest) operators =>
    if operators.any fun kv => !kv.2.isNull then
      Attempt.fault (.columnBranchesBesideOperators t.name c.name)
    else do
      let first ← compileColumn t c first
      let rest ← compileColumns t c rest
      return Predicate.disjoin (first :: rest)

/-- Compiles the branches of a column. -/
def compileColumns (t : Table) (c : Column) : List ColumnFilter → Attempt (List (Option Predicate))
  | [] => .ok []
  | f :: rest => do
    let f ← compileColumn t c f
    let rest ← compileColumns t c rest
    return f :: rest

end

/-- Compiles the entry of a level for one column; unknown columns are passed over. -/
def compileEntry (t : Table) (entry : ColumnEntry) : Attempt (Option Predicate) :=
  match entry.filter, t.column? entry.column with
  | some f, some c => compileColumn t c f
  | _, _ => .ok none

mutual

/-- Compiles the filter of a table. -/
def compileFilter (t : Table) : TableFilter → Attempt (Option Predicate)
  | .misshapen reason => Attempt.mishap reason
  | .level [] entries => do
    let parts ← entries.mapM (compileEntry t)
    return Predicate.conjoin parts
  | .level (first :: rest) entries =>
    if entries.any (·.present) then Attempt.fault (.tableBranchesBesideFields t.name)
    else do
      let first ← compileFilter t first
      let rest ← compileFilters t rest
      return Predicate.disjoin (first :: rest)

/-- Compiles the branches of a table. -/
def compileFilters (t : Table) : List TableFilter → Attempt (List (Option Predicate))
  | [] => .ok []
  | f :: rest => do
    let f ← compileFilter t f
    let rest ← compileFilters t rest
    return f :: rest

end

/-- Compiles what a caller writes under `where`. -/
def compileWhere (t : Table) (v : Value) : Attempt (Option Predicate) :=
  compileFilter t (TableFilter.ofValue v)

end RelGraph
