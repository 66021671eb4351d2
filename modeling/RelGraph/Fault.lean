import RelGraph.Text.Quoted
/-!
What can go wrong. A `Fault` is a cause that the library knows: it has a kind, a message, and the
table, column and operator it concerns. A `Mishap` is a failure below the library, such as a text
that is no number. `Failure` joins the two with errors that are raised as plain request errors.
-/
namespace RelGraph

/-- The kinds of faults. -/
inductive FaultKind
  | general
  | schemaBuild
  | argument
  | storage
  | exportTimeout
deriving DecidableEq, Repr

/-- The code under which clients see a kind of fault. -/
def FaultKind.code : FaultKind → String
  | general => "TABLEQL_ERROR"
  | schemaBuild => "SCHEMA_BUILD_ERROR"
  | argument => "ARGUMENT_VALIDATION_ERROR"
  | storage => "STORAGE_ERROR"
  | exportTimeout => "EXPORT_TIMEOUT"

/-- What a write does, as its messages say it. -/
inductive WriteAction
  | insert
  | update
deriving DecidableEq, Repr

/-- The word for a write. -/
def WriteAction.word : WriteAction → String
  | insert => "INSERT"
  | update => "UPDATE"

/-- The table, column and operator that a fault concerns. -/
structure FaultContext where
  table : Option String := none
  column : Option String := none
  operator : Option String := none
deriving DecidableEq, Repr, Inhabited

/-- The causes. -/
inductive Fault
  | depthLimitInvalid (shown : String)
  | depthSettingMalformed (setting : String)
  | mutationsSettingMalformed (setting : String)
  | relationTargetMissing (owner shown : String)
  | relationColumnsUnknown (owner relation field target reference : String)
  | relationNameTaken (owner relation : String)
  | joinUnresolved (owner relation target : String)
  | typeNameReserved (table typeName : String)
  | typeNameShared (first second typeName : String)
  | tableWithoutColumns (table : String)
  | relationTargetUnknown (table relation target : String)
  | primaryKeysMissing (first : String) (others : List String)
  | tableBranchesBesideFields (table : String)
  | columnBranchesBesideOperators (table column : String)
  | operatorUnknown (table column operator : String)
  | operandsEmpty (table column operator : String)
  | operandInvalid (table column operator reason : String)
  | directionUnknown (table column shown : String)
  | paginationInvalid (table argument shown : String)
  | nothingToWrite (table : String) (action : WriteAction)
  | payloadColumnUnknown (table : String) (action : WriteAction) (column : String)
  | payloadInvalid (table : String) (action : WriteAction) (column reason : String)
  | selectionConflict (key field : String)
  | sessionMissing
  | statementFailed (table reason : String)
  | exportMissing (name : String)
  | exportsUnresolved (typeName field reason : String)
  | raised (kind : FaultKind) (message : String) (context : FaultContext)
deriving DecidableEq, Repr

namespace Fault

/-- The kind of a cause. -/
def kind : Fault → FaultKind
  | depthLimitInvalid _ | depthSettingMalformed _ | mutationsSettingMalformed _
  | relationTargetMissing .. | relationColumnsUnknown .. | relationNameTaken .. | joinUnresolved ..
  | typeNameReserved .. | typeNameShared .. | tableWithoutColumns _ | relationTargetUnknown ..
  | primaryKeysMissing .. => .schemaBuild
  | tableBranchesBesideFields _ | columnBranchesBesideOperators .. | operatorUnknown ..
  | operandsEmpty .. | operandInvalid .. | directionUnknown .. | paginationInvalid ..
  | nothingToWrite .. | payloadColumnUnknown .. | payloadInvalid .. | selectionConflict .. =>
    .argument
  | sessionMissing | statementFailed .. => .storage
  | exportMissing _ | exportsUnresolved .. => .exportTimeout
  | raised kind _ _ => kind

/-- The message of a cause. -/
def message : Fault → String
  | depthLimitInvalid shown => s!"max_depth must be a positive integer, got {shown}"
  | depthSettingMalformed setting =>
    "TABLEQL_MAX_DEPTH must be an integer, got " ++ Text.quoted setting
  | mutationsSettingMalformed setting =>
    "TABLEQL_MUTATIONS must be a boolean flag, got " ++ Text.quoted setting
  | relationTargetMissing owner shown =>
    s!"Relation on '{owner}' targets {shown}, which is not part of the schema"
  | relationColumnsUnknown owner relation field target reference =>
    s!"Relation {owner}.{relation} pairs unknown columns ({field} -> {target}.{reference})"
  | relationNameTaken owner relation =>
    s!"Relation {owner}.{relation} clashes with a column of the same name"
  | joinUnresolved owner relation target =>
    s!"Relation {owner}.{relation}: cannot infer join columns to '{target}'; pass fields/references"
  | typeNameReserved table typeName => s!"Table '{table}' maps to reserved type name {typeName}"
  | typeNameShared first second typeName =>
    s!"Tables '{first}' and '{second}' both map to type {typeName}"
  | tableWithoutColumns table => s!"Table '{table}' has no columns"
  | relationTargetUnknown table relation target =>
    s!"Relation {table}.{relation} targets unknown table '{target}'"
  | primaryKeysMissing first others =>
    "Tables without a single primary key column cannot have mutations: " ++
      String.intercalate ", " (first :: others)
  | tableBranchesBesideFields table =>
    s!"WHERE {table}: Cannot specify both fields and 'OR' in table filters!"
  | columnBranchesBesideOperators _ column =>
    s!"WHERE {column}: Cannot specify both fields and 'OR' in column operators!"
  | operatorUnknown _ column operator => s!"WHERE {column}: Unknown operator '{operator}'"
  | operandsEmpty _ column operator =>
    s!"WHERE {column}: Unable to use operator {operator} with an empty array!"
  | operandInvalid _ column operator reason =>
    s!"WHERE {column}: Invalid value for operator {operator}: {reason}"
  | directionUnknown table column shown =>
    s!"ORDER BY {table}.{column}: Unknown direction '{shown}'"
  | paginationInvalid table argument shown =>
    s!"{argument} on {table} must be a non-negative integer, got {shown}"
  | nothingToWrite _ .insert => "No values provided for insert"
  | nothingToWrite _ .update => "No values provided for update"
  | payloadColumnUnknown table action column =>
    action.word ++ s!" {table}: unknown column '{column}'"
  | payloadInvalid table action column reason =>
    action.word ++ s!" {table}: invalid value for '{column}': {reason}"
  | selectionConflict key _ =>
    s!"Field '{key}' is requested more than once with different arguments"
  | sessionMissing =>
    "No database session in context (expected one of db_session, db, session, async_session)"
  | statementFailed _ reason => reason
  | exportMissing name => s!"Timeout waiting for export variable \"{name}\""
  | exportsUnresolved typeName field reason =>
    s!"Failed to resolve export variables in {typeName}.{field}: {reason}"
  | raised _ message _ => message

/-- The table, column and operator of a cause. -/
def context : Fault → FaultContext
  | relationTargetMissing owner _ => ⟨some owner, none, none⟩
  | relationColumnsUnknown owner .. => ⟨some owner, none, none⟩
  | relationNameTaken owner _ => ⟨some owner, none, none⟩
  | joinUnresolved owner .. => ⟨some owner, none, none⟩
  | typeNameReserved table _ => ⟨some table, none, none⟩
  | typeNameShared _ second _ => ⟨some second, none, none⟩
  | tableWithoutColumns table => ⟨some table, none, none⟩
  | relationTargetUnknown table .. => ⟨some table, none, none⟩
  | primaryKeysMissing first _ => ⟨some first, none, none⟩
  | tableBranchesBesideFields table => ⟨some table, none, none⟩
  | columnBranchesBesideOperators table column => ⟨some table, some column, none⟩
  | operatorUnknown table column operator => ⟨some table, some column, some operator⟩
  | operandsEmpty table column operator => ⟨some table, some column, some operator⟩
  | operandInvalid table column operator _ => ⟨some table, some column, some operator⟩
  | directionUnknown table column _ => ⟨some table, some column, none⟩
  | paginationInvalid table .. => ⟨some table, none, none⟩
  | nothingToWrite table _ => ⟨some table, none, none⟩
  | payloadColumnUnknown table _ column => ⟨some table, some column, none⟩
  | payloadInvalid table _ column _ => ⟨some table, some column, none⟩
  | selectionConflict _ field => ⟨none, some field, none⟩
  | statementFailed table _ => ⟨some table, none, none⟩
  | raised _ _ context => context
  | _ => {}

/-- What clients see beside the message: the code, then what the fault concerns. -/
def extensions (f : Fault) : List (String × String) :=
  ("code", f.kind.code) :: (f.context.table.map ("table", ·)).toList ++
    (f.context.column.map ("column", ·)).toList ++
    (f.context.operator.map ("operator", ·)).toList

end Fault

/-- What can be wrong with declarations: a class whose table has no key, a number asked of a column
that cannot have one or of two columns, names and columns that are declared twice or not at all,
foreign keys that lead nowhere, and relationships without a way to join their tables, with several
ways, without a direction, or with an inverse that does not fit. -/
inductive Misdeclaration
  | keyMissing
  | numberingUnsuited
  | numberingTwice
  | valueGivenTwice
  | keyColumnsUneven
  | keyColumnUnknown
  | tableTwice
  | columnTwice
  | referencedTableMissing
  | referencedColumnMissing
  | columnShadowed
  | classUnknown
  | joinMissing
  | joinAmbiguous
  | directionUnknown
  | inverseUnknown
  | inverseUnfit
deriving DecidableEq, Repr

/-- A failure below the library, with its reason in words. -/
inductive Mishap
  | badValue (reason : String)
  | badKind (reason : String)
  | tooLarge (reason : String)
  | positionMissing (kind : String)
  | keyMissing (key : String)
  | attributeMissing (kind name : String)
  | jsonMalformed (reason : String)
  | textUndecodable
  | literalComparison
  | statementMalformed (reason : String)
  | misdeclared (m : Misdeclaration)
  | refusedByStore (reason : String)
  | memoryExhausted
  | unsupported (reason : String)
  | cancelled
deriving DecidableEq, Repr

/-- The reason of a mishap in words. -/
def Mishap.reason : Mishap → String
  | badValue reason | badKind reason | tooLarge reason | unsupported reason | jsonMalformed reason
  | statementMalformed reason | refusedByStore reason => reason
  | positionMissing kind => s!"{kind} index out of range"
  | keyMissing key => Text.quoted key
  | attributeMissing kind name => s!"'{kind}' object has no attribute '{name}'"
  | textUndecodable => "invalid start byte"
  | literalComparison =>
    "Only '=', '!=', 'is_()', 'is_not()', 'is_distinct_from()', " ++
      "'is_not_distinct_from()' operators can be used with None/True/False"
  | misdeclared _ | memoryExhausted | cancelled => ""

/-- Whether a mishap is about a value or its kind, which callers report as invalid input. -/
def Mishap.isAboutInput : Mishap → Bool
  | badValue _ | badKind _ | jsonMalformed _ | textUndecodable => true
  | _ => false

/-- Anything that can go wrong. -/
inductive Failure
  | fault (f : Fault)
  | mishap (m : Mishap)
  | request (message : String)
deriving DecidableEq, Repr

namespace Failure

/-- The message of a failure. -/
def message : Failure → String
  | fault f => f.message
  | mishap m => m.reason
  | request message => message

end Failure

/-- A computation that can fail. -/
abbrev Attempt (α : Type) := Except Failure α

/-- Fails with a fault. -/
def Attempt.fault {α : Type} (f : Fault) : Attempt α := .error (.fault f)

/-- Fails with a mishap. -/
def Attempt.mishap {α : Type} (m : Mishap) : Attempt α := .error (.mishap m)

end RelGraph
