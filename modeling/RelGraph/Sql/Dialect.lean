import RelGraph.Text.LowerCase
import RelGraph.Fault
/-!
The two SQL dialects: how they are found by name, which words they reserve, and when a name has to
be quoted.
-/
namespace RelGraph.Sql

/-- A dialect. -/
inductive Dialect
  | sqlite
  | postgres
deriving DecidableEq, Repr, Inhabited

namespace Dialect

/-- The short name of a dialect. -/
def name : Dialect → String
  | sqlite => "sqlite"
  | postgres => "postgres"

/-- The dialect whose short name a driver's name starts with, in any case. -/
def find? (driver : String) : Option Dialect :=
  let lowered := (Text.lower driver).toList
  if "postgres".toList.isPrefixOf lowered then some postgres
  else if "sqlite".toList.isPrefixOf lowered then some sqlite
  else none

/-- The dialect of a driver that may be unknown. -/
def find (driver : Option String) : Attempt Dialect :=
  match (driver.bind find?) with
  | some d => .ok d
  | none =>
    Attempt.mishap (.unsupported ("No JSON adapter for dialect '" ++ driver.getD "None" ++ "'"))

/-- The words that SQLite reserves. -/
def sqliteWords : List String := ["add", "after", "all", "alter", "analyze", "and", "as", "asc",
  "attach", "autoincrement", "before", "begin", "between", "by", "cascade", "case", "cast", "check",
  "collate", "column", "commit", "conflict", "constraint", "create", "cross", "current_date",
  "current_time", "current_timestamp", "database", "default", "deferrable", "deferred", "delete",
  "desc", "detach", "distinct", "drop", "each", "else", "end", "escape", "except", "exclusive",
  "exists", "explain", "false", "fail", "for", "foreign", "from", "full", "glob", "group", "having",
  "if", "ignore", "immediate", "in", "index", "indexed", "initially", "inner", "insert", "instead",
  "intersect", "into", "is", "isnull", "join", "key", "left", "like", "limit", "match", "natural",
  "not", "notnull", "null", "of", "offset", "on", "or", "order", "outer", "plan", "pragma",
  "primary", "query", "raise", "references", "reindex", "rename", "replace", "restrict", "right",
  "rollback", "row", "select", "set", "table", "temp", "temporary", "then", "to", "transaction",
  "trigger", "true", "union", "unique", "update", "using", "vacuum", "values", "view", "virtual",
  "when", "where"]

/-- The words that PostgreSQL reserves. -/
def postgresWords : List String := ["all", "analyse", "analyze", "and", "any", "array", "as", "asc",
  "asymmetric", "both", "case", "cast", "check", "collate", "column", "constraint", "create",
  "current_catalog", "current_date", "current_role", "current_time", "current_timestamp",
  "current_user", "default", "deferrable", "desc", "distinct", "do", "else", "end", "except",
  "false", "fetch", "for", "foreign", "from", "grant", "group", "having", "in", "initially",
  "intersect", "into", "leading", "limit", "localtime", "localtimestamp", "new", "not", "null",
  "of", "off", "offset", "old", "on", "only", "or", "order", "placing", "primary", "references",
  "returning", "select", "session_user", "some", "symmetric", "table", "then", "to", "trailing",
  "true", "union", "unique", "user", "using", "variadic", "when", "where", "window", "with",
  "authorization", "between", "binary", "cross", "current_schema", "freeze", "full", "ilike",
  "inner", "is", "isnull", "join", "left", "like", "natural", "notnull", "outer", "over",
  "overlaps", "right", "similar", "verbose"]

/-- The words that a dialect reserves. -/
def reservedWords : Dialect → List String
  | sqlite => sqliteWords
  | postgres => postgresWords

/-- Whether a character may stand in a name without quotes. The four letters beyond the plain ones
fold to plain letters. -/
def isPlainNameChar (c : Char) : Bool :=
  c.isAlphanum || c = '_' || c = '$' || [0x130, 0x131, 0x17f, 0x212a].contains c.toNat

/-- Whether characters may stand in a name without quotes. One line break after them is let
through. -/
def arePlain (cs : List Char) : Bool :=
  match cs.dropWhile isPlainNameChar with
  | [] => true
  | tail => tail == ['\n'] && cs.length > 1

/-- Whether a name has to be quoted: a reserved word, a digit or dollar in front, a character that
is not plain, or a capital letter. -/
def needsQuotes (d : Dialect) (name : String) : Bool :=
  let lowered := Text.lower name
  match name.toList with
  | [] => true
  | first :: rest =>
    d.reservedWords.contains lowered || first.isDigit || first = '$' ||
      !arePlain (first :: rest) || lowered != name

/-- A name as the dialect writes it. -/
def quote (d : Dialect) (name : String) : String :=
  if d.needsQuotes name then
    String.ofList
      ('"' :: name.toList.flatMap (fun c => if c = '"' then ['"', '"'] else [c]) ++ ['"'])
  else name

end Dialect

/-- The JSON building blocks that relations need. -/
inductive JsonBlock
  | object
  | arrayOfRows
  | emptyForNone
  | nested
deriving DecidableEq, Repr

/-- A building block where no dialect says how it is written: only embedding a nested value needs
nothing. -/
def JsonBlock.plain {α : Type} (b : JsonBlock) (inner : α) : Attempt α :=
  match b with
  | .nested => .ok inner
  | _ => Attempt.mishap (.unsupported "")

end RelGraph.Sql
