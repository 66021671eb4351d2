import RelGraph.Graphql.Document
import RelGraph.Text.Quoted
/-!
The written form of literals, with one blank after each comma and colon and inside the braces of an
object.
-/
namespace RelGraph.Graphql

namespace Literal

/-- A character inside a written text. -/
def escaped (c : Char) : List Char :=
  match c with
  | '"' => ['\\', '"']
  | '\\' => ['\\', '\\']
  | '\x08' => ['\\', 'b']
  | '\t' => ['\\', 't']
  | '\n' => ['\\', 'n']
  | '\x0c' => ['\\', 'f']
  | '\r' => ['\\', 'r']
  | c =>
    if c.toNat < 0x20 || 0x7F ≤ c.toNat && c.toNat < 0xA0 then
      '\\' :: 'u' :: (Text.hexText 4 c.toNat).map Char.toUpper
    else [c]

/-- A text in quotes. -/
def quoted (s : String) : String := "\"" ++ String.ofList (s.toList.flatMap escaped) ++ "\""

mutual

/-- The written form. -/
def written : Literal → String
  | .null => "null"
  | .bool b => if b then "true" else "false"
  | .int digits => digits
  | .float digits => digits
  | .text s => quoted s
  | .name s => s
  | .variable v => "$" ++ v
  | .list items => "[" ++ String.intercalate ", " (writtenItems items) ++ "]"
  | .object [] => "\x7b\x7d"
  | .object members => "\x7b " ++ String.intercalate ", " (writtenMembers members) ++ " \x7d"

/-- The written forms of items. -/
def writtenItems : List Literal → List String
  | [] => []
  | l :: rest => l.written :: writtenItems rest

/-- The written forms of members. -/
def writtenMembers : List (String × Literal) → List String
  | [] => []
  | (key, l) :: rest => (key ++ ": " ++ l.written) :: writtenMembers rest

end

end Literal
end RelGraph.Graphql
