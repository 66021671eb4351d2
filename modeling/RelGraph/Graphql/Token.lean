import RelGraph.Naming
import RelGraph.Value.Json
/-!
The tokens of GraphQL text. Commas, blanks and comments separate tokens and mean nothing. A block
text keeps its raw content, in which only a triple quote can be escaped; its value is found by
`blockValue`, which removes the indentation that its lines share and the blank lines at its ends.
Where a text stops being made of tokens, its last token says why.
-/
namespace RelGraph.Graphql

/-- A token. -/
inductive Token
  | mark (c : Char)
  | spread
  | name (s : String)
  | int (digits : String)
  | float (digits : String)
  | text (s : String)
  | block (raw : List Char)
  | unreadable (reason : String)
deriving DecidableEq, Repr, Inhabited

namespace Token

/-- The characters that are tokens by themselves. -/
def marks : List Char := ['!', '$', '&', '(', ')', ':', '=', '@', '[', ']', '\x7b', '|', '\x7d']

/-- Whether a character between tokens means nothing. -/
def isSeparator (c : Char) : Bool :=
  c = ' ' || c = '\t' || c = '\n' || c = '\r' || c = ',' || c.toNat = 0xFEFF

/-- Whether a character ends a line. -/
def isLineEnd (c : Char) : Bool := c = '\n' || c = '\r'

/-- Skips what stands between tokens. -/
def skipSeparators : Nat → List Char → List Char
  | 0, cs => cs
  | fuel + 1, cs =>
    match cs with
    | '#' :: rest => skipSeparators fuel (rest.dropWhile (!isLineEnd ·))
    | c :: rest => if isSeparator c then skipSeparators fuel rest else c :: rest
    | [] => []

/-- What comes first in a text, as messages show it: a printable character in quotes, any other by
its code point. -/
def shownFirst : List Char → String
  | [] => "<EOF>"
  | c :: _ =>
    if 0x20 ≤ c.toNat && c.toNat ≤ 0x7E then "'" ++ String.singleton c ++ "'"
    else
      let digits := (Nat.toDigits 16 c.toNat).map Char.toUpper
      "U+" ++ String.ofList (List.replicate (4 - digits.length) '0' ++ digits)

/-! ## Texts -/

/-- Why a text is not read that has no end. -/
def unterminated : String := "Unterminated string."

/-- The raw content of a block text after its opening quotes, and what follows it. -/
def readBlock : List Char → Option (List Char × List Char)
  | '\\' :: '"' :: '"' :: '"' :: rest =>
    (readBlock rest).map fun r => ('\\' :: '"' :: '"' :: '"' :: r.1, r.2)
  | '"' :: '"' :: '"' :: rest => some ([], rest)
  | c :: rest => (readBlock rest).map fun r => (c :: r.1, r.2)
  | [] => none

/-- Whether a number is the code point of a character. -/
def isCodePoint (n : Nat) : Bool := n < 0xD800 || 0xE000 ≤ n && n < 0x110000

/-- Refuses an escape, which messages show as it is written. -/
def refuseEscape {α : Type} (kind : String) (written : List Char) : Except String α :=
  .error ("Invalid " ++ kind ++ " escape sequence: '" ++ String.ofList written ++ "'.")

/-- The character of an escape in braces, of which a number of characters have been passed, and what
follows it. An escape has at most twelve characters, and at least one digit. -/
def readCodePoint (written : List Char) (passed point : Nat) :
    List Char → Except String (Char × List Char)
  | [] => refuseEscape "Unicode" written
  | c :: rest =>
    if 12 ≤ passed then refuseEscape "Unicode" (written.take passed)
    else if c = '\x7d' then
      if 4 ≤ passed && isCodePoint point then .ok (Char.ofNat point, rest)
      else refuseEscape "Unicode" (written.take (passed + 1))
    else match Text.hexValue? c with
      | some d => readCodePoint written (passed + 1) (point * 16 + d) rest
      | none => refuseEscape "Unicode" (written.take (passed + 1))

/-- The character of an escape of four digits, or of two such escapes that join into one, and what
follows it. -/
def readUnit (cs : List Char) : Except String (Char × List Char) :=
  let refused := refuseEscape "Unicode" (cs.take 6)
  match cs with
  | '\\' :: 'u' :: a :: b :: c :: d :: rest =>
    match Json.unit? a b c d with
    | none => refused
    | some high =>
      if isCodePoint high then .ok (Char.ofNat high, rest)
      else match rest with
        | '\\' :: 'u' :: e :: f :: g :: h :: rest =>
          match Json.unit? e f g h with
          | none => refused
          | some low =>
            if high < 0xDC00 && 0xDC00 ≤ low && low < 0xE000 then
              .ok (Json.joinHalves high low, rest)
            else refused
        | _ => refused
  | _ => refused

/-- The character of an escape with its backslash in front, and what follows it. -/
def readEscape (cs : List Char) : Except String (Char × List Char) :=
  match cs with
  | '\\' :: 'u' :: '\x7b' :: rest => readCodePoint cs 3 0 rest
  | '\\' :: 'u' :: _ => readUnit cs
  | '\\' :: c :: rest =>
    match Json.simpleEscape? c with
    | some e => .ok (e, rest)
    | none => refuseEscape "character" ['\\', c]
  | _ => .error unterminated

/-- The content of a text after its opening quote, and what follows it. -/
def readQuoted : Nat → List Char → Except String (List Char × List Char)
  | 0, _ => .error unterminated
  | fuel + 1, cs =>
    match cs with
    | '"' :: rest => .ok ([], rest)
    | '\\' :: _ => do
      let (c, rest) ← readEscape cs
      let (more, rest) ← readQuoted fuel rest
      return (c :: more, rest)
    | c :: rest =>
      if isLineEnd c then .error unterminated
      else do
        let (more, rest) ← readQuoted fuel rest
        return (c :: more, rest)
    | [] => .error unterminated

/-! ## Numbers -/

/-- Refuses a number for what comes in place of a digit. -/
def expectDigit {α : Type} (found : List Char) : Except String α :=
  .error ("Invalid number, expected digit but got: " ++ shownFirst found ++ ".")

/-- A run of digits, at least one, with what follows it. -/
def digits (cs : List Char) : Except String (List Char × List Char) :=
  match cs.span Char.isDigit with
  | ([], rest) => expectDigit rest
  | found => .ok found

/-- The whole part of a number, which has no needless zero in front, and what follows it. -/
def wholePart (cs : List Char) : Except String (List Char × List Char) :=
  match cs with
  | '0' :: rest =>
    if (rest.head?.map Char.isDigit).getD false then
      .error ("Invalid number, unexpected digit after 0: " ++ shownFirst rest ++ ".")
    else .ok (['0'], rest)
  | cs => digits cs

/-- The fraction in front of a text, with its point, and what follows it. -/
def fraction : List Char → Except String (List Char × List Char)
  | '.' :: rest => do
    let (ds, rest) ← digits rest
    return ('.' :: ds, rest)
  | cs => .ok ([], cs)

/-- The sign in front of a text, of those that may stand there, and what follows it. -/
def sign (signs : List Char) : List Char → List Char × List Char
  | c :: rest => if signs.contains c then ([c], rest) else ([], c :: rest)
  | [] => ([], [])

/-- The power of ten in front of a text, with its mark, and what follows it. -/
def power : List Char → Except String (List Char × List Char)
  | e :: rest => do
    if e = 'e' || e = 'E' then
      let (s, rest) := sign ['+', '-'] rest
      let (ds, rest) ← digits rest
      return (e :: s ++ ds, rest)
    else return ([], e :: rest)
  | [] => .ok ([], [])

/-- The number in front of a text, and what follows it, which is no point and no name. -/
def readNumber (cs : List Char) : Except String (Token × List Char) := do
  let (minus, rest) := sign ['-'] cs
  let (whole, rest) ← wholePart rest
  let (part, rest) ← fraction rest
  let (exponent, rest) ← power rest
  let all := String.ofList (minus ++ whole ++ part ++ exponent)
  if (rest.head?.map fun c => c = '.' || Naming.isNameStart c).getD false then expectDigit rest
  else if part.isEmpty && exponent.isEmpty then return (.int all, rest)
  else return (.float all, rest)

/-! ## Tokens -/

/-- Why a character begins no token. -/
def misplaced (cs : List Char) : String :=
  if cs.head? = some '\'' then
    "Unexpected single quote character ('), did you mean to use a double quote (\")?"
  else "Unexpected character: " ++ shownFirst cs ++ "."

/-- The token in front of a text that starts with no separator, and what follows it. -/
def read (cs : List Char) : Except String (Token × List Char) :=
  match cs with
  | '"' :: '"' :: '"' :: rest =>
    match readBlock rest with
    | some (raw, rest) => .ok (.block raw, rest)
    | none => .error unterminated
  | '"' :: rest => do
    let (content, rest) ← readQuoted (rest.length + 1) rest
    return (.text (String.ofList content), rest)
  | '.' :: '.' :: '.' :: rest => .ok (.spread, rest)
  | c :: rest =>
    if marks.contains c then .ok (.mark c, rest)
    else if c = '-' || c.isDigit then readNumber cs
    else if Naming.isNameStart c then
      let (more, rest) := rest.span Naming.isNameChar
      .ok (.name (String.ofList (c :: more)), rest)
    else .error (misplaced cs)
  | [] => .error (misplaced [])

/-- The tokens of a text, as far as the fuel lasts. -/
def readAll : Nat → List Char → List Token
  | 0, _ => []
  | fuel + 1, cs =>
    match skipSeparators cs.length cs with
    | [] => []
    | cs =>
      match read cs with
      | .ok (t, rest) => t :: readAll fuel rest
      | .error reason => [.unreadable reason]

/-- The tokens of a text; where some of it is no token, the last one says so. -/
def ofText (s : String) : List Token := readAll (s.toList.length + 1) s.toList

/-! ## Block texts -/

/-- The content of a block text with every escaped triple quote turned back. -/
def unescapeBlock : List Char → List Char
  | '\\' :: '"' :: '"' :: '"' :: rest => '"' :: '"' :: '"' :: unescapeBlock rest
  | c :: rest => c :: unescapeBlock rest
  | [] => []

/-- The lines of a text; a carriage return with a line feed ends one line. -/
def lines : List Char → List (List Char)
  | [] => [[]]
  | '\r' :: '\n' :: rest => [] :: lines rest
  | c :: rest =>
    if isLineEnd c then [] :: lines rest
    else match lines rest with
      | first :: others => (c :: first) :: others
      | [] => [[c]]

/-- Whether a character indents a line. -/
def isIndent (c : Char) : Bool := c = ' ' || c = '\t'

/-- Whether a line holds nothing but indentation. -/
def isBlankLine (line : List Char) : Bool := line.all isIndent

/-- The least indentation of the lines that are not blank. -/
def sharedIndent (ls : List (List Char)) : Nat :=
  (((ls.filter (!isBlankLine ·)).map fun l => (l.takeWhile isIndent).length).min?).getD 0

/-- Lines without the indentation that all but the first share, and without blank lines at the
ends. -/
def dedented (ls : List (List Char)) : List (List Char) :=
  let indent := sharedIndent ls.tail
  let cut := match ls with
    | first :: others => first :: others.map (List.drop indent)
    | [] => []
  ((cut.dropWhile isBlankLine).reverse.dropWhile isBlankLine).reverse

/-- The value of a block text. -/
def blockValue (raw : List Char) : String :=
  String.intercalate "\n" ((dedented (lines (unescapeBlock raw))).map String.ofList)

/-- A kind of token with its content, as messages show it; without content the kind alone. -/
def shownAs (kind content : String) : String :=
  if content.isEmpty then kind else kind ++ " '" ++ content ++ "'"

/-- A token as messages show it. -/
def shown : Token → String
  | mark c => "'" ++ String.singleton c ++ "'"
  | spread => "'...'"
  | name s => shownAs "Name" s
  | int digits => shownAs "Int" digits
  | float digits => shownAs "Float" digits
  | text s => shownAs "String" s
  | block raw => shownAs "BlockString" (blockValue raw)
  | unreadable reason => reason

end Token
end RelGraph.Graphql
