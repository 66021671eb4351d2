import RelGraph.Numeral
import RelGraph.Text.Quoted
/-!
The tokens of formulas: words, names between quotes, texts, bytes, numbers and signs. Blanks and
comments separate tokens. Places for parameters are no tokens, since no formula has any.
-/
namespace RelGraph.Store.Formula

/-- A token. A comment that the text ends in is one too: it goes on behind the text. -/
inductive Token
  | word (text : String)
  | quotedName (text : String) (doubleQuoted : Bool)
  | text (s : String)
  | bytes (data : List UInt8)
  | number (text : String)
  | sign (text : String)
  | openComment
deriving DecidableEq, Repr, Inhabited

namespace Token

/-- The text before a closing quote, with what follows it; a doubled quote stands for itself. -/
def readQuoted (close : Char) : List Char → Option (List Char × List Char)
  | [] => none
  | c :: rest =>
    if c = close then
      match rest with
      | d :: more =>
        if d = close then (readQuoted close more).map fun r => (c :: r.1, r.2)
        else some ([], rest)
      | [] => some ([], [])
    else (readQuoted close rest).map fun r => (c :: r.1, r.2)

/-- Whether a character can be part of a word. -/
def isWordChar (c : Char) : Bool := c.isAlphanum || c = '_' || c = '$' || c.toNat ≥ 128

/-- Whether a character can begin a word. -/
def isWordStart (c : Char) : Bool := c.isAlpha || c = '_' || c.toNat ≥ 128

/-- What follows a comment between stars, if it ends. -/
def afterComment : List Char → Option (List Char)
  | '*' :: '/' :: rest => some rest
  | _ :: rest => afterComment rest
  | [] => none

/-- The digits of an exponent with its mark and sign, and what follows them; nothing where there are
no digits. -/
def readExponent (cs : List Char) : List Char × List Char :=
  let split := fun (mark digits : List Char) =>
    if (digits.head?.any Char.isDigit) then
      (mark ++ digits.takeWhile Char.isDigit, digits.dropWhile Char.isDigit)
    else ([], cs)
  match cs with
  | e :: s :: rest =>
    if e = 'e' ∨ e = 'E' then
      if s = '+' ∨ s = '-' then split [e, s] rest else split [e] (s :: rest)
    else ([], cs)
  | _ => ([], cs)

/-- The characters of a number with what follows them. -/
def readNumber (cs : List Char) : List Char × List Char :=
  let decimal :=
    let whole := cs.takeWhile Char.isDigit
    let (fraction, rest) := match cs.dropWhile Char.isDigit with
      | '.' :: rest => ('.' :: rest.takeWhile Char.isDigit, rest.dropWhile Char.isDigit)
      | rest => ([], rest)
    let (exponent, rest) := readExponent rest
    (whole ++ fraction ++ exponent, rest)
  match cs with
  | '0' :: x :: rest =>
    let digits := rest.takeWhile fun c => (Text.hexValue? c).isSome
    if (x = 'x' ∨ x = 'X') ∧ !digits.isEmpty then
      ('0' :: x :: digits, rest.dropWhile fun c => (Text.hexValue? c).isSome)
    else decimal
  | _ => decimal

/-- A number that no word follows without a gap, with what follows it. -/
def number? (cs : List Char) : Option (Token × List Char) :=
  let (digits, rest) := readNumber cs
  if rest.head?.any isWordChar then none else some (.number (String.ofList digits), rest)

/-- The signs, the longer ones first where one begins another. -/
def signs : List String :=
  ["->>", "->", "||", "<<", ">>", "<=", ">=", "<>", "==", "!=", "(", ")", ",", "+", "-", "*", "/",
    "%", "&", "|", "~", "=", "<", ">", "."]

/-- The sign that characters begin with, with what follows it. -/
def sign? (cs : List Char) : Option (Token × List Char) :=
  (signs.find? fun s => s.toList.isPrefixOf cs).map fun s => (.sign s, cs.drop s.length)

/-- A name or a text between quotes, with what follows it. -/
def quoted? (close : Char) (wrap : String → Token) (cs : List Char) :
    Option (Option Token × List Char) :=
  (readQuoted close cs).map fun r => (some (wrap (String.ofList r.1)), r.2)

/-- Bytes between single quotes, with what follows them. -/
def bytes? (cs : List Char) : Option (Option Token × List Char) :=
  match readQuoted '\'' cs with
  | some (digits, rest) =>
    if digits.length % 2 = 0 ∧ digits.all (fun c => (Text.hexValue? c).isSome) then
      match Text.readHexBytes (String.ofList digits) with
      | .ok data => some (some (.bytes data), rest)
      | .error _ => none
    else none
  | none => none

/-- The next token or gap of a text that is not empty, with what follows it. -/
def next? (cs : List Char) : Option (Option Token × List Char) :=
  match cs with
  | '-' :: '-' :: rest =>
    match rest.dropWhile (· ≠ '\n') with
    | [] => some (some .openComment, [])
    | rest => some (none, rest)
  | '/' :: '*' :: rest => (afterComment rest).map (none, ·)
  | '\'' :: rest => quoted? '\'' .text rest
  | '"' :: rest => quoted? '"' (.quotedName · true) rest
  | '`' :: rest => quoted? '`' (.quotedName · false) rest
  | '[' :: rest =>
    match rest.dropWhile (· ≠ ']') with
    | _ :: after =>
      some (some (.quotedName (String.ofList (rest.takeWhile (· ≠ ']'))) false), after)
    | [] => none
  | c :: rest =>
    if Numeral.isPad c then some (none, rest)
    else if c.isDigit || (c = '.' && rest.head?.any Char.isDigit) then
      (number? cs).map fun r => (some r.1, r.2)
    else if (c = 'x' || c = 'X') && rest.head? = some '\'' then bytes? (rest.drop 1)
    else if isWordStart c then
      some (some (.word (String.ofList (cs.takeWhile isWordChar))), cs.dropWhile isWordChar)
    else (sign? cs).map fun r => (some r.1, r.2)
  | [] => none

/-- The tokens of characters, if they are made of tokens and gaps. -/
def ofChars (cs : List Char) : Option (List Token) :=
  match cs with
  | [] => some []
  | c :: rest =>
    match next? (c :: rest) with
    | some (token, left) =>
      if _h : left.length < (c :: rest).length then (ofChars left).map (token.toList ++ ·)
      else none
    | none => none
termination_by cs.length
decreasing_by assumption

/-- The tokens of a text. -/
def ofText (s : String) : Option (List Token) := ofChars s.toList

end Token
end RelGraph.Store.Formula
