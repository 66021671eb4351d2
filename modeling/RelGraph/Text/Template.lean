import RelGraph.Fault
import RelGraph.Text.Digit
/-!
Templates: texts in which places between braces stand for other texts. A doubled brace is a brace.
Places are filled by a function of what stands between the braces, so a template is read once and
can be filled in different ways.
-/
namespace RelGraph.Text

/-- A piece of a template: text as it is, or a place. -/
inductive TemplatePiece
  | plain (c : Char)
  | place (inside : List Char)
deriving DecidableEq, Repr, Inhabited

/-- What stands before the brace that closes a place, with what follows; `depth` braces have been
opened within. -/
def readPlace : Nat → List Char → Option (List Char × List Char)
  | _, [] => none
  | depth, c :: rest =>
    let more := fun depth => (readPlace depth rest).map fun r => (c :: r.1, r.2)
    if c = '\x7d' then
      match depth with
      | 0 => some ([], rest)
      | depth + 1 => more depth
    else if c = '\x7b' then more (depth + 1)
    else more depth

/-- The pieces of a template; the fuel bounds their number. -/
def readTemplate : Nat → List Char → Except String (List TemplatePiece)
  | 0, _ | _, [] => .ok []
  | fuel + 1, c :: rest => do
    if c = '\x7b' then
      match rest with
      | '\x7b' :: rest => return .plain c :: (← readTemplate fuel rest)
      | [] => .error "Single '\x7b' encountered in format string"
      | rest =>
        match readPlace 0 rest with
        | some (inside, rest) => return .place inside :: (← readTemplate fuel rest)
        | none => .error "expected '\x7d' before end of string"
    else if c = '\x7d' then
      match rest with
      | '\x7d' :: rest => return .plain c :: (← readTemplate fuel rest)
      | _ => .error "Single '\x7d' encountered in format string"
    else return .plain c :: (← readTemplate fuel rest)

/-- Fills the places of a template. -/
def fillTemplate (fill : List Char → Except String String) (s : String) : Except String String := do
  let cs := s.toList
  let filled ← (← readTemplate (cs.length + 1) cs).mapM fun piece =>
    match piece with
    | .plain c => .ok (String.singleton c)
    | .place inside => fill inside
  return String.join filled

/-- The name with which a place begins, and what follows it. -/
def placeName (inside : List Char) : List Char × List Char :=
  let ends := fun c => ".[:!".contains c
  (inside.takeWhile (!ends ·), inside.dropWhile (!ends ·))

end RelGraph.Text
