/-!
Blank characters: the code points that separate words, and trimming a text of them. A text is
blank-free at both ends after `trim`.
-/
namespace RelGraph.Text

/-- The blank code points, as closed ranges in ascending order. -/
def blankRanges : List (Nat × Nat) := [
  (9, 13), (28, 32), (133, 133), (160, 160), (5760, 5760), (8192, 8202), (8232, 8233),
  (8239, 8239), (8287, 8287), (12288, 12288)]

/-- Whether a code point lies in one of the given closed ranges. -/
def inRanges (ranges : List (Nat × Nat)) (code : Nat) : Bool :=
  ranges.any fun range => range.1 ≤ code && code ≤ range.2

/-- Whether a character is blank. -/
def isBlank (c : Char) : Bool := inRanges blankRanges c.toNat

/-- The characters after the leading ones that satisfy `drop`. -/
def trimLeft (drop : Char → Bool) (cs : List Char) : List Char := cs.dropWhile drop

/-- The characters before the trailing ones that satisfy `drop`. -/
def trimRight (drop : Char → Bool) (cs : List Char) : List Char :=
  (cs.reverse.dropWhile drop).reverse

/-- The characters without blanks at either end. -/
def trim (cs : List Char) : List Char := trimRight isBlank (trimLeft isBlank cs)

end RelGraph.Text
