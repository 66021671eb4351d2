import RelGraph.Numeral
import RelGraph.Text.Quoted
/-!
Universally unique identifiers: 128-bit numbers, written as 32 hexadecimal digits with or without
hyphens.
-/
namespace RelGraph

/-- An identifier of 128 bits. -/
structure Uuid where
  number : Fin (Nat.pow 2 128)
deriving DecidableEq, Repr

instance : Inhabited Uuid := ⟨⟨0, by decide⟩⟩

namespace Uuid

/-- The 32 digits. -/
def hex (u : Uuid) : String := String.ofList (Text.hexText 32 u.number.val)

/-- The digits in groups of 8, 4, 4, 4 and 12 with hyphens between them. -/
def text (u : Uuid) : String :=
  let cs := Text.hexText 32 u.number.val
  let group := fun (start count : Nat) => (cs.drop start).take count
  String.ofList (group 0 8 ++ '-' :: group 8 4 ++ '-' :: group 12 4 ++ '-' :: group 16 4 ++
    '-' :: group 20 12)

/-- Why a text is no identifier. -/
inductive Fault
  | malformed
  | notHexadecimal (digits : String)
  | outOfRange
deriving DecidableEq, Repr

/-- Removes every occurrence of a word; the word must not be empty. -/
def removeWord (word : List Char) : Nat → List Char → List Char
  | 0, cs => cs
  | _, [] => []
  | fuel + 1, c :: rest =>
    if word.isPrefixOf (c :: rest) then removeWord word fuel ((c :: rest).drop word.length)
    else c :: removeWord word fuel rest

/-- The digits of a written identifier: the marks `urn:` and `uuid:`, braces at the ends and
hyphens are left out. -/
def digits (s : String) : List Char :=
  let cs := s.toList
  let cs := removeWord "urn:".toList cs.length cs
  let cs := removeWord "uuid:".toList cs.length cs
  let isBrace := fun c => c = '{' ∨ c = '}'
  (Text.trimRight isBrace (Text.trimLeft isBrace cs)).filter (· ≠ '-')

/-- Reads an identifier: 32 characters that form a hexadecimal numeral. -/
def read (s : String) : Except Fault Uuid :=
  let cs := digits s
  if cs.length ≠ 32 then .error .malformed
  else
    let body := String.ofList cs
    match Numeral.readInt 16 body with
    | .error _ => .error (.notHexadecimal body)
    | .ok n =>
      if h : 0 ≤ n ∧ n.toNat < Nat.pow 2 128 then .ok ⟨⟨n.toNat, h.2⟩⟩ else .error .outOfRange

end Uuid
end RelGraph
