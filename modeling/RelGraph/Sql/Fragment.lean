import RelGraph.Text.Blank
/-!
Fragments of SQL that declarations give as text. A name behind a colon is a place for a parameter;
in a fragment nothing fills it, so it stands for null. A colon behind a backslash is a plain colon.
-/
namespace RelGraph.Sql

/-- Whether a character can be part of a name in a fragment. -/
def isWordChar (c : Char) : Bool := c.isAlphanum || c = '_' || c.toNat ≥ 128

/-- Whether a character can be part of the name of a place. -/
def isPlaceChar (c : Char) : Bool := isWordChar c || c = '$'

/-- What a place stands for: null, or a bare parameter where its name is none that a fragment knows
places by. -/
def placeText (name : List Char) : List Char :=
  if name.all isWordChar then "NULL".toList else ['?']

/-- The characters of a fragment with its places filled, given the character before them. -/
def fillPlaces (before : Option Char) (cs : List Char) : List Char :=
  match cs with
  | [] => []
  | c :: rest =>
    let name := rest.takeWhile isPlaceChar
    let after := rest.dropWhile isPlaceChar
    let begins := !before.any fun b => b = ':' || b = '\\' || isWordChar b
    if c = ':' && begins && !name.isEmpty && after.head? != some ':' then
      placeText name ++ fillPlaces name.getLast? after
    else c :: fillPlaces (some c) rest
termination_by cs.length
decreasing_by
  · have := (List.dropWhile_suffix (l := rest) isPlaceChar).length_le
    simp
    omega
  · simp

/-- The characters of a fragment without the backslashes before plain colons. -/
def plainColons : List Char → List Char
  | '\\' :: ':' :: rest =>
    let after := rest.dropWhile isPlaceChar
    if after.head? = some ':' then '\\' :: ':' :: plainColons rest else ':' :: plainColons rest
  | c :: rest => c :: plainColons rest
  | [] => []

/-- A fragment as it becomes part of a statement. -/
def fragmentText (s : String) : String :=
  String.ofList (plainColons (fillPlaces none s.toList))

end RelGraph.Sql
