import RelGraph.Digest.Sha1
/-!
Names. Table and column names become names of types, fields and enum values: characters that a name
may not hold turn into underscores, and words joined by underscores run together with capitals.
-/
namespace RelGraph.Naming

/-- Whether a character is a plain letter or digit. -/
def isWordChar (c : Char) : Bool := c.isAlphanum

/-- Whether a character may stand in a name. -/
def isNameChar (c : Char) : Bool := c.isAlphanum || c = '_'

/-- Whether a character may start a name. -/
def isNameStart (c : Char) : Bool := c.isAlpha || c = '_'

/-- Whether a text is a name. One line break after the name is let through. -/
def isName (s : String) : Bool :=
  match s.toList with
  | [] => false
  | c :: rest =>
    isNameStart c && match rest.dropWhile isNameChar with
      | [] => true
      | tail => tail == ['\n']

/-- A text with an underscore for every character that a name may not hold. -/
def safe (s : String) : List Char := s.toList.map fun c => if isNameChar c then c else '_'

/-- Runs words together: an underscore and the character after it become that character's capital.
The character taken is not looked at again. -/
def joinWords : List Char → List Char
  | '_' :: c :: rest => c.toUpper :: joinWords rest
  | c :: rest => c :: joinWords rest
  | [] => []

/-- The camel-case form: the first character, whatever it is, becomes a capital. -/
def camel (cs : List Char) : List Char :=
  match cs with
  | [] => []
  | c :: rest => c.toUpper :: joinWords rest

/-- The type name of a table. -/
def typeName (table : String) : String := String.ofList (camel (safe table))

/-- The camel-case form with a small first letter; the empty text has none. -/
def fieldStem? (table : String) : Option String :=
  match safe table with
  | [] => none
  | c :: rest => some (String.ofList (c.toLower :: joinWords rest))

/-- The common start of a table's root fields. -/
def fieldStem (table : String) : String := (fieldStem? table).getD ""

/-- What a root field does. -/
inductive Operation
  | findMany
  | findFirst
  | insertMany
  | updateMany
  | deleteMany
deriving DecidableEq, Repr

/-- All operations. -/
def Operation.all : List Operation := [.findMany, .findFirst, .insertMany, .updateMany, .deleteMany]

/-- Whether an operation writes. -/
def Operation.isWrite : Operation → Bool
  | .findMany | .findFirst => false
  | .insertMany | .updateMany | .deleteMany => true

/-- The ending of a root field's name. -/
def Operation.ending : Operation → String
  | findMany => "FindMany"
  | findFirst => "FindFirst"
  | insertMany => "InsertMany"
  | updateMany => "UpdateMany"
  | deleteMany => "DeleteMany"

/-- The name of a table's root field. -/
def rootField (table : String) (op : Operation) : String := fieldStem table ++ op.ending

/-- A name made of a table and a column. -/
def scopedName (table column ending : String) : String :=
  typeName table ++ typeName column ++ ending

/-- The name of a column's enum. -/
def enumName (table column : String) : String := scopedName table column "Enum"

/-- The words that no enum value may be called. -/
def reservedEnumValues : List String := ["true", "false", "null"]

/-- The name of an enum value: the stored text when it is a name, a numbered one otherwise. -/
def enumValueName (stored : String) (index : Nat) : String :=
  if isName stored && !reservedEnumValues.contains stored then stored else s!"Option{index}"

/-- A type's text without anything but letters and digits. -/
def plainTypeName (typeText : String) : String := String.ofList (typeText.toList.filter isWordChar)

/-- A name marked by the digest of what it stands for. -/
def marked (name meaning : String) : String :=
  name ++ "_" ++ String.ofList ((Digest.sha1 meaning.toUTF8.toList).toList.take 8)

end RelGraph.Naming
