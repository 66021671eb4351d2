import RelGraph.Value
import RelGraph.Calendar.Iso
import RelGraph.Text.Quoted
/-!
Values in JSON form. A value that JSON lacks is an object of one member whose name says the kind:
`$float`, `$date`, `$datetime`, `$time`, `$bytes`, `$decimal`, `$uuid`, and `$tuple` when read.
-/
namespace RelGraph.Value

/-- The value of a tagged object with a text; `none` when the tag or the text is not known. -/
def ofTag? (tag s : String) : Option Value :=
  match tag with
  | "$float" => (Numeral.float? s).map float
  | "$date" => (Calendar.readDate s).toOption.map date
  | "$datetime" => (Calendar.readMoment s).toOption.map moment
  | "$time" => (Calendar.readTime s).toOption.map time
  | "$bytes" => (Text.readHexBytes s).toOption.map bytes
  | "$decimal" => (Decimal.read? s).map decimal
  | "$uuid" => (Uuid.read s).toOption.map uuid
  | _ => none

mutual

/-- The value that a JSON value stands for. -/
def untag : Value → Value
  | list items => list (untagItems items)
  | object members =>
    match members with
    | [(tag, text s)] => (ofTag? tag s).getD (object [(tag, text s)])
    | [("$tuple", list items)] => tuple (untagItems items)
    | members => object (untagMembers members)
  | v => v

/-- The values that JSON items stand for. -/
def untagItems : List Value → List Value
  | [] => []
  | v :: rest => untag v :: untagItems rest

/-- The values that JSON members stand for. -/
def untagMembers : List (String × Value) → List (String × Value)
  | [] => []
  | (k, v) :: rest => (k, untag v) :: untagMembers rest

end

/-- An object of one text member. -/
def tagged (tag s : String) : Value := object [(tag, text s)]

mutual

/-- The JSON form of a value. -/
def tag : Value → Value
  | float x => tagged "$float" x.text
  | decimal d => tagged "$decimal" d.text
  | bytes data => tagged "$bytes" (Text.hexBytes data)
  | date d => tagged "$date" (Calendar.dateText d)
  | moment m => tagged "$datetime" (Calendar.momentText m)
  | time t => tagged "$time" (Calendar.timeText t)
  | uuid u => tagged "$uuid" u.text
  | list items => list (tagItems items)
  | tuple items => list (tagItems items)
  | object members => object (tagMembers members)
  | v => v

/-- The JSON forms of items. -/
def tagItems : List Value → List Value
  | [] => []
  | v :: rest => tag v :: tagItems rest

/-- The JSON forms of members. -/
def tagMembers : List (String × Value) → List (String × Value)
  | [] => []
  | (k, v) :: rest => (k, tag v) :: tagMembers rest

end

end RelGraph.Value
