import RelGraph.Value
import RelGraph.Text.Blank
import RelGraph.Fault
/-!
Enumerations: named members with values, written one after the other. Some names are set apart: a
name between single underscores is refused unless it is a setting, a name between double underscores
or one that begins with the enumeration's own name between underscores is no member, and no member
is called `mro` or nothing at all. A member whose value an earlier one has is only another name for
that one.
-/
namespace RelGraph.Enumeration

/-- Whether a name stands between single underscores. -/
def isSetting (name : String) : Bool :=
  match name.toList, name.toList.reverse with
  | '_' :: a :: _ :: _, '_' :: b :: _ => a ≠ '_' && b ≠ '_'
  | _, _ => false

/-- Whether a name stands between double underscores. -/
def isReserved (name : String) : Bool :=
  match name.toList, name.toList.reverse with
  | '_' :: '_' :: a :: _ :: _ :: _, '_' :: '_' :: b :: _ => a ≠ '_' && b ≠ '_'
  | _, _ => false

/-- Whether a name begins with the enumeration's own name and is kept from being a member by it. -/
def isPrivate (enumeration name : String) : Bool :=
  let own := ("_" ++ enumeration ++ "__").toList
  let cs := name.toList
  own.isPrefixOf cs && own.length < cs.length && !("__".toList.isSuffixOf cs)

/-- The names between single underscores that are known settings. -/
def settings : List String :=
  ["_order_", "_generate_next_value_", "_numeric_repr_", "_missing_", "_ignore_", "_iter_member_",
    "_iter_member_by_value_", "_iter_member_by_def_"]

/-- The words of a text, which stand between blanks and commas. -/
def words (s : String) : List String :=
  (((s.toList.splitBy fun a b => isBreak a == isBreak b).filter
    fun cs => !cs.any isBreak).map String.ofList)
where
  isBreak (c : Char) : Bool := c = ',' || Text.isBlank c

/-- The names that the value of a setting lists; what is neither text nor list is a mishap. -/
def listed (v : Value) : Attempt (List String) :=
  match v with
  | .text s => .ok (words s)
  | .list items => .ok (items.map fun i => i.text?.getD "")
  | .object members => .ok (Members.names members)
  | _ => Attempt.mishap (.badKind "names are expected")

/-- What has been read of an enumeration: the members, the names that are no members, and the order
that is asked for. -/
structure Draft where
  members : List (String × Value) := []
  ignored : List String := []
  order : Option Value := none
deriving Inhabited

/-- Reads one more entry. -/
def Draft.add (enumeration : String) (d : Draft) (name : String) (v : Value) : Attempt Draft := do
  if isPrivate enumeration name then return d
  else if isSetting name then
    if !settings.contains name then Attempt.mishap (.badValue "the name is reserved")
    else if name = "_order_" then return { d with order := some v }
    else if name = "_ignore_" then
      let names ← listed v
      if names.any fun n => d.members.any (·.1 = n) then
        Attempt.mishap (.badValue "a member cannot be ignored")
      else return { d with ignored := names }
    else return d
  else if isReserved name then
    return if name = "__order__" then { d with order := some v } else d
  else if d.members.any (·.1 = name) then Attempt.mishap (.badKind "the name is taken")
  else if d.ignored.contains name then return d
  else return { d with members := d.members ++ [(name, v)] }

/-- The members with values of their own. -/
def distinct (members : List (String × Value)) : List (String × Value) :=
  members.foldl (fun kept m =>
    if kept.any fun k => Value.same k.2 m.2 then kept else kept ++ [m]) []

/-- Whether the members come in the order that is asked for, names of no member of their own
aside. -/
def inOrder (d : Draft) (own : List String) : Attempt Unit :=
  match d.order.filter Value.truthy with
  | none => .ok ()
  | some v => do
    let asked ← listed v
    let aliases := (d.members.map (·.1)).filter (!own.contains ·)
    if asked.filter (!aliases.contains ·) = own then return ()
    else Attempt.mishap (.badKind "the members are out of order")

/-- The names of the members of an enumeration. -/
def memberNames (enumeration : String) (entries : List (String × Value)) :
    Attempt (List String) := do
  let d ← entries.foldlM (fun d e => Draft.add enumeration d e.1 e.2) {}
  let names := d.members.map (·.1)
  if names.contains "mro" || names.contains "" then
    Attempt.mishap (.badValue "the name is no member's")
  let own := (distinct d.members).map (·.1)
  inOrder d own
  return own

end RelGraph.Enumeration
