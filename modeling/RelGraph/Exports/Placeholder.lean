import RelGraph.Value
/-!
Placeholders. A text that starts with `$_` and goes on stands for the value that another field
publishes under the name behind the mark. Substituting leaves all else as it is, except that tuples
become lists; what is put in is not looked into again.
-/
namespace RelGraph.Exports

/-- The name in a placeholder text. -/
def placeholderName? (s : String) : Option String :=
  match s.toList with
  | '$' :: '_' :: c :: rest => some (String.ofList (c :: rest))
  | _ => none

/-- The name that a value stands for. -/
def nameOf? : Value → Option String
  | .text s => placeholderName? s
  | _ => none

mutual

/-- Whether a placeholder occurs in a value. -/
def hasPlaceholder : Value → Bool
  | .text s => (placeholderName? s).isSome
  | .list items => anyPlaceholder items
  | .tuple items => anyPlaceholder items
  | .object members => anyPlaceholderIn members
  | _ => false

/-- Whether a placeholder occurs in some item. -/
def anyPlaceholder : List Value → Bool
  | [] => false
  | v :: rest => hasPlaceholder v || anyPlaceholder rest

/-- Whether a placeholder occurs in some member's value. -/
def anyPlaceholderIn : List (String × Value) → Bool
  | [] => false
  | (_, v) :: rest => hasPlaceholder v || anyPlaceholderIn rest

end

/-- A name that is not published, with the number of lists around its placeholder. -/
structure Missing where
  name : String
  depth : Nat
deriving DecidableEq, Repr

/-- Of two missing names in one list the one that is nested less; of equals the first. -/
def Missing.sooner (a b : Missing) : Missing := if b.depth < a.depth then b else a

mutual

/-- Replaces every placeholder by the published value. The members of an object are settled one
after the other, so the first missing name counts; the items of a list are settled together. -/
def substitute (published : String → Option Value) : Value → Except Missing Value
  | .text s =>
    match placeholderName? s with
    | none => .ok (.text s)
    | some name =>
      match published name with
      | some v => .ok v
      | none => .error ⟨name, 0⟩
  | .list items => listed (substituteItems published items)
  | .tuple items => listed (substituteItems published items)
  | .object members => (substituteMembers published members).map .object
  | v => .ok v
where
  /-- The result of a list: a missing name is one list deeper. -/
  listed : Except Missing (List Value) → Except Missing Value
    | .ok items => .ok (.list items)
    | .error m => .error { m with depth := m.depth + 1 }

/-- Replaces the placeholders of all items together. -/
def substituteItems (published : String → Option Value) :
    List Value → Except Missing (List Value)
  | [] => .ok []
  | v :: rest =>
    match substitute published v, substituteItems published rest with
    | .ok v, .ok rest => .ok (v :: rest)
    | .error a, .error b => .error (a.sooner b)
    | .error a, .ok _ => .error a
    | .ok _, .error b => .error b

/-- Replaces the placeholders of members in order. -/
def substituteMembers (published : String → Option Value) :
    List (String × Value) → Except Missing (List (String × Value))
  | [] => .ok []
  | (k, v) :: rest =>
    match substitute published v with
    | .error m => .error m
    | .ok v =>
      match substituteMembers published rest with
      | .error m => .error m
      | .ok rest => .ok ((k, v) :: rest)

end

end RelGraph.Exports
