/-!
Ordered members: names with values, in the order in which the names were first written. Writing a
name again replaces its value where it stands. `get?` sees what `put` wrote last under a name, and
the order of the names is never disturbed.
-/
namespace RelGraph

/-- Names with values in writing order. -/
abbrev Members (α : Type) := List (String × α)

namespace Members
variable {α β : Type}

/-- The value under a name. -/
def get? : Members α → String → Option α
  | [], _ => none
  | (k, v) :: rest, key => if k = key then some v else get? rest key

/-- Whether a name is present. -/
def has (ms : Members α) (key : String) : Bool := (get? ms key).isSome

/-- Writes a value: in place when the name is present, at the end otherwise. -/
def put : Members α → String → α → Members α
  | [], key, value => [(key, value)]
  | (k, v) :: rest, key, value =>
    if k = key then (k, value) :: rest else (k, v) :: put rest key value

/-- Writes every member of the second list into the first, in order. -/
def update (ms news : Members α) : Members α := news.foldl (fun acc kv => put acc kv.1 kv.2) ms

/-- Members from pairs: a repeated name keeps its first place and its last value. -/
def ofPairs (pairs : List (String × α)) : Members α := update [] pairs

/-- The members without one name. -/
def erase (ms : Members α) (key : String) : Members α := ms.filter fun kv => kv.1 ≠ key

/-- The names in order. -/
def names (ms : Members α) : List String := ms.map Prod.fst

/-- The values in order. -/
def values (ms : Members α) : List α := ms.map Prod.snd

/-- The members with each value mapped. -/
def mapValues (f : α → β) (ms : Members α) : Members β := ms.map fun kv => (kv.1, f kv.2)

theorem get?_put_self (ms : Members α) (key : String) (value : α) :
    get? (put ms key value) key = some value := by
  induction ms with
  | nil => simp [put, get?]
  | cons kv rest ih => grind [put, get?]

theorem get?_put_of_ne (ms : Members α) {key other : String} (value : α) (h : other ≠ key) :
    get? (put ms key value) other = get? ms other := by
  induction ms with
  | nil => grind [put, get?]
  | cons kv rest ih => grind [put, get?]

theorem names_put (ms : Members α) (key : String) (value : α) :
    names (put ms key value) = if has ms key then names ms else names ms ++ [key] := by
  induction ms with
  | nil => simp [put, names, has, get?]
  | cons kv rest ih => grind [put, get?, has, names]

end Members
end RelGraph
