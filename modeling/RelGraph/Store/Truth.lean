/-!
Three-valued truth. What is said of a null is neither true nor false; a row is chosen only where a
condition is true.
-/
namespace RelGraph.Store

/-- Truth of a condition: true, false, or unknown. -/
abbrev Truth := Option Bool

namespace Truth

/-- The opposite; the unknown stays unknown. -/
def negate (t : Truth) : Truth := t.map not

/-- Both: false as soon as one is false. -/
def both : Truth → Truth → Truth
  | some false, _ => some false
  | _, some false => some false
  | some true, some true => some true
  | _, _ => none

/-- Either: true as soon as one is true. -/
def either : Truth → Truth → Truth
  | some true, _ => some true
  | _, some true => some true
  | some false, some false => some false
  | _, _ => none

/-- All of some truths. -/
def all (ts : List Truth) : Truth := ts.foldr both (some true)

/-- Any of some truths. -/
def any (ts : List Truth) : Truth := ts.foldr either (some false)

/-- Whether a truth is certain. -/
def holds (t : Truth) : Bool := t == some true

end Truth
end RelGraph.Store
