import RelGraph.Fault
import RelGraph.Numeral
import RelGraph.Value.Display
import RelGraph.Text.LowerCase
/-!
The options of a build: whether writes are offered, and how deep relations may nest.
-/
namespace RelGraph

/-- The options. `mutations` is kept as given; what counts as given switches writes on. -/
structure Config where
  mutations : Value := .bool true
  maxDepth : Nat := 5
deriving Repr, Inhabited

namespace Config

/-- Whether writes are offered. -/
def offersWrites (c : Config) : Bool := c.mutations.truthy

/-- A depth limit from a value: a positive whole number. -/
def depthLimit (v : Value) : Attempt Nat :=
  match v with
  | .int n => if 0 < n then .ok n.toNat else Attempt.fault (.depthLimitInvalid v.literal)
  | v => Attempt.fault (.depthLimitInvalid v.literal)

/-- Options from settings by name. -/
def ofSettings (settings : Members Value) : Attempt Config := do
  match settings.find? fun kv => kv.1 ≠ "mutations" ∧ kv.1 ≠ "max_depth" with
  | some (name, _) => Attempt.mishap (.badKind s!"unexpected option '{name}'")
  | none =>
    let depth ← depthLimit ((Members.get? settings "max_depth").getD (.int 5))
    return ⟨(Members.get? settings "mutations").getD (.bool true), depth⟩

/-- The words that switch writes on. -/
def onWords : List String := ["1", "true", "yes", "on"]

/-- The words that switch writes off. -/
def offWords : List String := ["0", "false", "no", "off"]

/-- A setting of the environment that is there and not empty. -/
def setting? (environment : Members String) (name : String) : Option String :=
  (Members.get? environment name).filter fun s => !s.isEmpty

/-- Options from the environment; explicit settings win, and a setting that cannot be read is
refused even when it is overridden. -/
def ofEnvironment (environment : Members String) (settings : Members Value) : Attempt Config := do
  let depth ← match setting? environment "TABLEQL_MAX_DEPTH" with
    | none => pure []
    | some raw => match Numeral.readInt 10 raw with
      | .ok n => pure [("max_depth", Value.int n)]
      | .error _ => Attempt.fault (.depthSettingMalformed raw)
  let mutations ← match setting? environment "TABLEQL_MUTATIONS" with
    | none => pure []
    | some raw =>
      let word := Text.lower (String.ofList (Text.trim raw.toList))
      if onWords.contains word then pure [("mutations", Value.bool true)]
      else if offWords.contains word then pure [("mutations", Value.bool false)]
      else Attempt.fault (.mutationsSettingMalformed raw)
  ofSettings (Members.update (depth ++ mutations) settings)

end Config
end RelGraph
