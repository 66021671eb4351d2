import RelGraph.Naming
import Mathlib
/-!
Names that are told apart. Names made by putting endings behind stems differ when their endings do,
as long as no ending closes another one; so what two names were made of can be read off them. The
name of a table's type and the common start of its root fields are lossy forms of the table's name,
but they lose the same.
-/
namespace RelGraph.Naming

/-! ## Endings -/

variable {s s' e e' name table table' : String}

/-- Whether a name ends in a text. -/
def EndsIn (name ending : String) : Prop := ending.toList <:+ name.toList

instance : Decidable (EndsIn name e) := inferInstanceAs (Decidable (_ <:+ _))

/-- Whether no name ends in both of two texts. -/
def Apart (e e' : String) : Prop := ¬ EndsIn e e' ∧ ¬ EndsIn e' e

instance : Decidable (Apart e e') := inferInstanceAs (Decidable (_ ∧ _))

theorem endsIn_append (s e : String) : EndsIn (s ++ e) e := by
  rw [EndsIn, String.toList_append]
  exact List.suffix_append _ _

theorem Apart.not_both (h : Apart e e') (he : EndsIn name e) : ¬ EndsIn name e' := by
  intro he'
  rcases List.suffix_or_suffix_of_suffix he he' with hle | hle
  · exact h.2 hle
  · exact h.1 hle

/-- Endings that are the same or apart can be read off a name, and so can what stands before. -/
theorem append_inj (h : s ++ e = s' ++ e') (hends : e = e' ∨ Apart e e') : s = s' ∧ e = e' := by
  rcases hends with rfl | hapart
  · rw [← String.toList_inj, String.toList_append, String.toList_append] at h
    exact ⟨String.toList_inj.mp (List.append_cancel_right h), rfl⟩
  · exact absurd (h ▸ endsIn_append s' e') (hapart.not_both (endsIn_append s e))

/-! ## Names of types and of root fields -/

theorem toLower_eq_toLower {c d : Char} : c.toLower = d.toLower ↔ c.toUpper = d.toUpper := by
  constructor
  · intro h
    rw [← Char.toUpper_toLower_eq_toUpper c, h, Char.toUpper_toLower_eq_toUpper]
  · intro h
    rw [← Char.toLower_toUpper_eq_toLower c, h, Char.toLower_toUpper_eq_toLower]

/-- Root fields of two tables start alike just when their types are called the same. -/
theorem fieldStem_inj : fieldStem table = fieldStem table' ↔ typeName table = typeName table' := by
  rw [fieldStem, fieldStem, fieldStem?, fieldStem?, typeName, typeName]
  cases safe table with
  | nil => cases safe table' <;> simp [camel]
  | cons c cs =>
    cases safe table' with
    | nil => simp [camel]
    | cons d ds => simp [camel, toLower_eq_toLower]

theorem ending_apart (op op' : Operation) :
    op.ending = op'.ending ∨ Apart op.ending op'.ending := by
  cases op <;> cases op' <;> decide

theorem ending_inj {op op' : Operation} (h : op.ending = op'.ending) : op = op' := by
  cases op <;> cases op' <;> first | rfl | exact absurd h (by decide)

/-- A root field tells its operation, and its table as far as the name of the table's type does. -/
theorem rootField_inj {op op' : Operation} :
    rootField table op = rootField table' op' ↔ typeName table = typeName table' ∧ op = op' := by
  rw [← fieldStem_inj]
  constructor
  · intro h
    obtain ⟨hstem, hending⟩ := append_inj h (ending_apart op op')
    exact ⟨hstem, ending_inj hending⟩
  · rintro ⟨hstem, rfl⟩
    rw [rootField, rootField, hstem]

/-! ## Names of base types -/

theorem not_mem_plainTypeName (text : String) : '_' ∉ (plainTypeName text).toList := by
  rw [plainTypeName, String.toList_ofList, List.mem_filter]
  exact fun h => absurd h.2 (by decide)

theorem marked_ne_plainTypeName (name text meaning : String) :
    marked name meaning ≠ plainTypeName text := by
  intro h
  refine not_mem_plainTypeName text (h ▸ ?_)
  simp [marked]

/-- The name that was marked can be read off: it is what stands before the first underscore. -/
theorem plainTypeName_of_marked {text text' meaning meaning' : String}
    (h : marked (plainTypeName text) meaning = marked (plainTypeName text') meaning') :
    plainTypeName text = plainTypeName text' := by
  have hread : ∀ text meaning : String,
      (marked (plainTypeName text) meaning).toList.takeWhile (· ≠ '_') =
        (plainTypeName text).toList := by
    intro text meaning
    rw [marked, String.append_assoc, String.toList_append, String.toList_append,
      List.takeWhile_append_of_pos]
    · simp
    · intro c hc
      simpa using fun heq : c = '_' => not_mem_plainTypeName text (heq ▸ hc)
  rw [← String.toList_inj, ← hread text meaning, h, hread]

end RelGraph.Naming
