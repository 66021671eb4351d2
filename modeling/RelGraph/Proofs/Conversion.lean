import RelGraph.Graphql.Scalar
import RelGraph.Proofs.Calendar.Written
import RelGraph.Proofs.Outcome
import RelGraph.Typing
/-!
The texts that stand for values of columns, and the scalars that columns have. What is written of a
date, a time of day or a moment is read back, and a text that is a date is one wherever a date may
stand in front of more. What a column that takes no bytes does not take is refused for its value or
its kind.
-/
namespace RelGraph.Conversion

open Calendar (Offset.Small readBack)
open Graphql (Scalar ScalarRule)

/-! ## Texts -/

/-- A text that is a date has no more than the ten characters in which dates are looked for. -/
theorem leadingDate_of_dateOfText {s : String} {d : Date} (h : dateOfText s = .ok d) :
    leadingDate s = .ok d := by
  have hsize : (Calendar.Bytes.ofString s).size ≤ 10 := by
    -- All that is longer is refused before it is read.
    by_contra hlong
    have hread : Calendar.readDate s = .error .malformed := by
      rw [Calendar.readDate]
      exact if_neg (by omega)
    simp [dateOfText, hread] at h
  have hlength : s.toList.length ≤ 10 := by
    have hbytes := Text.length_le_toUTF8 s
    simp only [Calendar.Bytes.ofString, Calendar.Bytes.size, Array.size_map,
      List.size_toArray] at hsize
    omega
  rw [leadingDate, List.take_of_length_le hlength, String.ofList_toList, h]

theorem dateOfText_dateText (d : Date) : dateOfText (Calendar.dateText d) = .ok d := by
  rw [dateOfText, Calendar.readDate_dateText]

theorem timeOfText_timeText {t : Time} (h : Offset.Small t.offset) :
    timeOfText (Calendar.timeText t) = .ok ⟨t.clock, t.offset.map readBack⟩ := by
  rw [timeOfText, Calendar.readTime_timeText h]

theorem momentOfText_momentText {m : DateTime} (h : Offset.Small m.offset) :
    momentOfText (Calendar.momentText m) = .ok ⟨m.date, m.clock, m.offset.map readBack⟩ := by
  have hzulu : spellZulu (Calendar.momentText m) = Calendar.momentText m := by
    rw [spellZulu, if_neg]
    intro hlast
    rw [Calendar.toList_isoText h] at hlast
    have hz := Calendar.isIsoChar_momentChars m 'Z' (List.mem_of_getLast? hlast)
    exact absurd hz (by decide)
  rw [momentOfText, hzulu, Calendar.readMoment_isoText h]

/-! ## What columns take -/

section Columns

open Outcome

variable {c : Column} {v w : Value} {s : String} {m : Mishap}

theorem readText_ne_bool {b : Bool} : readText c s ≠ .ok (.bool b) := by
  intro h
  rw [readText.eq_def] at h
  split at h
  all_goals first
    | cases h
    | obtain ⟨_, -, hvalue⟩ := map_eq_ok.mp h
      cases hvalue

/-- A column of anything but bytes takes truth values as they are, and no other value for one. -/
theorem readValue_eq_bool_iff {b : Bool} :
    readValue c v = .ok (.bool b) ↔ v = .bool b ∧ c.kind ≠ .buffer := by
  constructor
  · intro h
    cases v with
    | text s =>
      rw [readValue] at h
      split at h
      · obtain ⟨_, -, hvalue⟩ := map_eq_ok.mp h
        cases hvalue
      · exact absurd h readText_ne_bool
    | list items | tuple items =>
      rw [readValue, readList] at h
      split at h
      · split at h <;> obtain ⟨_, -, hvalue⟩ := map_eq_ok.mp h <;> cases hvalue
      · split at h
        · cases h
        · obtain ⟨_, -, hvalue⟩ := map_eq_ok.mp h
          cases hvalue
    | null =>
      rw [readValue] at h
      cases h
    | _ =>
      rw [readValue] at h
      · split at h
        · obtain ⟨_, -, hvalue⟩ := map_eq_ok.mp h
          cases hvalue
        · rename_i hkind
          exact ⟨Except.ok.inj h, hkind⟩
      all_goals simp
  · rintro ⟨rfl, hkind⟩
    rw [readValue, if_neg hkind]
    all_goals simp

theorem isAboutInput_of_momentOfText (h : momentOfText s = .error m) :
    m.isAboutInput = true := by
  rw [momentOfText] at h
  split at h <;> cases h
  rfl

/-- A text that is no value of a column is so for its value. -/
theorem isAboutInput_of_readText (h : readText c s = .error m) : m.isAboutInput = true := by
  rw [readText.eq_def] at h
  split at h
  · rcases bind_eq_error.mp (map_eq_error.mp h) with h | ⟨_, -, h⟩
    · exact isAboutInput_of_momentOfText h
    · cases h
  case h_8 => cases h
  -- All others parse the text and say why it cannot be parsed.
  all_goals
    replace h := map_eq_error.mp h
    simp only [leadingDate, dateOfText, timeOfText, intOfText, floatOfText, uuidOfText] at h
    split at h <;> cases h
    rfl

mutual

/-- What is no value of a column that takes no bytes is so for its value or its kind. -/
theorem isAboutInput_of_readValue (hkind : c.kind ≠ .buffer) : (v : Value) →
    readValue c v = .error m → m.isAboutInput = true
  | .text s, h => by
    rw [readValue, if_neg hkind] at h
    exact isAboutInput_of_readText h
  | .list items, h => by
    rw [readValue, readList, if_neg hkind] at h
    split at h
    · cases h
    · exact isAboutInput_of_readItems hkind items (map_eq_error.mp h)
  | .tuple items, h => by
    rw [readValue, readList, if_neg hkind] at h
    split at h
    · cases h
    · exact isAboutInput_of_readItems hkind items (map_eq_error.mp h)
  | .null, h | .bool _, h | .int _, h | .float _, h | .decimal _, h | .bytes _, h | .date _, h
  | .moment _, h | .time _, h | .uuid _, h | .object _, h => by
    simp [readValue, hkind] at h

theorem isAboutInput_of_readItems (hkind : c.kind ≠ .buffer) : (items : List Value) →
    readItems c items = .error m → m.isAboutInput = true
  | [], h => by
    rw [readItems] at h
    cases h
  | v :: rest, h => by
    rw [readItems] at h
    rcases bind_eq_error.mp h with hfirst | ⟨w, -, h⟩
    · exact isAboutInput_of_readValue hkind v hfirst
    · rcases bind_eq_error.mp h with hrest | ⟨ws, -, h⟩
      · exact isAboutInput_of_readItems hkind rest hrest
      · cases h

end

theorem isAboutInput_of_byteOf (h : byteOf v = .error m) : m.isAboutInput = true := by
  rw [byteOf.eq_def] at h
  dsimp only at h
  split at h
  · split at h <;> cases h
    rfl
  · split at h <;> cases h
  · cases h
    rfl

/-- What is a list, but no list of bytes, is so for its value or its kind. -/
theorem isAboutInput_of_items (hkind : c.kind = .buffer) {items : List Value}
    (hitems : w.items? = some items) (hflat : ∀ x ∈ items, x.items? = none)
    (h : readValue c w = .error m) : m.isAboutInput = true := by
  have hfirst : startsWithList items = false := by
    cases items with
    | nil => rfl
    | cons x rest => simp [startsWithList, hflat x (by simp)]
  have hbytes : (items.mapM byteOf).map Value.bytes = .error m := by
    cases w with
    | list _ | tuple _ =>
      obtain rfl := Option.some.inj hitems
      rw [readValue, readList, if_pos hkind, hfirst, if_neg Bool.false_ne_true] at h
      exact h
    | _ => cases hitems
  obtain ⟨x, -, hx⟩ := exists_of_mapM_eq_error (map_eq_error.mp hbytes)
  exact isAboutInput_of_byteOf hx

end Columns

/-! ## Scalars -/

/-- The scalar of a kind of column, where it has one, with its rule. -/
def scalarOf? : ColumnKind → Option (String × ScalarRule)
  | .boolean => some ("Boolean", .boolean)
  | .date => some ("Date", .date)
  | .moment => some ("DateTime", .moment)
  | .time => some ("Time", .time)
  | .bigInteger => some ("BigInt", .bigInteger)
  | .json => some ("JSON", .anything)
  | .text | .identifier => some ("String", .text)
  | .whole => some ("Int", .int)
  | .fraction => some ("Float", .float)
  | _ => none

theorem ruleOf_scalarOf? {k : ColumnKind} {name : String} {rule : ScalarRule}
    (h : scalarOf? k = some (name, rule)) : Scalar.ruleOf name = rule := by
  cases k <;> simp only [scalarOf?, Option.some.injEq, Prod.mk.injEq, reduceCtorEq] at h
  all_goals obtain ⟨rfl, rfl⟩ := h; decide

/-- A column that has no override has the scalar of its kind. -/
theorem baseType_of_scalarOf? {b : TypeBook} {table name : String} {c : Column} {rule : ScalarRule}
    (hplain : (givenText? c.typeOverride).or (b.adoptedType? table c.name) = none)
    (h : scalarOf? c.kind = some (name, rule)) : (baseType b table c).1 = .named name := by
  rw [baseType, hplain]
  cases hkind : c.kind <;> simp_all [scalarOf?]

end RelGraph.Conversion
