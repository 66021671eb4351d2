import RelGraph.Graphql.Scalar
import RelGraph.Proofs.Conversion
import RelGraph.Proofs.Outcome
import RelGraph.Typing
/-!
Operands reach a column as texts or as what their scalar has made of these. Both are bound alike,
but for the distance of a moment from universal time: a column whose type is not zoned drops it from
a text and leaves it in a moment.
-/
namespace RelGraph.Conversion

open Graphql (Scalar ScalarRule)
open Outcome
open Calendar (Offset.Small)

/-- Whether a rule makes something else of texts. -/
def isParsed : ScalarRule → Bool
  | .date | .moment | .time | .bigInteger => true
  | _ => false

/-- What a column binds for the text of a value. -/
def bound (c : Column) : Value → Value
  | .moment m => .moment (if c.declaration.type.isZoned then m else m.naive)
  | v => v

section Spelled

variable {b : TypeBook} {table name s : String} {c : Column} {v : Value}

theorem readSpelled_eq_ok {kind : String} {parse : String → Except Mishap Value}
    (h : Scalar.readSpelled kind parse (.text s) = .ok v) : parse s = .ok v := by
  rw [Scalar.readSpelled] at h
  cases hparse : parse s with
  | ok w =>
    rw [hparse] at h
    rw [Except.ok.inj h]
  | error m =>
    rw [hparse] at h
    cases h

theorem readText_of_date (hkind : c.kind = .date)
    (h : Scalar.readByRule .date (.text s) = .ok v) :
    ∃ d, v = .date d ∧ readText c s = .ok (.date d) := by
  rw [Scalar.readByRule] at h
  obtain ⟨d, hd, rfl⟩ := map_eq_ok.mp (readSpelled_eq_ok h)
  exact ⟨d, rfl, by simp [readText, hkind, leadingDate_of_dateOfText hd]⟩

theorem readText_of_moment (hkind : c.kind = .moment)
    (h : Scalar.readByRule .moment (.text s) = .ok v) :
    ∃ m, v = .moment m ∧ readText c s =
      .ok (.moment (if c.declaration.type.isZoned then m else m.naive)) := by
  rw [Scalar.readByRule] at h
  obtain ⟨m, hm, rfl⟩ := map_eq_ok.mp (readSpelled_eq_ok h)
  refine ⟨m, rfl, ?_⟩
  rw [readText.eq_def, hkind]
  show Value.moment <$> columnMoment c s = _
  rw [columnMoment, hm]
  rfl

theorem readText_of_time (hkind : c.kind = .time)
    (h : Scalar.readByRule .time (.text s) = .ok v) :
    ∃ t, v = .time t ∧ readText c s = .ok (.time t) := by
  rw [Scalar.readByRule] at h
  obtain ⟨t, ht, rfl⟩ := map_eq_ok.mp (readSpelled_eq_ok h)
  exact ⟨t, rfl, by simp [readText, hkind, ht]⟩

theorem readText_of_bigInteger (hkind : c.kind = .bigInteger)
    (h : Scalar.readByRule .bigInteger (.text s) = .ok v) :
    ∃ n, v = .int n ∧ readText c s = .ok (.int n) := by
  simp only [Scalar.readByRule, Scalar.readBig, intOf] at h
  cases hn : intOfText s with
  | ok n =>
    rw [hn] at h
    obtain rfl := Except.ok.inj h
    exact ⟨n, rfl, by simp [readText, hkind, hn]⟩
  | error m =>
    rw [hn] at h
    dsimp only at h
    split at h <;> cases h

/-- A column binds for a text that its scalar takes what the scalar makes of it, a moment without
its distance unless its type is zoned. -/
theorem readText_of_readByRule {rule : ScalarRule} (hscalar : scalarOf? c.kind = some (name, rule))
    (hrule : isParsed rule = true) (h : Scalar.readByRule rule (.text s) = .ok v) :
    readText c s = .ok (bound c v) ∧ readValue c v = .ok v := by
  cases hkind : c.kind
  all_goals
    rw [hkind] at hscalar
    simp only [scalarOf?, Option.some.injEq, Prod.mk.injEq, reduceCtorEq] at hscalar
  all_goals obtain ⟨rfl, rfl⟩ := hscalar
  case date =>
    obtain ⟨d, rfl, hd⟩ := readText_of_date hkind h
    exact ⟨hd, by simp [readValue, hkind]⟩
  case moment =>
    obtain ⟨m, rfl, hm⟩ := readText_of_moment hkind h
    exact ⟨hm, by simp [readValue, hkind]⟩
  case time =>
    obtain ⟨t, rfl, ht⟩ := readText_of_time hkind h
    exact ⟨ht, by simp [readValue, hkind]⟩
  case bigInteger =>
    obtain ⟨n, rfl, hn⟩ := readText_of_bigInteger hkind h
    exact ⟨hn, by simp [readValue, hkind]⟩
  all_goals cases hrule

theorem bound_eq_self : bound c v = v ↔
    ∀ m, v = .moment m → c.declaration.type.isZoned = true ∨ m.offset = none := by
  cases v with
  | moment m =>
    obtain ⟨date, clock, offset⟩ := m
    cases hzone : c.declaration.type.isZoned <;>
      simp [bound, hzone, DateTime.naive, eq_comm]
  | _ => simp [bound]

/-- A text that the scalar of a column takes is bound as what the scalar makes of it, but that a
column whose type is not zoned drops the distance of a moment from universal time. What the scalar
makes of the text is bound as it is, so the two agree just where there is nothing to drop. -/
theorem readValue_text_eq_iff (hkind : c.kind ∈ [.date, .moment, .time, .bigInteger])
    (htype : (baseType b table c).1 = .named name)
    (hread : Scalar.readValue { rule := Scalar.ruleOf name } (.text s) = .ok v) :
    readValue c (.text s) = .ok (bound c v) ∧ readValue c v = .ok v ∧
      (readValue c (.text s) = readValue c v ↔
        ∀ m, v = .moment m → c.declaration.type.isZoned = true ∨ m.offset = none) := by
  have hplain : (givenText? c.typeOverride).or (b.adoptedType? table c.name) = none := by
    rw [baseType] at htype
    split at htype
    · cases htype
    · assumption
  obtain ⟨own, rule, hscalar, hrule⟩ : ∃ own rule, scalarOf? c.kind = some (own, rule) ∧
      isParsed rule = true := by
    simp only [List.mem_cons, List.not_mem_nil, or_false] at hkind
    rcases hkind with h | h | h | h <;> rw [h] <;> exact ⟨_, _, rfl, rfl⟩
  rw [baseType_of_scalarOf? hplain hscalar] at htype
  cases htype
  have hread : Scalar.readByRule rule (.text s) = .ok v := by
    rw [← ruleOf_scalarOf? hscalar]
    exact hread
  obtain ⟨htext, hvalue⟩ := readText_of_readByRule hscalar hrule hread
  have hbuffer : c.kind ≠ .buffer := fun h => by simp [h] at hkind
  have hwire : readValue c (.text s) = .ok (bound c v) := by
    rw [readValue, if_neg hbuffer, htext]
  refine ⟨hwire, hvalue, ?_⟩
  rw [hwire, hvalue, Except.ok.injEq]
  exact bound_eq_self

end Spelled

namespace Meetings

/-- When a meeting starts. -/
def start (zoned : Bool) : Column where
  name := "at"
  kind := .moment
  nullable := true
  hasDefault := false
  declaration := { key := "at", name := "at", type := .moment zoned }

/-- Ten in the morning, five hours east of universal time. -/
def morning : DateTime where
  date := { year := 2024, month := 1, day := 1 }
  clock := { hour := 10, minute := 0, second := 0, micro := 0 }
  offset := some 18000000000

theorem baseType_start (zoned : Bool) :
    (baseType {} "meeting" (start zoned)).1 = .named "DateTime" := rfl

theorem momentText_morning : Calendar.momentText morning = "2024-01-01T10:00:00+05:00" := by
  decide +kernel

theorem momentOfText_morning :
    momentOfText "2024-01-01T10:00:00+05:00" = .ok morning := by
  have hsmall : Offset.Small morning.offset := by
    simp [Offset.Small, morning, Calendar.microsPerDay]
  rw [← momentText_morning, momentOfText_momentText hsmall]
  rfl

theorem readValue_morning :
    Scalar.readValue { rule := Scalar.ruleOf "DateTime" } (.text "2024-01-01T10:00:00+05:00") =
      .ok (.moment morning) := by
  have hrule : Scalar.ruleOf "DateTime" = .moment := by decide
  simp [Scalar.readValue, hrule, Scalar.readByRule, Scalar.readSpelled, momentOfText_morning]

theorem readValue_zoned :
    (start true).kind ∈ [ColumnKind.date, .moment, .time, .bigInteger] ∧
      (baseType {} "meeting" (start true)).1 = .named "DateTime" ∧
      Scalar.readValue { rule := Scalar.ruleOf "DateTime" }
        (.text "2024-01-01T10:00:00+05:00") = .ok (.moment morning) ∧
      readValue (start true) (.text "2024-01-01T10:00:00+05:00") =
        readValue (start true) (.moment morning) :=
  ⟨by decide, baseType_start true, readValue_morning,
    (readValue_text_eq_iff (by decide) (baseType_start true) readValue_morning).2.2.mpr
      fun _ _ => .inl rfl⟩

/-- A column whose type is not zoned binds a text and the moment that is made of it differently. -/
theorem readValue_differently :
    (start false).kind ∈ [ColumnKind.date, .moment, .time, .bigInteger] ∧
      (baseType {} "meeting" (start false)).1 = .named "DateTime" ∧
      Scalar.readValue { rule := Scalar.ruleOf "DateTime" }
        (.text "2024-01-01T10:00:00+05:00") = .ok (.moment morning) ∧
      readValue (start false) (.text "2024-01-01T10:00:00+05:00") = .ok (.moment morning.naive) ∧
      readValue (start false) (.moment morning) = .ok (.moment morning) ∧
      morning.naive ≠ morning := by
  refine ⟨by decide, baseType_start false, readValue_morning, ?_, ?_, by decide⟩
  swap
  · simp [readValue, start]
  have hcolumn : columnMoment (start false) "2024-01-01T10:00:00+05:00" = .ok morning.naive := by
    rw [columnMoment, momentOfText_morning]
    rfl
  rw [readValue, if_neg (by decide)]
  show Value.moment <$> columnMoment (start false) _ = _
  rw [hcolumn]
  rfl

end Meetings

end RelGraph.Conversion
