import RelGraph.Calendar
/-!
Days in their order. A date comes before another one when its day number does, and so dates, times
of day and moments are told apart by the numbers that stand for them.
-/
namespace RelGraph

namespace Calendar

/-! ## Days -/

theorem daysBeforeMonth_succ (year : Nat) {month : Nat} (h : 1 ≤ month) :
    daysBeforeMonth year (month + 1) = daysBeforeMonth year month + daysInMonth year month := by
  obtain ⟨m, rfl⟩ := Nat.exists_eq_add_of_le' h
  simp only [daysBeforeMonth, Nat.add_sub_cancel, List.range_succ, List.foldl_append,
    List.foldl_cons, List.foldl_nil]

theorem daysBeforeMonth_of_lt (year : Nat) {month later : Nat} (hmonth : 1 ≤ month)
    (h : month < later) :
    daysBeforeMonth year month + daysInMonth year month ≤ daysBeforeMonth year later := by
  induction h with
  | refl => exact Nat.le_of_eq (daysBeforeMonth_succ year hmonth).symm
  | @step later hle ih =>
    have hlater : month < later := hle
    rw [daysBeforeMonth_succ year (by omega)]
    omega

theorem daysBeforeMonth_thirteen (year : Nat) :
    daysBeforeMonth year 13 = if isLeap year then 366 else 365 := by
  cases h : isLeap year <;> simp [daysBeforeMonth, List.range_succ, daysInMonth, h]

theorem daysBeforeYear_succ {year : Nat} (h : 1 ≤ year) :
    daysBeforeYear (year + 1) = daysBeforeYear year + daysBeforeMonth year 13 := by
  obtain ⟨past, rfl⟩ := Nat.exists_eq_add_of_le' h
  rw [daysBeforeMonth_thirteen]
  have hleap : isLeap (past + 1) = true ↔
      4 ∣ past + 1 ∧ (¬ 100 ∣ past + 1 ∨ 400 ∣ past + 1) := by
    simp [isLeap, Nat.dvd_iff_mod_eq_zero]
  have hcentury : 100 ∣ past + 1 → 4 ∣ past + 1 := Nat.dvd_trans (by decide)
  have hfour : 400 ∣ past + 1 → 100 ∣ past + 1 := Nat.dvd_trans (by decide)
  have hpast : past / 100 ≤ past := Nat.div_le_self _ _
  simp only [daysBeforeYear, Nat.add_sub_cancel, hleap, Nat.succ_div]
  by_cases h₄ : 4 ∣ past + 1 <;> by_cases h₁ : 100 ∣ past + 1 <;>
    by_cases h₀ : 400 ∣ past + 1 <;> simp only [h₄, h₁, h₀, if_true, if_false] <;>
    first
    | exact absurd (hcentury h₁) h₄
    | exact absurd (hfour h₀) h₁
    | simp only [not_true, not_false_iff, true_and, false_and, or_true, true_or, or_self,
        if_true, if_false]
      omega

/-- The days of a year come before those of a later one. -/
theorem daysBeforeYear_of_lt {year later : Nat} (hyear : 1 ≤ year) (h : year < later) :
    daysBeforeYear year + daysBeforeMonth year 13 ≤ daysBeforeYear later := by
  induction h with
  | refl => exact Nat.le_of_eq (daysBeforeYear_succ hyear).symm
  | @step later hle ih =>
    have hlater : year < later := hle
    rw [daysBeforeYear_succ (by omega)]
    omega

end Calendar

open Calendar

theorem Date.bounds (d : Date) : 1 ≤ d.year ∧ 1 ≤ d.month ∧ d.month ≤ 12 ∧ 1 ≤ d.day ∧
    d.day ≤ daysInMonth d.year d.month := by
  have h := d.valid
  simp only [isDate, Bool.and_eq_true, decide_eq_true_eq] at h
  omega

theorem TimeOfDay.bounds (t : TimeOfDay) :
    t.hour ≤ 23 ∧ t.minute ≤ 59 ∧ t.second ≤ 59 ∧ t.micro ≤ 999999 := by
  have h := t.valid
  simp only [isTimeOfDay, Bool.and_eq_true, decide_eq_true_eq] at h
  omega

/-- The number of a date. -/
def Date.number (d : Date) : Nat := dayNumber d.year d.month d.day

/-- A date of a year has a number beyond those of all earlier years, and at most that of its last
day. -/
theorem Date.number_bounds (d : Date) : daysBeforeYear d.year < d.number ∧
    d.number ≤ daysBeforeYear d.year + daysBeforeMonth d.year 13 := by
  obtain ⟨-, hmonth, hlast, hday, hend⟩ := d.bounds
  have hbefore := daysBeforeMonth_of_lt d.year hmonth (show d.month < 13 by omega)
  simp only [number, dayNumber]
  omega

theorem Date.number_injective {a b : Date} (h : a.number = b.number) : a = b := by
  have hyear : a.year = b.year := by
    have ha := a.number_bounds
    have hb := b.number_bounds
    rcases Nat.lt_trichotomy a.year b.year with hlt | heq | hlt
    · have := daysBeforeYear_of_lt a.bounds.1 hlt
      omega
    · exact heq
    · have := daysBeforeYear_of_lt b.bounds.1 hlt
      omega
  obtain ⟨year, month, day, hvalid⟩ := a
  obtain ⟨year', month', day', hvalid'⟩ := b
  obtain rfl : year = year' := hyear
  obtain ⟨-, hmonth, -, hday, hend⟩ := Date.bounds ⟨year, month, day, hvalid⟩
  obtain ⟨-, hmonth', -, hday', hend'⟩ := Date.bounds ⟨year, month', day', hvalid'⟩
  simp only [number, dayNumber] at h hmonth hmonth' hday hday' hend hend'
  have hsame : month = month' := by
    rcases Nat.lt_trichotomy month month' with hlt | heq | hlt
    · have := daysBeforeMonth_of_lt year hmonth hlt
      omega
    · exact heq
    · have := daysBeforeMonth_of_lt year hmonth' hlt
      omega
  subst hsame
  obtain rfl : day = day' := by omega
  rfl

/-! ## Times of day and moments -/

theorem TimeOfDay.micros_lt (t : TimeOfDay) : t.micros < microsPerDay := by
  have := t.bounds
  simp only [micros, microsPerDay]
  omega

theorem TimeOfDay.micros_injective {a b : TimeOfDay} (h : a.micros = b.micros) : a = b := by
  have ha := a.bounds
  have hb := b.bounds
  obtain ⟨hour, minute, second, micro, hvalid⟩ := a
  obtain ⟨hour', minute', second', micro', hvalid'⟩ := b
  simp only [micros] at h ha hb
  obtain ⟨rfl, rfl, rfl, rfl⟩ :
      hour = hour' ∧ minute = minute' ∧ second = second' ∧ micro = micro' := by omega
  rfl

/-- Moments at the same distance from universal time are told apart by their instants. -/
theorem DateTime.eq_of_instant {a b : DateTime} (hoffset : a.offset = b.offset)
    (h : a.instant = b.instant) : a = b := by
  obtain ⟨date, clock, offset⟩ := a
  obtain ⟨date', clock', offset'⟩ := b
  obtain rfl : offset = offset' := hoffset
  have hclock := clock.micros_lt
  have hclock' := clock'.micros_lt
  have hsum : date.number * microsPerDay + clock.micros =
      date'.number * microsPerDay + clock'.micros := by
    simp only [instant, instant.dayNumber, instant.microsPerDay, Date.number] at h ⊢
    omega
  simp only [microsPerDay] at hsum hclock hclock'
  obtain rfl : date = date' := Date.number_injective (by omega)
  obtain rfl : clock = clock' := TimeOfDay.micros_injective (by omega)
  rfl

end RelGraph
