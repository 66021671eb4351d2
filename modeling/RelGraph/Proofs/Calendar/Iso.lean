import RelGraph.Conversion
import RelGraph.Store.Binding
import RelGraph.Proofs.Calendar
import RelGraph.Proofs.Text.Bytes
import RelGraph.Proofs.Text.Numeral
/-!
Dates, times of day and moments as they are stored are read back as they were. All characters of a
stored form are plain, so each is one byte, and stands at a fixed position.
-/
namespace RelGraph.Calendar

open Text

/-! ## Numbers at positions -/

/-- The bytes of the last digits of a number, so many of them. -/
def digitBytes (width n : Nat) : List Nat := (decimals width n).map Char.toNat

theorem digitBytes_zero (n : Nat) : digitBytes 0 n = [] := rfl

theorem digitBytes_succ (width n : Nat) :
    digitBytes (width + 1) n = digitBytes width (n / 10) ++ [48 + n % 10] := by
  rw [digitBytes, decimals, List.map_append, List.map_singleton,
    toNat_digitChar (Nat.mod_lt n (by decide))]
  rfl

/-- The digits of a number stand at a position. -/
def Bytes.Spells (b : Bytes) (start : Nat) : Nat → Nat → Prop
  | 0, _ => True
  | width + 1, n => b.Spells start width (n / 10) ∧ b.at (start + width) = 48 + n % 10

theorem Bytes.digits?_of_spells {b : Bytes} {start width n : Nat} (h : b.Spells start width n)
    (hn : n < 10 ^ width) : b.digits? start width = some n := by
  induction width generalizing n with
  | zero =>
    obtain rfl : n = 0 := by simpa using hn
    rfl
  | succ width ih =>
    obtain ⟨hbefore, hlast⟩ := h
    have hrest : n / 10 < 10 ^ width := by
      rw [Nat.div_lt_iff_lt_mul (by decide)]
      simpa [Nat.pow_succ] using hn
    have hdigit : isDigitByte (48 + n % 10) = true := by
      simp [isDigitByte]
      omega
    have hfirst := ih hbefore hrest
    rw [Bytes.digits?] at hfirst ⊢
    rw [List.range_succ, List.foldl_append, hfirst]
    simp only [List.foldl_cons, List.foldl_nil, Option.bind_some, hlast, hdigit, if_true]
    congr 1
    omega

theorem bytes_of_plain {s : String} (h : ∀ c ∈ s.toList, c.toNat < 128) :
    Bytes.ofString s = ⟨(s.toList.map Char.toNat).toArray⟩ := by
  rw [Bytes.ofString, toList_bytes, String.toUTF8_eq_toByteArray, ← String.utf8Encode_toList,
    ← utf8Encode_of_plain h, ← List.map_toArray]

/-! ## Stored forms -/

/-- The characters of a stored date. -/
def dateChars (d : Date) : List Char :=
  decimals 4 d.year ++ '-' :: decimals 2 d.month ++ '-' :: decimals 2 d.day

/-- The characters of a stored time of day. -/
def clockChars (t : TimeOfDay) : List Char :=
  decimals 2 t.hour ++ ':' :: decimals 2 t.minute ++ ':' :: decimals 2 t.second ++
    '.' :: decimals 6 t.micro

theorem date_widths (d : Date) : d.year < 10 ^ 4 ∧ d.month < 10 ^ 2 ∧ d.day < 10 ^ 2 := by
  have hvalid := d.valid
  have hmonth : daysInMonth d.year d.month ≤ 31 := by
    rw [daysInMonth.eq_def]
    split <;> (try split) <;> omega
  simp only [isDate, Bool.and_eq_true, decide_eq_true_eq] at hvalid
  omega

theorem clock_widths (t : TimeOfDay) :
    t.hour < 10 ^ 2 ∧ t.minute < 10 ^ 2 ∧ t.second < 10 ^ 2 ∧ t.micro < 10 ^ 6 := by
  have := t.bounds
  omega

theorem toList_dateText (d : Date) : (dateText d).toList = dateChars d := by
  obtain ⟨hyear, hmonth, hday⟩ := date_widths d
  simp only [dateText, toString, String.toList_append, dateChars]
  rw [toList_padded (by decide) hyear, toList_padded (by decide) hmonth,
    toList_padded (by decide) hday]
  simp

theorem toList_clockText (t : TimeOfDay) :
    (Store.Binding.clockText t).toList = clockChars t := by
  obtain ⟨hhour, hminute, hsecond, hmicro⟩ := clock_widths t
  have hfraction : (if t.micro = 0 then "" else s!".{padded 6 t.micro}").toList ++
      (if t.micro = 0 then ".000000" else "").toList = '.' :: decimals 6 t.micro := by
    split
    · rename_i hnone
      rw [hnone]
      decide
    · simp [toString, toList_padded (by decide) hmicro]
  rw [Store.Binding.clockText, clockText, String.toList_append, String.toList_append,
    List.append_assoc, hfraction]
  simp only [toString, String.toList_append, clockChars]
  rw [toList_padded (by decide) hhour, toList_padded (by decide) hminute,
    toList_padded (by decide) hsecond]
  simp

/-- A stored date starts with digits, goes on with a mark, and ends with a digit. -/
theorem dateText_ends (d : Date) : ∃ rest, (dateText d).toList =
    decimals 4 d.year ++ '-' :: (rest ++ [Nat.digitChar (d.day % 10)]) :=
  ⟨decimals 2 d.month ++ '-' :: decimals 1 (d.day / 10), by
    rw [toList_dateText]
    simp [dateChars, decimals]⟩

theorem clockText_ends (t : TimeOfDay) : ∃ rest, (Store.Binding.clockText t).toList =
    decimals 2 t.hour ++ ':' :: (rest ++ [Nat.digitChar (t.micro % 10)]) :=
  ⟨decimals 2 t.minute ++ ':' :: decimals 2 t.second ++ '.' :: decimals 5 (t.micro / 10), by
    rw [toList_clockText]
    simp [clockChars, decimals]⟩

theorem toList_momentText (m : DateTime) :
    (Store.Binding.momentText m).toList = dateChars m.date ++ ' ' :: clockChars m.clock := by
  rw [Store.Binding.momentText, String.append_assoc, String.toList_append, String.toList_append,
    toList_dateText, ← toList_clockText, Store.Binding.clockText]
  simp

theorem momentText_ends (m : DateTime) : ∃ rest, (Store.Binding.momentText m).toList =
    decimals 4 m.date.year ++ '-' :: (rest ++ [Nat.digitChar (m.clock.micro % 10)]) := by
  obtain ⟨after, hafter⟩ := clockText_ends m.clock
  obtain ⟨before, hbefore⟩ := dateText_ends m.date
  refine ⟨before ++ Nat.digitChar (m.date.day % 10) :: ' ' :: (decimals 2 m.clock.hour ++
    ':' :: after), ?_⟩
  rw [toList_momentText, ← toList_dateText, ← toList_clockText, hafter, hbefore]
  simp

/-! ## Reading -/

theorem plain_of_isDigit {c : Char} (h : c.isDigit = true) : c.toNat < 128 := by
  simp only [Char.isDigit, Bool.and_eq_true, decide_eq_true_eq] at h
  have hle : c.val.toNat ≤ 57 := h.2
  show c.val.toNat < 128
  omega

theorem makeDate_parts (d : Date) : makeDate d.year d.month d.day = .ok d := by
  rw [makeDate, dif_pos d.valid]

theorem makeClock_parts (t : TimeOfDay) :
    makeClock t.hour t.minute t.second t.micro = .ok t := by
  rw [makeClock, dif_pos t.valid]

/-- The bytes of a stored date. -/
def dateBytes (d : Date) : List Nat :=
  digitBytes 4 d.year ++ 45 :: digitBytes 2 d.month ++ 45 :: digitBytes 2 d.day

theorem map_dateChars (d : Date) : (dateChars d).map Char.toNat = dateBytes d := by
  simp [dateChars, dateBytes, digitBytes]

theorem plain_dateChars (d : Date) : ∀ c ∈ dateChars d, c.toNat < 128 := by
  intro c hc
  simp only [dateChars, List.mem_append, List.mem_cons] at hc
  rcases hc with (hc | rfl | hc) | rfl | hc
  · exact plain_of_isDigit (isDigit_of_mem_decimals hc)
  · decide
  · exact plain_of_isDigit (isDigit_of_mem_decimals hc)
  · decide
  · exact plain_of_isDigit (isDigit_of_mem_decimals hc)

theorem marks_dateBytes (d : Date) (after : List Nat) :
    Bytes.isAt ⟨(dateBytes d ++ after).toArray⟩ 4 '-' = true ∧
      Bytes.isAt ⟨(dateBytes d ++ after).toArray⟩ 5 'W' = false ∧
      Bytes.isAt ⟨(dateBytes d ++ after).toArray⟩ 7 '-' = true := by
  simp [Bytes.isAt, Bytes.at, dateBytes, digitBytes_succ, digitBytes_zero]
  omega

/-- What stands behind a date does not matter to reading its parts. -/
theorem readDateParts?_dateBytes (d : Date) (after : List Nat) :
    readDateParts? ⟨(dateBytes d ++ after).toArray⟩ 10 = some (d.year, d.month, d.day) := by
  obtain ⟨hyear, hmonth, hday⟩ := date_widths d
  have hyear' := Bytes.digits?_of_spells
    (show Bytes.Spells ⟨(dateBytes d ++ after).toArray⟩ 0 4 d.year by
      simp [Bytes.Spells, Bytes.at, dateBytes, digitBytes_succ, digitBytes_zero]) hyear
  have hmonth' := Bytes.digits?_of_spells
    (show Bytes.Spells ⟨(dateBytes d ++ after).toArray⟩ 5 2 d.month by
      simp [Bytes.Spells, Bytes.at, dateBytes, digitBytes_succ, digitBytes_zero]) hmonth
  have hday' := Bytes.digits?_of_spells
    (show Bytes.Spells ⟨(dateBytes d ++ after).toArray⟩ 8 2 d.day by
      simp [Bytes.Spells, Bytes.at, dateBytes, digitBytes_succ, digitBytes_zero]) hday
  obtain ⟨hfirst, hweek, hsecond⟩ := marks_dateBytes d after
  rw [readDateParts?]
  simp [hyear', hfirst, hweek, hmonth', hsecond, hday']

/-- A stored date is read back. -/
theorem readDate_dateText (d : Date) : readDate (dateText d) = .ok d := by
  have hbytes : Bytes.ofString (dateText d) = ⟨(dateBytes d ++ []).toArray⟩ := by
    rw [bytes_of_plain (by rw [toList_dateText]; exact plain_dateChars d), toList_dateText,
      map_dateChars, List.append_nil]
  have hsize : Bytes.size ⟨(dateBytes d ++ []).toArray⟩ = 10 := by
    simp [Bytes.size, dateBytes, digitBytes_succ, digitBytes_zero]
  rw [readDate, hbytes, hsize, if_pos (by decide), readDateParts?_dateBytes]
  exact makeDate_parts d

/-- The bytes of a stored time of day. -/
def clockBytes (t : TimeOfDay) : List Nat :=
  digitBytes 2 t.hour ++ 58 :: digitBytes 2 t.minute ++ 58 :: digitBytes 2 t.second ++
    46 :: digitBytes 6 t.micro

theorem map_clockChars (t : TimeOfDay) : (clockChars t).map Char.toNat = clockBytes t := by
  simp [clockChars, clockBytes, digitBytes]

theorem plain_clockChars (t : TimeOfDay) : ∀ c ∈ clockChars t, c.toNat < 128 := by
  intro c hc
  simp only [clockChars, List.mem_append, List.mem_cons] at hc
  rcases hc with ((hc | rfl | hc) | rfl | hc) | rfl | hc
  · exact plain_of_isDigit (isDigit_of_mem_decimals hc)
  · decide
  · exact plain_of_isDigit (isDigit_of_mem_decimals hc)
  · decide
  · exact plain_of_isDigit (isDigit_of_mem_decimals hc)
  · decide
  · exact plain_of_isDigit (isDigit_of_mem_decimals hc)

/-- No byte of a stored time of day is the mark of a distance from universal time. -/
theorem zonePosition_clockBytes (t : TimeOfDay) : zonePosition ⟨(clockBytes t).toArray⟩ = 15 := by
  have hsize : Bytes.size ⟨(clockBytes t).toArray⟩ = 15 := by
    simp [Bytes.size, clockBytes, digitBytes_succ, digitBytes_zero]
  have hbetween : ∀ n ∈ clockBytes t, 46 ≤ n ∧ n ≤ 58 := by
    simp [clockBytes, digitBytes_succ, digitBytes_zero]
    omega
  rw [zonePosition, hsize, List.find?_eq_none.mpr, Option.getD_none]
  intro i hi
  have hlt : i < (clockBytes t).length := by
    have hlength : (clockBytes t).length = 15 := hsize
    rw [hlength]
    exact List.mem_range.mp hi
  have hat : Bytes.at ⟨(clockBytes t).toArray⟩ i = (clockBytes t)[i] := by
    simp [Bytes.at, hlt]
  obtain ⟨hleast, hgreatest⟩ := hbetween _ (List.getElem_mem hlt)
  simp only [Bytes.isAt, hat]
  simp
  omega

theorem readClock?_clockBytes (t : TimeOfDay) : readClock? ⟨(clockBytes t).toArray⟩ 0 15 =
    some ⟨t.hour, t.minute, t.second, t.micro, false⟩ := by
  obtain ⟨hhour, hminute, hsecond, hmicro⟩ := clock_widths t
  have hhour' := Bytes.digits?_of_spells (show Bytes.Spells ⟨(clockBytes t).toArray⟩ 0 2 t.hour by
    simp [Bytes.Spells, Bytes.at, clockBytes, digitBytes_succ, digitBytes_zero]) hhour
  have hminute' := Bytes.digits?_of_spells
    (show Bytes.Spells ⟨(clockBytes t).toArray⟩ 3 2 t.minute by
      simp [Bytes.Spells, Bytes.at, clockBytes, digitBytes_succ, digitBytes_zero]) hminute
  have hsecond' := Bytes.digits?_of_spells
    (show Bytes.Spells ⟨(clockBytes t).toArray⟩ 6 2 t.second by
      simp [Bytes.Spells, Bytes.at, clockBytes, digitBytes_succ, digitBytes_zero]) hsecond
  have hmicro' := Bytes.digits?_of_spells
    (show Bytes.Spells ⟨(clockBytes t).toArray⟩ 9 6 t.micro by
      simp [Bytes.Spells, Bytes.at, clockBytes, digitBytes_succ, digitBytes_zero]) hmicro
  have hmarks : Bytes.at ⟨(clockBytes t).toArray⟩ 2 = 58 ∧
      Bytes.at ⟨(clockBytes t).toArray⟩ 5 = 58 ∧ Bytes.at ⟨(clockBytes t).toArray⟩ 8 = 46 ∧
      Bytes.at ⟨(clockBytes t).toArray⟩ 15 = 0 := by
    simp [Bytes.at, clockBytes, digitBytes_succ, digitBytes_zero]
  have hrun : Bytes.digitRun ⟨(clockBytes t).toArray⟩ 15 = 0 := by
    simp [Bytes.digitRun, Bytes.size, clockBytes, digitBytes_succ, digitBytes_zero]
  obtain ⟨hfirst, hnext, hpoint, hend⟩ := hmarks
  rw [readClock?]
  simp [hhour', hminute', hsecond', hfirst, hnext, hpoint, readFraction?, hmicro', hrun, hend]

theorem readTimeParts?_clockBytes (t : TimeOfDay) : readTimeParts? ⟨(clockBytes t).toArray⟩ =
    some (⟨t.hour, t.minute, t.second, t.micro, false⟩, none) := by
  have hsize : Bytes.size ⟨(clockBytes t).toArray⟩ = 15 := by
    simp [Bytes.size, clockBytes, digitBytes_succ, digitBytes_zero]
  rw [readTimeParts?, zonePosition_clockBytes, readClock?_clockBytes, hsize]
  rfl

/-- A stored time of day is read back. -/
theorem readTime_clockText (t : TimeOfDay) :
    readTime (Store.Binding.clockText t) = .ok ⟨t, none⟩ := by
  have hbytes : Bytes.ofString (Store.Binding.clockText t) = ⟨(clockBytes t).toArray⟩ := by
    rw [bytes_of_plain (by rw [toList_clockText]; exact plain_clockChars t), toList_clockText,
      map_clockChars]
  have hmark : Bytes.isAt ⟨(clockBytes t).toArray⟩ 0 'T' = false := by
    simp [Bytes.isAt, Bytes.at, clockBytes, digitBytes_succ, digitBytes_zero]
    omega
  unfold readTime
  rw [hbytes]
  simp only [hmark, Bool.false_eq_true, if_false, readTimeParts?_clockBytes, makeOffset,
    makeClock_parts]
  rfl

/-- A stored moment is read back, without its distance from universal time. -/
theorem readMoment_momentText (m : DateTime) :
    readMoment (Store.Binding.momentText m) = .ok m.naive := by
  have hbytes : Bytes.ofString (Store.Binding.momentText m) =
      ⟨(dateBytes m.date ++ 32 :: clockBytes m.clock).toArray⟩ := by
    have hplain : ∀ c ∈ dateChars m.date ++ ' ' :: clockChars m.clock, c.toNat < 128 := by
      intro c hc
      rcases List.mem_append.mp hc with hc | hc
      · exact plain_dateChars _ c hc
      · rcases List.mem_cons.mp hc with rfl | hc
        · decide
        · exact plain_clockChars _ c hc
    rw [bytes_of_plain (by rw [toList_momentText]; exact hplain), toList_momentText,
      List.map_append, List.map_cons, map_dateChars, map_clockChars]
    rfl
  have hsize : Bytes.size ⟨(dateBytes m.date ++ 32 :: clockBytes m.clock).toArray⟩ = 26 := by
    simp [Bytes.size, dateBytes, clockBytes, digitBytes_succ, digitBytes_zero]
  have hspace : Bytes.at ⟨(dateBytes m.date ++ 32 :: clockBytes m.clock).toArray⟩ 10 = 32 := by
    simp [Bytes.at, dateBytes, digitBytes_succ, digitBytes_zero]
  have hrest : Bytes.from ⟨(dateBytes m.date ++ 32 :: clockBytes m.clock).toArray⟩ 11 =
      ⟨(clockBytes m.clock).toArray⟩ := by
    simp [Bytes.from, dateBytes, digitBytes_succ, digitBytes_zero]
  obtain ⟨hfirst, hweek, -⟩ := marks_dateBytes m.date (32 :: clockBytes m.clock)
  have hlength : dateLength ⟨(dateBytes m.date ++ 32 :: clockBytes m.clock).toArray⟩ =
      some 10 := by
    rw [dateLength, hsize, hfirst, hweek]
    rfl
  have hskip : 10 + characterLength 32 = 11 := rfl
  rw [readMoment, hbytes, hsize, hlength, if_neg (by decide)]
  simp only [readDateParts?_dateBytes]
  rw [if_neg (by decide)]
  simp only [hspace, hskip, hrest, readTimeParts?_clockBytes, makeOffset, makeDate_parts,
    makeClock_parts]
  rfl

end RelGraph.Calendar
