import RelGraph.Proofs.Calendar.Iso
/-!
Times of day and moments as they go out are read back as they were, with the distance from universal
time that stands behind them. Only a distance of less than a second is lost: it is read as none.
What is written consists of numbers of fixed width and of marks between them, so that everything
stands at a known position, and the first sign of a time of day is that of its distance.
-/
namespace RelGraph.Calendar

open Text

/-! ## Bytes at positions -/

theorem length_decimals (width n : Nat) : (decimals width n).length = width := by
  induction width generalizing n with
  | zero => rfl
  | succ width ih => rw [decimals, List.length_append, ih, List.length_singleton]

theorem length_digitBytes (width n : Nat) : (digitBytes width n).length = width := by
  rw [digitBytes, List.length_map, length_decimals]

theorem digitBytes_bounds {width n d : Nat} (h : d ∈ digitBytes width n) : 48 ≤ d ∧ d ≤ 57 := by
  induction width generalizing n with
  | zero => simp [digitBytes_zero] at h
  | succ width ih =>
    rw [digitBytes_succ, List.mem_append, List.mem_singleton] at h
    rcases h with h | rfl
    · exact ih h
    · omega

section Positions

variable {b : Bytes} {before after : List Nat} {start : Nat}

theorem Bytes.at_append (before after : List Nat) (i : Nat) :
    Bytes.at ⟨(before ++ after).toArray⟩ (before.length + i) = after.getD i 0 := by
  simp [Bytes.at, Array.getD_eq_getD_getElem?, List.getElem?_append_right]

theorem Bytes.at_of_eq {c : Nat} (h : b = ⟨(before ++ c :: after).toArray⟩)
    (hstart : start = before.length) : b.at start = c := by
  subst h hstart
  simpa using at_append before (c :: after) 0

/-- The digits of a number stand where they are written. -/
theorem Bytes.spells_digitBytes (before after : List Nat) (width n : Nat) :
    Bytes.Spells ⟨(before ++ (digitBytes width n ++ after)).toArray⟩ before.length width n := by
  induction width generalizing n after with
  | zero => trivial
  | succ width ih =>
    rw [digitBytes_succ, List.append_assoc]
    refine ⟨ih _ _, ?_⟩
    have hlast := at_append (before ++ digitBytes width (n / 10)) ((48 + n % 10) :: after) 0
    rw [List.length_append, length_digitBytes] at hlast
    simpa using hlast

end Positions

/-! ## Clocks

A clock is an hour and a minute, and perhaps a second, and perhaps a fraction of it. -/

/-- How much of a clock is written. -/
inductive Precision
  | minutes
  | seconds
  | micros

/-- The bytes of a clock. -/
def Precision.bytes (hour minute second micro : Nat) : Precision → List Nat
  | minutes => digitBytes 2 hour ++ 58 :: digitBytes 2 minute
  | seconds => digitBytes 2 hour ++ 58 :: digitBytes 2 minute ++ 58 :: digitBytes 2 second
  | micros => digitBytes 2 hour ++ 58 :: digitBytes 2 minute ++ 58 :: digitBytes 2 second ++
      46 :: digitBytes 6 micro

/-- Whether a precision shows all there is of a second. -/
def Precision.Shows (second micro : Nat) : Precision → Prop
  | minutes => second = 0 ∧ micro = 0
  | seconds => micro = 0
  | micros => True

section Clocks

variable {b : Bytes} {before after : List Nat} {start hour minute second micro : Nat}

theorem Precision.bytes_between {p : Precision} {n : Nat}
    (h : n ∈ p.bytes hour minute second micro) : 46 ≤ n ∧ n ≤ 58 := by
  have hdigits : ∀ {width k}, n ∈ digitBytes width k → 46 ≤ n ∧ n ≤ 58 := fun hmem => by
    have := digitBytes_bounds hmem
    omega
  cases p <;> simp only [bytes, List.mem_append, List.mem_cons] at h <;>
    rcases h with h | h <;> grind

theorem Bytes.digitRun_eq_zero (h : isDigitByte (b.at start) = false) : b.digitRun start = 0 := by
  rw [digitRun]
  cases b.size - start with
  | zero => rfl
  | succ left => rw [List.range_succ_eq_map, List.takeWhile_cons_of_neg (by simp [h])]; rfl

/-- A clock is read from where it stands. What is left behind it counts unless it is nothing; it is
no digit, else a fraction would go on. -/
theorem readClock?_bytes (before after : List Nat) (p : Precision) (hshows : p.Shows second micro)
    (hhour : hour < 10 ^ 2) (hminute : minute < 10 ^ 2) (hsecond : second < 10 ^ 2)
    (hmicro : micro < 10 ^ 6) (hafter : isDigitByte (after.getD 0 0) = false)
    (hb : b = ⟨(before ++ (p.bytes hour minute second micro ++ after)).toArray⟩)
    (hstart : start = before.length) :
    readClock? b start (start + (p.bytes hour minute second micro).length) =
      some ⟨hour, minute, second, micro, after.getD 0 0 ≠ 0⟩ := by
  have hat : ∀ i, b.at (start + i) = (p.bytes hour minute second micro ++ after).getD i 0 := by
    subst hb hstart
    exact Bytes.at_append before _
  have hfirst : b.at start = (p.bytes hour minute second micro ++ after).getD 0 0 := hat 0
  have hhour' : b.digits? start 2 = some hour := Bytes.digits?_of_spells (by
    cases p <;> simp [Bytes.Spells, hat, hfirst, Precision.bytes, digitBytes_succ, digitBytes_zero])
    hhour
  have hminute' : b.digits? (start + 3) 2 = some minute := Bytes.digits?_of_spells (by
    cases p <;>
      simp [Bytes.Spells, hat, Nat.add_assoc, Precision.bytes, digitBytes_succ, digitBytes_zero])
    hminute
  have hmark : b.at (start + 2) = 58 := by
    cases p <;> simp [hat, Precision.bytes, digitBytes_succ, digitBytes_zero]
  cases p with
  | minutes =>
    obtain ⟨rfl, rfl⟩ := hshows
    have hnext : b.at (start + 5) = after.getD 0 0 := by
      simp [hat, Precision.bytes, digitBytes_succ, digitBytes_zero]
    rw [readClock?, hhour']
    simp [Precision.bytes, length_digitBytes, hmark, hminute', Nat.add_assoc, hnext]
  | seconds =>
    obtain rfl := hshows
    have hsecond' : b.digits? (start + 6) 2 = some second := Bytes.digits?_of_spells (by
      simp [Bytes.Spells, hat, Nat.add_assoc, Precision.bytes, digitBytes_succ, digitBytes_zero])
      hsecond
    have hnext : b.at (start + 5) = 58 ∧ b.at (start + 8) = after.getD 0 0 := by
      simp [hat, Precision.bytes, digitBytes_succ, digitBytes_zero]
    rw [readClock?, hhour']
    simp [Precision.bytes, length_digitBytes, hmark, hminute', hsecond', Nat.add_assoc, hnext]
  | micros =>
    have hsecond' : b.digits? (start + 6) 2 = some second := Bytes.digits?_of_spells (by
      simp [Bytes.Spells, hat, Nat.add_assoc, Precision.bytes, digitBytes_succ, digitBytes_zero])
      hsecond
    have hmicro' : b.digits? (start + 9) 6 = some micro := Bytes.digits?_of_spells (by
      simp [Bytes.Spells, hat, Nat.add_assoc, Precision.bytes, digitBytes_succ, digitBytes_zero])
      hmicro
    have hnext : b.at (start + 5) = 58 ∧ b.at (start + 8) = 46 ∧
        b.at (start + 15) = after.getD 0 0 := by
      simp [hat, Precision.bytes, digitBytes_succ, digitBytes_zero]
    have hrun : b.digitRun (start + 15) = 0 := Bytes.digitRun_eq_zero (by rw [hnext.2.2, hafter])
    rw [readClock?, hhour']
    simp [Precision.bytes, length_digitBytes, hmark, hminute', hsecond', Nat.add_assoc, hnext,
      readFraction?, hmicro', hrun]

/-- The distance of a clock stands behind it, if there is one. -/
theorem zonePosition_bytes {p : Precision} (hmark : ∀ c ∈ after.head?, c = 43 ∨ c = 45 ∨ c = 90) :
    zonePosition ⟨(p.bytes hour minute second micro ++ after).toArray⟩ =
      (p.bytes hour minute second micro).length := by
  have hbefore : ∀ i < (p.bytes hour minute second micro).length,
      46 ≤ Bytes.at ⟨(p.bytes hour minute second micro ++ after).toArray⟩ i ∧
        Bytes.at ⟨(p.bytes hour minute second micro ++ after).toArray⟩ i ≤ 58 := by
    intro i hi
    have hat : Bytes.at ⟨(p.bytes hour minute second micro ++ after).toArray⟩ i =
        (p.bytes hour minute second micro)[i] := by
      simp [Bytes.at, Array.getD_eq_getD_getElem?, List.getElem?_append_left hi, hi]
    rw [hat]
    exact Precision.bytes_between (List.getElem_mem hi)
  rw [zonePosition]
  cases after with
  | nil =>
    rw [List.find?_eq_none.mpr]
    · simp [Bytes.size]
    · intro i hi
      have hbounds := hbefore i (by simpa [Bytes.size] using hi)
      simp only [Bytes.isAt]
      simp only [List.append_nil] at hbounds ⊢
      simp
      omega
  | cons c after =>
    have hat : Bytes.at ⟨(p.bytes hour minute second micro ++ c :: after).toArray⟩
        (p.bytes hour minute second micro).length = c := by
      simpa using Bytes.at_append (p.bytes hour minute second micro) (c :: after) 0
    have hc := hmark c rfl
    rw [(List.find?_range_eq_some (i := (p.bytes hour minute second micro).length)).mpr
      ⟨?_, ?_, ?_⟩, Option.getD_some]
    · simp only [Bytes.isAt, hat]
      simp
      omega
    · simp [Bytes.size]
    · intro i hi
      have hbounds := hbefore i hi
      simp only [Bytes.isAt]
      simp
      omega

end Clocks

/-! ## What is written -/

/-- The characters of a clock. -/
def Precision.chars (hour minute second micro : Nat) : Precision → List Char
  | minutes => decimals 2 hour ++ ':' :: decimals 2 minute
  | seconds => decimals 2 hour ++ ':' :: decimals 2 minute ++ ':' :: decimals 2 second
  | micros => decimals 2 hour ++ ':' :: decimals 2 minute ++ ':' :: decimals 2 second ++
      '.' :: decimals 6 micro

theorem Precision.map_chars (hour minute second micro : Nat) (p : Precision) :
    (p.chars hour minute second micro).map Char.toNat = p.bytes hour minute second micro := by
  cases p <;> simp [chars, bytes, digitBytes]

theorem Precision.mem_chars {p : Precision} {hour minute second micro : Nat} {c : Char}
    (h : c ∈ p.chars hour minute second micro) : c.isDigit = true ∨ c = ':' ∨ c = '.' := by
  have hdigits : ∀ {width n}, c ∈ decimals width n → c.isDigit = true ∨ c = ':' ∨ c = '.' :=
    fun hmem => .inl (isDigit_of_mem_decimals hmem)
  cases p <;> simp only [chars, List.mem_append, List.mem_cons] at h
  · rcases h with h | rfl | h
    exacts [hdigits h, .inr (.inl rfl), hdigits h]
  · rcases h with (h | rfl | h) | rfl | h
    exacts [hdigits h, .inr (.inl rfl), hdigits h, .inr (.inl rfl), hdigits h]
  · rcases h with ((h | rfl | h) | rfl | h) | rfl | h
    exacts [hdigits h, .inr (.inl rfl), hdigits h, .inr (.inl rfl), hdigits h, .inr (.inr rfl),
      hdigits h]

/-- How much of a time of day is written. -/
def clockPrecision (t : TimeOfDay) : Precision := if t.micro = 0 then .seconds else .micros

/-- How much of a distance from universal time is written. -/
def offsetPrecision (o : Offset) : Precision :=
  if o.natAbs % 1000000 = 0 then
    if o.natAbs / 1000000 % 60 = 0 then .minutes else .seconds
  else .micros

theorem shows_clockPrecision (t : TimeOfDay) : (clockPrecision t).Shows t.second t.micro := by
  rw [clockPrecision]
  split
  · assumption
  · trivial

theorem shows_offsetPrecision (o : Offset) :
    (offsetPrecision o).Shows (o.natAbs / 1000000 % 60) (o.natAbs % 1000000) := by
  rw [offsetPrecision]
  split
  · rename_i hnone
    split
    · exact ⟨‹_›, hnone⟩
    · exact hnone
  · trivial

/-- The characters of a time of day, with its distance from universal time. -/
def timeChars (t : Time) : List Char :=
  (clockPrecision t.clock).chars t.clock.hour t.clock.minute t.clock.second t.clock.micro ++
    (t.offset.map fun o => (if o < 0 then '-' else '+') ::
      (offsetPrecision o).chars (o.natAbs / 1000000 / 3600) (o.natAbs / 1000000 / 60 % 60)
        (o.natAbs / 1000000 % 60) (o.natAbs % 1000000)).getD []

/-- The bytes of the time of day alone. -/
def shownClock (t : TimeOfDay) : List Nat :=
  (clockPrecision t).bytes t.hour t.minute t.second t.micro

/-- The bytes of a distance from universal time, less its sign. -/
def shownDistance (o : Offset) : List Nat :=
  (offsetPrecision o).bytes (o.natAbs / 1000000 / 3600) (o.natAbs / 1000000 / 60 % 60)
    (o.natAbs / 1000000 % 60) (o.natAbs % 1000000)

/-- The byte of the sign of a distance. -/
def signByte (o : Offset) : Nat := if o < 0 then 45 else 43

/-- The bytes of a time of day, with its distance from universal time. -/
def timeBytes (t : Time) : List Nat :=
  shownClock t.clock ++ (t.offset.map fun o => signByte o :: shownDistance o).getD []

/-- Less than a day, if there is one. -/
def Offset.Small (offset : Option Offset) : Prop := ∀ o ∈ offset, o.natAbs < microsPerDay

theorem offset_widths {o : Offset} (h : o.natAbs < microsPerDay) :
    o.natAbs / 1000000 / 3600 < 10 ^ 2 ∧ o.natAbs / 1000000 / 60 % 60 < 10 ^ 2 ∧
      o.natAbs / 1000000 % 60 < 10 ^ 2 ∧ o.natAbs % 1000000 < 10 ^ 6 := by
  rw [microsPerDay] at h
  omega

theorem toList_wholeClockText (t : TimeOfDay) : (clockText t).toList =
    (clockPrecision t).chars t.hour t.minute t.second t.micro := by
  obtain ⟨hhour, hminute, hsecond, hmicro⟩ := clock_widths t
  have hhour' := toList_padded (by decide) hhour
  have hminute' := toList_padded (by decide) hminute
  have hsecond' := toList_padded (by decide) hsecond
  have hmicro' := toList_padded (by decide) hmicro
  rw [clockText, clockPrecision]
  split <;> simp [Precision.chars, toString, hhour', hminute', hsecond', hmicro']

theorem toList_offsetText {o : Offset} (h : o.natAbs < microsPerDay) :
    (offsetText o).toList = (if o < 0 then '-' else '+') ::
      (offsetPrecision o).chars (o.natAbs / 1000000 / 3600) (o.natAbs / 1000000 / 60 % 60)
        (o.natAbs / 1000000 % 60) (o.natAbs % 1000000) := by
  obtain ⟨hhour, hminute, hsecond, hmicro⟩ := offset_widths h
  have hhour' := toList_padded (by decide) hhour
  have hminute' := toList_padded (by decide) hminute
  have hsecond' := toList_padded (by decide) hsecond
  have hmicro' := toList_padded (by decide) hmicro
  have hsign : (if o < 0 then "-" else "+").toList = [if o < 0 then '-' else '+'] := by
    split <;> rfl
  rw [offsetText, offsetPrecision]
  by_cases hnone : o.natAbs % 1000000 = 0
  · by_cases hwhole : o.natAbs / 1000000 % 60 = 0 <;>
      simp [Precision.chars, toString, hhour', hminute', hsecond', hsign, hnone, hwhole]
  · simp [Precision.chars, toString, hhour', hminute', hsecond', hmicro', hsign, hnone]

theorem toList_timeText {t : Time} (h : Offset.Small t.offset) :
    (timeText t).toList = timeChars t := by
  rw [timeText, timeChars, String.toList_append, toList_wholeClockText]
  cases hoffset : t.offset with
  | none => rfl
  | some o => simp [toList_offsetText (h o hoffset)]

theorem map_timeChars (t : Time) : (timeChars t).map Char.toNat = timeBytes t := by
  rw [timeChars, timeBytes, List.map_append, Precision.map_chars]
  cases t.offset with
  | none => rfl
  | some o =>
    simp only [Option.map_some, Option.getD_some, signByte, shownDistance, List.map_cons,
      Precision.map_chars]
    split <;> rfl

/-- Whether a character is a digit or one of the marks in times and moments. -/
def isIsoChar (c : Char) : Bool := c.isDigit || [':', '.', '+', '-', 'T'].contains c

theorem plain_of_isIsoChar {c : Char} (h : isIsoChar c = true) : c.toNat < 128 := by
  rcases Bool.or_eq_true_iff.mp h with h | h
  · exact plain_of_isDigit h
  · simp only [List.contains_iff_mem, List.mem_cons, List.not_mem_nil, or_false] at h
    rcases h with rfl | rfl | rfl | rfl | rfl <;> decide

theorem isIsoChar_dateChars (d : Date) : ∀ c ∈ dateChars d, isIsoChar c = true := by
  intro c hc
  have hdigits : ∀ {width n}, c ∈ decimals width n → isIsoChar c = true := fun hmem => by
    simp [isIsoChar, isDigit_of_mem_decimals hmem]
  simp only [dateChars, List.mem_append, List.mem_cons] at hc
  rcases hc with (hc | rfl | hc) | rfl | hc
  exacts [hdigits hc, by decide, hdigits hc, by decide, hdigits hc]

theorem isIsoChar_timeChars (t : Time) : ∀ c ∈ timeChars t, isIsoChar c = true := by
  intro c hc
  have hclock : ∀ {p : Precision} {hour minute second micro : Nat},
      c ∈ p.chars hour minute second micro → isIsoChar c = true := fun hmem => by
    rcases Precision.mem_chars hmem with h | rfl | rfl
    · simp [isIsoChar, h]
    · decide
    · decide
  rcases List.mem_append.mp hc with hc | hc
  · exact hclock hc
  · cases hoffset : t.offset with
    | none => simp [hoffset] at hc
    | some o =>
      rw [hoffset, Option.map_some, Option.getD_some, List.mem_cons] at hc
      rcases hc with rfl | hc
      · split <;> decide
      · exact hclock hc

/-! ## Reading -/

/-- A distance from universal time as it is read back: less than a second is none. -/
def readBack (o : Offset) : Offset := if o.natAbs < 1000000 then 0 else o

theorem wholeSeconds (n : Nat) :
    (n / 1000000 / 3600 * 60 + n / 1000000 / 60 % 60) * 60 + n / 1000000 % 60 = n / 1000000 := by
  omega

theorem signed_readBack (o : Int) :
    (if o < 0 then
      -(if o.natAbs / 1000000 = 0 then 0
        else ((o.natAbs / 1000000 : Nat) : Int) * 1000000 + ((o.natAbs % 1000000 : Nat) : Int))
    else
      if o.natAbs / 1000000 = 0 then 0
      else ((o.natAbs / 1000000 : Nat) : Int) * 1000000 + ((o.natAbs % 1000000 : Nat) : Int)) =
    readBack o := by
  rw [readBack]
  split <;> split <;> split <;> omega

section Times

variable (clock : TimeOfDay) {o : Offset}

theorem readClock?_shownClock (after : List Nat) (hafter : isDigitByte (after.getD 0 0) = false) :
    readClock? ⟨(shownClock clock ++ after).toArray⟩ 0 (shownClock clock).length =
      some ⟨clock.hour, clock.minute, clock.second, clock.micro, after.getD 0 0 ≠ 0⟩ := by
  obtain ⟨hhour, hminute, hsecond, hmicro⟩ := clock_widths clock
  simpa [shownClock] using readClock?_bytes [] after _ (shows_clockPrecision clock) hhour hminute
    hsecond hmicro hafter rfl rfl

/-- What stands behind the sign of a distance is read up to the end. -/
theorem readClock?_shownDistance (before : List Nat) (h : o.natAbs < microsPerDay) :
    readClock? ⟨(before ++ signByte o :: shownDistance o).toArray⟩ (before.length + 1)
        (before.length + 1 + (shownDistance o).length) =
      some ⟨o.natAbs / 1000000 / 3600, o.natAbs / 1000000 / 60 % 60, o.natAbs / 1000000 % 60,
        o.natAbs % 1000000, false⟩ := by
  obtain ⟨hhour, hminute, hsecond, hmicro⟩ := offset_widths h
  exact readClock?_bytes (before ++ [signByte o]) [] _ (shows_offsetPrecision o) hhour hminute
    hsecond hmicro (by decide) (by simp [shownDistance]) (by simp)

theorem readTimeParts?_alone : readTimeParts? ⟨(shownClock clock).toArray⟩ =
    some (⟨clock.hour, clock.minute, clock.second, clock.micro, false⟩, none) := by
  have hzone : zonePosition ⟨(shownClock clock ++ []).toArray⟩ = (shownClock clock).length :=
    zonePosition_bytes (by simp)
  have hclock := readClock?_shownClock clock [] (by decide)
  rw [List.append_nil] at hclock hzone
  rw [readTimeParts?, hzone, hclock]
  simp [Bytes.size]

theorem readTimeParts?_distant (h : o.natAbs < microsPerDay) :
    readTimeParts? ⟨(shownClock clock ++ signByte o :: shownDistance o).toArray⟩ =
      some (⟨clock.hour, clock.minute, clock.second, clock.micro, true⟩, some (readBack o)) := by
  have hsign : signByte o = 45 ∧ o < 0 ∨ signByte o = 43 ∧ ¬o < 0 := by
    rw [signByte]
    split <;> simp [*]
  have hzone : zonePosition ⟨(shownClock clock ++ signByte o :: shownDistance o).toArray⟩ =
      (shownClock clock).length :=
    zonePosition_bytes (by simp; omega)
  have hclock := readClock?_shownClock clock (signByte o :: shownDistance o)
    (by rcases hsign with ⟨hs, -⟩ | ⟨hs, -⟩ <;> rw [List.getD_cons_zero, hs] <;> rfl)
  have hat : Bytes.at ⟨(shownClock clock ++ signByte o :: shownDistance o).toArray⟩
      (shownClock clock).length = signByte o := Bytes.at_of_eq rfl rfl
  have hsize : Bytes.size ⟨(shownClock clock ++ signByte o :: shownDistance o).toArray⟩ =
      (shownClock clock).length + 1 + (shownDistance o).length := by
    simp [Bytes.size]
    omega
  have hno : Bytes.isAt ⟨(shownClock clock ++ signByte o :: shownDistance o).toArray⟩
      (shownClock clock).length 'Z' = false := by
    rw [Bytes.isAt, hat]
    rcases hsign with ⟨hs, -⟩ | ⟨hs, -⟩ <;> rw [hs] <;> rfl
  have hminus : Bytes.isAt ⟨(shownClock clock ++ signByte o :: shownDistance o).toArray⟩
      (shownClock clock).length '-' = decide (o < 0) := by
    rw [Bytes.isAt, hat]
    rcases hsign with ⟨hs, ho⟩ | ⟨hs, ho⟩ <;> rw [hs] <;> simp [ho]
  have htail : decide ((signByte o :: shownDistance o).getD 0 0 ≠ 0) = true := by
    rw [List.getD_cons_zero]
    simp
    omega
  rw [readTimeParts?, hzone, hclock, hsize, Option.bind_eq_bind, Option.bind_some]
  dsimp only
  rw [if_neg (by omega), readClock?_shownDistance _ h, Option.bind_some, hno, hminus, htail,
    ← signed_readBack]
  simp [wholeSeconds]

end Times

/-- The parts of a time of day are read as they were written. -/
theorem readTimeParts?_timeBytes {t : Time} (h : Offset.Small t.offset) :
    readTimeParts? ⟨(timeBytes t).toArray⟩ =
      some (⟨t.clock.hour, t.clock.minute, t.clock.second, t.clock.micro, t.offset.isSome⟩,
        t.offset.map readBack) := by
  obtain ⟨clock, offset⟩ := t
  cases offset with
  | none => simpa [timeBytes] using readTimeParts?_alone clock
  | some o => exact readTimeParts?_distant clock (h o rfl)

theorem makeOffset_readBack {offset : Option Offset} (h : Offset.Small offset) :
    makeOffset (offset.map readBack) = .ok (offset.map readBack) := by
  cases offset with
  | none => rfl
  | some o =>
    have hsmall : (readBack o).natAbs < microsPerDay := by
      have := h o rfl
      rw [readBack]
      split
      · decide
      · exact this
    rw [Option.map_some, makeOffset, if_pos hsmall]

/-- A time of day is read back, with its distance from universal time. -/
theorem readTime_timeText {t : Time} (h : Offset.Small t.offset) :
    readTime (timeText t) = .ok ⟨t.clock, t.offset.map readBack⟩ := by
  have hbytes : Bytes.ofString (timeText t) = ⟨(timeBytes t).toArray⟩ := by
    rw [bytes_of_plain fun c hc => plain_of_isIsoChar (isIsoChar_timeChars t c (by
      rwa [toList_timeText h] at hc)), toList_timeText h, map_timeChars]
  have hmark : Bytes.isAt ⟨(timeBytes t).toArray⟩ 0 'T' = false := by
    have hfirst : Bytes.at ⟨(timeBytes t).toArray⟩ 0 = 48 + t.clock.hour / 10 % 10 := by
      rw [timeBytes, shownClock]
      cases clockPrecision t.clock <;>
        simp [Bytes.at, Precision.bytes, digitBytes_succ, digitBytes_zero]
    simp [Bytes.isAt, hfirst]
    omega
  unfold readTime
  rw [hbytes]
  simp only [hmark, Bool.false_eq_true, if_false, readTimeParts?_timeBytes h,
    makeOffset_readBack h, makeClock_parts]
  rfl

/-- The characters of a moment. -/
def momentChars (m : DateTime) : List Char :=
  dateChars m.date ++ 'T' :: timeChars ⟨m.clock, m.offset⟩

theorem toList_isoText {m : DateTime} (h : Offset.Small m.offset) :
    (momentText m).toList = momentChars m := by
  have htime := toList_timeText (t := ⟨m.clock, m.offset⟩) h
  rw [timeText, String.toList_append] at htime
  simp only [momentText, momentTextWith, momentChars, String.toList_append, toList_dateText,
    List.append_assoc, htime]
  rfl

theorem isIsoChar_momentChars (m : DateTime) : ∀ c ∈ momentChars m, isIsoChar c = true := by
  intro c hc
  rcases List.mem_append.mp hc with hc | hc
  · exact isIsoChar_dateChars _ c hc
  · rcases List.mem_cons.mp hc with rfl | hc
    · decide
    · exact isIsoChar_timeChars _ c hc

/-- A moment is read back, with its distance from universal time. -/
theorem readMoment_isoText {m : DateTime} (h : Offset.Small m.offset) :
    readMoment (momentText m) = .ok ⟨m.date, m.clock, m.offset.map readBack⟩ := by
  have hbytes : Bytes.ofString (momentText m) =
      ⟨(dateBytes m.date ++ 84 :: timeBytes ⟨m.clock, m.offset⟩).toArray⟩ := by
    rw [bytes_of_plain fun c hc => plain_of_isIsoChar (isIsoChar_momentChars m c (by
      rwa [toList_isoText h] at hc)), toList_isoText h, momentChars,
      List.map_append, List.map_cons, map_dateChars, map_timeChars]
    rfl
  have hlength : (dateBytes m.date).length = 10 := by
    simp [dateBytes, length_digitBytes]
  have hparts := readTimeParts?_timeBytes (t := ⟨m.clock, m.offset⟩) h
  obtain ⟨hfirst, hweek, -⟩ := marks_dateBytes m.date (84 :: timeBytes ⟨m.clock, m.offset⟩)
  have hdate := readDateParts?_dateBytes m.date (84 :: timeBytes ⟨m.clock, m.offset⟩)
  generalize timeBytes ⟨m.clock, m.offset⟩ = time at *
  have hsize : Bytes.size ⟨(dateBytes m.date ++ 84 :: time).toArray⟩ = 11 + time.length := by
    simp [Bytes.size, hlength]
    omega
  have hbetween : Bytes.at ⟨(dateBytes m.date ++ 84 :: time).toArray⟩ 10 = 84 :=
    Bytes.at_of_eq rfl hlength.symm
  have hrest : Bytes.from ⟨(dateBytes m.date ++ 84 :: time).toArray⟩ 11 = ⟨time.toArray⟩ := by
    have hnone : (dateBytes m.date).drop 11 = [] := List.drop_of_length_le (by omega)
    rw [Bytes.from, ← Bytes.size, hsize]
    simp [List.drop_append, hlength, hnone]
  have hplace : dateLength ⟨(dateBytes m.date ++ 84 :: time).toArray⟩ = some 10 := by
    rw [dateLength, if_neg (by omega), hfirst, hweek]
    rfl
  have hskip : 10 + characterLength 84 = 11 := rfl
  rw [readMoment, hbytes, if_neg (by omega), hplace]
  simp only [hdate]
  rw [if_neg (by omega)]
  simp only [hbetween, hskip, hrest, hparts, makeOffset_readBack h, makeDate_parts,
    makeClock_parts]
  rfl

end RelGraph.Calendar
