import RelGraph.Graphql.Token
import RelGraph.Proofs.Outcome
import Mathlib
/-!
Reading tokens one after the other. Every token takes at least one character, so that the tokens of
a text are the one in front, when separators are skipped, and then those of what follows it. A word
is read as one name up to the first character that no name can hold, and a block text up to the
first three quotes in a row that no backslash stands before.
-/
namespace RelGraph.Graphql.Token

variable {cs rest seps : List Char} {t : Token}

/-! ## A token takes characters -/

theorem length_dropWhile_le (p : Char → Bool) (cs : List Char) :
    (cs.dropWhile p).length ≤ cs.length :=
  (List.dropWhile_suffix p).length_le

theorem length_skipSeparators_le (fuel : Nat) (cs : List Char) :
    (skipSeparators fuel cs).length ≤ cs.length := by
  fun_induction skipSeparators fuel cs with
  | case1 => exact Nat.le_refl _
  | case2 fuel rest ih =>
    have hline := length_dropWhile_le (!isLineEnd ·) rest
    simp only [List.length_cons]
    omega
  | case3 fuel c rest _ _ ih =>
    simp only [List.length_cons]
    omega
  | case4 => exact Nat.le_refl _
  | case5 => exact Nat.le_refl _

/-- A block text is its raw content, three quotes, and what follows. -/
theorem eq_of_readBlock {raw : List Char} (h : readBlock cs = some (raw, rest)) :
    cs = raw ++ '"' :: '"' :: '"' :: rest := by
  fun_induction readBlock cs generalizing raw with
  | case1 cs ih =>
    obtain ⟨⟨more, rest'⟩, hmore, heq⟩ := Option.map_eq_some_iff.mp h
    obtain ⟨rfl, rfl⟩ := Prod.mk.inj heq
    rw [ih hmore]
    rfl
  | case2 cs =>
    obtain ⟨rfl, rfl⟩ := Prod.mk.inj (Option.some.inj h)
    rfl
  | case3 c cs _ _ ih =>
    obtain ⟨⟨more, rest'⟩, hmore, heq⟩ := Option.map_eq_some_iff.mp h
    obtain ⟨rfl, rfl⟩ := Prod.mk.inj heq
    rw [ih hmore]
    rfl
  | case4 => cases h

/-- What a token, or a part of one, takes: the text that follows is shorter. -/
def Shortens {α : Type} (cs : List Char) (outcome : Except String (α × List Char)) : Prop :=
  ∀ a rest, outcome = .ok (a, rest) → rest.length < cs.length

theorem not_refuseEscape {α : Type} {kind : String} {written : List Char} {a : α} :
    refuseEscape kind written ≠ .ok a := nofun

theorem shortens_readCodePoint (written : List Char) (passed point : Nat) (cs : List Char) :
    Shortens cs (readCodePoint written passed point cs) := by
  induction cs generalizing passed point with
  | nil => exact fun _ _ h => absurd h not_refuseEscape
  | cons c cs ih =>
    intro a rest h
    rw [readCodePoint] at h
    split at h
    · cases h
    split at h
    · split at h
      · cases h
        simp
      · cases h
    split at h
    · exact Nat.lt_succ_of_lt (ih _ _ _ _ h)
    · cases h

theorem shortens_readUnit (cs : List Char) : Shortens cs (readUnit cs) := by
  intro a rest h
  rw [readUnit.eq_def] at h
  dsimp only at h
  split at h
  · split at h
    · cases h
    split at h
    · cases h
      simp only [List.length_cons]
      omega
    split at h
    · split at h
      · cases h
      split at h
      · obtain ⟨-, rfl⟩ := Prod.mk.inj (Except.ok.inj h)
        simp only [List.length_cons]
        omega
      · cases h
    · cases h
  · cases h

theorem shortens_readEscape (cs : List Char) : Shortens cs (readEscape cs) := by
  intro a rest h
  rw [readEscape.eq_def] at h
  split at h
  · have := shortens_readCodePoint _ _ _ _ _ _ h
    simp only [List.length_cons]
    omega
  · exact shortens_readUnit _ _ _ h
  · split at h
    · cases h
      simp only [List.length_cons]
      omega
    · cases h
  · cases h

theorem shortens_readQuoted (fuel : Nat) (cs : List Char) : Shortens cs (readQuoted fuel cs) := by
  induction fuel generalizing cs with
  | zero => nofun
  | succ fuel ih =>
    intro a rest h
    rw [readQuoted.eq_def] at h
    dsimp only at h
    split at h
    · cases h
      simp
    · obtain ⟨⟨c, mid⟩, hescape, h⟩ := Outcome.bind_eq_ok.mp h
      obtain ⟨⟨more, rest'⟩, hmore, h⟩ := Outcome.bind_eq_ok.mp h
      cases h
      exact Nat.lt_trans (ih _ _ _ hmore) (shortens_readEscape _ _ _ hescape)
    · split at h
      · cases h
      · obtain ⟨⟨more, rest'⟩, hmore, h⟩ := Outcome.bind_eq_ok.mp h
        cases h
        exact Nat.lt_succ_of_lt (ih _ _ _ hmore)
    · cases h

theorem shortens_digits (cs : List Char) : Shortens cs (digits cs) := by
  intro ds rest h
  rw [digits, List.span_eq_takeWhile_dropWhile] at h
  split at h
  · cases h
  · rename_i hsome
    obtain ⟨rfl, rfl⟩ := Prod.mk.inj (Except.ok.inj h)
    have hfound : 0 < (cs.takeWhile Char.isDigit).length :=
      List.length_pos_iff.mpr fun hnone => hsome _ (by rw [hnone])
    calc (cs.dropWhile Char.isDigit).length
        < (cs.takeWhile Char.isDigit).length + (cs.dropWhile Char.isDigit).length := by omega
      _ = cs.length := by rw [← List.length_append, List.takeWhile_append_dropWhile]

theorem shortens_wholePart (cs : List Char) : Shortens cs (wholePart cs) := by
  intro ds rest h
  rw [wholePart.eq_def] at h
  split at h
  · split at h
    · cases h
    · cases h
      simp
  · exact shortens_digits _ _ _ h

theorem length_le_of_fraction {ds : List Char} (h : fraction cs = .ok (ds, rest)) :
    rest.length ≤ cs.length := by
  rw [fraction.eq_def] at h
  split at h
  · obtain ⟨⟨ds, rest'⟩, hdigits, h⟩ := Outcome.bind_eq_ok.mp h
    cases h
    exact Nat.le_succ_of_le (Nat.le_of_lt (shortens_digits _ _ _ hdigits))
  · cases h
    exact Nat.le_refl _

theorem length_sign_le (signs cs : List Char) : (sign signs cs).2.length ≤ cs.length := by
  rw [sign.eq_def]
  split
  · split <;> simp
  · simp

theorem length_le_of_power {ds : List Char} (h : power cs = .ok (ds, rest)) :
    rest.length ≤ cs.length := by
  rw [power.eq_def] at h
  split at h
  · rename_i e cs
    split at h
    · have hsign := length_sign_le ['+', '-'] cs
      generalize sign ['+', '-'] cs = found at h hsign
      obtain ⟨⟨ds, rest'⟩, hdigits, h⟩ := Outcome.bind_eq_ok.mp h
      cases h
      have := shortens_digits _ _ _ hdigits
      simp only [List.length_cons]
      omega
    · cases h
      exact Nat.le_refl _
  · cases h
    exact Nat.le_refl _

theorem shortens_readNumber (cs : List Char) : Shortens cs (readNumber cs) := by
  intro t rest h
  have hsign := length_sign_le ['-'] cs
  rw [readNumber] at h
  generalize sign ['-'] cs = found at h hsign
  obtain ⟨⟨whole, rest₁⟩, hwhole, h⟩ := Outcome.bind_eq_ok.mp h
  obtain ⟨⟨part, rest₂⟩, hpart, h⟩ := Outcome.bind_eq_ok.mp h
  obtain ⟨⟨exponent, rest₃⟩, hpower, h⟩ := Outcome.bind_eq_ok.mp h
  have hrest : rest = rest₃ := by
    dsimp only at h
    split at h
    · cases h
    · split at h <;> cases h <;> rfl
  have := shortens_wholePart _ _ _ hwhole
  have := length_le_of_fraction hpart
  have := length_le_of_power hpower
  rw [hrest]
  omega

/-- A token takes at least one character. -/
theorem shortens_read (cs : List Char) : Shortens cs (read cs) := by
  intro t rest h
  rw [read.eq_def] at h
  split at h
  · split at h
    · rename_i hblock
      cases h
      rw [eq_of_readBlock hblock]
      simp only [List.length_cons, List.length_append]
      omega
    · cases h
  · obtain ⟨⟨content, rest'⟩, hquoted, h⟩ := Outcome.bind_eq_ok.mp h
    cases h
    exact Nat.lt_succ_of_lt (shortens_readQuoted _ _ _ _ hquoted)
  · cases h
    simp only [List.length_cons]
    omega
  · split at h
    · cases h
      simp
    split at h
    · exact shortens_readNumber _ _ _ h
    split at h
    · rw [List.span_eq_takeWhile_dropWhile] at h
      cases h
      exact Nat.lt_succ_of_le (length_dropWhile_le _ _)
    · cases h
  · cases h

/-! ## Tokens one after the other -/

/-- Fuel makes no difference when there is more of it than characters. -/
theorem readAll_congr {fuel fuel' : Nat} (h : cs.length < fuel) (h' : cs.length < fuel') :
    readAll fuel cs = readAll fuel' cs := by
  -- A round takes one from either fuel, and at least one character.
  induction fuel generalizing fuel' cs with
  | zero => omega
  | succ fuel ih =>
    obtain ⟨fuel', rfl⟩ : ∃ n, fuel' = n + 1 := ⟨fuel' - 1, by omega⟩
    rw [readAll, readAll]
    split
    · rfl
    · rename_i hne
      cases hread : read (skipSeparators cs.length cs) with
      | error reason => rfl
      | ok found =>
        have hshort := shortens_read _ _ _ hread
        have hskip := length_skipSeparators_le cs.length cs
        exact congrArg (found.1 :: ·) (ih (by omega) (by omega))

/-- Whether a text goes on with something that is read, rather than with a separator or a comment. -/
def IsReady (cs : List Char) : Prop := ∃ c more, cs = c :: more ∧ isSeparator c = false ∧ c ≠ '#'

theorem skipSeparators_of_isReady (fuel : Nat) (h : IsReady cs) : skipSeparators fuel cs = cs := by
  obtain ⟨c, more, rfl, hseparator, hcomment⟩ := h
  cases fuel with
  | zero => rfl
  | succ fuel => simp [skipSeparators, hseparator]

theorem skipSeparators_append {fuel : Nat} (hseps : seps.all isSeparator)
    (hfuel : seps.length ≤ fuel) (h : IsReady cs) : skipSeparators fuel (seps ++ cs) = cs := by
  induction seps generalizing fuel with
  | nil => exact skipSeparators_of_isReady fuel h
  | cons c seps ih =>
    obtain ⟨fuel, rfl⟩ : ∃ n, fuel = n + 1 := ⟨fuel - 1, by simp at hfuel; omega⟩
    obtain ⟨hc, hseps⟩ := Bool.and_eq_true_iff.mp hseps
    have hcomment : c ≠ '#' := by
      rintro rfl
      exact absurd hc (by decide)
    rw [List.cons_append, skipSeparators, if_pos hc]
    · exact ih hseps (Nat.le_of_succ_le_succ hfuel)
    · exact hcomment

/-- The tokens of a text from what has been read in front of it: that token and those of what
follows, or the reason why it cannot be read. -/
def readOn : Except String (Token × List Char) → List Token
  | .ok (t, rest) => t :: ofText (String.ofList rest)
  | .error reason => [.unreadable reason]

theorem readOn_ne_nil (found : Except String (Token × List Char)) : readOn found ≠ [] := by
  cases found <;> simp [readOn]

/-- Behind its separators the tokens of a text are read on from the front. -/
theorem ofText_append (hseps : seps.all isSeparator) (hready : IsReady cs) :
    ofText (String.ofList (seps ++ cs)) = readOn (read cs) := by
  have hlength : (seps ++ cs).length = seps.length + cs.length := List.length_append
  have hskip : skipSeparators (seps ++ cs).length (seps ++ cs) = cs :=
    skipSeparators_append hseps (by omega) hready
  have hne : cs ≠ [] := by
    obtain ⟨c, more, rfl, -⟩ := hready
    exact List.cons_ne_nil c more
  rw [ofText, String.toList_ofList, readAll]
  split
  · exact absurd (hskip.symm.trans ‹_›) hne
  · rw [hskip]
    cases h : read cs with
    | error reason => rfl
    | ok found =>
      have hshort := shortens_read cs _ _ h
      have hrest : readAll (seps ++ cs).length found.2 = ofText (String.ofList found.2) := by
        rw [ofText, String.toList_ofList]
        exact readAll_congr (by omega) (Nat.lt_succ_self _)
      rw [readOn, ← hrest]

theorem ofText_of_read (hseps : seps.all isSeparator) (hready : IsReady cs)
    (h : read cs = .ok (t, rest)) :
    ofText (String.ofList (seps ++ cs)) = t :: ofText (String.ofList rest) := by
  rw [ofText_append hseps hready, h, readOn]

/-! ## Marks and words -/

theorem read_of_ne {c : Char} (hquote : c ≠ '"') (hpoint : c ≠ '.') (rest : List Char) :
    read (c :: rest) =
      if marks.contains c then .ok (.mark c, rest)
      else if c = '-' || c.isDigit then readNumber (c :: rest)
      else if Naming.isNameStart c then
        let (more, rest) := rest.span Naming.isNameChar
        .ok (.name (String.ofList (c :: more)), rest)
      else .error (misplaced (c :: rest)) :=
  read.eq_4 _ _ (fun _ h => absurd h hquote) (fun h => absurd h hquote) fun _ h => absurd h hpoint

theorem ofText_mark {c : Char} (hseps : seps.all isSeparator) (hc : c ∈ marks)
    (rest : List Char) :
    ofText (String.ofList (seps ++ c :: rest)) = .mark c :: ofText (String.ofList rest) := by
  have hmarks : marks.all fun m => m ≠ '"' ∧ m ≠ '.' ∧ isSeparator m = false ∧ m ≠ '#' := by decide
  obtain ⟨hquote, hpoint, hready⟩ := of_decide_eq_true (List.all_eq_true.mp hmarks c hc)
  refine ofText_of_read hseps ⟨c, rest, rfl, hready⟩ ?_
  rw [read_of_ne hquote hpoint, if_pos (List.contains_iff_mem.mpr hc)]

theorem ne_of_isNameStart {c d : Char} (hc : Naming.isNameStart c)
    (hd : Naming.isNameStart d = false) : c ≠ d := by
  rintro rfl
  simp [hd] at hc

theorem isReady_of_isNameStart {c : Char} (hc : Naming.isNameStart c) (more : List Char) :
    IsReady (c :: more) := by
  have hne : ∀ d, Naming.isNameStart d = false → c ≠ d := fun d => ne_of_isNameStart hc
  have hmark : c.toNat ≠ 0xFEFF := fun h =>
    hne (Char.ofNat 0xFEFF) (by decide) (h ▸ (Char.ofNat_toNat c).symm)
  refine ⟨c, more, rfl, ?_, hne '#' rfl⟩
  simp [isSeparator, hmark, hne ' ' rfl, hne '\t' rfl, hne '\n' rfl, hne '\r' rfl, hne ',' rfl]

theorem not_isDigit_of_isNameStart {c : Char} (hc : Naming.isNameStart c) : c.isDigit = false := by
  refine Bool.eq_false_iff.mpr fun hdigit => ?_
  simp only [Naming.isNameStart, Char.isAlpha, Char.isUpper, Char.isLower, Char.isDigit,
    Bool.or_eq_true, Bool.and_eq_true, decide_eq_true_eq, ge_iff_le, UInt32.le_iff_toNat_le]
    at hc hdigit
  obtain hletter | rfl := hc
  · have hupper : '9'.val.toNat < 'A'.val.toNat := by decide
    have hlower : '9'.val.toNat < 'a'.val.toNat := by decide
    omega
  · exact absurd hdigit (by decide)

/-- Whether a text goes on with no character that belongs to a name. -/
def EndsName (cs : List Char) : Prop := ∀ c ∈ cs.head?, Naming.isNameChar c = false

/-- A word is read as one name, whatever comes behind its last character. -/
theorem read_name {c : Char} {more : List Char} (hc : Naming.isNameStart c)
    (hmore : ∀ d ∈ more, Naming.isNameChar d) (hrest : EndsName rest) :
    read (c :: (more ++ rest)) = .ok (.name (String.ofList (c :: more)), rest) := by
  have hspan : (more ++ rest).span Naming.isNameChar = (more, rest) := by
    rw [List.span_eq_takeWhile_dropWhile, List.takeWhile_append_of_pos hmore,
      List.dropWhile_append_of_pos hmore]
    cases rest with
    | nil => simp
    | cons d rest => simp [hrest d rfl]
  have hmark : marks.contains c = false := by
    refine Bool.eq_false_iff.mpr fun hmem => ?_
    have hnone : marks.all fun m => !Naming.isNameStart m := by decide
    have hc' := List.all_eq_true.mp hnone c (List.contains_iff_mem.mp hmem)
    simp [hc] at hc'
  have hminus : c ≠ '-' := ne_of_isNameStart hc rfl
  rw [read_of_ne (ne_of_isNameStart hc rfl) (ne_of_isNameStart hc rfl),
    if_neg (by simp only [hmark, Bool.false_eq_true, not_false_eq_true]),
    if_neg (by simp [not_isDigit_of_isNameStart hc, hminus]), if_pos hc, hspan]

/-- Whether a text is a name from its first character to its last. -/
def IsWord (s : String) : Prop :=
  ∃ c more, s.toList = c :: more ∧ Naming.isNameStart c ∧ ∀ d ∈ more, Naming.isNameChar d

theorem isWord_iff {s : String} {c : Char} {more : List Char} (hlist : s.toList = c :: more) :
    IsWord s ↔ Naming.isNameStart c ∧ ∀ d ∈ more, Naming.isNameChar d := by
  simp [IsWord, hlist]

theorem isWord_append {s e : String} (hs : s ≠ "") (he : ∀ d ∈ e.toList, Naming.isNameChar d) :
    IsWord (s ++ e) ↔ IsWord s := by
  cases hlist : s.toList with
  | nil => exact absurd (String.toList_eq_nil_iff.mp hlist) hs
  | cons c more =>
    have happend : (s ++ e).toList = c :: (more ++ e.toList) := by
      rw [String.toList_append, hlist, List.cons_append]
    rw [isWord_iff happend, isWord_iff hlist, List.forall_mem_append]
    exact and_congr_right fun _ => and_iff_left he

theorem ofText_word {s : String} (hseps : seps.all isSeparator) (hs : IsWord s)
    (hrest : EndsName rest) :
    ofText (String.ofList (seps ++ (s.toList ++ rest))) = .name s :: ofText (String.ofList rest) := by
  obtain ⟨c, more, hlist, hc, hmore⟩ := hs
  have hread := read_name hc hmore hrest
  rw [← hlist, String.ofList_toList] at hread
  rw [hlist]
  exact ofText_of_read hseps (isReady_of_isNameStart hc _) hread

end RelGraph.Graphql.Token
