import RelGraph.Uuid
import RelGraph.Proofs.Text.Numeral
/-!
Identifiers written as their digits are read back as they were.
-/
namespace RelGraph.Uuid

open Text

/-! ## Hexadecimal digits -/

/-- The values of the last hexadecimal digits of a number, so many of them. -/
def hexValues : Nat → Nat → List Nat
  | 0, _ => []
  | width + 1, n => hexValues width (n / 16) ++ [n % 16]

theorem hexText_eq_map (width n : Nat) : hexText width n = (hexValues width n).map hexDigit := by
  induction width generalizing n with
  | zero => rfl
  | succ width ih => rw [hexText, hexValues, List.map_append, ih, List.map_singleton]

theorem length_hexValues (width n : Nat) : (hexValues width n).length = width := by
  induction width generalizing n with
  | zero => rfl
  | succ width ih => simp [hexValues, ih]

theorem lt_of_mem_hexValues {width n d : Nat} (h : d ∈ hexValues width n) : d < 16 := by
  induction width generalizing n with
  | zero => simp [hexValues] at h
  | succ width ih =>
    rcases List.mem_append.mp h with h | h
    · exact ih h
    · obtain rfl := List.mem_singleton.mp h
      exact Nat.mod_lt n (by decide)

theorem fromDigits_hexValues (width n : Nat) :
    Numeral.fromDigits 16 (hexValues width n) = n % 16 ^ width := by
  induction width generalizing n with
  | zero => rw [Nat.pow_zero, Nat.mod_one]; rfl
  | succ width ih =>
    have hrest := ih (n / 16)
    rw [Numeral.fromDigits] at hrest ⊢
    rw [hexValues, List.foldl_append, hrest, List.foldl_cons, List.foldl_nil, Nat.pow_succ,
      Nat.mul_comm (16 ^ width) 16, Nat.mod_mul]
    omega

/-- Nothing that is left out or has a meaning of its own in written identifiers and numerals is a
hexadecimal digit. -/
theorem hexDigit_plain {d : Nat} (h : d < 16) :
    hexDigit d ∉ ['u', '{', '}', '-', '+', 'x', 'X', '_'] ∧ (hexDigit d).toNat < 128 ∧
      Numeral.isPad (hexDigit d) = false ∧ Numeral.baseDigit? 16 (hexDigit d) = some d := by
  have hall : ∀ d : Fin 16, hexDigit d ∉ ['u', '{', '}', '-', '+', 'x', 'X', '_'] ∧
      (hexDigit d).toNat < 128 ∧ Numeral.isPad (hexDigit d) = false ∧
      Numeral.baseDigit? 16 (hexDigit d) = some d.val := by decide
  exact hall ⟨d, h⟩

/-! ## Reading -/

theorem removeWord_of_not_mem {first : Char} {word cs : List Char} (h : first ∉ cs) (fuel : Nat) :
    removeWord (first :: word) fuel cs = cs := by
  induction fuel generalizing cs with
  | zero => rfl
  | succ fuel ih =>
    cases cs with
    | nil => rfl
    | cons c rest =>
      have hne : ¬ first = c := fun heq => h (by simp [heq])
      have hrest : first ∉ rest := fun hmem => h (by simp [hmem])
      rw [removeWord, ih hrest]
      simp [List.isPrefixOf, hne]

/-- Where nothing else is left out, the digits are all that is no hyphen. -/
theorem digits_of_plain {cs : List Char} (h : ∀ c ∈ cs, c ∉ ['u', '{', '}']) :
    digits (String.ofList cs) = cs.filter (· ≠ '-') := by
  have hword : 'u' ∉ cs := fun hmem => h _ hmem (by decide)
  have hbraces : ∀ c ∈ cs, decide (c = '{' ∨ c = '}') = false := by
    intro c hc
    have := h c hc
    simp_all
  have hurn : ∀ fuel, removeWord "urn:".toList fuel cs = cs := removeWord_of_not_mem hword
  have huuid : ∀ fuel, removeWord "uuid:".toList fuel cs = cs := removeWord_of_not_mem hword
  unfold digits
  simp only [String.toList_ofList, hurn, huuid, trim_of_none hbraces]

section Digits

variable {ds : List Nat}

theorem digits_hexDigits (h : ∀ d ∈ ds, d < 16) :
    digits (String.ofList (ds.map hexDigit)) = ds.map hexDigit := by
  have hplain : ∀ c ∈ ds.map hexDigit, c ∉ ['u', '{', '}', '-', '+', 'x', 'X', '_'] :=
    List.forall_mem_map.mpr fun d hd => (hexDigit_plain (h d hd)).1
  rw [digits_of_plain fun c hc => by have := hplain c hc; simp_all]
  exact List.filter_eq_self.mpr fun c hc => by
    have := hplain c hc
    simp_all

theorem separatedDigits?_hexDigits (h : ∀ d ∈ ds, d < 16) {afterDigit : Bool}
    (hsome : afterDigit = true ∨ ds ≠ []) :
    Numeral.separatedDigits? 16 afterDigit (ds.map hexDigit) = some ds := by
  induction ds generalizing afterDigit with
  | nil => simp_all [Numeral.separatedDigits?]
  | cons d ds ih =>
    obtain ⟨hplain, -, -, hvalue⟩ := hexDigit_plain (h d (by simp))
    have hmark : hexDigit d ≠ '_' := by simp_all
    rw [List.map_cons, Numeral.separatedDigits?, if_neg hmark, hvalue]
    dsimp only
    rw [ih (fun d' hd' => h d' (by simp [hd'])) (.inl rfl)]
    rfl

theorem unpadded_hexDigits (h : ∀ d ∈ ds, d < 16) :
    Numeral.unpadded (String.ofList (ds.map hexDigit)) = ds.map hexDigit := by
  have hplain : Numeral.plain (ds.map hexDigit) = ds.map hexDigit := by
    rw [Numeral.plain, List.map_map]
    exact List.map_congr_left fun d hd => if_pos (hexDigit_plain (h d hd)).2.1
  rw [Numeral.unpadded, String.toList_ofList, hplain]
  exact trim_of_none (List.forall_mem_map.mpr fun d hd => (hexDigit_plain (h d hd)).2.2.1)

theorem readInt_hexDigits (h : ∀ d ∈ ds, d < 16) (hsome : ds ≠ []) :
    Numeral.readInt 16 (String.ofList (ds.map hexDigit)) = .ok (Numeral.fromDigits 16 ds) := by
  have hplain : ∀ c ∈ ds.map hexDigit, c ∉ ['u', '{', '}', '-', '+', 'x', 'X', '_'] :=
    List.forall_mem_map.mpr fun d hd => (hexDigit_plain (h d hd)).1
  have hsigned : Numeral.signed (ds.map hexDigit) = (false, ds.map hexDigit) := by
    rw [Numeral.signed.eq_def]
    split
    · rename_i hcs
      exact absurd (hplain '-' (by simp [hcs])) (by decide)
    · rename_i hcs
      exact absurd (hplain '+' (by simp [hcs])) (by decide)
    · rfl
  have hmark : Numeral.dropHexMark (ds.map hexDigit) = ds.map hexDigit := by
    rw [Numeral.dropHexMark.eq_def]
    split
    · rename_i x rest hcs
      have hx := hplain x (by simp [hcs])
      rw [if_neg (by simp_all), hcs]
    · rfl
  have hrun : ∀ c ∈ ds.map hexDigit, (c = '_' || (Numeral.baseDigit? 16 c).isSome) = true :=
    List.forall_mem_map.mpr fun d hd => by simp [(hexDigit_plain (h d hd)).2.2.2]
  rw [Numeral.readInt, unpadded_hexDigits h, hsigned]
  simp only [if_true, hmark, List.takeWhile_eq_self_iff.mpr hrun,
    List.dropWhile_eq_nil_iff.mpr hrun, separatedDigits?_hexDigits h (.inr hsome)]
  rfl

end Digits

/-- An identifier that is written as its digits is read back. -/
theorem read_hex (u : Uuid) : read u.hex = .ok u := by
  have hdigits : ∀ d ∈ hexValues 32 u.number.val, d < 16 := fun d => lt_of_mem_hexValues
  have hsome : hexValues 32 u.number.val ≠ [] := by
    rw [← List.length_pos_iff, length_hexValues]
    decide
  have hnumber : Numeral.fromDigits 16 (hexValues 32 u.number.val) = u.number.val := by
    rw [fromDigits_hexValues]
    exact Nat.mod_eq_of_lt u.number.isLt
  unfold read hex
  rw [hexText_eq_map, digits_hexDigits hdigits]
  simp only [List.length_map, length_hexValues, readInt_hexDigits hdigits hsome, hnumber]
  rw [if_neg (by decide), dif_pos ⟨by omega, u.number.isLt⟩]
  rfl

theorem groups_eq {cs : List Char} (h : cs.length = 32) :
    (cs.drop 0).take 8 ++ ((cs.drop 8).take 4 ++ ((cs.drop 12).take 4 ++ ((cs.drop 16).take 4 ++
      (cs.drop 20).take 12))) = cs := by
  have hlast : (cs.drop 20).take 12 = cs.drop 20 := List.take_of_length_le (by simp [h])
  have hjoin : ∀ start count, (cs.drop start).take count ++ cs.drop (start + count) =
      cs.drop start := fun start count => by
    rw [← List.drop_drop, List.take_append_drop]
  rw [hlast, hjoin 16 4, hjoin 12 4, hjoin 8 4, hjoin 0 8, List.drop_zero]

/-- Hyphens do not matter to the digits of a written identifier. -/
theorem digits_text (u : Uuid) : digits u.text = digits u.hex := by
  have hdigits : ∀ d ∈ hexValues 32 u.number.val, d < 16 := fun d => lt_of_mem_hexValues
  have hlength : (hexText 32 u.number.val).length = 32 := by
    rw [hexText_eq_map, List.length_map, length_hexValues]
  have hplain : ∀ c ∈ hexText 32 u.number.val, c ∉ ['u', '{', '}', '-', '+', 'x', 'X', '_'] := by
    rw [hexText_eq_map]
    exact List.forall_mem_map.mpr fun d hd => (hexDigit_plain (hdigits d hd)).1
  rw [hex, hexText_eq_map, digits_hexDigits hdigits, ← hexText_eq_map, text]
  generalize hexText 32 u.number.val = cs at hlength hplain
  have hgroup : ∀ {start count : Nat} {c : Char}, c ∈ (cs.drop start).take count → c ∈ cs :=
    fun hc => List.mem_of_mem_drop (List.mem_of_mem_take hc)
  have hkept : ∀ start count, ((cs.drop start).take count).filter (· ≠ '-') =
      (cs.drop start).take count := fun start count =>
    List.filter_eq_self.mpr fun c hc => by
      have := hplain c (hgroup hc)
      simp_all
  dsimp only
  rw [digits_of_plain]
  · simp only [List.filter_append, List.filter_cons, hkept]
    simpa using groups_eq hlength
  · intro c hc
    have hc : c ∈ cs ∨ c = '-' := by
      simp only [List.mem_append, List.mem_cons] at hc
      rcases hc with (((hc | rfl | hc) | rfl | hc) | rfl | hc) | rfl | hc
      all_goals first | exact .inl (hgroup hc) | exact .inr rfl
    rcases hc with hc | rfl
    · have := hplain c hc
      simp_all
    · decide

/-- An identifier that is written in groups is read back. -/
theorem read_text (u : Uuid) : read u.text = .ok u := by
  rw [← read_hex u, read, read, digits_text]

end RelGraph.Uuid
