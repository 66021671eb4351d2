import Mathlib.Algebra.Group.Nat.Defs
import RelGraph.Calendar.Iso
import RelGraph.Text.Blank
import Mathlib.Data.List.TakeWhile
/-!
Numbers written in decimal with leading zeros, and texts with nothing to trim.
-/
namespace RelGraph.Text

/-! ## Digits -/

/-- The last digits of a number, so many of them. -/
def decimals : Nat → Nat → List Char
  | 0, _ => []
  | width + 1, n => decimals width (n / 10) ++ [Nat.digitChar (n % 10)]

theorem decimals_zero (width : Nat) : decimals width 0 = List.replicate width '0' := by
  induction width with
  | zero => rfl
  | succ width ih =>
    rw [decimals, Nat.zero_div, ih, List.replicate_succ']
    rfl

theorem padLeft_digitText {width n : Nat} (hwidth : 0 < width) (hn : n < 10 ^ width) :
    Binary64.padLeft width (Binary64.digitText n) = decimals width n := by
  obtain ⟨width, rfl⟩ := Nat.exists_eq_add_of_le' hwidth
  induction width generalizing n with
  | zero =>
    have hone : n < 10 := by simpa using hn
    rw [Binary64.digitText, Nat.toDigits_of_lt_base hone, decimals, Nat.mod_eq_of_lt hone]
    rfl
  | succ width ih =>
    rw [decimals, Binary64.digitText]
    by_cases hone : n < 10
    · rw [Nat.toDigits_of_lt_base hone, Nat.div_eq_of_lt hone, decimals_zero,
        Nat.mod_eq_of_lt hone]
      simp [Binary64.padLeft]
    · have hrest : n / 10 < 10 ^ (width + 1) := by
        rw [Nat.div_lt_iff_lt_mul (by decide)]
        simpa [Nat.pow_succ] using hn
      rw [Nat.toDigits_of_base_le (by decide) (by omega), ← ih (by omega) hrest]
      simp [Binary64.padLeft, Binary64.digitText]

theorem toList_padded {width n : Nat} (hwidth : 0 < width) (hn : n < 10 ^ width) :
    (Calendar.padded width n).toList = decimals width n := by
  rw [Calendar.padded, padLeft_digitText hwidth hn, String.toList_ofList]

theorem toNat_digitChar {n : Nat} (h : n < 10) : (Nat.digitChar n).toNat = 48 + n := by
  have hall : ∀ n : Fin 10, (Nat.digitChar n).toNat = 48 + n.val := by decide
  exact hall ⟨n, h⟩

theorem isDigit_digitChar (n : Nat) : (Nat.digitChar (n % 10)).isDigit = true := by
  have hall : ∀ d : Fin 10, (Nat.digitChar d).isDigit = true := by decide
  exact hall ⟨n % 10, Nat.mod_lt n (by decide)⟩

theorem isDigit_of_mem_decimals {width n : Nat} {c : Char} (h : c ∈ decimals width n) :
    c.isDigit = true := by
  induction width generalizing n with
  | zero => simp [decimals] at h
  | succ width ih =>
    rcases List.mem_append.mp h with h | h
    · exact ih h
    · obtain rfl := List.mem_singleton.mp h
      exact isDigit_digitChar n

/-! ## Trimming -/

theorem trim_of_ends {p : Char → Bool} {cs : List Char} (hfirst : ∀ c ∈ cs.head?, p c = false)
    (hlast : ∀ c ∈ cs.getLast?, p c = false) : trimRight p (trimLeft p cs) = cs := by
  have hkept : ∀ {l : List Char}, (∀ c ∈ l.head?, p c = false) → l.dropWhile p = l := by
    intro l hl
    cases l with
    | nil => rfl
    | cons c l => rw [List.dropWhile_cons_of_neg (by simp [hl c (by simp)])]
  rw [trimLeft, hkept hfirst, trimRight, hkept (by simpa using hlast), List.reverse_reverse]

theorem trim_of_none {p : Char → Bool} {cs : List Char} (h : ∀ c ∈ cs, p c = false) :
    trimRight p (trimLeft p cs) = cs :=
  trim_of_ends (fun c hc => h c (List.mem_of_mem_head? hc))
    (fun c hc => h c (List.mem_of_mem_getLast? hc))

end RelGraph.Text
