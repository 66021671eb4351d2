import RelGraph.Text.Quoted
import Mathlib.Data.List.Basic
/-!
The bytes of a text: each character takes at least one, and a plain one is its own. Bytes written as
hexadecimal digits are read back as they were.
-/
namespace RelGraph.Text

/-! ## The bytes of a text -/

theorem loop_toList (bytes : ByteArray) (i : Nat) (found : List UInt8) :
    ByteArray.toList.loop bytes i found = found.reverse ++ bytes.data.toList.drop i := by
  fun_induction ByteArray.toList.loop bytes i found with
  | case1 i found h ih =>
    have hnext : bytes.data.toList.drop i = bytes.get! i :: bytes.data.toList.drop (i + 1) := by
      rw [List.drop_eq_getElem_cons (by simpa using h)]
      simp [ByteArray.get!, h]
    rw [ih, hnext, List.reverse_cons, List.append_assoc]
    rfl
  | case2 i found h =>
    have hdone : bytes.data.toList.drop i = [] := List.drop_of_length_le (by simpa using h)
    rw [hdone, List.append_nil]

theorem toList_bytes (bytes : ByteArray) : bytes.toList = bytes.data.toList := by
  rw [ByteArray.toList, loop_toList]
  rfl

theorem utf8Encode_of_plain {cs : List Char} (h : ∀ c ∈ cs, c.toNat < 128) :
    (cs.utf8Encode.data.toList.map fun b => b.toNat) = cs.map Char.toNat := by
  induction cs with
  | nil => simp [List.utf8Encode]
  | cons c cs ih =>
    obtain ⟨hc, hcs⟩ := List.forall_mem_cons.mp h
    have hone : String.utf8EncodeChar c = [UInt8.ofNat c.toNat] := by
      rw [String.utf8EncodeChar.eq_def]
      exact if_pos (Nat.le_of_lt_succ hc)
    have hbyte : (UInt8.ofNat c.toNat).toNat = c.toNat := UInt8.toNat_ofNat_of_lt' (by
      show c.toNat < 256
      omega)
    rw [List.utf8Encode_cons, ByteArray.toList_data_append, List.map_append, ih hcs,
      List.utf8Encode_singleton, hone, List.map_cons]
    exact congrArg (· :: cs.map Char.toNat) hbyte

/-- A text has no more characters than bytes. -/
theorem length_le_toUTF8 (s : String) : s.toList.length ≤ s.toUTF8.toList.length := by
  -- Every character takes at least one byte.
  have hencoded : ∀ cs : List Char, cs.length ≤ cs.utf8Encode.size := by
    intro cs
    induction cs with
    | nil => simp
    | cons c cs ih =>
      have hsize := c.utf8Size_pos
      rw [List.utf8Encode_cons, ByteArray.size_append, List.utf8Encode_singleton,
        List.size_toByteArray, String.length_utf8EncodeChar, List.length_cons]
      omega
  have htotal := hencoded s.toList
  rw [toList_bytes]
  simpa using htotal

/-! ## Bytes as hexadecimal digits -/

theorem hexText_two (n : Nat) : hexText 2 n = [hexDigit (n / 16 % 16), hexDigit (n % 16)] := by
  simp [hexText]

theorem hexDigit_spec {n : Nat} (h : n < 16) :
    hexValue? (hexDigit n) = some n ∧ isHexGap (hexDigit n) = false ∧
      (hexDigit n).toNat < 128 ∧ hexDigit n ≠ '\\' := by
  have hall : ∀ n : Fin 16, hexValue? (hexDigit n) = some n.val ∧
      isHexGap (hexDigit n) = false ∧ (hexDigit n).toNat < 128 ∧ hexDigit n ≠ '\\' := by decide
  exact hall ⟨n, h⟩

/-- The digits of bytes. -/
theorem toList_hexBytes_cons (b : UInt8) (bytes : List UInt8) :
    (hexBytes (b :: bytes)).toList =
      hexDigit (b.toNat / 16 % 16) :: hexDigit (b.toNat % 16) :: (hexBytes bytes).toList := by
  simp [hexBytes, hexText_two]

theorem readHexPairs_hexBytes (start : Nat) (bytes : List UInt8) :
    readHexPairs start (hexBytes bytes).toList = .ok bytes := by
  induction bytes generalizing start with
  | nil => simp [hexBytes, readHexPairs]
  | cons b bytes ih =>
    obtain ⟨hhigh, hgap, -, -⟩ := hexDigit_spec (n := b.toNat / 16 % 16) (by omega)
    obtain ⟨hlow, -, -, -⟩ := hexDigit_spec (n := b.toNat % 16) (by omega)
    have hbyte : b.toNat / 16 % 16 * 16 + b.toNat % 16 = b.toNat := by
      have := b.toNat_lt
      omega
    rw [toList_hexBytes_cons, readHexPairs, hgap, hhigh, hlow]
    simp only [Bool.false_eq_true, if_false, ih, hbyte, UInt8.ofNat_toNat]
    rfl

theorem lt_of_mem_hexBytes {bytes : List UInt8} {c : Char} (h : c ∈ (hexBytes bytes).toList) :
    c.toNat < 128 := by
  induction bytes with
  | nil => simp [hexBytes] at h
  | cons b bytes ih =>
    rw [toList_hexBytes_cons] at h
    rcases List.mem_cons.mp h with rfl | h
    · exact (hexDigit_spec (by omega)).2.2.1
    · rcases List.mem_cons.mp h with rfl | h
      · exact (hexDigit_spec (by omega)).2.2.1
      · exact ih h

/-- Bytes written as hexadecimal digits are read back. -/
theorem readHexBytes_hexBytes (bytes : List UInt8) : readHexBytes (hexBytes bytes) = .ok bytes := by
  have hplain : (hexBytes bytes).toList.findIdx? (fun c => decide (128 ≤ c.toNat)) = none := by
    rw [List.findIdx?_eq_none_iff]
    intro c hc
    have := lt_of_mem_hexBytes hc
    simpa using this
  rw [readHexBytes]
  simp only [hplain]
  exact readHexPairs_hexBytes 0 bytes

/-- No hexadecimal digits start with the mark that may stand in front of some. -/
theorem head?_hexBytes (bytes : List UInt8) : (hexBytes bytes).toList.head? ≠ some '\\' := by
  cases bytes with
  | nil => simp [hexBytes]
  | cons b bytes =>
    rw [toList_hexBytes_cons, List.head?_cons]
    intro h
    exact (hexDigit_spec (by omega)).2.2.2 (Option.some.inj h)

end RelGraph.Text
