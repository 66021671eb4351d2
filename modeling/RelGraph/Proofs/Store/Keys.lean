import RelGraph.Store.Comparison
import RelGraph.Proofs.Calendar.Iso
import RelGraph.Proofs.Outcome
import RelGraph.Proofs.Uuid
import Mathlib.Data.List.Basic
/-!
Keys. A value that is written into a key column is stored as a cell; what is read from that cell is
the key by which the row is known, and binding the key has to come to the cell again for the row to
be found by it. This says for which types that is so, and that keys are then the same exactly where
their cells are equal.
-/
namespace RelGraph.Store

open Sql

/-! ## Cells that are equal -/

theorem Cell.orderOfLists_eq_eq {xs ys : List Nat} : orderOfLists xs ys = .eq ↔ xs = ys := by
  induction xs generalizing ys with
  | nil => cases ys <;> simp [orderOfLists]
  | cons x xs ih => cases ys <;> simp [orderOfLists, Ordering.then_eq_eq, ih]

theorem compareRatios_eq_comm (a b : Int × Nat) :
    Binary64.compareRatios a b = .eq ↔ Binary64.compareRatios b a = .eq := by
  simp only [Binary64.compareRatios, Int.compare_eq_eq]
  exact eq_comm

theorem compareDoubles_eq_comm (x y : Binary64) :
    (Binary64.compare? x y).getD .eq = .eq ↔ (Binary64.compare? y x).getD .eq = .eq := by
  cases x with
  | nan => cases y <;> simp [Binary64.compare?]
  | infinite p => cases y with
    | nan => simp [Binary64.compare?]
    | infinite q => cases p <;> cases q <;> simp [Binary64.compare?]
    | finite n m e => cases p <;> simp [Binary64.compare?, Binary64.compareRatio?]
  | finite n m e => cases y with
    | nan => simp [Binary64.compare?]
    | infinite q => cases q <;> simp [Binary64.compare?, Binary64.compareRatio?]
    | finite n' m' e' =>
      simp only [Binary64.compare?, Binary64.compareRatio?, Option.map_some, Option.getD_some,
        Ordering.swap_eq_eq]
      exact compareRatios_eq_comm _ _

theorem Cell.order_eq_comm (a b : Cell) : a.order b = .eq ↔ b.order a = .eq := by
  cases a <;> cases b
  case integer.real n x =>
    simp only [order]
    cases Binary64.compareRatio? x (n, 1) <;> simp
  case real.integer x n =>
    simp only [order]
    cases Binary64.compareRatio? x (n, 1) <;> simp
  case real.real x y => exact compareDoubles_eq_comm x y
  all_goals simp only [order, rank, orderOfLists_eq_eq, Int.compare_eq_eq, Nat.compare_eq_eq]
  all_goals exact eq_comm

theorem Cell.order_self (a : Cell) : a.order a = .eq := by
  cases a with
  | real x =>
    cases x <;> simp [order, Binary64.compare?, Binary64.compareRatio?, Binary64.compareRatios]
  | _ => simp [order, orderOfLists_eq_eq, rank]

theorem Cell.order_null_ne_eq {cell : Cell} (h : cell.isNull = false) : null.order cell ≠ .eq := by
  cases cell with
  | null => cases h
  | _ => simp [order, rank]

/-! ## Cells as columns keep them -/

/-- Whether a cell holds a text. -/
def Cell.isText : Cell → Bool
  | text _ => true
  | _ => false

theorem Cell.isText_narrowed (cell : Cell) : cell.narrowed.isText = cell.isText := by
  cases cell with
  | real x =>
    simp only [narrowed]
    split
    · split <;> rfl
    · rfl
  | _ => rfl

theorem Cell.isText_ofReal (x : Binary64) : (ofReal x).isText = false := by
  cases x <;> rfl

theorem Cell.isText_asReal (cell : Cell) : cell.asReal.isText = cell.isText := by
  cases cell with
  | integer n => exact isText_ofReal _
  | _ => rfl

theorem Cell.isText_of_choice {p q : Prop} [Decidable p] [Decidable q] {n : Int}
    {power : Option Int} {double : Int → Binary64} {cell : Cell}
    (h : (if p then none else if q then some (integer n)
      else power.map fun k => ofReal (double k)) = some cell) : cell.isText = false := by
  split at h
  · cases h
  · split at h
    · obtain rfl := Option.some.inj h
      rfl
    · obtain ⟨k, -, rfl⟩ := Option.map_eq_some_iff.mp h
      exact isText_ofReal _

theorem Cell.isText_of_numberOf? {s : String} {cell : Cell} (h : numberOf? s = some cell) :
    cell.isText = false := by
  rw [numberOf?] at h
  exact isText_of_choice h

/-- A text that a column towards numbers keeps spells no number. -/
theorem Affinity.asNumber_of_stored {a : Affinity} (ha : a.isNumeric = true) {cell : Cell}
    (h : a.stored cell = cell) : cell.asNumber = cell := by
  cases cell with
  | text s =>
    cases hnumber : Cell.numberOf? s with
    | none => simp [Cell.asNumber, hnumber]
    | some number =>
      have hnot := Cell.isText_of_numberOf? hnumber
      have hstored : (a.stored (.text s)).isText = false := by
        cases a with
        | integer | numeric | real =>
          simp [stored, Cell.asNumber, hnumber, Cell.isText_narrowed, Cell.isText_asReal, hnot]
        | text | none => cases ha
      rw [h] at hstored
      cases hstored
  | _ => rfl

/-- Beside a cell that a column keeps, no cell has to be turned into another to be compared. -/
theorem Affinity.meet_of_stored {a : Affinity} {cell : Cell} (h : a.stored cell = cell)
    (other : Cell) : a.meet .none other cell = (other, cell) := by
  rw [meet]
  cases ha : a.isNumeric with
  | true => simp [isNumeric, asNumber_of_stored ha h]
  | false =>
    cases a with
    | text =>
      have htext : cell.asText = cell := h
      simp [isNumeric, htext]
    | none => simp [isNumeric]
    | _ => cases ha

/-! ## Texts that are no numbers -/

/-- A text whose leading digits are followed by a mark that no number goes on with spells none. -/
theorem Cell.numberOf?_eq_none {s : String} {whole rest : List Char} {mark : Char}
    {last : Char} (hs : s.toList = whole ++ mark :: (rest ++ [last])) (hsome : whole ≠ [])
    (hwhole : ∀ c ∈ whole, c.isDigit = true) (hmark : mark.isDigit = false)
    (hgoes : mark ∉ ['.', 'e', 'E']) (hlast : last.isDigit = true) : numberOf? s = none := by
  have hpad : ∀ {c : Char}, c.isDigit = true → Numeral.isPad c = false := by
    intro c hc
    simp only [Char.isDigit, Bool.and_eq_true, decide_eq_true_eq] at hc
    have hleast : 48 ≤ c.toNat := hc.1
    have hblank : c ≠ ' ' := by
      rintro rfl
      exact absurd hleast (by decide)
    simp [Numeral.isPad, hblank]
    omega
  obtain ⟨first, others, rfl⟩ := List.exists_cons_of_ne_nil hsome
  have hfirst := hwhole first (by simp)
  have htrimmed : Text.trimRight Numeral.isPad (Text.trimLeft Numeral.isPad s.toList) =
      s.toList := by
    refine Text.trim_of_ends (fun c hc => hpad ?_) fun c hc => hpad ?_
    · obtain rfl : first = c := by simpa [hs] using hc
      exact hfirst
    · obtain rfl : last = c := by simpa [hs, List.getLast?_cons] using hc
      exact hlast
  have hsigned : Numeral.signed s.toList = (false, s.toList) := by
    rw [Numeral.signed.eq_def, hs]
    split
    · rename_i h
      obtain ⟨rfl, -⟩ := List.cons.inj h
      cases hfirst
    · rename_i h
      obtain ⟨rfl, -⟩ := List.cons.inj h
      cases hfirst
    · rfl
  have hrun : s.toList.takeWhile Char.isDigit = first :: others := by
    rw [hs, List.takeWhile_append_of_pos hwhole, List.takeWhile_cons_of_neg (by simp [hmark]),
      List.append_nil]
  have hrest : s.toList.dropWhile Char.isDigit = mark :: (rest ++ [last]) := by
    rw [hs, List.dropWhile_append_of_pos hwhole, List.dropWhile_cons_of_neg (by simp [hmark])]
  have hmarks : mark ≠ '.' ∧ mark ≠ 'e' ∧ mark ≠ 'E' := by simpa using hgoes
  have hpower : writtenPower? (mark :: (rest ++ [last])) = none := by
    rw [writtenPower?, if_neg (by simp [hmarks])]
  unfold numberOf?
  simp only [htrimmed, hsigned, hrun, hrest]
  split
  · rename_i hpoint
    exact absurd (List.cons.inj hpoint).1 hmarks.1
  · simp [hpower]

theorem Cell.numberOf?_dateText (d : Date) : numberOf? (Calendar.dateText d) = none := by
  obtain ⟨rest, hs⟩ := Calendar.dateText_ends d
  exact numberOf?_eq_none hs (by simp [Text.decimals]) (fun c => Text.isDigit_of_mem_decimals)
    (by decide) (by decide) (Text.isDigit_digitChar _)

theorem Cell.numberOf?_clockText (t : TimeOfDay) : numberOf? (Binding.clockText t) = none := by
  obtain ⟨rest, hs⟩ := Calendar.clockText_ends t
  exact numberOf?_eq_none hs (by simp [Text.decimals]) (fun c => Text.isDigit_of_mem_decimals)
    (by decide) (by decide) (Text.isDigit_digitChar _)

theorem Cell.numberOf?_momentText (m : DateTime) : numberOf? (Binding.momentText m) = none := by
  obtain ⟨rest, hs⟩ := Calendar.momentText_ends m
  exact numberOf?_eq_none hs (by simp [Text.decimals]) (fun c => Text.isDigit_of_mem_decimals)
    (by decide) (by decide) (Text.isDigit_digitChar _)

theorem momentOfText_momentText (m : DateTime) :
    Conversion.momentOfText (Binding.momentText m) = .ok m.naive := by
  obtain ⟨rest, hs⟩ := Calendar.momentText_ends m
  have hlast : (Binding.momentText m).toList.getLast? =
      some (Nat.digitChar (m.clock.micro % 10)) := by
    simp [hs, List.getLast?_cons]
  have hplain : Conversion.spellZulu (Binding.momentText m) = Binding.momentText m := by
    rw [Conversion.spellZulu, if_neg]
    intro hz
    have hdigit := Text.isDigit_digitChar m.clock.micro
    rw [Option.some.inj (hlast.symm.trans hz)] at hdigit
    cases hdigit
  rw [Conversion.momentOfText, hplain, Calendar.readMoment_momentText]

theorem Cell.ofReal_of_ne_nan {x : Binary64} (h : x ≠ .nan) :
    ∃ y, ofReal x = .real y ∧ ofReal y = .real y := by
  cases x with
  | nan => exact absurd rfl h
  | infinite negative => exact ⟨_, rfl, rfl⟩
  | finite negative m e =>
    by_cases hzero : m = 0
    · exact ⟨Binary64.zero false, by simp [ofReal, hzero], rfl⟩
    · exact ⟨.finite negative m e, by simp [ofReal, hzero], by simp [ofReal, hzero]⟩

theorem Affinity.stored_text {a : Affinity} {s : String} (h : Cell.numberOf? s = .none) :
    a.stored (.text s) = .text s := by
  cases a <;> simp [stored, Cell.asNumber, h, Cell.narrowed, Cell.asReal, Cell.asText]

/-! ## Key columns -/

/-- Values of key columns that find the rows again which they were read from: a type, a cell and
what is read from it. Dates, times, moments and identifiers are stored in the way in which they are
written. -/
inductive KeyCell : ColumnType → Cell → Value → Prop
  | integer {n : Int} (hn : Cell.fits n = true) : KeyCell .integer (.integer n) (.int n)
  | smallInteger {n : Int} (hn : Cell.fits n = true) : KeyCell .smallInteger (.integer n) (.int n)
  | bigInteger {n : Int} (hn : Cell.fits n = true) : KeyCell .bigInteger (.integer n) (.int n)
  | double {x : Binary64} (hx : Cell.ofReal x = .real x) : KeyCell .float (.real x) (.float x)
  | text {long : Bool} {s : String} : KeyCell (.text long) (.text s) (.text s)
  | choice {label : String} {stored : List String} {s : String} :
      KeyCell (.choice label stored) (.text s) (.text s)
  | truth {b : Bool} : KeyCell .boolean (.integer (if b then 1 else 0)) (.bool b)
  | date {s : String} {d : Date} (hread : Conversion.dateOfText s = .ok d)
      (hwritten : Calendar.dateText d = s) : KeyCell .date (.text s) (.date d)
  | time {s : String} {clock : TimeOfDay} (hread : Conversion.timeOfText s = .ok ⟨clock, none⟩)
      (hwritten : Binding.clockText clock = s) : KeyCell .time (.text s) (.time ⟨clock, none⟩)
  | moment {zoned : Bool} {s : String} {m : DateTime} (hread : Conversion.momentOfText s = .ok m)
      (hnaive : m.offset = none) (hwritten : Binding.momentText m = s) :
      KeyCell (.moment zoned) (.text s) (.moment m)
  | uuid {native : Bool} {s : String} {u : Uuid} (hread : Conversion.uuidOfText s = .ok u)
      (hwritten : u.hex = s) : KeyCell (.uuid native) (.text s) (.uuid u)

/-- Whether callers see the keys of a column as the database gives them. -/
def isShownAsRead : ColumnType → Bool
  | .uuid _ => false
  | _ => true

namespace KeyCell

variable {c : Column} {t : ColumnType} {cell other : Cell} {key key' : Value}

theorem read (h : KeyCell t cell key) : Binding.result t cell = .ok key := by
  cases h with
  | integer | smallInteger | bigInteger | double | text | choice => rfl
  | @truth b => cases b <;> rfl
  | date hread => exact congrArg (Binding.readAs Value.date) hread
  | time hread => exact congrArg (Binding.readAs Value.time) hread
  | moment hread => exact congrArg (Binding.readAs Value.moment) hread
  | uuid hread => exact congrArg (Binding.readAs Value.uuid) hread

theorem accepted_of_write {v w : Value} (hwrite : Binding.write t v = .ok w)
    (hcell : Binding.cell 1 w = .ok cell) : Binding.accepted t v = cell := by
  rw [Binding.accepted, hwrite]
  dsimp only
  rw [hcell]
  rfl

/-- A key is bound as the cell that it was read from. -/
theorem accepted (h : KeyCell t cell key) : Binding.accepted t key = cell := by
  cases h with
  | integer hn | smallInteger hn | bigInteger hn => exact accepted_of_write rfl (if_pos hn)
  | double hx => exact accepted_of_write rfl (congrArg Except.ok hx)
  | text | choice => rfl
  | @truth b => cases b <;> rfl
  | date _ hwritten | time _ hwritten | uuid _ hwritten | moment _ _ hwritten =>
    exact accepted_of_write rfl (congrArg (Except.ok ∘ Cell.text) hwritten)

theorem operandType_eq (h : KeyCell t cell key) (hc : c.declaration.type = t) :
    operandType c key = t := by
  rw [operandType.eq_def, hc]
  cases h <;> rfl

theorem items?_eq_none (h : KeyCell t cell key) : key.items? = none := by
  cases h <;> rfl

theorem unfitKey?_eq_none (h : KeyCell t cell key) : Shape.unfitKey? key = none := by
  cases h <;> rfl

theorem isNull_eq_false (h : KeyCell t cell key) : cell.isNull = false := by
  cases h <;> rfl

theorem operandCell_eq (h : KeyCell t cell key) (hc : c.declaration.type = t) :
    operandCell c key = cell := by
  have hplain : Binding.accepted (operandType c key) key = cell := by
    rw [h.operandType_eq hc, h.accepted]
  cases h with
  | truth => rfl
  | _ => exact hplain

theorem same_eq_sameScalar (h : KeyCell t cell key) (v : Value) :
    Value.same key v = Value.sameScalar key v := by
  cases h <;> simp [Value.same, Value.sameBy]

/-- Doubles that are the same are equal as cells. -/
theorem order_of_sameDouble {x y : Binary64}
    (h : Value.sameScalar (.float x) (.float y) = true) :
    (Cell.real x).order (.real y) = .eq := by
  cases x with
  | nan => cases y <;> cases h
  | infinite p => cases y with
    | infinite q => simp [Cell.order, Binary64.compare?, beq_iff_eq.mp h]
    | nan | finite => cases h
  | finite negative m e => cases y with
    | nan | infinite => cases h
    | finite negative' m' e' =>
      have hratio := beq_iff_eq.mp h
      simp only [Cell.order, Binary64.compare?, Binary64.compareRatio?, Binary64.compareRatios,
        Option.map_some, Option.getD_some, Ordering.swap_eq_eq, Int.compare_eq_eq]
      exact hratio.symm

theorem order_of_sameInt {m n : Int} (h : Value.sameScalar (.int m) (.int n) = true) :
    (Cell.integer m).order (.integer n) = .eq := by
  have hratio : m * (1 : Nat) = n * (1 : Nat) := beq_iff_eq.mp h
  obtain rfl : m = n := by omega
  exact Cell.order_self _

theorem order_of_sameText {s u : String} (h : Value.sameScalar (.text s) (.text u) = true) :
    (Cell.text s).order (.text u) = .eq := by
  obtain rfl := beq_iff_eq.mp h
  exact Cell.order_self _

/-- Keys that are the same were read from cells that are equal. -/
theorem order_of_same (h : KeyCell t cell key) (h' : KeyCell t other key')
    (hsame : Value.same key key' = true) : cell.order other = .eq := by
  rw [h.same_eq_sameScalar] at hsame
  cases h with
  | integer | smallInteger | bigInteger => cases h'; exact order_of_sameInt hsame
  | double => cases h'; exact order_of_sameDouble hsame
  | text | choice => cases h'; exact order_of_sameText hsame
  | @truth b => cases h' with
    | @truth b' => cases b <;> cases b' <;> first | exact Cell.order_self _ | cases hsame
  | @date _ d _ hwritten => cases h' with
    | @date _ d' _ hwritten' =>
      obtain rfl : d = d' := beq_iff_eq.mp hsame
      rw [← hwritten, ← hwritten']
      exact Cell.order_self _
  | @time _ clock _ hwritten => cases h' with
    | @time _ clock' _ hwritten' =>
      have hclock : (clock.micros : Int) = clock'.micros := by
        simpa [Value.sameScalar, Value.ratio?] using hsame
      obtain rfl := TimeOfDay.micros_injective (Int.ofNat_inj.mp hclock)
      rw [← hwritten, ← hwritten']
      exact Cell.order_self _
  | @moment _ _ m _ hnaive hwritten => cases h' with
    | @moment _ _ m' _ hnaive' hwritten' =>
      have hinstant : m.instant = m'.instant := by
        simp only [Value.sameScalar, Value.ratio?, Bool.and_eq_true, beq_iff_eq] at hsame
        exact hsame.2
      obtain rfl := DateTime.eq_of_instant (hnaive.trans hnaive'.symm) hinstant
      rw [← hwritten, ← hwritten']
      exact Cell.order_self _
  | @uuid _ _ u _ hwritten => cases h' with
    | @uuid _ _ u' _ hwritten' =>
      obtain rfl : u = u' := beq_iff_eq.mp hsame
      rw [← hwritten, ← hwritten']
      exact Cell.order_self _

theorem same_self (h : KeyCell t cell key) : Value.same key key = true := by
  rw [h.same_eq_sameScalar]
  cases h with
  | @double x hx => cases x with
    | nan => cases hx
    | infinite p => exact beq_self_eq_true p
    | finite => exact beq_self_eq_true _
  | @truth b => cases b <;> rfl
  | time | moment => simp [Value.sameScalar, Value.ratio?]
  | _ => exact beq_self_eq_true _

/-- Callers see a key as it was read, unless it is an identifier, of which they see the text. -/
theorem showValue_eq_ok (h : KeyCell t cell key) (hkind : c.kind = t.kind) :
    ∃ shown, Conversion.showValue c key = .ok shown ∧ Shape.unfitKey? shown = none ∧
      (isShownAsRead t = true → shown = key) := by
  rw [Conversion.showValue.eq_def, hkind]
  cases h with
  | uuid => exact ⟨_, rfl, rfl, by simp [isShownAsRead]⟩
  | _ => exact ⟨_, rfl, rfl, fun _ => rfl⟩

end KeyCell

/-! ## Values of keys -/

/-- Values of key columns by which the rows are found again that are written with them. -/
inductive KeyValue : ColumnType → Value → Prop
  | integer {n : Int} (hn : Cell.fits n = true) : KeyValue .integer (.int n)
  | smallInteger {n : Int} (hn : Cell.fits n = true) : KeyValue .smallInteger (.int n)
  | bigInteger {n : Int} (hn : Cell.fits n = true) : KeyValue .bigInteger (.int n)
  | double {x : Binary64} (hx : x ≠ .nan) : KeyValue .float (.float x)
  | text {long : Bool} {s : String} : KeyValue (.text long) (.text s)
  | choice {label : String} {stored : List String} {s : String} :
      KeyValue (.choice label stored) (.text s)
  | truth {b : Bool} : KeyValue .boolean (.bool b)
  | date {d : Date} : KeyValue .date (.date d)
  | time {t : Time} : KeyValue .time (.time t)
  | moment {zoned : Bool} {m : DateTime} : KeyValue (.moment zoned) (.moment m)
  | uuid {u : Uuid} : KeyValue (.uuid false) (.uuid u)

/-- A value of a key column is stored in the way in which it is bound, and found again by what is
read from its cell. -/
theorem KeyValue.keyCell {t : ColumnType} {v : Value} (h : KeyValue t v) :
    (Affinity.ofType t).stored (Binding.accepted t v) = Binding.accepted t v ∧
      ∃ key, KeyCell t (Binding.accepted t v) key := by
  cases h with
  | @integer n hn =>
    rw [KeyCell.accepted (.integer hn)]
    exact ⟨rfl, _, .integer hn⟩
  | @smallInteger n hn =>
    rw [KeyCell.accepted (.smallInteger hn)]
    exact ⟨rfl, _, .smallInteger hn⟩
  | @bigInteger n hn =>
    rw [KeyCell.accepted (.bigInteger hn)]
    exact ⟨rfl, _, .bigInteger hn⟩
  | @double x hx =>
    obtain ⟨y, hy, hyy⟩ := Cell.ofReal_of_ne_nan hx
    have hcell : Binding.accepted .float (.float x) = .real y :=
      KeyCell.accepted_of_write rfl (congrArg Except.ok hy)
    rw [hcell]
    exact ⟨rfl, _, .double hyy⟩
  | text => exact ⟨rfl, _, .text⟩
  | choice => exact ⟨rfl, _, .choice⟩
  | @truth b =>
    rw [KeyCell.accepted .truth]
    exact ⟨rfl, _, .truth⟩
  | @date d =>
    have hread : Conversion.dateOfText (Calendar.dateText d) = .ok d := by
      rw [Conversion.dateOfText, Calendar.readDate_dateText]
    have hkey := KeyCell.date hread rfl
    rw [hkey.accepted]
    exact ⟨Affinity.stored_text (Cell.numberOf?_dateText d), _, hkey⟩
  | @time t =>
    have hread : Conversion.timeOfText (Binding.clockText t.clock) = .ok ⟨t.clock, none⟩ := by
      unfold Conversion.timeOfText
      rw [Calendar.readTime_clockText]
    have hkey := KeyCell.time hread rfl
    rw [show Binding.accepted .time (.time t) = _ from hkey.accepted]
    exact ⟨Affinity.stored_text (Cell.numberOf?_clockText t.clock), _, hkey⟩
  | @moment zoned m =>
    have hkey : KeyCell (.moment zoned) (.text (Binding.momentText m)) (.moment m.naive) :=
      .moment (momentOfText_momentText m) rfl rfl
    rw [show Binding.accepted (.moment zoned) (.moment m) = _ from hkey.accepted]
    exact ⟨Affinity.stored_text (Cell.numberOf?_momentText m), _, hkey⟩
  | @uuid u =>
    have hread : Conversion.uuidOfText u.hex = .ok u := by
      rw [Conversion.uuidOfText, Uuid.read_hex]
    have hkey : KeyCell (.uuid false) (.text u.hex) (.uuid u) := .uuid hread rfl
    rw [hkey.accepted]
    exact ⟨rfl, _, hkey⟩

end RelGraph.Store
