import RelGraph.Proofs.Schema.Registry
import RelGraph.Proofs.Store.Insertion
import RelGraph.Proofs.Store.Keys
/-!
The key cells of new rows. A row that is inserted with a value of its key's type, or that is known
by its number, is found again by the key that is read from it.
-/
namespace RelGraph.Store

open Sql Outcome

/-! ## The cells of new rows -/

theorem primaryColumns_of_isRowNumber {t : Table} {c : Column} (h : isRowNumber t c = true) :
    ∃ key, t.declaration.primaryColumns = [key] ∧ key.key = c.name := by
  rw [isRowNumber.eq_def] at h
  split at h
  · rename_i key hkey _
    exact ⟨key, hkey, by simpa using h⟩
  · cases h

/-- Where the key of a row is its number, no other column is. -/
theorem find?_isRowNumber {t : Table} {c : Column} (h : t.KeyColumn c)
    (hnumber : isRowNumber t c = true) : t.columns.find? (isRowNumber t) = some c := by
  obtain ⟨key, hkey, hname⟩ := primaryColumns_of_isRowNumber hnumber
  obtain ⟨-, before, after, hcolumns, hbefore⟩ := List.find?_eq_some_iff_append.mp h.found
  refine List.find?_eq_some_iff_append.mpr
    ⟨hnumber, before, after, hcolumns, fun other hother => ?_⟩
  have hne : other.name ≠ c.name := by simpa using hbefore other hother
  rw [Bool.not_eq_true', Bool.eq_false_iff]
  intro hboth
  obtain ⟨key', hkey', hname'⟩ := primaryColumns_of_isRowNumber hboth
  obtain rfl : key = key' := List.head_eq_of_cons_eq (hkey.symm.trans hkey')
  exact hne (hname'.symm.trans hname)

namespace Insert

variable {t : Table} {c : Column} {rows run : List (Members Value)} {row : Members Value}
  {new : StoredRow} {v : Value}

/-- What a row gives for a column, or the default of the application's. -/
def given? (c : Column) (row : Members Value) : Option Value :=
  (Members.get? row c.name).or c.declaration.clientDefault

theorem valueFor_of_given (h : given? c row = some v) : valueFor row c = v := by
  rw [given?] at h
  rw [valueFor]
  cases hget : Members.get? row c.name <;> simp_all

theorem binds_of_given (hc : c ∈ t.columns) (hrun : run ∈ runsOf rows) (hrow : row ∈ run)
    (h : given? c row = some v) : binds ⟨t, run⟩ c = true := by
  have hnames := mem_names_head hrun hrow c.name
  rw [binds, List.any_eq_true]
  refine ⟨c, ?_, by simp⟩
  rw [bound, List.mem_append]
  by_cases hmem : c.name ∈ Members.names row
  · refine .inl (List.mem_filter.mpr ⟨hc, ?_⟩)
    simpa using hnames.mpr hmem
  · refine .inr (List.mem_filter.mpr ⟨hc, ?_⟩)
    have hnone := Members.get?_eq_none.mpr hmem
    rw [given?, hnone, Option.none_or] at h
    have hnot := mt hnames.mp hmem
    simp [hnot, h]

/-- Computing columns leaves the cells of all others as they were. -/
theorem get?_computeCells {rounds : Nat} {columns : List Column} {cells cells' : Members Cell}
    {name : String} (h : computeCells t rounds columns cells = .ok cells')
    (hname : ∀ c ∈ columns, c.declaration.name ≠ name) :
    Members.get? cells' name = Members.get? cells name := by
  induction rounds generalizing columns cells with
  | zero =>
    obtain rfl := Except.ok.inj h
    rfl
  | succ rounds ih =>
    simp only [computeCells, List.partition_eq_filter_filter] at h
    obtain ⟨more, hmore, h⟩ := bind_eq_ok.mp h
    have hnow : Members.get? more name = Members.get? cells name := by
      refine foldlM_induction (P := fun more => Members.get? more name = Members.get? cells name)
        hmore (fun before c hc after hafter hbefore => ?_) rfl
      obtain ⟨cell, -, hafter⟩ := bind_eq_ok.mp hafter
      obtain rfl := pure_eq_ok.mp hafter
      have hother : name ≠ c.declaration.name :=
        fun heq => hname c (List.mem_of_mem_filter hc) heq.symm
      rw [Members.get?_put_of_ne _ _ hother, hbefore]
    split at h
    · obtain rfl := pure_eq_ok.mp h
      exact hnow
    · rw [ih h fun c hc => hname c (List.mem_of_mem_filter hc), hnow]

/-- The key of a row is not computed, and so no other cell is written over it. -/
theorem cell_eq (hkey : t.KeyColumn c) (hmakes : Makes ⟨t, run⟩ row new) :
    ∃ cells, newCells ⟨t, run⟩ row = .ok cells ∧
      new.cell c = (Members.get? (numbered t new.number cells) c.declaration.name).getD .null := by
  obtain ⟨cells, given, hcells, -, -, hcomputed⟩ := hmakes.made
  refine ⟨cells, hcells, ?_⟩
  rw [StoredRow.cell, get?_computeCells hcomputed]
  intro other hother hsame
  obtain ⟨hmem, hisSome⟩ := List.mem_filter.mp hother
  rw [hkey.stored other hmem hsame, hkey.given] at hisSome
  cases hisSome

theorem cell_of_number (hkey : t.KeyColumn c) (hnumber : isRowNumber t c = true)
    (hmakes : Makes ⟨t, run⟩ row new) : new.cell c = .integer new.number := by
  obtain ⟨cells, -, hcell⟩ := cell_eq hkey hmakes
  rw [hcell, numbered, find?_isRowNumber hkey hnumber, Members.get?_put_self]
  rfl

/-- A column is stored as a new row gives it. -/
theorem cell_of_given (hkey : t.KeyColumn c) (hrun : run ∈ runsOf rows) (hrow : row ∈ run)
    (h : given? c row = some v) (hnumber : isRowNumber t c = false)
    (hmakes : Makes ⟨t, run⟩ row new) :
    new.cell c = storedCell c (Binding.accepted c.declaration.type v) := by
  obtain ⟨cells, hcells, hcell⟩ := cell_eq hkey hmakes
  have hnew : newCell ⟨t, run⟩ row c =
      .ok (storedCell c (Binding.accepted c.declaration.type v)) := by
    rw [newCell, if_pos (binds_of_given hkey.mem hrun hrow h), valueFor_of_given h]
  have hget : Members.get? cells c.declaration.name =
      some (storedCell c (Binding.accepted c.declaration.type v)) := by
    obtain ⟨hnames, -, hback⟩ := mapM_named_eq_ok hcells
    have hthere : c.declaration.name ∈ Members.names cells :=
      hnames ▸ List.mem_map_of_mem hkey.mem
    cases hget : Members.get? cells c.declaration.name with
    | none => exact absurd hthere (Members.get?_eq_none.mp hget)
    | some cell =>
      obtain ⟨other, hother, hname, hcell⟩ := hback _ (Members.mem_of_get? hget)
      obtain rfl := hkey.stored other hother hname
      exact congrArg some (Except.ok.inj (hcell.symm.trans hnew))
  have hkept : Members.get? (numbered t new.number cells) c.declaration.name =
      Members.get? cells c.declaration.name := by
    rw [numbered]
    split
    · rfl
    · rename_i other hother
      have hne : c.declaration.name ≠ other.declaration.name := by
        intro heq
        have hsame := hkey.stored other (List.mem_of_find?_eq_some hother) heq.symm
        rw [← hsame, List.find?_some hother] at hnumber
        cases hnumber
      rw [Members.get?_put_of_ne _ _ hne]
  rw [hcell, hkept, hget, Option.getD_some]

end Insert

/-! ## Keys that are kept -/

/-- A row can be found again by its key: the cell is as the column keeps it, and the key was read
from it. -/
def KeepsKey (c : Column) (row : StoredRow) (key : Value) : Prop :=
  storedCell c (row.cell c) = row.cell c ∧ KeyCell c.declaration.type (row.cell c) key

/-- A row that is inserted has a key: it is known by its number, or is given a value of the type of
its key. -/
def HasKey (t : Table) (c : Column) (row : Members Value) (new : StoredRow) : Prop :=
  if isRowNumber t c then c.declaration.type = .integer ∧ Cell.fits new.number = true
  else ∃ v, Insert.given? c row = some v ∧ KeyValue c.declaration.type v

/-- A row that is inserted with a key can be found again by it. -/
theorem keepsKey_of_newRow {t : Table} {c : Column} {rows : List (Members Value)}
    {row : Members Value} {new : StoredRow} (hkey : t.KeyColumn c)
    (hnew : NewRow t (runsOf rows) row new) (h : HasKey t c row new) :
    ∃ key, KeepsKey c new key := by
  obtain ⟨run, hrun, hrow, hmakes⟩ := hnew
  rw [HasKey] at h
  split at h
  · rename_i hnumber
    obtain ⟨htype, hfits⟩ := h
    refine ⟨.int new.number, ?_⟩
    rw [KeepsKey, Insert.cell_of_number hkey hnumber hmakes, storedCell, affinityOf, htype]
    exact ⟨rfl, .integer hfits⟩
  · rename_i hnumber
    obtain ⟨v, hgiven, hvalue⟩ := h
    obtain ⟨hstored, key, hcell⟩ := hvalue.keyCell
    replace hstored : storedCell c (Binding.accepted c.declaration.type v) =
        Binding.accepted c.declaration.type v := hstored
    refine ⟨key, ?_⟩
    rw [KeepsKey, Insert.cell_of_given hkey hrun hrow hgiven (by simpa using hnumber) hmakes,
      hstored]
    exact ⟨hstored, hcell⟩

end RelGraph.Store
