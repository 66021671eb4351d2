import RelGraph.Proofs.Store.Changes
/-!
The numbers of rows. Whatever holds of every database that a write leaves behind holds of what a
session sees after any calls. So a table that starts empty has its rows in the order of their
numbers after any calls: a new row without a number of its own gets one past the last, and a number
that is a key is no other row's, since no key is repeated.
-/
namespace RelGraph.Store

open Sql Outcome

/-! ## What calls keep -/

/-- The table that a call writes to. -/
def Call.table? : Call → Option Table
  | fetch _ _ => none
  | insert t _ | update t _ _ | delete _ t _ => some t

/-- The writes to a table keep what holds of a database. -/
structure KeptByWrites (P : Database → Prop) (t : Table) : Prop where
  insert : ∀ db rows db' news, P db → Insert.run db ⟨t, rows⟩ = .ok (db', news) → P db'
  update : ∀ db u db' news, u.table = t → P db → Update.run db u = .ok (db', news) → P db'
  delete : ∀ db d db' gone, d.table = t → P db → Delete.run db d = .ok (db', gone) → P db'

theorem KeptByWrites.written {P : Database → Prop} {t : Table} (hkept : KeptByWrites P t)
    {runs : List (List (Members Value))} {db db' : Database} {news : List StoredRow} (hdb : P db)
    (h : written t db runs = .ok (db', news)) : P db' := by
  induction runs generalizing db news with
  | nil =>
    obtain ⟨rfl, rfl⟩ := Prod.mk.inj (Except.ok.inj h)
    exact hdb
  | cons run rest ih =>
    obtain ⟨⟨middle, first⟩, hfirst, h⟩ := bind_eq_ok.mp h
    obtain ⟨⟨last, more⟩, hrest, h⟩ := bind_eq_ok.mp h
    obtain ⟨rfl, rfl⟩ := Prod.mk.inj (pure_eq_ok.mp h)
    exact ih (hkept.insert db run middle first hdb hfirst) hrest

namespace Storage

variable {α : Type} {P : Database → Prop} {s : Storage} {access : Access} {t : Table}

/-- Something holds of all that a storage holds. -/
def Holds (P : Database → Prop) (s : Storage) : Prop := P s.committed ∧ P s.working

theorem Holds.seen (h : Holds P s) (access : Access) : P (s.seen access) := by
  cases access
  · exact h.1
  · exact h.2

theorem Holds.rollback (h : Holds P s) : Holds P s.rollback := ⟨h.1, h.1⟩

theorem Holds.counted (h : Holds P s) (outcome : Except Refusal α) :
    Holds P (s.counted outcome) := by
  obtain ⟨hcommitted, hworking⟩ := counted_sameData (s := s) outcome
  exact ⟨hcommitted ▸ h.1, hworking ▸ h.2⟩

theorem Holds.inSession {call : Storage → Outcome α} (hcall : ∀ s, Holds P s → Holds P (call s).2)
    (h : Holds P s) : Holds P (s.inSession access call).2 := by
  cases access with
  | own => exact (hcall _ h.rollback).rollback
  | borrowed carrier =>
    simp only [Storage.inSession]
    split
    · exact hcall s h
    · exact h

theorem Holds.failWrite {table : String} {e : Refusal} (h : Holds P s) :
    Holds P (Storage.failWrite table e s : Outcome α).2 := by
  simp only [Storage.failWrite]
  split
  · exact h.rollback
  · exact h

theorem Holds.settleWrite {table : String} {outcome : Except Refusal (Change α)} (h : Holds P s)
    (hwritten : ∀ db result, outcome = .ok (db, result) → P db) :
    Holds P (Storage.settleWrite table outcome s).2 := by
  rw [Storage.settleWrite.eq_def]
  rcases outcome with e | ⟨db, e | a⟩
  · exact (h.counted _).failWrite
  · have hdb := hwritten db _ rfl
    exact Holds.failWrite ⟨(h.counted _).1, hdb⟩
  · have hdb := hwritten db _ rfl
    exact ⟨hdb, hdb⟩

theorem Holds.runInserts {rows : List (Members Value)} (hkept : KeptByWrites P t)
    (h : Holds P s) : Holds P (Storage.runInserts t rows s).2 := by
  rw [Storage.runInserts]
  rcases hruns : insertRuns t s (runsOf rows) with ⟨e | keys, s'⟩
  · obtain ⟨hcommitted, -, herror⟩ := insertRuns_eq hruns
    obtain ⟨done, rest, news, -, hdone⟩ := herror e rfl
    exact Holds.failWrite ⟨hcommitted ▸ h.1, hkept.written h.2 hdone⟩
  · obtain ⟨-, hok, -⟩ := insertRuns_eq hruns
    obtain ⟨news, hall, -⟩ := hok keys rfl
    exact ⟨hkept.written h.2 hall, hkept.written h.2 hall⟩

/-- A call keeps what the writes to its table keep. -/
theorem Holds.run {call : Call} (hkept : ∀ t, call.table? = some t → KeptByWrites P t)
    (h : Holds P s) : Holds P (Call.run access s call) := by
  cases call with
  | fetch r n =>
    show Holds P (s.inSession access (fetchCall r n)).2
    refine Holds.inSession (fun s hs => ?_) h
    rw [fetchCall]
    split
    · exact hs
    · exact hs.counted _
  | insert t rows => exact Holds.inSession (fun s hs => hs.runInserts (hkept t rfl)) h
  | update t values p =>
    refine Holds.inSession (fun s hs => ?_) h
    split
    · exact hs
    · rename_i u hu
      refine hs.settleWrite fun db result hresult => ?_
      obtain ⟨-, news, hrun, -⟩ := updateResult_eq_ok hresult
      exact (hkept t rfl).update _ u db news (Update.ofPredicate_eq_ok hu).1 hs.2 hrun
  | delete r t n =>
    show Holds P (s.inSession access (deleteCall t n)).2
    refine Holds.inSession (fun s hs => ?_) h
    rw [deleteCall]
    split
    · exact hs
    · rename_i d hd
      refine hs.settleWrite fun db result hresult => ?_
      obtain ⟨gone, hrun, -⟩ := deleteResult_eq_ok hresult
      exact (hkept t rfl).delete _ d db gone (Delete.ofPredicate_eq_ok hd).1 hs.2 hrun

/-- Calls keep what the writes to their tables keep. -/
theorem Holds.afterCalls {calls : List Call}
    (hkept : ∀ call ∈ calls, ∀ t, call.table? = some t → KeptByWrites P t) (h : Holds P s) :
    Holds P (s.afterCalls access calls) := by
  induction calls generalizing s with
  | nil => exact h
  | cons call rest ih =>
    exact ih (fun call hcall => hkept call (List.mem_cons_of_mem _ hcall))
      (h.run (hkept call List.mem_cons_self))

end Storage

/-! ## Rows in the order of their numbers -/

section Numbers

variable {t : Table} {c : Column} {rows rows' : List StoredRow} {new : StoredRow}
  {db db' : Database} {news gone : List StoredRow}

/-- A number past the last is no row's. -/
theorem Numbered.lt_nextNumber (h : Numbered t rows) :
    ∀ row ∈ rows, row.number < nextNumber rows := by
  intro row hrow
  rcases List.eq_nil_or_concat rows with rfl | ⟨before, last, rfl⟩
  · cases hrow
  · rw [List.concat_eq_append] at h hrow ⊢
    have hlast : nextNumber (before ++ [last]) = last.number + 1 := by simp [nextNumber]
    rw [hlast]
    rcases List.mem_append.mp hrow with hrow | hrow
    · have hlt := (List.pairwise_append.mp h.ordered).2.2 row hrow last (List.mem_singleton_self _)
      omega
    · obtain rfl := List.mem_singleton.mp hrow
      omega

theorem Insert.number_of_addRow {i : Insert} {row : Members Value}
    (h : Insert.addRow i rows row = .ok (rows', new))
    (hnone : i.table.columns.find? (isRowNumber i.table) = none) :
    new.number = nextNumber rows := by
  obtain ⟨cells, hcells, h⟩ := bind_eq_ok.mp h
  obtain ⟨given, hgiven, h⟩ := bind_eq_ok.mp h
  obtain ⟨computed, hcomputed, h⟩ := bind_eq_ok.mp h
  rw [givenNumber, hnone] at hgiven
  obtain rfl := Except.ok.inj hgiven
  dsimp only at h
  split at h
  · cases h
  · obtain ⟨-, rfl⟩ := Prod.mk.inj (pure_eq_ok.mp h)
    rfl

theorem Numbered.addRows {i : Insert} {given : List (Members Value)} (hkept : i.table.KeptBy c)
    (h : Numbered i.table rows) (hadded : Insert.addRows i rows given = .ok (rows', news)) :
    Numbered i.table rows' := by
  induction given generalizing rows news with
  | nil =>
    obtain ⟨rfl, -⟩ := Prod.mk.inj (Except.ok.inj hadded)
    exact h
  | cons row rest ih =>
    obtain ⟨⟨middle, new⟩, hfirst, hadded⟩ := bind_eq_ok.mp hadded
    obtain ⟨⟨last, more⟩, hrest, hadded⟩ := bind_eq_ok.mp hadded
    obtain ⟨rfl, -⟩ := Prod.mk.inj (pure_eq_ok.mp hadded)
    obtain ⟨hmade, hviolation, rfl⟩ := Insert.addRow_eq_ok hfirst
    refine ih (h.placeRow_of_violation? hkept
      (fun hnumber => Insert.cell_of_number hkept.toKeyColumn hnumber hmade) ?_ hviolation) hrest
    intro hnone old hold
    rw [Insert.number_of_addRow hfirst hnone]
    exact Int.ne_of_lt (h.lt_nextNumber old hold)

/-- Writes to a table keep its rows in the order of their numbers. -/
theorem numbered_keptByWrites (hkept : t.KeptBy c) :
    KeptByWrites (fun db => Numbered t (db.rows t)) t where
  insert db rows db' news hdb h := by
    obtain ⟨-, -, h⟩ := bind_eq_ok.mp h
    obtain ⟨⟨rows, news'⟩, hadded, h⟩ := bind_eq_ok.mp h
    obtain ⟨rfl, -⟩ := Prod.mk.inj (pure_eq_ok.mp h)
    rw [Database.rows_setRows_self]
    exact Numbered.addRows hkept hdb hadded
  update db u db' news := by
    rintro rfl hdb h
    exact (Update.changeRows_eq_ok hkept hdb (Update.rows_perm_chosen db u)
      (Update.rows_of_run h).1).2.2
  delete db d db' gone := by
    rintro rfl hdb h
    obtain ⟨-, -, h⟩ := bind_eq_ok.mp h
    simp only [List.partition_eq_filter_filter] at h
    obtain ⟨rfl, -⟩ := Prod.mk.inj (pure_eq_ok.mp h)
    rw [Database.rows_setRows_self]
    exact hdb.filter _

/-- Writes to another table leave the rows of a table as they are. -/
theorem keptByWrites_of_other {u : Table} (h : u.declaration.name ≠ t.declaration.name)
    (p : List StoredRow → Prop) : KeptByWrites (fun db => p (db.rows t)) u where
  insert db rows db' news hdb hrun := by
    rw [(Insert.run_eq_ok hrun).2.2 t h.symm]
    exact hdb
  update db v db' news := by
    rintro rfl hdb hrun
    rw [(Update.rows_of_run hrun).2 t h.symm]
    exact hdb
  delete db d db' gone := by
    rintro rfl hdb hrun
    obtain ⟨-, -, hrun⟩ := bind_eq_ok.mp hrun
    obtain ⟨rfl, -⟩ := Prod.mk.inj (pure_eq_ok.mp hrun)
    rw [Database.rows_setRows_of_ne h.symm]
    exact hdb

/-- After any calls on an empty storage the rows of a table are in the order of their numbers, where
no call writes under its name to a table of another make. -/
theorem numbered_afterCalls {access : Access} {calls : List Call} (hkept : t.KeptBy c)
    (hcalls : ∀ call ∈ calls, ∀ u, call.table? = some u →
      u.declaration.name = t.declaration.name → u = t) (seer : Access) :
    Numbered t (((({} : Storage).afterCalls access calls).seen seer).rows t) := by
  refine Storage.Holds.seen (P := fun db => Numbered t (db.rows t)) ?_ seer
  refine Storage.Holds.afterCalls (fun call hcall u hu => ?_) ⟨.nil t, .nil t⟩
  by_cases hname : u.declaration.name = t.declaration.name
  · obtain rfl := hcalls call hcall u hu hname
    exact numbered_keptByWrites hkept
  · exact keptByWrites_of_other hname (Numbered t)

end Numbers

end RelGraph.Store
