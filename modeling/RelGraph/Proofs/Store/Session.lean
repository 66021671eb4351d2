import Mathlib.Algebra.Group.Int.Defs
import RelGraph.Proofs.Store.Insertion
import RelGraph.Proofs.Store.Storage
/-!
Calls on one session, one after the other. What a call does depends on the databases alone, and not
on how many statements were sent before it. An insert that goes well has committed all of its rows.
When the database refuses one of its statements, the session goes on as if the insert had not been
there; but after any other failure what was written before it stays in the transaction, and the next
write that goes well commits it.
-/
namespace RelGraph.Store

open Sql Outcome

/-! ## Runs of calls -/

/-- A call of the storage. -/
inductive Call
  | fetch (r : Registry) (n : Node)
  | insert (t : Table) (rows : List (Members Value))
  | update (t : Table) (values : Members Value) (p : Option Predicate)
  | delete (r : Registry) (t : Table) (n : Node)

/-- The storage after a call. -/
def Call.run (access : Access) (s : Storage) : Call → Storage
  | fetch r n => (Storage.fetch r access n s).2
  | insert t rows => (Storage.insert t access rows s).2
  | update t values p => (Storage.update t access values p s).2
  | delete r t n => (Storage.delete r t access n s).2

namespace Storage

/-- The storage after calls, one after the other. -/
def afterCalls (access : Access) (s : Storage) (calls : List Call) : Storage :=
  calls.foldl (Call.run access) s

/-- Two storages hold the same databases. -/
def SameData (s s' : Storage) : Prop := s.committed = s'.committed ∧ s.working = s'.working

/-- A call comes to the same on storages that hold the same. -/
def Respects {α : Type} (call : Storage → α × Storage) : Prop :=
  ∀ s s', SameData s s' → (call s).1 = (call s').1 ∧ SameData (call s).2 (call s').2

variable {α : Type} {s s' : Storage} {access : Access}

theorem counted_sameData (outcome : Except Refusal α) : SameData (s.counted outcome) s := by
  cases outcome with
  | ok a => exact ⟨rfl, rfl⟩
  | error e =>
    simp only [counted]
    split <;> exact ⟨rfl, rfl⟩

theorem SameData.counted (h : SameData s s') (outcome : Except Refusal α) :
    SameData (s.counted outcome) (s'.counted outcome) := by
  obtain ⟨hcommitted, hworking⟩ := counted_sameData (s := s) outcome
  obtain ⟨hcommitted', hworking'⟩ := counted_sameData (s := s') outcome
  exact ⟨hcommitted.trans (h.1.trans hcommitted'.symm), hworking.trans (h.2.trans hworking'.symm)⟩

theorem respects_inSession {call : Storage → Outcome α} (h : Respects call) :
    Respects fun s => s.inSession access call := by
  intro s s' hs
  cases access with
  | own =>
    obtain ⟨houtcome, hafter⟩ := h s.rollback s'.rollback ⟨hs.1, hs.1⟩
    exact ⟨houtcome, hafter.1, hafter.1⟩
  | borrowed carrier =>
    simp only [inSession]
    split
    · exact h s s' hs
    · exact ⟨rfl, hs⟩

theorem respects_failWrite (table : String) (e : Refusal) :
    Respects fun s => (failWrite table e s : Outcome α) := by
  intro s s' hs
  refine ⟨rfl, ?_⟩
  simp only [failWrite]
  split
  · exact ⟨hs.1, hs.1⟩
  · exact hs

theorem respects_settleWrite (table : String) (write : Database → Except Refusal (Change α)) :
    Respects fun s => settleWrite table (write s.working) s := by
  intro s s' hs
  dsimp only
  rw [hs.2]
  rcases write s'.working with e | ⟨db, e | rows⟩
  · exact respects_failWrite table e _ _ (hs.counted _)
  · exact respects_failWrite table e _ _ ⟨(hs.counted _).1, rfl⟩
  · exact ⟨rfl, rfl, rfl⟩

/-! ## Inserts -/

section Inserts

variable {t : Table} {run : List (Members Value)} {rest runs : List (List (Members Value))}

/-- What is sent for a run of rows counts as a statement. -/
def ran (s : Storage) (outcome : Except Refusal (Change (List Value))) : Storage :=
  s.counted outcome

theorem insertRuns_refused {e : Refusal} (h : insertResult s.working ⟨t, run⟩ = .error e) :
    insertRuns t s (run :: rest) = (.error e, s.ran (.error e)) := by
  rw [insertRuns, h]
  rfl

theorem insertRuns_unread {db : Database} {e : Refusal}
    (h : insertResult s.working ⟨t, run⟩ = .ok (db, .error e)) :
    insertRuns t s (run :: rest) =
      (.error e, { s.ran (.ok (db, .error e)) with working := db }) := by
  rw [insertRuns, h]
  rfl

theorem insertRuns_went {db : Database} {keys : List Value}
    (h : insertResult s.working ⟨t, run⟩ = .ok (db, .ok keys)) :
    insertRuns t s (run :: rest) =
      (((insertRuns t { s.ran (.ok (db, .ok keys)) with working := db } rest).1.map (keys ++ ·)),
        (insertRuns t { s.ran (.ok (db, .ok keys)) with working := db } rest).2) := by
  rw [insertRuns, h, ran]
  dsimp only
  split <;> rename_i hrest <;> rw [hrest] <;> rfl

theorem respects_insertRuns (t : Table) (runs : List (List (Members Value))) :
    Respects fun s => insertRuns t s runs := by
  induction runs with
  | nil => exact fun s s' hs => ⟨rfl, hs⟩
  | cons run rest ih =>
    intro s s' hs
    dsimp only
    rcases h' : insertResult s'.working ⟨t, run⟩ with e | ⟨db, e | keys⟩
    · have h := hs.2 ▸ h'
      rw [insertRuns_refused h, insertRuns_refused h']
      exact ⟨rfl, hs.counted _⟩
    · have h := hs.2 ▸ h'
      rw [insertRuns_unread h, insertRuns_unread h']
      exact ⟨rfl, (hs.counted _).1, rfl⟩
    · have h := hs.2 ▸ h'
      rw [insertRuns_went h, insertRuns_went h']
      obtain ⟨houtcome, hafter⟩ := ih { s.ran (.ok (db, .ok keys)) with working := db }
        { s'.ran (.ok (db, .ok keys)) with working := db } ⟨(hs.counted _).1, rfl⟩
      exact ⟨congrArg (Except.map (keys ++ ·)) houtcome, hafter⟩

theorem respects_runInserts (t : Table) (rows : List (Members Value)) :
    Respects (runInserts t rows) := by
  intro s s' hs
  have hruns := respects_insertRuns t (runsOf rows) s s' hs
  dsimp only at hruns
  rw [runInserts, runInserts]
  generalize insertRuns t s (runsOf rows) = x at hruns
  generalize insertRuns t s' (runsOf rows) = x' at hruns
  obtain ⟨outcome, after⟩ := x
  obtain ⟨outcome', after'⟩ := x'
  obtain ⟨rfl, hafter⟩ : outcome = outcome' ∧ SameData after after' := hruns
  cases outcome with
  | error e => exact respects_failWrite t.name e after after' hafter
  | ok keys => exact ⟨rfl, hafter.2, hafter.2⟩

end Inserts

/-! ## Calls -/

theorem Respects.map {β : Type} {call : Storage → α × Storage} (h : Respects call) (f : α → β) :
    Respects fun s => (f (call s).1, (call s).2) := by
  intro s s' hs
  obtain ⟨houtcome, hafter⟩ := h s s' hs
  exact ⟨congrArg f houtcome, hafter⟩

theorem respects_fetch (r : Registry) (access : Access) (n : Node) :
    Respects (Storage.fetch r access n) := by
  have hcall : Respects (fetchCall r n) := by
    intro s s' hs
    rw [fetchCall, fetchCall]
    cases Fetch.ofNode r n with
    | error e => exact ⟨rfl, hs⟩
    | ok f =>
      dsimp only
      rw [runFetch, runFetch, hs.2]
      exact ⟨rfl, hs.counted _⟩
  exact (respects_inSession hcall).map (·.bind (Hydration.rows r n))

theorem respects_insert (t : Table) (access : Access) (rows : List (Members Value)) :
    Respects (Storage.insert t access rows) :=
  respects_inSession (respects_runInserts t rows)

theorem respects_update (t : Table) (access : Access) (values : Members Value)
    (p : Option Predicate) : Respects (Storage.update t access values p) := by
  refine respects_inSession fun s s' hs => ?_
  cases Update.ofPredicate t values p with
  | error e => exact ⟨rfl, hs⟩
  | ok u => exact respects_settleWrite t.name (updateResult · u) s s' hs

theorem respects_delete (r : Registry) (t : Table) (access : Access) (n : Node) :
    Respects (Storage.delete r t access n) := by
  have hcall : Respects (deleteCall t n) := by
    intro s s' hs
    rw [deleteCall, deleteCall]
    cases Delete.ofPredicate t n.condition n.columns with
    | error e => exact ⟨rfl, hs⟩
    | ok d => exact respects_settleWrite n.table (deleteResult · d) s s' hs
  exact (respects_inSession hcall).map (·.bind (Hydration.rows r n))

/-- What a call leaves in the databases depends on them alone. -/
theorem SameData.run (h : SameData s s') (access : Access) (call : Call) :
    SameData (Call.run access s call) (Call.run access s' call) := by
  cases call with
  | fetch r n => exact (respects_fetch r access n s s' h).2
  | insert t rows => exact (respects_insert t access rows s s' h).2
  | update t values p => exact (respects_update t access values p s s' h).2
  | delete r t n => exact (respects_delete r t access n s s' h).2

/-- What calls leave in the databases depends on them alone. -/
theorem SameData.afterCalls (h : SameData s s') (access : Access) (calls : List Call) :
    SameData (s.afterCalls access calls) (s'.afterCalls access calls) := by
  induction calls generalizing s s' with
  | nil => exact h
  | cons call rest ih => exact ih (h.run access call)

/-! ## What an insert leaves behind -/

/-- The key of a row that a write returns. -/
def keyOf (t : Table) (row : StoredRow) : Except Refusal Value := do
  let returned ← resultMembers row.cell (returned t [])
  return (t.rowKey.map (Value.object returned).field).getD .null

theorem writtenKeys_eq_ok {t : Table} {news : List StoredRow} {keys : List Value}
    (h : writtenKeys t news = .ok keys) :
    List.Forall₂ (fun new key => keyOf t new = .ok key) news keys := by
  obtain ⟨rows, hrows, h⟩ := bind_eq_ok.mp h
  obtain rfl := pure_eq_ok.mp h
  rw [writtenRows] at hrows
  split at hrows
  · cases hrows
  · replace hrows := mapM_eq_ok.mp hrows
    rw [List.forall₂_map_right_iff]
    refine hrows.imp fun new row hrow => ?_
    obtain ⟨ms, hms, hrow⟩ := bind_eq_ok.mp hrow
    obtain rfl := pure_eq_ok.mp hrow
    rw [keyOf, hms]
    rfl

theorem insertResult_eq_ok {i : Insert} {db db' : Database} {keys : Except Refusal (List Value)}
    (h : insertResult db i = .ok (db', keys)) :
    ∃ news, Insert.run db i = .ok (db', news) ∧ keys = writtenKeys i.table news := by
  rw [insertResult] at h
  split at h
  · cases h
  · obtain ⟨⟨db'', news⟩, hrun, h⟩ := bind_eq_ok.mp h
    obtain ⟨rfl, rfl⟩ := Prod.mk.inj (pure_eq_ok.mp h)
    exact ⟨news, hrun, rfl⟩

/-- What inserts of runs leave behind: nothing is committed yet, and what is written is what went
well before the first failure. -/
theorem insertRuns_eq {t : Table} {runs : List (List (Members Value))}
    {outcome : Except Refusal (List Value)} (h : insertRuns t s runs = (outcome, s')) :
    s'.committed = s.committed ∧
      (∀ keys, outcome = .ok keys → ∃ news, written t s.working runs = .ok (s'.working, news) ∧
        List.Forall₂ (fun new key => keyOf t new = .ok key) news keys) ∧
      ∀ e, outcome = .error e → ∃ done rest news, runs = done ++ rest ∧
        written t s.working done = .ok (s'.working, news) := by
  induction runs generalizing s outcome with
  | nil =>
    obtain ⟨rfl, rfl⟩ := Prod.mk.inj h
    refine ⟨rfl, ?_, by simp⟩
    rintro keys hkeys
    obtain rfl := Except.ok.inj hkeys
    exact ⟨[], rfl, .nil⟩
  | cons run rest ih =>
    rcases hresult : insertResult s.working ⟨t, run⟩ with e | ⟨db, e | keys⟩
    · rw [insertRuns_refused hresult] at h
      obtain ⟨rfl, rfl⟩ := Prod.mk.inj h
      obtain ⟨hcommitted, hworking⟩ : SameData (s.ran (.error e)) s := counted_sameData _
      exact ⟨hcommitted, by simp, fun _ _ => ⟨[], run :: rest, [], rfl, by rw [hworking]; rfl⟩⟩
    · -- The run is written, and only then it turns out that its keys cannot be read.
      rw [insertRuns_unread hresult] at h
      obtain ⟨rfl, rfl⟩ := Prod.mk.inj h
      obtain ⟨news, hrun, -⟩ := insertResult_eq_ok hresult
      obtain ⟨hcommitted, -⟩ : SameData (s.ran (.ok (db, .error e))) s := counted_sameData _
      refine ⟨hcommitted, by simp, fun _ _ => ⟨[run], rest, news, rfl, ?_⟩⟩
      simp [written, hrun, bind, Except.bind, pure, Except.pure]
    · rw [insertRuns_went hresult] at h
      obtain ⟨houtcome, hafter⟩ := Prod.mk.inj h
      obtain ⟨news, hrun, hkeys⟩ := insertResult_eq_ok hresult
      obtain ⟨hcommitted, -⟩ : SameData (s.ran (.ok (db, .ok keys))) s := counted_sameData _
      obtain ⟨hcommitted', hok, herror⟩ := ih (Prod.ext rfl hafter)
      have hwritten : ∀ {done : List (List (Members Value))} {db' more},
          written t db done = .ok (db', more) →
          written t s.working (run :: done) = .ok (db', news ++ more) := by
        intro done db' more hdone
        simp only [written, hrun, bind, Except.bind, hdone]
        rfl
      refine ⟨hcommitted'.trans hcommitted, ?_, ?_⟩
      · rintro all rfl
        obtain ⟨more, hmore, rfl⟩ := map_eq_ok.mp houtcome
        obtain ⟨moreNews, hrest, hmoreKeys⟩ := hok more hmore
        exact ⟨news ++ moreNews, hwritten hrest,
          List.rel_append (writtenKeys_eq_ok hkeys.symm) hmoreKeys⟩
      · rintro e rfl
        obtain ⟨done, rest', moreNews, rfl, hdone⟩ := herror e (map_eq_error.mp houtcome)
        exact ⟨run :: done, rest', news ++ moreNews, rfl, hwritten hdone⟩

/-- The inserts of rows that go well write all of them and commit them. -/
theorem runInserts_eq_ok {t : Table} {rows : List (Members Value)} {keys : List Value}
    (h : runInserts t rows s = (.ok keys, s')) : s'.committed = s'.working ∧
      ∃ news, written t s.working (runsOf rows) = .ok (s'.working, news) ∧
        List.Forall₂ (fun new key => keyOf t new = .ok key) news keys := by
  rw [runInserts] at h
  rcases hruns : insertRuns t s (runsOf rows) with ⟨e | keys', after⟩
  · rw [hruns] at h
    cases h
  · rw [hruns] at h
    obtain ⟨hkeys, rfl⟩ := Prod.mk.inj h
    obtain rfl := Except.ok.inj hkeys
    exact ⟨rfl, (insertRuns_eq hruns).2.1 _ rfl⟩

/-- An insert that goes well has had a session, which sees all of its rows from then on. -/
theorem insert_eq_ok {t : Table} {rows : List (Members Value)} {keys : List Value}
    (h : Storage.insert t access rows s = (.ok keys, s')) : access.hasSession = true ∧
      ∃ news, written t (s.seen access) (runsOf rows) = .ok (s'.seen access, news) ∧
        List.Forall₂ (fun new key => keyOf t new = .ok key) news keys := by
  rw [Storage.insert] at h
  cases access with
  | own =>
    rcases hinsert : runInserts t rows s.rollback with ⟨outcome, after⟩
    rw [inSession, hinsert] at h
    obtain ⟨rfl, rfl⟩ := Prod.mk.inj h
    obtain ⟨hcommitted, hwritten⟩ := runInserts_eq_ok hinsert
    refine ⟨rfl, ?_⟩
    rw [seen, seen, rollback, hcommitted]
    exact hwritten
  | borrowed carrier =>
    simp only [inSession] at h
    split at h
    · rename_i hsession
      exact ⟨hsession, (runInserts_eq_ok h).2⟩
    · cases (Prod.mk.inj h).1

theorem isOwn_of_fault {table : String} {e : Refusal} {fault : Fault}
    (h : e.failure table = .fault fault) : e.isOwn = true := by
  cases e with
  | mishap m => cases h
  | unsent | refused | unworkable => rfl

theorem isOwn_of_mishap {table : String} {e : Refusal} {mishap : Mishap}
    (h : e.failure table = .mishap mishap) : e.isOwn = false := by
  cases e with
  | mishap m => rfl
  | unsent | refused | unworkable => cases h

/-- Calls on a session after an insert of rows of a table. If the insert goes well, all of its rows
are committed, one for each row that it was given and in their order, and the keys are theirs. If
the database has refused it, the calls leave in the database what they leave there without the
insert, from a transaction in which nothing has been written. If it fails over anything else, the
database stays as it was, and the transaction has what was written before the failure. -/
theorem insert_settled (t : Table) (carrier : Carrier) (rows : List (Members Value))
    (s after : Storage) (outcome : Attempt (List Value)) (hsession : carrier.session.isSome)
    (h : Storage.insert t (.borrowed carrier) rows s = (outcome, after)) :
    (∀ keys, outcome = .ok keys → after.committed = after.working ∧
      ∃ news, List.Forall₂ (NewRow t (runsOf rows)) rows news ∧
        List.Forall₂ (fun new key => keyOf t new = .ok key) news keys ∧
        (after.committed.rows t).Perm (s.working.rows t ++ news) ∧
        ∀ u : Table, u.declaration.name ≠ t.declaration.name →
          after.committed.rows u = s.working.rows u) ∧
    (∀ fault, outcome = .error (.fault fault) → ∀ calls,
      SameData (after.afterCalls (.borrowed carrier) calls)
        (s.rollback.afterCalls (.borrowed carrier) calls)) ∧
    (∀ mishap, outcome = .error (.mishap mishap) → after.committed = s.committed ∧
      ∃ done rest news, runsOf rows = done ++ rest ∧
        List.Forall₂ (NewRow t done) done.flatten news ∧
        (after.working.rows t).Perm (s.working.rows t ++ news) ∧
        ∀ u : Table, u.declaration.name ≠ t.declaration.name →
          after.working.rows u = s.working.rows u) := by
  rw [Storage.insert, inSession, if_pos (show (Access.borrowed carrier).hasSession = true from
    hsession), runInserts] at h
  rcases hruns : insertRuns t s (runsOf rows) with ⟨e | keys, s'⟩
  · obtain ⟨hcommitted, -, herror⟩ := insertRuns_eq hruns
    rw [hruns] at h
    obtain ⟨rfl, rfl⟩ := Prod.mk.inj h
    refine ⟨by simp, ?_, ?_⟩
    · intro fault hfault calls
      rw [if_pos (isOwn_of_fault (Except.error.inj hfault))]
      have hsame : SameData s'.rollback s.rollback := ⟨hcommitted, hcommitted⟩
      exact hsame.afterCalls _ calls
    · intro mishap hmishap
      rw [if_neg (by simp [isOwn_of_mishap (Except.error.inj hmishap)])]
      obtain ⟨done, rest, news, hsplit, hwritten⟩ := herror e rfl
      obtain ⟨hmade, hadds, hothers⟩ := written_eq_ok hwritten
      exact ⟨hcommitted, done, rest, news, hsplit, hmade, hadds.perm, hothers⟩
  · obtain ⟨hcommitted, hok, -⟩ := insertRuns_eq hruns
    rw [hruns] at h
    obtain ⟨rfl, rfl⟩ := Prod.mk.inj h
    refine ⟨?_, by simp, by simp⟩
    rintro keys' hkeys
    obtain rfl := Except.ok.inj hkeys
    obtain ⟨news, hwritten, hkeys⟩ := hok _ rfl
    obtain ⟨hmade, hadds, hothers⟩ := written_eq_ok hwritten
    rw [flatten_runsOf] at hmade
    exact ⟨rfl, news, hmade, hkeys, hadds.perm, hothers⟩

end Storage

namespace Register

/-- A column of whole numbers. -/
def number (name : String) (primary unique : Bool) : Column :=
  { name := name, kind := ColumnType.integer.kind, nullable := !primary, hasDefault := primary,
    declaration := { key := name, name := name, type := .integer, primary := primary,
                     unique := unique, nullable := !primary } }

/-- Persons, each with a code that no other has. -/
def person : Table :=
  let columns := [number "id" true false, number "code" false true]
  { name := "person", columns := columns, rowKey := some "id",
    declaration := { name := "person", columns := columns.map (·.declaration) } }

def carrier : Carrier := .mapping [("db", .bool true)]

/-- One person, committed. -/
def storage : Storage :=
  let db : Database := { tables := [("person", [⟨7, [("id", .integer 7), ("code", .integer 5)]⟩])] }
  { committed := db, working := db }

/-- A person known by a number, and one known by a code. -/
def twoPersons (code : Int) : List (Members Value) := [[("id", .int 1)], [("code", .int code)]]

theorem runsOf_twoPersons (code : Int) :
    runsOf (twoPersons code) = [[[("id", .int 1)]], [[("code", .int code)]]] := by
  simp [twoPersons, runsOf, joinRun, columnSet, Members.names]

theorem insert_twoPersons (code : Int) (s : Storage) :
    Storage.insert person (.borrowed carrier) (twoPersons code) s =
      match Storage.insertRuns person s [[[("id", .int 1)]], [[("code", .int code)]]] with
      | (.ok keys, s) => (.ok keys, s.commit)
      | (.error e, s) => Storage.failWrite person.name e s := by
  rw [← runsOf_twoPersons]
  rfl

/-- The code is taken, and so the session goes on as if neither person had been inserted. -/
theorem sameData_of_takenCode :
    (Storage.insert person (.borrowed carrier) (twoPersons 5) storage).1 =
        .error (.fault (.statementFailed "person" "UNIQUE constraint failed: person.code")) ∧
      ∀ calls, Storage.SameData
        ((Storage.insert person (.borrowed carrier) (twoPersons 5) storage).2.afterCalls
          (.borrowed carrier) calls)
        (storage.rollback.afterCalls (.borrowed carrier) calls) := by
  have hrefused : (Storage.insert person (.borrowed carrier) (twoPersons 5) storage).1 =
      .error (.fault (.statementFailed "person" "UNIQUE constraint failed: person.code")) := by
    rw [insert_twoPersons]
    rfl
  obtain ⟨-, hfault, -⟩ := Storage.insert_settled person carrier (twoPersons 5) storage _ _ rfl rfl
  exact ⟨hrefused, hfault _ hrefused⟩

/-- The code is too large for a cell. The person known by a number stays in the transaction, and the
insert of another person commits both. -/
theorem committed_of_largeCode :
    (Storage.insert person (.borrowed carrier) (twoPersons (2 ^ 63)) storage).1 =
        .error (.mishap (.tooLarge "Python int too large to convert to SQLite INTEGER")) ∧
      (Storage.insert person (.borrowed carrier) (twoPersons (2 ^ 63)) storage).2.committed =
        storage.committed ∧
      ((storage.afterCalls (.borrowed carrier)
          [.insert person [[("id", .int 9)]]]).committed.rows person).map (·.number) = [7, 9] ∧
      ((storage.afterCalls (.borrowed carrier)
          [.insert person (twoPersons (2 ^ 63)), .insert person [[("id", .int 9)]]]).committed.rows
        person).map (·.number) = [1, 7, 9] := by
  refine ⟨?_, ?_, by decide +kernel, ?_⟩
  · rw [insert_twoPersons]
    rfl
  · rw [insert_twoPersons]
    decide +kernel
  · simp only [Storage.afterCalls, List.foldl_cons, List.foldl_nil, Call.run, insert_twoPersons]
    decide +kernel

end Register

end RelGraph.Store
