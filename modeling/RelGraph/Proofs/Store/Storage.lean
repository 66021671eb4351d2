import RelGraph.Store.Storage
import RelGraph.Proofs.Outcome
/-!
Calls of the storage. A call works on what its session sees; a fetch is the statement of its plan,
run in the session, with the fetched rows turned into what callers see.
-/
namespace RelGraph.Store.Storage

open Sql Outcome

/-- The database that a call sees in its session. -/
def seen (s : Storage) : Access → Database
  | .own => s.committed
  | .borrowed _ => s.working

/-- A call that goes well has gone well in a session that sees this database. -/
theorem inSession_eq_ok {α : Type} {s : Storage} {access : Access} {call : Storage → Outcome α}
    {a : α} (h : (s.inSession access call).1 = .ok a) :
    ∃ s' : Storage, s'.working = s.seen access ∧ (call s').1 = .ok a := by
  cases access with
  | own => exact ⟨s.rollback, rfl, h⟩
  | borrowed carrier =>
    simp only [inSession] at h
    split at h
    · exact ⟨s, rfl, h⟩
    · cases h

/-- The statement of a plan, run in a session. -/
def fetchCall (r : Registry) (n : Node) (s : Storage) : Outcome (List Value) :=
  match Fetch.ofNode r n with
  | .error e => (.error e, s)
  | .ok f => runFetch n.table f s

/-- The deletion of the rows of a plan, run in a session. -/
def deleteCall (t : Table) (n : Node) (s : Storage) : Outcome (List Value) :=
  match Delete.ofPredicate t n.condition n.columns with
  | .error e => (.error e, s)
  | .ok d => settleWrite n.table (deleteResult s.working d) s

theorem delete_fst (r : Registry) (t : Table) (access : Access) (n : Node) (s : Storage) :
    (Storage.delete r t access n s).1 =
      (s.inSession access (deleteCall t n)).1.bind (Hydration.rows r n) := rfl

theorem fetch_fst (r : Registry) (access : Access) (n : Node) (s : Storage) :
    (Storage.fetch r access n s).1 =
      (s.inSession access (fetchCall r n)).1.bind (Hydration.rows r n) := rfl

/-- What a fetch gives is what its statement gives on the database that it sees, turned into rows
as callers see them. -/
theorem fetch_eq_ok {r : Registry} {access : Access} {n : Node} {s : Storage} {rows : List Value}
    (h : (Storage.fetch r access n s).1 = .ok rows) :
    ∃ f fetched, Fetch.ofNode r n = .ok f ∧
      Fetch.result .byName (s.seen access) f = .ok fetched ∧
      Hydration.rows r n fetched = .ok rows := by
  rw [fetch_fst] at h
  obtain ⟨fetched, hfetched, hrows⟩ := bind_eq_ok.mp h
  obtain ⟨s', hsees, hcall⟩ := inSession_eq_ok hfetched
  rw [fetchCall] at hcall
  cases hf : Fetch.ofNode r n with
  | error e =>
    rw [hf] at hcall
    cases hcall
  | ok f =>
    rw [hf] at hcall
    simp only [runFetch] at hcall
    cases hresult : fetchResult s'.working f with
    | error e =>
      rw [hresult] at hcall
      cases hcall
    | ok fetched' =>
      rw [hresult] at hcall
      obtain rfl := Except.ok.inj hcall
      obtain ⟨-, -, hstatement⟩ := bind_eq_ok.mp hresult
      exact ⟨f, fetched', rfl, hsees ▸ hstatement, hrows⟩

/-- A call that has a session comes to what it comes to in a session that sees this database. -/
theorem inSession_fst {α : Type} {s : Storage} {access : Access} (hsession : access.hasSession)
    (call : Storage → Outcome α) :
    ∃ s' : Storage, s'.working = s.seen access ∧ (s.inSession access call).1 = (call s').1 := by
  cases access with
  | own => exact ⟨s.rollback, rfl, rfl⟩
  | borrowed carrier => exact ⟨s, rfl, by rw [inSession, if_pos hsession]⟩

/-- A fetch that has a session goes well where its statement can be sent, gives rows, and these can
be shown. -/
theorem fetch_of_seen {r : Registry} {n : Node} {s : Storage} {access : Access} {f : Fetch}
    {fetched rows : List Value} (hsession : access.hasSession) (hf : Fetch.ofNode r n = .ok f)
    (hbound : (boundCells (Fetch.checkSize f) (Dialect.sqlite.fetch f)).toOption.isSome)
    (hresult : Fetch.result .byName (s.seen access) f = .ok fetched)
    (hrows : Hydration.rows r n fetched = .ok rows) :
    (Storage.fetch r access n s).1 = .ok rows := by
  obtain ⟨s', hsees, hcall⟩ := inSession_fst (s := s) hsession (fetchCall r n)
  have hstatement : fetchResult s'.working f = .ok fetched := by
    obtain ⟨cells, hcells⟩ := eq_ok_of_isSome hbound
    rw [fetchResult, hcells, hsees]
    exact hresult
  have hfetched : (fetchCall r n s').1 = .ok fetched := by
    rw [fetchCall, hf]
    simp only [runFetch, hstatement]
    rfl
  rw [fetch_fst, hcall, hfetched]
  exact hrows

/-- A fetch in a session of its own works on what is committed. -/
theorem fetch_of_result {r : Registry} {n : Node} {s : Storage} {f : Fetch}
    {fetched rows : List Value} (hf : Fetch.ofNode r n = .ok f)
    (hbound : (boundCells (Fetch.checkSize f) (Dialect.sqlite.fetch f)).toOption.isSome)
    (hresult : Fetch.result .byName s.committed f = .ok fetched)
    (hrows : Hydration.rows r n fetched = .ok rows) :
    (Storage.fetch r .own n s).1 = .ok rows :=
  fetch_of_seen rfl hf hbound hresult hrows

end RelGraph.Store.Storage
