import RelGraph.Proofs.Operations.Writes
/-!
Reads of the first row. A statement with a limit gives the first of the rows that the statement
gives without one: the limit says nothing about which rows there are, in which order they come or
what is fetched below them, and it is sent behind all else. So the first row is read as it stands
among all rows, and nothing is found only where there are no rows.
-/
namespace RelGraph

open Store Sql Outcome

/-- A plan with a limit. -/
def Node.atMost (n : Node) (k : Nat) : Node := { n with limit := some k }

namespace Sql

/-- Rows with a limit. -/
def Rows.atMost (r : Rows) (k : Nat) : Rows := { r with limit := some k }

/-- A statement with a limit. -/
def Fetch.atMost (f : Fetch) (k : Nat) : Fetch := { f with rows := f.rows.atMost k }

/-- The limit of a plan becomes that of its statement. -/
theorem Fetch.ofNode_atMost (r : Registry) (n : Node) (k : Nat) :
    Fetch.ofNode r (n.atMost k) = (Fetch.ofNode r n).map fun f => f.atMost k := by
  have hrows : ∀ t source, rowsOf t source (n.atMost k) =
      (rowsOf t source n).map fun rows => rows.atMost k := by
    intro t source
    simp only [rowsOf, Node.atMost]
    cases Condition.ofPredicate? t n.condition with
    | error e => rfl
    | ok condition =>
      show (SortKey.ofOrder t (n.orderBy.getD []) >>= _) = Except.map _ (_ >>= _)
      cases SortKey.ofOrder t (n.orderBy.getD []) <;> rfl
  simp only [ofNode, hrows, show (n.atMost k).table = n.table from rfl,
    show (n.atMost k).columns = n.columns from rfl,
    show (n.atMost k).relations = n.relations from rfl]
  cases r.table n.table with
  | error e => rfl
  | ok t =>
    dsimp only [bind, Except.bind]
    cases n.columns.mapM t.column with
    | error e => rfl
    | ok own =>
      cases gatheredAll r t (.table t.declaration.name) 1 n.relations with
      | error e => rfl
      | ok nested =>
        cases rowsOf t (.table t.declaration.name) n with
        | error e => rfl
        | ok rows =>
          dsimp only [Except.map]
          split
          · cases fallback t <;> rfl
          · rfl

/-- What a statement is sent with before its limit and offset. -/
def Fetch.parametersBefore (f : Fetch) : List (Value × ColumnType) :=
  Dialect.typedParameters (Dialect.sqlite.fetch
    { f with rows := { f.rows with limit := none, offset := none } })

theorem Fetch.parameters_eq (f : Fetch) : Dialect.typedParameters (Dialect.sqlite.fetch f) =
    f.parametersBefore ++
      Dialect.typedParameters (Dialect.sqlite.window f.rows.limit f.rows.offset) := by
  simp only [parametersBefore, Dialect.fetch, Dialect.selection, Dialect.typedParameters,
    List.filterMap_append, List.append_assoc]
  rfl

end Sql

namespace Store

/-! ## Sending -/

/-- A limit does not make a statement too large. -/
theorem Fetch.checkSize_atMost (f : Fetch) (k : Nat) :
    Fetch.checkSize (f.atMost k) = Fetch.checkSize f := by
  have hroot : Capacity.selection 1 (f.rows.atMost k) = Capacity.selection 1 f.rows := by
    have hroom : Capacity.hold (1 + 12) = pure () := rfl
    simp only [Capacity.selection, hroom, ite_self]
    rfl
  rw [checkSize, checkSize]
  exact congrArg (Capacity.gatheredColumns 5 f.nested >>= fun _ => ·) hroot

namespace Binding

/-- What can be turned into cells does not depend on last values that always can be. -/
theorem cellsFrom_append_sent {ws ws' : List Value}
    (h : ∀ position, (cellsFrom position ws).map (fun _ => ()) =
      (cellsFrom position ws').map fun _ => ()) (position : Nat) (vs : List Value) :
    (cellsFrom position (vs ++ ws)).map (fun _ => ()) =
      (cellsFrom position (vs ++ ws')).map fun _ => () := by
  induction vs generalizing position with
  | nil => exact h position
  | cons v rest ih =>
    have hrest := ih (position + 1)
    rw [List.cons_append, List.cons_append, cellsFrom, cellsFrom]
    cases cell position v with
    | error e => rfl
    | ok c =>
      cases hws : cellsFrom (position + 1) (rest ++ ws) <;>
        cases hws' : cellsFrom (position + 1) (rest ++ ws') <;> rw [hws, hws'] at hrest
      · rw [Except.error.inj hrest]
      · cases hrest
      · cases hrest
      · rfl

/-- Whether parameters are bound does not depend on last ones that are written alike. -/
theorem bind_append_sent {reading : Except Refusal Unit} {ps qs qs' : List (Value × ColumnType)}
    {ws ws' : List Value} (hws : writeAll qs = .ok ws) (hws' : writeAll qs' = .ok ws')
    (h : ∀ position, (cellsFrom position ws).map (fun _ => ()) =
      (cellsFrom position ws').map fun _ => ()) :
    (bind reading (ps ++ qs)).map (fun _ => ()) = (bind reading (ps ++ qs')).map fun _ => () := by
  rw [bind, bind, writeAll, writeAll, List.mapM_append, List.mapM_append, ← writeAll, ← writeAll,
    ← writeAll, hws, hws']
  cases writeAll ps with
  | error e => rfl
  | ok vs =>
    cases reading with
    | error e => rfl
    | ok u => exact cellsFrom_append_sent h 1 vs

end Binding

namespace Storage

/-- A statement with a limit can be sent where it can be sent without one, and is refused for the
same where it cannot. -/
theorem boundCells_atMost {f : Fetch} {k : Nat} (hlimit : f.rows.limit = none)
    (hk : Cell.fits k) :
    (boundCells (Fetch.checkSize (f.atMost k)) (Dialect.sqlite.fetch (f.atMost k))).map
        (fun _ => ()) =
      (boundCells (Fetch.checkSize f) (Dialect.sqlite.fetch f)).map fun _ => () := by
  rw [Fetch.checkSize_atMost, boundCells, boundCells, Fetch.parameters_eq, Fetch.parameters_eq f,
    hlimit]
  have hcell : ∀ position, Binding.cell position (.int k) = .ok (.integer k) := fun position =>
    if_pos hk
  show (Binding.bind _ (f.parametersBefore ++
    Dialect.typedParameters (Dialect.sqlite.window (some k) f.rows.offset))).map _ = _
  cases f.rows.offset with
  | none =>
    have hws : Binding.writeAll (Dialect.typedParameters (Dialect.sqlite.window (some k) none)) =
        .ok [.int k, .int 0] := rfl
    have hws' : Binding.writeAll (Dialect.typedParameters (Dialect.sqlite.window none none)) =
        .ok [] := rfl
    refine Binding.bind_append_sent hws hws' fun position => ?_
    simp only [Binding.cellsFrom, hcell]
    rfl
  | some o =>
    have hws : Binding.writeAll (Dialect.typedParameters
        (Dialect.sqlite.window (some k) (some o))) = .ok [.int k, .int o] := rfl
    have hws' : Binding.writeAll (Dialect.typedParameters
        (Dialect.sqlite.window none (some o))) = .ok [.int (-1), .int o] := rfl
    refine Binding.bind_append_sent hws hws' fun position => ?_
    simp only [Binding.cellsFrom, hcell,
      show Binding.cell position (.int (-1)) = .ok (.integer (-1)) from rfl]
    cases Binding.cell (position + 1) (.int o) <;> rfl

end Storage

/-! ## Rows -/

/-- A limit takes the first of the rows. -/
theorem chosenRows_atMost {how : Scoping} {db : Database} {scope : Scope} {r : Rows}
    (hlimit : r.limit = none) (k : Nat) (shown : List Column) :
    chosenRows how db scope (r.atMost k) shown = (chosenRows how db scope r shown).take k := by
  have hwindow : ∀ items : List Frame,
      window (some k) r.offset items = (window r.limit r.offset items).take k := by
    intro items
    rw [hlimit]
    rfl
  exact hwindow _

/-- What a statement gives with a limit are the first of the rows that it gives without one. -/
theorem Fetch.result_atMost {how : Scoping} {db : Database} {f : Fetch}
    (hlimit : f.rows.limit = none) (k : Nat) {rows : List Value}
    (h : Fetch.result how db f = .ok rows) :
    Fetch.result how db (f.atMost k) = .ok (rows.take k) := by
  obtain ⟨_, hcheck, h⟩ := bind_eq_ok.mp h
  obtain ⟨found, hfound, hrows⟩ := bind_eq_ok.mp h
  refine bind_eq_ok.mpr ⟨(), hcheck, bind_eq_ok.mpr ⟨found.take k, ?_, ?_⟩⟩
  · rw [show (f.atMost k).rows = f.rows.atMost k from rfl, chosenRows_atMost hlimit]
    exact mapM_eq_ok.mpr (List.forall₂_take k (mapM_eq_ok.mp hfound))
  · exact mapM_eq_ok.mpr (List.forall₂_take k (mapM_eq_ok.mp hrows))

/-- A statement with a limit of at least one gives no rows only where there are none. -/
theorem Fetch.result_of_none {how : Scoping} {db : Database} {f : Fetch}
    (hlimit : f.rows.limit = none) {k : Nat} (hk : 0 < k)
    (h : Fetch.result how db (f.atMost k) = .ok []) : Fetch.result how db f = .ok [] := by
  obtain ⟨_, hcheck, h⟩ := bind_eq_ok.mp h
  obtain ⟨found, hfound, hrows⟩ := bind_eq_ok.mp h
  have hnone : found = [] := List.forall₂_nil_right_iff.mp (mapM_eq_ok.mp hrows)
  rw [hnone, show (f.atMost k).rows = f.rows.atMost k from rfl, chosenRows_atMost hlimit] at hfound
  have hfirst := List.forall₂_nil_right_iff.mp (mapM_eq_ok.mp hfound)
  have hall : chosenRows how db [] f.rows (Fetch.shown f) = [] :=
    (List.take_eq_nil_iff.mp hfirst).resolve_left (Nat.pos_iff_ne_zero.mp hk)
  refine bind_eq_ok.mpr ⟨(), hcheck, bind_eq_ok.mpr ⟨[], ?_, rfl⟩⟩
  rw [hall]
  rfl

namespace Storage

variable {r : Registry} {access : Access} {n : Node} {s s' : Storage} {k : Nat}
  {rows : List Value}

theorem fetchResult_atMost {db : Database} {f : Fetch} (hlimit : f.rows.limit = none)
    (hk : Cell.fits k) (h : fetchResult db f = .ok rows) :
    fetchResult db (f.atMost k) = .ok (rows.take k) := by
  obtain ⟨cells, hcells, hrows⟩ := bind_eq_ok.mp h
  have hsent := boundCells_atMost hlimit hk
  rw [hcells] at hsent
  obtain ⟨cells', hcells', -⟩ := map_eq_ok.mp hsent
  exact bind_eq_ok.mpr ⟨cells', hcells', Fetch.result_atMost hlimit k hrows⟩

theorem fetchResult_of_none {db : Database} {f : Fetch} (hlimit : f.rows.limit = none)
    (hfits : Cell.fits k) (hk : 0 < k) (h : fetchResult db (f.atMost k) = .ok []) :
    fetchResult db f = .ok [] := by
  obtain ⟨cells, hcells, hrows⟩ := bind_eq_ok.mp h
  have hsent := boundCells_atMost hlimit hfits
  rw [hcells] at hsent
  obtain ⟨cells', hcells', -⟩ := map_eq_ok.mp hsent.symm
  exact bind_eq_ok.mpr ⟨cells', hcells', Fetch.result_of_none hlimit hk hrows⟩

/-- A statement has the limit of its plan. -/
theorem limit_of_ofNode {f : Fetch} (h : Fetch.ofNode r n = .ok f) : f.rows.limit = n.limit := by
  obtain ⟨t, own, nested, next, rows, -, -, -, hrows, rfl⟩ := Fetch.ofNode_eq_ok h
  obtain ⟨condition, -, hrows⟩ := bind_eq_ok.mp hrows
  obtain ⟨orderBy, -, hrows⟩ := bind_eq_ok.mp hrows
  obtain rfl := pure_eq_ok.mp hrows
  rfl

/-- The statement of a plan goes well where it gives rows. -/
theorem fetchCall_eq_ok : fetchCall r n s = (.ok rows, s') ↔
    ∃ f, Fetch.ofNode r n = .ok f ∧ fetchResult s.working f = .ok rows ∧ s' = s.count := by
  rw [fetchCall]
  cases Fetch.ofNode r n with
  | error e => simp
  | ok f =>
    simp only [runFetch, Except.ok.injEq, exists_eq_left']
    cases hresult : fetchResult s.working f with
    | error e => simp [Except.mapError]
    | ok fetched => simp [Except.mapError, counted, eq_comm]

theorem fetchCall_atMost (hlimit : n.limit = none) (hk : Cell.fits k)
    (h : fetchCall r n s = (.ok rows, s')) :
    fetchCall r (n.atMost k) s = (.ok (rows.take k), s') := by
  obtain ⟨f, hf, hrows, rfl⟩ := fetchCall_eq_ok.mp h
  refine fetchCall_eq_ok.mpr ⟨f.atMost k, ?_, ?_, rfl⟩
  · rw [Fetch.ofNode_atMost, hf]
    rfl
  · exact fetchResult_atMost ((limit_of_ofNode hf).trans hlimit) hk hrows

theorem fetchCall_of_none (hlimit : n.limit = none) (hfits : Cell.fits k) (hk : 0 < k)
    (h : fetchCall r (n.atMost k) s = (.ok [], s')) : fetchCall r n s = (.ok [], s') := by
  obtain ⟨f', hf', hrows, rfl⟩ := fetchCall_eq_ok.mp h
  rw [Fetch.ofNode_atMost] at hf'
  obtain ⟨f, hf, rfl⟩ := map_eq_ok.mp hf'
  exact fetchCall_eq_ok.mpr ⟨f, hf,
    fetchResult_of_none ((limit_of_ofNode hf).trans hlimit) hfits hk hrows, rfl⟩

/-- What goes well in a session as another call does goes well as that call wherever it runs. -/
theorem inSession_of_call {α β : Type} {call : Storage → Outcome α} {call' : Storage → Outcome β}
    {a : α} {b : β} (hcall : ∀ s s', call s = (.ok a, s') → call' s = (.ok b, s'))
    (h : s.inSession access call = (.ok a, s')) : s.inSession access call' = (.ok b, s') := by
  cases access with
  | own =>
    simp only [inSession, Prod.mk.injEq] at h ⊢
    have hown := hcall s.rollback (call s.rollback).2 (Prod.ext h.1 rfl)
    rw [hown]
    exact ⟨rfl, h.2⟩
  | borrowed carrier =>
    simp only [inSession] at h ⊢
    split
    · rename_i hsession
      rw [if_pos hsession] at h
      exact hcall _ _ h
    · rename_i hsession
      rw [if_neg hsession] at h
      cases (Prod.mk.inj h).1

theorem fetch_eq_ok_iff : Storage.fetch r access n s = (.ok rows, s') ↔
    ∃ fetched, s.inSession access (fetchCall r n) = (.ok fetched, s') ∧
      Hydration.rows r n fetched = .ok rows := by
  show ((s.inSession access (fetchCall r n)).1.bind (Hydration.rows r n),
    (s.inSession access (fetchCall r n)).2) = _ ↔ _
  rcases s.inSession access (fetchCall r n) with ⟨e | fetched, after⟩
  · simp [Except.bind]
  · simp [Except.bind, and_comm]

/-- What callers see with a limit are the first of the rows that they see without one. -/
theorem fetch_atMost (hlimit : n.limit = none) (hk : Cell.fits k)
    (h : Storage.fetch r access n s = (.ok rows, s')) :
    Storage.fetch r access (n.atMost k) s = (.ok (rows.take k), s') := by
  obtain ⟨fetched, hfetched, hrows⟩ := fetch_eq_ok_iff.mp h
  have hsame : Hydration.AsksSame n (n.atMost k) := ⟨rfl, rfl, rfl, rfl⟩
  refine fetch_eq_ok_iff.mpr ⟨fetched.take k,
    inSession_of_call (fun _ _ hcall => fetchCall_atMost hlimit hk hcall) hfetched, ?_⟩
  rw [Hydration.rows, hsame.row_eq]
  exact mapM_eq_ok.mpr (List.forall₂_take k (mapM_eq_ok.mp hrows))

/-- Callers see no rows with a limit of at least one only where there are none. -/
theorem fetch_of_none (hlimit : n.limit = none) (hfits : Cell.fits k) (hk : 0 < k)
    (h : Storage.fetch r access (n.atMost k) s = (.ok [], s')) :
    Storage.fetch r access n s = (.ok [], s') := by
  obtain ⟨fetched, hfetched, hrows⟩ := fetch_eq_ok_iff.mp h
  obtain rfl := List.forall₂_nil_right_iff.mp (mapM_eq_ok.mp hrows)
  exact fetch_eq_ok_iff.mpr ⟨[],
    inSession_of_call (fun _ _ hcall => fetchCall_of_none hlimit hfits hk hcall) hfetched, rfl⟩

end Storage
end Store

/-! ## The two reads -/

theorem Plan.limit_of_ofSelection {r : Registry} {maxDepth : Nat} {table : String} {s : Selection}
    {args : Members Value} {n : Node} (hlimit : argument args "limit" = .null)
    (h : (ofSelection r maxDepth table s args).1 = .ok n) : n.limit = none := by
  rw [ofSelection_fst] at h
  obtain ⟨t, -, h⟩ := bind_eq_ok.mp h
  obtain ⟨start, hstart, hfields⟩ := bind_eq_ok.mp h
  rw [(sameRows_addFields hfields).limit]
  obtain ⟨condition, -, hstart⟩ := bind_eq_ok.mp hstart
  obtain ⟨orderBy, -, hstart⟩ := bind_eq_ok.mp hstart
  obtain ⟨limit, hlimit', hstart⟩ := bind_eq_ok.mp hstart
  obtain ⟨offset, -, hstart⟩ := bind_eq_ok.mp hstart
  obtain rfl := pure_eq_ok.mp hstart
  rw [hlimit] at hlimit'
  exact (Except.ok.inj hlimit').symm

namespace Operations

section Reads

variable {api : Api} {access : Access} {t : Table} {s : Attempt Selection} {args : Members Value}
  {state after : State} {v : Value}

/-- The plan of a read, with the limit that it gets. -/
def readOf (op : Naming.Operation) (n : Node) : Read :=
  if readsFirst op then ⟨n.atMost 1, true⟩ else ⟨n, false⟩

/-- A read goes well where its plan and its fetch do. -/
theorem run_read_eq_ok {op : Naming.Operation} (hop : op = .findMany ∨ op = .findFirst) :
    (run api access t op s args).run.run state = (.ok v, after) ↔
      ∃ asked n rows, s = .ok asked ∧
        (Plan.ofSelection api.registry api.config.maxDepth t.name asked args).1 = .ok n ∧
        Storage.fetch api.registry access (readOf op n).node state.storage =
          (.ok rows, after.storage) ∧
        after.warnings = state.warnings ++
          (Plan.ofSelection api.registry api.config.maxDepth t.name asked args).2 ∧
        v = if (readOf op n).first then (rows.head?).getD .null else .list rows := by
  have hrun : run api access t op s args =
      Step.ofAttempt s >>= fun asked => planRead api t op asked args >>= runRead api access := by
    rcases hop with rfl | rfl <;> rfl
  rw [hrun, Step.run_bind, Step.run_ofAttempt]
  constructor
  · intro h
    cases s with
    | error e => cases (Prod.mk.inj h).1
    | ok asked =>
      replace h : (planRead api t op asked args >>= runRead api access).run.run state =
        (.ok v, after) := h
      rw [Step.run_bind, planRead, Step.run_bind, Step.run_plan] at h
      cases hplan : (Plan.ofSelection api.registry api.config.maxDepth t.name asked args).1 with
      | error e =>
        rw [hplan] at h
        cases (Prod.mk.inj h).1
      | ok n =>
        rw [hplan] at h
        replace h : (runRead api access (readOf op n)).run.run _ = (.ok v, after) := h
        rw [runRead, Step.run_bind, Step.run_store] at h
        rcases hfetch : Storage.fetch api.registry access (readOf op n).node state.storage with
          ⟨e | rows, s'⟩
        · rw [hfetch] at h
          cases (Prod.mk.inj h).1
        · rw [hfetch] at h
          obtain ⟨hv, rfl⟩ := Prod.mk.inj h
          exact ⟨asked, n, rows, rfl, hplan, hfetch, rfl, (Except.ok.inj hv).symm⟩
  · rintro ⟨asked, n, rows, rfl, hplan, hfetch, hwarnings, rfl⟩
    obtain ⟨storage, warnings⟩ := after
    obtain rfl : warnings = _ := hwarnings
    show (planRead api t op asked args >>= runRead api access).run.run state = _
    rw [Step.run_bind, planRead, Step.run_bind, Step.run_plan, hplan]
    show (runRead api access (readOf op n)).run.run _ = _
    rw [runRead, Step.run_bind, Step.run_store]
    dsimp only
    rw [hfetch]
    rfl

/-- A fetched row is an object. -/
theorem ne_null_of_mem_fetch {n : Node} {s s' : Storage} {rows : List Value}
    (h : Storage.fetch api.registry access n s = (.ok rows, s')) {row : Value}
    (hrow : row ∈ rows) : row ≠ .null := by
  obtain ⟨fetched, -, hrows⟩ := Storage.fetch_eq_ok_iff.mp h
  obtain ⟨w, -, hw⟩ := exists_of_mem_mapM hrows hrow
  obtain ⟨ms, hms⟩ := Hydration.row_of_object hw
  obtain ⟨shown, rfl⟩ := Hydration.isObject_of_row hms
  simp

/-- The first row that is read is the first of all rows that are read with the same arguments and no
limit, with all that is read below it; the state is the same after both. Nothing is read where there
are no rows, and only there. -/
theorem findFirst_eq_head (hlimit : Plan.argument args "limit" = .null) :
    (∀ v after, (run api access t .findMany s args).run.run state = (.ok v, after) →
      ∃ rows, v = .list rows ∧ (run api access t .findFirst s args).run.run state =
        (.ok ((rows.head?).getD .null), after)) ∧
    ∀ after, (run api access t .findFirst s args).run.run state = (.ok .null, after) ↔
      (run api access t .findMany s args).run.run state = (.ok (.list []), after) := by
  have hhead : ∀ v after, (run api access t .findMany s args).run.run state = (.ok v, after) →
      ∃ rows, v = .list rows ∧ (run api access t .findFirst s args).run.run state =
        (.ok ((rows.head?).getD .null), after) := by
    intro v after h
    obtain ⟨asked, n, rows, hs, hplan, hrows, hwarnings, rfl⟩ := (run_read_eq_ok (.inl rfl)).mp h
    have hfirst := Storage.fetch_atMost (k := 1) (Plan.limit_of_ofSelection hlimit hplan) rfl hrows
    refine ⟨rows, rfl, (run_read_eq_ok (.inr rfl)).mpr
      ⟨asked, n, rows.take 1, hs, hplan, hfirst, hwarnings, ?_⟩⟩
    cases rows <;> rfl
  refine ⟨hhead, fun after => ⟨fun h => ?_, fun h => ?_⟩⟩
  · obtain ⟨asked, n, rows, hs, hplan, hrows, hwarnings, hnull⟩ :=
      (run_read_eq_ok (.inr rfl)).mp h
    -- A first row would be an object, so there is none.
    have hnone : rows = [] := by
      cases rows with
      | nil => rfl
      | cons first rest =>
        exact absurd hnull.symm (ne_null_of_mem_fetch hrows List.mem_cons_self)
    subst hnone
    have hall := Storage.fetch_of_none (k := 1) (Plan.limit_of_ofSelection hlimit hplan) rfl
      Nat.one_pos hrows
    exact (run_read_eq_ok (.inl rfl)).mpr ⟨asked, n, [], hs, hplan, hall, hwarnings, rfl⟩
  · obtain ⟨rows, hrows, hfirst⟩ := hhead _ _ h
    obtain rfl := Value.list.inj hrows
    exact hfirst

end Reads

namespace Marked

/-- The only parent is the first. -/
theorem first_onlyMark : ∃ after,
    (run api .own parent .findMany (.ok onlyMark) []).run.run state =
      (.ok (.list [.object [("_name", .int 7)]]), after) ∧
    (run api .own parent .findFirst (.ok onlyMark) []).run.run state =
      (.ok (.object [("_name", .int 7)]), after) := by
  obtain ⟨after, hall⟩ : ∃ after, (run api .own parent .findMany (.ok onlyMark) []).run.run state =
      (.ok (.list [.object [("_name", .int 7)]]), after) := ⟨_, Prod.ext run_onlyMark rfl⟩
  obtain ⟨rows, hrows, hfirst⟩ := (findFirst_eq_head rfl).1 _ after hall
  obtain rfl := Value.list.inj hrows
  exact ⟨after, hall, hfirst⟩

end Marked

end Operations
end RelGraph
