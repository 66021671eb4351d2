import RelGraph.Proofs.Operations.Blame
import RelGraph.Proofs.Fetch.Presence
/-!
When a mutation fails over an argument. Values and conditions are read before anything is written,
and so is all of a deletion; but what is asked for of the rows that an insert or an update writes is
looked at only when they are selected again, and then the write stands.
-/
namespace RelGraph.Operations

open Store (Access Storage)

namespace Step

variable {α β : Type} {s s' : State} {e : Failure}

theorem run_ofAttempt (a : Attempt α) (s : State) : (ofAttempt a).run.run s = (a, s) := rfl

theorem run_store (call : Storage → Storage.Outcome α) (s : State) :
    (store call).run.run s =
      ((call s.storage).1, { s with storage := (call s.storage).2 }) := rfl

theorem run_plan (p : Plan.Planned) (s : State) :
    (plan p).run.run s = (p.1, { s with warnings := s.warnings ++ p.2 }) := rfl

theorem run_bind (x : Step α) (g : α → Step β) (s : State) :
    (x >>= g).run.run s =
      match x.run.run s with
      | (.ok a, mid) => (g a).run.run mid
      | (.error e, mid) => (.error e, mid) := by
  show (ExceptT.bindCont g (x.run.run s).1).run (x.run.run s).2 = _
  rcases x.run.run s with ⟨_ | _, _⟩ <;> rfl

/-- Of two steps that fail the first does, or the second after it. -/
theorem bind_eq_error {x : Step α} {g : α → Step β}
    (h : (x >>= g).run.run s = (.error e, s')) :
    x.run.run s = (.error e, s') ∨
      ∃ a mid, x.run.run s = (.ok a, mid) ∧ (g a).run.run mid = (.error e, s') := by
  rw [run_bind] at h
  split at h
  · rename_i a mid hx
    exact .inr ⟨a, mid, hx, h⟩
  · rename_i e' mid hx
    obtain ⟨h₁, rfl⟩ := Prod.mk.inj h
    obtain rfl := Except.error.inj h₁
    exact .inl hx

/-- A step that changes nothing fails where it is, or what follows does. -/
theorem ofAttempt_bind_eq_error {a : Attempt α} {g : α → Step β}
    (h : (ofAttempt a >>= g).run.run s = (.error e, s')) :
    (a = .error e ∧ s' = s) ∨ ∃ x, a = .ok x ∧ (g x).run.run s = (.error e, s') := by
  rcases bind_eq_error h with hfirst | ⟨x, mid, hfirst, hnext⟩
  · obtain ⟨ha, hs⟩ := Prod.mk.inj hfirst
    exact .inl ⟨ha, hs.symm⟩
  · obtain ⟨ha, rfl⟩ := Prod.mk.inj hfirst
    exact .inr ⟨x, ha, hnext⟩

end Step

variable {api : Api} {access : Access} {t : Table} {selection : Attempt Selection}
  {args : Members Value} {s s' : State} {f : Fault}

/-! ## Selecting again -/

/-- The plan on which written rows are selected again, read off what the caller asked for. -/
def planAgain (api : Api) (t : Table) (selection : Attempt Selection) : Attempt Node := do
  let s ← selection
  (Plan.ofSelection api.registry api.config.maxDepth t.name s []).1

theorem spares_arranged (key : String) (keys rows : List Value) :
    SparesArguments (arranged key keys rows) :=
  .bind (.mapM fun k _ => Shape.spares_key k) fun _ =>
    .bind (.mapM fun _ _ => .bind (Shape.spares_key _) fun _ => .ok _) fun _ => .ok _

/-- The plan for some keys fails only as the plan does. -/
theorem planByKeys_eq_error {key : String} {keys : List Value} {e : Failure}
    (h : (planByKeys api t key selection keys).run.run s = (.error e, s')) :
    planAgain api t selection = .error e := by
  rcases Step.ofAttempt_bind_eq_error h with ⟨hselection, -⟩ | ⟨asked, hselection, h⟩
  · rw [planAgain, hselection]
    rfl
  · rcases Step.bind_eq_error h with hplan | ⟨n, mid, -, h⟩
    · rw [planAgain, hselection]
      exact (Prod.mk.inj hplan).1
    · cases h

/-- Selecting written rows again fails over an argument only where there are rows, and where no plan
can be made for them. -/
theorem selectByKeys_argument {keys : List Value}
    (h : (selectByKeys api access t selection keys).run.run s = (.error (.fault f), s'))
    (hf : f.kind = .argument) :
    keys ≠ [] ∧ t.rowKey.isSome ∧ planAgain api t selection = .error (.fault f) := by
  unfold selectByKeys at h
  split at h
  · cases h
  · cases h
  · rename_i hkeys hkey
    rcases Step.bind_eq_error h with hplan | ⟨⟨n, askedFor⟩, mid, -, h⟩
    · exact ⟨hkeys, by simp [hkey], planByKeys_eq_error hplan⟩
    · -- Once there is a plan, neither the fetch nor the order of its rows is at fault.
      exfalso
      rcases Step.bind_eq_error h with hfetch | ⟨rows, mid', -, h⟩
      · exact Storage.spares_fetch api.registry n f (Prod.mk.inj hfetch).1 hf
      · rcases Step.ofAttempt_bind_eq_error h with ⟨harranged, -⟩ | ⟨rows, -, h⟩
        · exact spares_arranged _ _ rows f harranged hf
        · cases h

/-- Where no plan can be made for written rows, selecting them again fails, and no more. -/
theorem selectByKeys_of_planAgain {keys : List Value} {e : Failure} (hkeys : keys ≠ [])
    (hkey : t.rowKey.isSome) (hplan : planAgain api t selection = .error e) (s : State) :
    ∃ s', (selectByKeys api access t selection keys).run.run s = (.error e, s') ∧
      s'.storage = s.storage := by
  obtain ⟨key, hkey⟩ := Option.isSome_iff_exists.mp hkey
  -- Nothing is read before there is a plan.
  have hfails : ∃ s', (planByKeys api t key selection keys).run.run s = (.error e, s') ∧
      s'.storage = s.storage := by
    unfold planByKeys
    rw [Step.run_bind, Step.run_ofAttempt]
    cases hselection : selection with
    | error e' =>
      rw [planAgain, hselection] at hplan
      exact ⟨s, by rw [← Except.error.inj hplan], rfl⟩
    | ok asked =>
      rw [planAgain, hselection] at hplan
      replace hplan :
          (Plan.ofSelection api.registry api.config.maxDepth t.name asked []).1 = .error e := hplan
      dsimp only
      rw [Step.run_bind, Step.run_plan, hplan]
      exact ⟨_, rfl, rfl⟩
  obtain ⟨s', hrun, hstorage⟩ := hfails
  refine ⟨s', ?_, hstorage⟩
  unfold selectByKeys
  split
  · exact absurd rfl hkeys
  · rename_i hnone
    rw [hkey] at hnone
    cases hnone
  · rename_i key' _ hkey'
    obtain rfl : key' = key := Option.some.inj (hkey'.symm.trans hkey)
    rw [Step.run_bind, hrun]

/-! ## Mutations -/

/-- What an insert or an update writes before its rows are selected again: their keys, and the
storage after it. -/
def written (t : Table) (access : Access) (op : Naming.Operation) (args : Members Value)
    (s : Storage) : Storage.Outcome (List Value) :=
  match op with
  | .insertMany =>
    let values := Plan.argument args "values"
    if !values.truthy then (Attempt.fault (.nothingToWrite t.name .insert), s)
    else match payloadsOf t .insert values with
      | .ok rows => Storage.insert t access rows s
      | .error e => (.error e, s)
  | .updateMany =>
    let given := Plan.argument args "set"
    if !given.truthy then (Attempt.fault (.nothingToWrite t.name .update), s)
    else match payloadOf t .update given, compileWhere t (Plan.argument args "where") with
      | .ok values, .ok condition => Storage.update t access values condition s
      | .error e, _ | .ok _, .error e => (.error e, s)
  | _ => (.ok [], s)

/-- Rows are written that have a key to be selected again by, and no plan can be made for them. -/
structure WritesUnplanned (api : Api) (access : Access) (t : Table) (op : Naming.Operation)
    (selection : Attempt Selection) (args : Members Value) (s : Storage) : Prop where
  written : ∃ keys, (written t access op args s).1 = .ok keys ∧ keys ≠ []
  key : t.rowKey.isSome
  unplanned : ∃ e, planAgain api t selection = .error e

/-- An insert fails over an argument before it writes, or when it selects again what it wrote. -/
theorem insertMany_argument
    (h : (insertMany api access t selection args).run.run s = (.error (.fault f), s'))
    (hf : f.kind = .argument) :
    s'.storage = s.storage ∨ WritesUnplanned api access t .insertMany selection args s.storage := by
  unfold insertMany at h
  dsimp only at h
  split at h
  · obtain ⟨-, rfl⟩ := Prod.mk.inj h
    exact .inl rfl
  · rename_i hgiven
    rcases Step.ofAttempt_bind_eq_error h with ⟨-, rfl⟩ | ⟨rows, hrows, h⟩
    · exact .inl rfl
    · rcases Step.bind_eq_error h with hinsert | ⟨keys, mid, hinsert, h⟩
      · exact absurd hf (Storage.spares_insert t rows f (Prod.mk.inj hinsert).1)
      · obtain ⟨hkeys, hkey, hplan⟩ := selectByKeys_argument h hf
        refine .inr ⟨⟨keys, ?_, hkeys⟩, hkey, _, hplan⟩
        rw [written, if_neg hgiven, hrows]
        exact (Prod.mk.inj hinsert).1

/-- An update fails over an argument before it writes, or when it selects again what it wrote. -/
theorem updateMany_argument
    (h : (updateMany api access t selection args).run.run s = (.error (.fault f), s'))
    (hf : f.kind = .argument) :
    s'.storage = s.storage ∨ WritesUnplanned api access t .updateMany selection args s.storage := by
  unfold updateMany at h
  dsimp only at h
  split at h
  · obtain ⟨-, rfl⟩ := Prod.mk.inj h
    exact .inl rfl
  · rename_i hgiven
    rcases Step.ofAttempt_bind_eq_error h with ⟨-, rfl⟩ | ⟨values, hvalues, h⟩
    · exact .inl rfl
    · rcases Step.ofAttempt_bind_eq_error h with ⟨-, rfl⟩ | ⟨condition, hcondition, h⟩
      · exact .inl rfl
      · rcases Step.bind_eq_error h with hupdate | ⟨keys, mid, hupdate, h⟩
        · exact absurd hf (Storage.spares_update t values condition f (Prod.mk.inj hupdate).1)
        · obtain ⟨hkeys, hkey, hplan⟩ := selectByKeys_argument h hf
          refine .inr ⟨⟨keys, ?_, hkeys⟩, hkey, _, hplan⟩
          rw [written, if_neg hgiven, hvalues, hcondition]
          exact (Prod.mk.inj hupdate).1

/-- A deletion fails over an argument only before it deletes. -/
theorem deleteMany_argument
    (h : (deleteMany api access t selection args).run.run s = (.error (.fault f), s'))
    (hf : f.kind = .argument) : s'.storage = s.storage := by
  rcases Step.ofAttempt_bind_eq_error h with ⟨-, rfl⟩ | ⟨asked, -, h⟩
  · rfl
  · rcases Step.bind_eq_error h with hplan | ⟨n, mid, -, h⟩
    · obtain ⟨-, rfl⟩ := Prod.mk.inj hplan
      rfl
    · rcases Step.bind_eq_error h with hdelete | ⟨rows, mid', -, h⟩
      · exact absurd hf
          (Storage.spares_delete api.registry t n.withoutRelations f (Prod.mk.inj hdelete).1)
      · cases h

/-- Where an insert or an update has written rows for which no plan can be made, it fails, and what
it has written stands. -/
theorem run_of_planAgain {op : Naming.Operation} {keys : List Value} {after : Storage} {e : Failure}
    (hwritten : written t access op args s.storage = (.ok keys, after)) (hkeys : keys ≠ [])
    (hkey : t.rowKey.isSome) (hplan : planAgain api t selection = .error e) :
    ∃ s', (run api access t op selection args).run.run s = (.error e, s') ∧
      s'.storage = after := by
  -- Once something is written, selecting it again is all that is left to do.
  have hagain : ∃ s', (selectByKeys api access t selection keys).run.run
      { s with storage := after } = (.error e, s') ∧ s'.storage = after :=
    selectByKeys_of_planAgain hkeys hkey hplan _
  unfold written at hwritten
  split at hwritten
  · dsimp only at hwritten
    split at hwritten
    · cases hwritten
    · rename_i hgiven
      split at hwritten
      · rename_i rows hrows
        rw [run, insertMany]
        simp only [if_neg hgiven, hrows, Step.run_bind, Step.run_ofAttempt, Step.run_store,
          hwritten]
        exact hagain
      · cases hwritten
  · dsimp only at hwritten
    split at hwritten
    · cases hwritten
    · rename_i hgiven
      split at hwritten
      · rename_i values condition hvalues hcondition
        rw [run, updateMany]
        simp only [if_neg hgiven, hvalues, hcondition, Step.run_bind, Step.run_ofAttempt,
          Step.run_store, hwritten]
        exact hagain
      · cases hwritten
      · cases hwritten
  · obtain ⟨hnone, -⟩ := Prod.mk.inj hwritten
    exact absurd (Except.ok.inj hnone).symm hkeys

/-! ## A new parent -/

open Direct.Family

/-- The arguments that insert a parent. -/
def newParent : Members Value := [("values", .list [.object [("id", .int 7)]])]

/-- A parent, with fewer than none of its children. -/
def childrenBelowNone : Selection :=
  ⟨"parentInsertMany", none, newParent, [("children",
    ⟨"children", none, [("limit", .int (-1))], [("id", ⟨"id", none, [], []⟩)]⟩)]⟩

/-- The limit is at fault. -/
def limitFault : Fault := .paginationInvalid "child" "limit" (Value.literal (.int (-1)))

theorem planAgain_childrenBelowNone :
    planAgain ⟨registry, {}, default⟩ parent (.ok childrenBelowNone) =
      .error (.fault limitFault) := by
  have hparent : Plan.level parent [] none = .ok { table := "parent" } := Plan.level_nil parent none
  have hchild : Plan.level child [("limit", .int (-1))] (some toChildren) =
      .error (.fault limitFault) := by
    show (compileWhere child .null >>= _) = _
    rw [compileWhere_null]
    rfl
  have htable : registry.table "parent" = .ok parent := rfl
  have htarget : registry.table toChildren.target = .ok child := rfl
  have hname : parent.hasColumn "children" = false := rfl
  have hrel : parent.relation? "children" = some toChildren := rfl
  show (Plan.ofSelection registry 5 "parent" childrenBelowNone []).1 = _
  simp [Plan.ofSelection, htable, hparent, childrenBelowNone, Plan.addFields, Plan.addField, hname,
    hrel, htarget, hchild]

theorem payloadsOf_newParent :
    payloadsOf parent .insert (Plan.argument newParent "values") = .ok [[("id", .int 7)]] := by
  have hcolumn : parent.column? "id" = some (column "id" .integer true) := rfl
  have hread : Conversion.readValue (column "id" .integer true) (.int 7) = .ok (.int 7) := by
    simp [Conversion.readValue, column, ColumnType.kind]
  have hpayload : payload parent .insert [("id", .int 7)] = .ok [("id", .int 7)] := by
    simp only [payload, List.foldlM_cons, List.foldlM_nil, hcolumn, hread]
    rfl
  show [Value.object [("id", .int 7)]].mapM (payloadOf parent .insert) = _
  rw [List.mapM_cons, payloadOf]
  show (payload parent .insert [("id", .int 7)] >>= _) = _
  rw [hpayload]
  rfl

/-- The parent is written. -/
theorem written_newParent :
    ∃ keys after, written parent .own .insertMany newParent storage = (.ok keys, after) ∧
      keys ≠ [] ∧ after.committed ≠ storage.committed := by
  have hwritten : written parent .own .insertMany newParent storage =
      Storage.insert parent .own [[("id", .int 7)]] storage := by
    rw [written, payloadsOf_newParent]
    rfl
  have hkeys : (Storage.insert parent .own [[("id", .int 7)]] storage).1.toOption.map
      List.length = some 1 := by decide +kernel
  have hafter : (Storage.insert parent .own [[("id", .int 7)]] storage).2.committed ≠
      storage.committed := by decide +kernel
  rw [hwritten]
  generalize Storage.insert parent .own [[("id", .int 7)]] storage = outcome at hkeys hafter
  obtain ⟨keys | e, after⟩ := outcome
  · cases hkeys
  · refine ⟨_, after, rfl, ?_, hafter⟩
    rintro rfl
    cases hkeys

/-- The insert fails over the limit, and what was written by then stays. -/
theorem run_childrenBelowNone :
    ∃ s', (run ⟨registry, {}, default⟩ .own parent .insertMany (.ok childrenBelowNone)
        newParent).run.run { storage := storage } = (.error (.fault limitFault), s') ∧
      s'.storage.committed ≠ storage.committed := by
  obtain ⟨keys, after, hwritten, hkeys, hafter⟩ := written_newParent
  obtain ⟨s', hrun, rfl⟩ := run_of_planAgain (s := { storage := storage }) hwritten hkeys rfl
    planAgain_childrenBelowNone
  exact ⟨s', hrun, hafter⟩

/-! ## Faults over arguments -/

/-- A mutation that fails over an argument leaves the storage as it was, unless it has written rows
before it is found that they cannot be selected again as they are asked for; then what was written
stands. -/
theorem storage_of_argument_fault (api : Api) (access : Access) (t : Table) (op : Naming.Operation)
    (selection : Attempt Selection) (args : Members Value) (s s' : State) (f : Fault)
    (hop : op = .insertMany ∨ op = .updateMany ∨ op = .deleteMany)
    (h : (run api access t op selection args).run.run s = (.error (.fault f), s'))
    (hf : f.kind = .argument) :
    (WritesUnplanned api access t op selection args s.storage →
        s'.storage = (written t access op args s.storage).2) ∧
      (¬ WritesUnplanned api access t op selection args s.storage → s'.storage = s.storage) := by
  constructor
  · rintro ⟨⟨keys, hwritten, hkeys⟩, hkey, e, hplan⟩
    obtain ⟨s'', hrun, hstorage⟩ := run_of_planAgain (Prod.ext hwritten rfl) hkeys hkey hplan
    obtain ⟨-, rfl⟩ := Prod.mk.inj (h.symm.trans hrun)
    exact hstorage
  · intro hnot
    have hcases : s'.storage = s.storage ∨
        WritesUnplanned api access t op selection args s.storage := by
      rcases hop with rfl | rfl | rfl
      · exact insertMany_argument h hf
      · exact updateMany_argument h hf
      · exact .inl (deleteMany_argument h hf)
    exact hcases.resolve_right hnot

/-- The insert of a new parent with fewer than none of its children is such a mutation. -/
theorem storage_of_limitFault :
    ∃ s', (run ⟨registry, {}, default⟩ .own parent .insertMany (.ok childrenBelowNone)
          newParent).run.run { storage := storage } = (.error (.fault limitFault), s') ∧
        limitFault.kind = .argument ∧
        WritesUnplanned ⟨registry, {}, default⟩ .own parent .insertMany (.ok childrenBelowNone)
          newParent storage ∧
        s'.storage = (written parent .own .insertMany newParent storage).2 := by
  obtain ⟨s', hrun, -⟩ := run_childrenBelowNone
  obtain ⟨keys, after, hwritten, hkeys, -⟩ := written_newParent
  have hunplanned : WritesUnplanned ⟨registry, {}, default⟩ .own parent .insertMany
      (.ok childrenBelowNone) newParent storage :=
    ⟨⟨keys, congrArg Prod.fst hwritten, hkeys⟩, rfl, _, planAgain_childrenBelowNone⟩
  exact ⟨s', hrun, rfl, hunplanned,
    (storage_of_argument_fault _ _ _ _ _ _ _ s' limitFault (.inl rfl) hrun rfl).1 hunplanned⟩

/-- It fails over the limit, and yet the new parent stays. -/
theorem committed_of_limitFault :
    limitFault.kind = .argument ∧
      ∃ s', (run ⟨registry, {}, default⟩ .own parent .insertMany (.ok childrenBelowNone)
          newParent).run.run { storage := storage } = (.error (.fault limitFault), s') ∧
        s'.storage.committed ≠ storage.committed :=
  ⟨rfl, run_childrenBelowNone⟩

end RelGraph.Operations
