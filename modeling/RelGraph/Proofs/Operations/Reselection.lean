import Mathlib
import RelGraph.Proofs.Operations.Validation
import RelGraph.Proofs.Plan.RowKeys
import RelGraph.Proofs.Store.Session
import RelGraph.Proofs.Fetch.ByKey
/-!
Selecting inserted rows again. The rows are selected by all of their keys at once, and come in the
order that the database gives them; each is then looked up, by the key that callers see of it, among
the keys that the insert returned. Where callers see keys as the database returns them the rows end
up in the order in which they were given; elsewhere no row is found and they stay as they came.
-/
namespace RelGraph.Operations

open Store Sql Direct Outcome

/-! ## Putting rows in order -/

section Order

variable {keys rows seen : List Value} {key : String} {v : Value}

theorem foldl_position {l : List (Value × Nat)} (h : ∀ kv ∈ l, Value.same kv.1 v = false)
    (found : Option Nat) :
    l.foldl (fun found kv => if Value.same kv.1 v then some kv.2 else found) found = found := by
  induction l generalizing found with
  | nil => rfl
  | cons kv rest ih =>
    rw [List.foldl_cons, h kv (by simp)]
    exact ih (fun kv' hkv' => h kv' (by simp [hkv'])) _

/-- A value is at the position of a key that it is the same as, if no later key is. -/
theorem positionOf_of_last {before after : List Value} {k : Value} (hsame : Value.same k v = true)
    (hlater : ∀ k' ∈ after, Value.same k' v = false) :
    positionOf (before ++ k :: after) v = before.length := by
  have hnone : ∀ kv ∈ after.zipIdx (before.length + 1), Value.same kv.1 v = false :=
    fun kv hkv => hlater kv.1 (List.fst_mem_of_mem_zipIdx hkv)
  rw [positionOf, List.zipIdx_append, List.foldl_append, List.zipIdx_cons, List.foldl_cons,
    Nat.zero_add]
  dsimp only
  rw [if_pos hsame, foldl_position hnone, Option.getD_some]

/-- Keys that are all apart are at their own positions. -/
theorem positionOf_getElem (hself : ∀ k ∈ keys, Value.same k k = true)
    (happart : keys.Pairwise fun a b => Value.same b a = false) {i : Nat} (hi : i < keys.length) :
    positionOf keys keys[i] = i := by
  have hsplit : keys.take i ++ keys[i] :: keys.drop (i + 1) = keys := by simp
  have hlater := (List.pairwise_append.mp (hsplit ▸ happart)).2.1
  have hposition : positionOf (keys.take i ++ keys[i] :: keys.drop (i + 1)) keys[i] =
      (keys.take i).length :=
    positionOf_of_last (hself keys[i] (List.getElem_mem hi)) (List.pairwise_cons.mp hlater).1
  rwa [hsplit, List.length_take_of_le (Nat.le_of_lt hi)] at hposition

theorem positionOf_pairwise (hself : ∀ k ∈ keys, Value.same k k = true)
    (happart : keys.Pairwise fun a b => Value.same b a = false) :
    (keys.map (positionOf keys)).Pairwise (· < ·) := by
  rw [List.pairwise_map, List.pairwise_iff_getElem]
  intro i j hi hj hij
  rwa [positionOf_getElem hself happart hi, positionOf_getElem hself happart hj]

/-- Rows with the positions of their keys. -/
def placed (key : String) (keys rows : List Value) : List (Nat × Value) :=
  rows.map fun v => (positionOf keys (v.field key), v)

theorem map_snd_placed : (placed key keys rows).map Prod.snd = rows := by
  rw [placed, List.map_map]
  exact List.map_id rows

theorem arranged_eq_ok (hkeys : ∀ k ∈ keys, Shape.unfitKey? k = none)
    (hrows : ∀ v ∈ rows, Shape.unfitKey? (v.field key) = none) :
    arranged key keys rows =
      .ok (((placed key keys rows).mergeSort fun a b => decide (a.1 ≤ b.1)).map Prod.snd) := by
  have hfit : ∀ {v : Value}, Shape.unfitKey? v = none → Shape.key v = .ok v := by
    intro v hv
    rw [Shape.key, hv]
  have hkept : keys.mapM Shape.key = .ok keys :=
    mapM_eq_ok.mpr (List.forall₂_same.mpr fun k hk => hfit (hkeys k hk))
  have hplaced : (rows.mapM fun v => do
      return (positionOf keys (← Shape.key (v.field key)), v)) = .ok (placed key keys rows) := by
    refine mapM_eq_ok.mpr (List.forall₂_map_right_iff.mpr (List.forall₂_same.mpr fun v hv => ?_))
    rw [hfit (hrows v hv)]
    rfl
  exact bind_eq_ok.mpr ⟨keys, hkept, bind_eq_ok.mpr ⟨_, hplaced, rfl⟩⟩

/-- Rows are arranged as others that they are in some order, if these are in the order of the
keys. -/
theorem arranged_of_perm (hperm : rows.Perm seen) (hkeys : ∀ k ∈ keys, Shape.unfitKey? k = none)
    (hseen : ∀ v ∈ seen, Shape.unfitKey? (v.field key) = none) :
    ∃ out, arranged key keys rows = .ok out ∧ out.Perm seen ∧
      ((seen.map fun v => positionOf keys (v.field key)).Pairwise (· < ·) → out = seen) := by
  have hrows : ∀ v ∈ rows, Shape.unfitKey? (v.field key) = none := fun v hv =>
    hseen v (hperm.mem_iff.mp hv)
  have hsorted := List.mergeSort_perm (placed key keys rows) fun a b => decide (a.1 ≤ b.1)
  refine ⟨_, arranged_eq_ok hkeys hrows, ?_, fun hordered => ?_⟩
  · have hout := hsorted.map Prod.snd
    rw [map_snd_placed] at hout
    exact hout.trans hperm
  · -- Both lists are in the order of positions, of which no two are equal.
    have hstrict : (placed key keys seen).Pairwise fun a b => a.1 < b.1 := by
      rw [placed, List.pairwise_map]
      exact List.pairwise_map.mp hordered
    have hboth : ((placed key keys rows).mergeSort fun a b => decide (a.1 ≤ b.1)).Perm
        (placed key keys seen) := hsorted.trans (hperm.map _)
    have hnodup : ((placed key keys seen).map Prod.fst).Nodup := by
      rw [List.Nodup, List.pairwise_map]
      exact hstrict.imp fun hlt => Nat.ne_of_lt hlt
    have hrowsOrder : ((placed key keys rows).mergeSort fun a b => decide (a.1 ≤ b.1)).Pairwise
        fun a b => decide (a.1 ≤ b.1) = true :=
      List.pairwise_mergeSort (by simpa using fun a b c => Nat.le_trans)
        (by simpa using fun a b => Nat.le_total a b) _
    have hseenOrder : (placed key keys seen).Pairwise fun a b => decide (a.1 ≤ b.1) = true :=
      hstrict.imp fun hlt => decide_eq_true (Nat.le_of_lt hlt)
    have hlast : ((placed key keys rows).mergeSort fun a b => decide (a.1 ≤ b.1)) =
        placed key keys seen := by
      refine List.Perm.eq_of_pairwise (fun a b ha hb hab hba => ?_) hrowsOrder hseenOrder hboth
      exact List.inj_on_of_nodup_map hnodup (hboth.mem_iff.mp ha) hb
        (Nat.le_antisymm (of_decide_eq_true hab) (of_decide_eq_true hba))
    rw [hlast, map_snd_placed]

end Order

/-! ## Selecting rows again -/

section Selecting

variable {api : Api} {access : Access} {t : Table} {c : Column} {n : Node} {asked : Selection}
  {keys rows out : List Value} {s : State}

/-- What is asked for of written rows is planned for all rows of the table. -/
structure PlansAll (t : Table) (asked : Selection) (n : Node) : Prop where
  rows : Plan.SameRows { table := t.name } n
  columns : ∀ name, name ∈ n.columns ↔ name ∈ Plan.columnNames t asked.fields
  relations : ∀ name, (name ∈ Members.names n.relations ∨ name ∈ Members.names n.truncated) ↔
    name ∈ Plan.rowKeys t asked.fields

theorem plansAll_ofSelection (ht : api.registry.table? t.name = some t)
    (h : (Plan.ofSelection api.registry api.config.maxDepth t.name asked []).1 = .ok n) :
    PlansAll t asked n := by
  rw [Plan.ofSelection_fst, Registry.table_eq_ok.mpr ht] at h
  replace h : Plan.ofFields api.registry api.config.maxDepth 0 t [] none asked.fields = .ok n := h
  obtain ⟨start, hstart, hfields⟩ := bind_eq_ok.mp h
  obtain rfl := Except.ok.inj ((Plan.level_nil t none).symm.trans hstart)
  exact ⟨Plan.sameRows_addFields hfields, fun _ => Plan.mem_columns_ofFields h,
    fun _ => Plan.mem_keys_ofFields h⟩

/-- A row has exactly the fields that are asked for: columns by their names, and relations under
their row keys. -/
def HasAsked (t : Table) (asked : Selection) (v : Value) : Prop :=
  ∃ ms, v = .object ms ∧ ∀ name, name ∈ Members.names ms ↔
    name ∈ Plan.columnNames t asked.fields ∨ name ∈ Plan.rowKeys t asked.fields

theorem PlansAll.hasAsked (h : PlansAll t asked n) {v : Value} (hv : Hydration.HasFields n v) :
    HasAsked t asked v := by
  obtain ⟨ms, rfl, hnames⟩ := hv
  exact ⟨ms, rfl, fun name => by rw [hnames, h.columns, h.relations]⟩

theorem run_planByKeys (hcondition : n.condition = none)
    (h : (Plan.ofSelection api.registry api.config.maxDepth t.name asked []).1 = .ok n) :
    ∃ warnings, (planByKeys api t c.name (.ok asked) keys).run.run s =
      (.ok (withKeys n c keys, n.columns.contains c.name), { s with warnings := warnings }) := by
  refine ⟨s.warnings ++
    (Plan.ofSelection api.registry api.config.maxDepth t.name asked []).2, ?_⟩
  rw [planByKeys, Step.run_bind, Step.run_ofAttempt]
  dsimp only
  rw [Step.run_bind, Step.run_plan, h]
  dsimp only
  rw [hcondition]
  rfl

/-- A row as the caller asked for it, its key having been selected besides. -/
def asAsked (c : Column) (n : Node) (v : Value) : Value :=
  if c.name ∈ n.columns then v else without c.name v

theorem map_asAsked : out.map (asAsked c n) =
    if n.columns.contains c.name then out else out.map (without c.name) := by
  by_cases hmem : c.name ∈ n.columns
  · have hself : asAsked c n = id := funext fun v => if_pos hmem
    simp [hself, hmem]
  · have hless : asAsked c n = without c.name := funext fun v => if_neg hmem
    simp [hless, hmem]

/-- Written rows are selected by all keys at once, arranged, and shown without a key that was not
asked for. -/
theorem selectByKeys_eq_ok (hkeys : keys ≠ []) (hkey : t.rowKey = some c.name)
    (hcondition : n.condition = none)
    (hplan : (Plan.ofSelection api.registry api.config.maxDepth t.name asked []).1 = .ok n)
    (hrows : (Storage.fetch api.registry access (withKeys n c keys) s.storage).1 = .ok rows)
    (hout : arranged c.name keys rows = .ok out) :
    ((selectByKeys api access t (.ok asked) keys).run.run s).1 =
      .ok (.list (out.map (asAsked c n))) := by
  obtain ⟨warnings, hrun⟩ : ∃ warnings, (planByKeys api t c.name (.ok asked) keys).run.run s =
      (.ok (withKeys n c keys, n.columns.contains c.name), { s with warnings := warnings }) :=
    run_planByKeys hcondition hplan
  unfold selectByKeys
  split
  · exact absurd rfl hkeys
  · rename_i hnone
    rw [hkey] at hnone
    cases hnone
  · rename_i key _ hkey'
    obtain rfl : key = c.name := Option.some.inj (hkey'.symm.trans hkey)
    rw [Step.run_bind, hrun]
    dsimp only
    rw [Step.run_bind, Step.run_store, hrows]
    dsimp only
    rw [Step.run_bind, Step.run_ofAttempt, hout]
    rw [map_asAsked]
    rfl

/-- The statement that a plan is built into can be sent. -/
def Sendable (r : Registry) (n : Node) : Prop :=
  ∃ f, Fetch.ofNode r n = .ok f ∧
    (Storage.boundCells (Fetch.checkSize f) (Dialect.sqlite.fetch f)).toOption.isSome

/-- A new row, its key, and what callers see of it when it is selected alone and among all. -/
structure Reselected where
  row : StoredRow
  key : Value
  alone : Value
  among : Value

/-- Two views of a row differ at most by the key, which was not asked for then. -/
structure Reselected.Agrees (x : Reselected) (c : Column) (n : Node) : Prop where
  key : Conversion.showValue c x.key = .ok (x.among.field c.name)
  asAsked : asAsked c n x.among = x.alone

namespace Reselected.Agrees

variable {x : Reselected}

theorem unfitKey?_eq_none (h : x.Agrees c n) (hkey : t.KeyColumn c)
    (hkept : KeepsKey c x.row x.key) : Shape.unfitKey? (x.among.field c.name) = none := by
  obtain ⟨shown, hshown, hfit, -⟩ := hkept.2.showValue_eq_ok hkey.kind
  rwa [Except.ok.inj (h.key.symm.trans hshown)]

theorem field_eq (h : x.Agrees c n) (hkey : t.KeyColumn c) (hkept : KeepsKey c x.row x.key)
    (hread : isShownAsRead c.declaration.type = true) : x.among.field c.name = x.key := by
  obtain ⟨shown, hshown, -, hsame⟩ := hkept.2.showValue_eq_ok hkey.kind
  rw [← hsame hread]
  exact Except.ok.inj (h.key.symm.trans hshown)

end Reselected.Agrees

section Keyed

variable {news : List StoredRow} {f : Fetch}

/-- Each new row is selected alone by its key, and seen among all as it is seen alone. -/
theorem exists_reselected (hkey : t.KeyColumn c) (ht : api.registry.table? n.table = some t)
    (hlimit : n.limit = none) (hoffset : n.offset = none)
    (hrelations : c.name ∉ Members.names n.relations)
    (htruncated : c.name ∉ Members.names n.truncated)
    (hkeyed : Keyed c ((s.storage.seen access).rows t) news keys)
    (hf : Fetch.ofNode api.registry (withKeys n c keys) = .ok f)
    (halone : ∀ key ∈ keys,
      ∃ vs, (Storage.fetch api.registry access (withKey n c key) s.storage).1 = .ok vs) :
    ∃ items : List Reselected, items.map (·.row) = news ∧ items.map (·.key) = keys ∧
      ∀ x ∈ items, KeepsKey c x.row x.key ∧ x.Agrees c n ∧ Hydration.HasFields n x.alone ∧
        (Storage.fetch api.registry access (withKey n c x.key) s.storage).1 = .ok [x.alone] ∧
        Seen api.registry (s.storage.seen access) f (withKeys n c keys) x.row x.among := by
  have hpairs : List.Forall₂ (fun new key => new ∈ news ∧ key ∈ keys ∧ KeepsKey c new key)
      news keys := by
    have hkeys := (forall₂_with_mem (forall₂_with_mem hkeyed.kept).flip).flip
    exact hkeys.imp fun _ _ ⟨hkey, hnew, hkept⟩ => ⟨hnew, hkey, hkept⟩
  refine exists_items_of_forall₂ (hpairs.imp fun new key ⟨hnew, hmem, hkept⟩ => ?_)
  obtain ⟨vs, hvs⟩ := halone key hmem
  obtain ⟨f', v, hf', hseen, rfl⟩ :=
    fetch_withKey hkey ht hlimit hoffset hkeyed hnew hkept hvs
  obtain ⟨v', hseen', hshown, hsame, hwithout⟩ :=
    seen_withKeys hkey ht hrelations htruncated hkept hf' hf hseen
  refine ⟨⟨new, key, v, v'⟩, rfl, rfl, hkept, ⟨hshown, ?_⟩, hasFields_of_seen hseen, hvs, hseen'⟩
  rw [asAsked]
  split
  · rename_i hmem
    exact hsame hmem
  · rename_i hmem
    obtain ⟨members, rfl, rfl⟩ := hwithout hmem
    rfl

/-- New rows that are known by their keys are each selected again, in the order of the keys if
callers see these as they were read. -/
theorem selectByKeys_of_keyed (hsession : access.hasSession = true) (hkey : t.KeyColumn c)
    (ht : api.registry.table? t.name = some t)
    (hplan : (Plan.ofSelection api.registry api.config.maxDepth t.name asked []).1 = .ok n)
    (hfree : c.name ∉ Plan.rowKeys t asked.fields) (hkeys : keys ≠ [])
    (hkeyed : Keyed c ((s.storage.seen access).rows t) news keys)
    (hsent : Sendable api.registry (withKeys n c keys))
    (halone : ∀ key ∈ keys,
      ∃ vs, (Storage.fetch api.registry access (withKey n c key) s.storage).1 = .ok vs) :
    ∃ vs out, List.Forall₂ (fun key v =>
        (Storage.fetch api.registry access (withKey n c key) s.storage).1 = .ok [v]) keys vs ∧
      (∀ v ∈ vs, HasAsked t asked v) ∧
      ((selectByKeys api access t (.ok asked) keys).run.run s).1 = .ok (.list out) ∧
      out.Perm vs ∧ (isShownAsRead c.declaration.type = true → out = vs) := by
  obtain ⟨f, hf, hsent⟩ := hsent
  have hplans := plansAll_ofSelection ht hplan
  have hall := hplans.rows
  have ht' : api.registry.table? n.table = some t := by rw [hall.table, ht]
  obtain ⟨hrelations, htruncated⟩ := not_or.mp (mt (hplans.relations c.name).mp hfree)
  obtain ⟨items, rfl, rfl, hitems⟩ := exists_reselected hkey ht' hall.limit hall.offset hrelations
    htruncated hkeyed hf halone
  have hseen : List.Forall₂ (Seen api.registry (s.storage.seen access) f
      (withKeys n c (items.map (·.key)))) (items.map (·.row)) (items.map (·.among)) :=
    List.forall₂_map_left_iff.mpr (List.forall₂_map_right_iff.mpr
      (List.forall₂_same.mpr fun x hx => (hitems x hx).2.2.2.2))
  obtain ⟨rows, hrows, hperm⟩ := fetch_withKeys hsession hkey ht' hall.limit hall.offset hkeyed hf
    hsent hseen
  obtain ⟨out, harranged, hout, hordered⟩ := arranged_of_perm hperm
    (List.forall_mem_map.mpr fun x hx => (hitems x hx).1.2.unfitKey?_eq_none)
    (List.forall_mem_map.mpr fun x hx => (hitems x hx).2.1.unfitKey?_eq_none hkey (hitems x hx).1)
  have hviews : (items.map (·.among)).map (asAsked c n) = items.map (·.alone) := by
    rw [List.map_map]
    exact List.map_congr_left fun x hx => (hitems x hx).2.1.asAsked
  refine ⟨items.map (·.alone), out.map (asAsked c n), ?_,
    List.forall_mem_map.mpr fun x hx => hplans.hasAsked (hitems x hx).2.2.1,
    selectByKeys_eq_ok hkeys hkey.key hall.condition hplan hrows harranged,
    (hout.map _).trans (.of_eq hviews), fun hread => ?_⟩
  · exact List.forall₂_map_left_iff.mpr (List.forall₂_map_right_iff.mpr
      (List.forall₂_same.mpr fun x hx => (hitems x hx).2.2.2.1))
  · -- A row that shows its key as it was read is found at the position of that key.
    have hfields : (items.map (·.among)).map (·.field c.name) = items.map (·.key) := by
      rw [List.map_map]
      exact List.map_congr_left fun x hx => (hitems x hx).2.1.field_eq hkey (hitems x hx).1 hread
    have hpositions := positionOf_pairwise
      (List.forall_mem_map.mpr fun x hx => (hitems x hx).1.2.same_self) hkeyed.keys_apart
    have hmoved := congrArg (List.map (positionOf (items.map (·.key)))) hfields
    rw [List.map_map] at hmoved
    rw [hordered ((congrArg (List.Pairwise (· < ·)) hmoved).mpr hpositions), hviews]

end Keyed

end Selecting

/-! ## Inserting -/

section Inserting

variable {api : Api} {access : Access} {t : Table} {c : Column} {n : Node} {asked : Selection}
  {args : Members Value} {rows : List (Members Value)} {keys : List Value} {s : State}
  {after : Storage}

theorem keyOf_of_keepsKey {new : StoredRow} {key : Value} (hkey : t.KeyColumn c)
    (h : KeepsKey c new key) : Storage.keyOf t new = .ok key := by
  have hreturned : returned t [] = [c] := by
    simp [returned, returnedNames, hkey.key, hkey.found]
  rw [Storage.keyOf, hreturned, hkey.key, resultMembers_eq_mapM]
  simp [h.2.read, Value.field, Members.get?]

theorem payloadsOf_ne_nil {v : Value} (hgiven : v.truthy = true)
    (h : payloadsOf t .insert v = .ok rows) : rows ≠ [] := by
  obtain ⟨parts, hparts, hrows⟩ := bind_eq_ok.mp h
  rintro rfl
  obtain rfl : parts = [] := List.forall₂_nil_right_iff.mp (mapM_eq_ok.mp hrows)
  cases v <;> simp_all [Shape.parts, Shape.parts?, Value.truthy, Attempt.mishap]

/-- Each new row keeps the key that the insert returns for it. -/
theorem keepsKey_of_inserted {news : List StoredRow} (hkey : t.KeyColumn c)
    (hmade : List.Forall₂ (NewRow t (runsOf rows)) rows news)
    (hkeys : List.Forall₂ (HasKey t c) rows news)
    (hreturned : List.Forall₂ (fun new key => Storage.keyOf t new = .ok key) news keys) :
    List.Forall₂ (KeepsKey c) news keys := by
  have hkept : List.Forall₂ (fun _ new => ∃ key, KeepsKey c new key) rows news :=
    List.Forall₂.mp (fun _ _ hnew hhas => keepsKey_of_newRow hkey hnew hhas) hmade hkeys
  refine (forall₂_with_mem hreturned).imp fun new key ⟨hnew, hread⟩ => ?_
  obtain ⟨row, -, key', hkept⟩ := exists_of_forall₂ hkept.flip hnew
  rwa [Except.ok.inj (hread.symm.trans (keyOf_of_keepsKey hkey hkept))]

/-- Inserting rows that have keys of their own gives back each of them as it is selected again by
its key, in the order in which they were given if callers see keys as they were read. -/
theorem insertMany_reselects (hkey : t.KeyColumn c) (ht : api.registry.table? t.name = some t)
    (hgiven : (Plan.argument args "values").truthy = true)
    (hrows : payloadsOf t .insert (Plan.argument args "values") = .ok rows)
    (hinsert : Storage.insert t access rows s.storage = (.ok keys, after))
    (hkeys : List.Forall₂ (HasKey t c) rows (newRows t (s.storage.seen access) rows))
    (hplan : (Plan.ofSelection api.registry api.config.maxDepth t.name asked []).1 = .ok n)
    (hfree : c.name ∉ Plan.rowKeys t asked.fields)
    (hsent : Sendable api.registry (withKeys n c keys))
    (halone : ∀ key ∈ keys,
      ∃ vs, (Storage.fetch api.registry access (withKey n c key) after).1 = .ok vs) :
    ∃ vs out,
      List.Forall₂ (NewRow t (runsOf rows)) rows (newRows t (s.storage.seen access) rows) ∧
      List.Forall₂ (fun new key => Storage.keyOf t new = .ok key)
        (newRows t (s.storage.seen access) rows) keys ∧
      List.Forall₂ (fun key v =>
        (Storage.fetch api.registry access (withKey n c key) after).1 = .ok [v]) keys vs ∧
      (∀ v ∈ vs, HasAsked t asked v) ∧
      ((insertMany api access t (.ok asked) args).run.run s).1 = .ok (.list out) ∧
      out.Perm vs ∧ (isShownAsRead c.declaration.type = true → out = vs) := by
  obtain ⟨hsession, news, hwritten, hreturned⟩ := Storage.insert_eq_ok hinsert
  obtain ⟨hmade, hadds, -⟩ := written_eq_ok hwritten
  rw [flatten_runsOf] at hmade
  rw [newRows_of_written hwritten] at hkeys ⊢
  have hkept := keepsKey_of_inserted hkey hmade hkeys hreturned
  have hsome : keys ≠ [] := by
    rintro rfl
    obtain rfl := List.forall₂_nil_right_iff.mp hreturned
    exact payloadsOf_ne_nil hgiven hrows (List.forall₂_nil_right_iff.mp hmade)
  have hrun : ((insertMany api access t (.ok asked) args).run.run s).1 =
      ((selectByKeys api access t (.ok asked) keys).run.run { s with storage := after }).1 := by
    rw [insertMany, hgiven, Bool.not_true, if_neg (by decide), Step.run_bind, Step.run_ofAttempt,
      hrows]
    dsimp only
    rw [Step.run_bind, Step.run_store, hinsert]
  rw [hrun]
  obtain ⟨vs, out, hvs, hasked, hout⟩ := selectByKeys_of_keyed (s := ⟨after, s.warnings⟩) hsession
    hkey ht hplan hfree hsome (keyed_of_adds hkey hadds hkept) hsent halone
  exact ⟨vs, out, hmade, hreturned, hvs, hasked, hout⟩

end Inserting

/-! ## Two entries -/

namespace Journal

/-- The key of entries. -/
def key (type : ColumnType) : Column := Family.column "id" type true

/-- The name of entries. -/
def name : Column := Family.column "name" (.text false) false

/-- Entries, each with a key and a name. -/
def entry (type : ColumnType) : Table := Family.table "entry" [key type, name] []

/-- The interface to entries. -/
def api (type : ColumnType) : Api := ⟨⟨[("entry", entry type)]⟩, {}, default⟩

/-- The names of entries are asked for. -/
def asked : Selection := ⟨"entryInsertMany", none, [], [("name", ⟨"name", none, [], []⟩)]⟩

/-- The plan for the names of entries. -/
def names : Node := { table := "entry", columns := ["name"] }

/-- The row of an entry. -/
def rowOf (id : Value) (called : String) : Members Value := [("id", id), ("name", .text called)]

/-- The rows of two entries. -/
def rowsOf (a b : Value) : List (Members Value) := [rowOf a "a", rowOf b "b"]

/-- The arguments that insert two entries. -/
def values (a b : Value) : Members Value := [("values", .list ((rowsOf a b).map .object))]

/-- An entry as it is stored. -/
def stored (number : Int) (id called : String) : StoredRow :=
  ⟨number, [("id", .text id), ("name", .text called)]⟩

/-- The storage with two entries. -/
def storage (x y : String) : Storage :=
  let db : Database := { tables := [("entry", [stored 1 x "a", stored 2 y "b"])] }
  { committed := db, working := db, statements := 1 }

/-- An entry as callers see it who asked for its name. -/
def shown (called : String) : Value := .object [("name", .text called)]

variable {type : ColumnType} {a b k : Value} {x y z called : String} {number : Int} {f : Fetch}

theorem keyColumn (type : ColumnType) : (entry type).KeyColumn (key type) where
  only := rfl
  key := rfl
  found := rfl
  stored := by simp [entry, Family.table, key, name, Family.column]
  given := rfl
  kind := rfl

theorem plan_asked (type : ColumnType) : (Plan.ofSelection (api type).registry
    (api type).config.maxDepth (entry type).name asked []).1 = .ok names := by
  cbv

theorem readValue_text {c : Column} (h : c.kind = .text) (s : String) :
    Conversion.readValue c (.text s) = .ok (.text s) := by
  rw [Conversion.readValue, h, if_neg (by decide), Conversion.readText, h]

theorem readValue_uuid (u : Uuid) :
    Conversion.readValue (key (.uuid false)) (.uuid u) = .ok (.uuid u) := by
  rw [Conversion.readValue, if_neg (by decide)] <;> simp

theorem payloadOf_rowOf (hread : Conversion.readValue (key type) k = .ok k) :
    payloadOf (entry type) .insert (.object (rowOf k called)) = .ok (rowOf k called) := by
  have hkey : (entry type).column? "id" = some (key type) := rfl
  have hname : (entry type).column? "name" = some name := rfl
  have hcalled : Conversion.readValue name (.text called) = .ok (.text called) :=
    readValue_text rfl called
  show payload (entry type) .insert [("id", k), ("name", .text called)] = _
  simp only [payload, List.foldlM_cons, List.foldlM_nil, hkey, hread, hname, hcalled]
  rfl

theorem payloadsOf_values (ha : Conversion.readValue (key type) a = .ok a)
    (hb : Conversion.readValue (key type) b = .ok b) :
    payloadsOf (entry type) .insert (Plan.argument (values a b) "values") = .ok (rowsOf a b) := by
  show [Value.object (rowOf a "a"), .object (rowOf b "b")].mapM (payloadOf (entry type) .insert) = _
  rw [List.mapM_cons, payloadOf_rowOf ha, List.mapM_cons, payloadOf_rowOf hb]
  rfl

/-- Two entries are inserted by one statement. -/
theorem runsOf_rowsOf (a b : Value) : runsOf (rowsOf a b) = [rowsOf a b] := by
  have hsome : columnSet (rowOf b "b") ≠ [] := by
    rw [← List.length_pos_iff, columnSet, List.length_mergeSort]
    exact Nat.zero_lt_succ 1
  have hsame : columnSet (rowOf a "a") = columnSet (rowOf b "b") := rfl
  simp [rowsOf, runsOf, joinRun, hsame, hsome]

theorem insert_rowsOf (h : Storage.insertRuns (entry type) {} [rowsOf a b] =
      (.ok [a, b], { storage x y with committed := {} })) :
    Storage.insert (entry type) .own (rowsOf a b) {} = (.ok [a, b], storage x y) := by
  have hrun : Storage.runInserts (entry type) (rowsOf a b) {} = (.ok [a, b], storage x y) := by
    rw [Storage.runInserts, runsOf_rowsOf, h]
    rfl
  show (Storage.runInserts (entry type) (rowsOf a b) {}).map id Storage.rollback = _
  rw [hrun]
  rfl

/-- An entry is selected alone by its key. -/
theorem fetch_alone (hfound : ((storage x y).committed.rows (entry type)).filter
      (meets (entry type) (some (.compare "id" .eq k))) = [stored number z called])
    (hf : Fetch.ofNode (api type).registry (withKey names (key type) k) = .ok f)
    (hcolumns : f.columns = [name]) (hnested : f.nested = [])
    (hsent : (Storage.boundCells (Fetch.checkSize f) (Dialect.sqlite.fetch f)).toOption.isSome) :
    (Storage.fetch (api type).registry .own (withKey names (key type) k) (storage x y)).1 =
      .ok [shown called] := by
  have hroot : rootRows (scanOf (api type).registry) (storage x y).committed (entry type)
      (withKey names (key type) k) = [stored number z called] :=
    List.perm_singleton.mp (hfound ▸ rootRows_perm _ rfl rfl)
  have hrow : fetchedRow (storage x y).committed f (stored number z called) =
      .ok (shown called) := by
    rw [fetchedRow, hcolumns, hnested]
    rfl
  have hresult : Fetch.result .byName (storage x y).committed f = .ok [shown called] := by
    rw [result_eq_ok_iff hf rfl (checkMatches_compare (.inl rfl)), hroot, List.mapM_cons, hrow]
    rfl
  have hcolumn : (["name"].mapM fun column => do
      return (column, ← Hydration.shownColumn (entry type) [("name", .text called)] column)) =
      .ok [("name", .text called)] := rfl
  have hseen : Hydration.row (api type).registry (withKey names (key type) k) (shown called) =
      .ok (shown called) :=
    (Hydration.row_of_parts rfl hcolumn rfl).trans rfl
  refine Storage.fetch_of_seen rfl hf hsent hresult ?_
  rw [Hydration.rows, List.mapM_cons, hseen]
  rfl

theorem insert_texts : Storage.insert (entry (.text false)) .own
      (rowsOf (.text "y") (.text "x")) {} =
    (.ok [.text "y", .text "x"], storage "y" "x") :=
  insert_rowsOf rfl

theorem hasKey_texts : List.Forall₂ (HasKey (entry (.text false)) (key (.text false)))
    (rowsOf (.text "y") (.text "x"))
    (newRows (entry (.text false)) {} (rowsOf (.text "y") (.text "x"))) := by
  have hnew : newRows (entry (.text false)) {} (rowsOf (.text "y") (.text "x")) =
      [stored 1 "y" "a", stored 2 "x" "b"] := by
    rw [newRows, runsOf_rowsOf]
    rfl
  rw [hnew]
  exact .cons ⟨.text "y", rfl, .text⟩ (.cons ⟨.text "x", rfl, .text⟩ .nil)

theorem sendable_texts : Sendable (api (.text false)).registry
    (withKeys names (key (.text false)) [.text "y", .text "x"]) :=
  ⟨_, rfl, rfl⟩

theorem fetch_texts : (Storage.fetch (api (.text false)).registry .own
      (withKey names (key (.text false)) (.text "y")) (storage "y" "x")).1 = .ok [shown "a"] ∧
    (Storage.fetch (api (.text false)).registry .own
      (withKey names (key (.text false)) (.text "x")) (storage "y" "x")).1 = .ok [shown "b"] :=
  ⟨fetch_alone rfl rfl rfl rfl rfl, fetch_alone rfl rfl rfl rfl rfl⟩

/-- Two entries with texts for keys are given back in their order, though the second comes first by
its key. -/
theorem insertMany_of_texts :
    ((insertMany (api (.text false)) .own (entry (.text false)) (.ok asked)
      (values (.text "y") (.text "x"))).run.run { storage := {} }).1 =
      .ok (.list [shown "a", shown "b"]) := by
  obtain ⟨vs, out, -, -, hvs, -, hrun, -, hordered⟩ := insertMany_reselects
    (s := { storage := {} }) (keyColumn (.text false)) rfl rfl
    (payloadsOf_values (readValue_text rfl _) (readValue_text rfl _)) insert_texts hasKey_texts
    (plan_asked _) (by decide +kernel) sendable_texts (by
      intro k hk
      obtain rfl | rfl := List.mem_pair.mp hk
      · exact ⟨_, fetch_texts.1⟩
      · exact ⟨_, fetch_texts.2⟩)
  obtain rfl := hordered rfl
  obtain _ | ⟨ha, _ | ⟨hb, _ | _⟩⟩ := hvs
  obtain ⟨rfl⟩ := Except.ok.inj (ha.symm.trans fetch_texts.1)
  obtain ⟨rfl⟩ := Except.ok.inj (hb.symm.trans fetch_texts.2)
  exact hrun

/-! Callers see a UUID as a text, which is none of the keys that the insert returned. -/

/-- No loops go by a choice where there is none. -/
theorem choiceLoops_single (s : Planning.Setting) (place : Planning.Place)
    (test : Option Planning.Test) (depth : Nat) :
    Planning.choiceLoops s { own := [.single place test] } depth = [] := by
  cases depth <;> rw [Planning.choiceLoops]
  rfl

set_option maxRecDepth 10000 in
/-- The entry whose key is the lesser UUID comes first when both are selected. -/
theorem route_entries {rows : Rows} (htable : rows.table = entry (.uuid false))
    (hcondition : rows.condition = some (.compare (key (.uuid false)) .inArray (.tuple [a, b])))
    (horder : rows.orderBy = []) (habove : rows.above = none) :
    Rows.route rows [name, key (.uuid false)] = .along [key (.uuid false)] false := by
  have hterm : Planning.comparisonTerm (entry (.uuid false)) (key (.uuid false)) .inArray
      (.tuple [a, b]) = .single (.column "id") (some (.among 2)) := rfl
  rw [Rows.route, htable, hcondition, horder, habove]
  show Planning.route _ 2 [Planning.comparisonTerm _ _ _ _] = _
  rw [hterm, Planning.route, choiceLoops_single, List.append_nil]
  cbv

theorem mergeSort_pair {α : Type} (le : α → α → Bool) (a b : α) :
    [a, b].mergeSort le = if le a b then [a, b] else [b, a] := by
  cases h : le a b <;> simp [List.mergeSort, List.MergeSort.Internal.splitInTwo, h]

/-- Two entries whose keys are UUIDs, the first greater than the second. -/
def uuids : Storage := storage (Uuid.hex ⟨2⟩) (Uuid.hex ⟨1⟩)

/-- The rows of these entries. -/
def first : StoredRow := stored 1 (Uuid.hex ⟨2⟩) "a"

@[inherit_doc first]
def second : StoredRow := stored 2 (Uuid.hex ⟨1⟩) "b"

/-- The plan for the names of both entries. -/
def both : Node := withKeys names (key (.uuid false)) [.uuid ⟨2⟩, .uuid ⟨1⟩]

/-- An entry as it is fetched among others, with its key. -/
def fetchedAmong (called : String) (u : Uuid) : Value :=
  .object [("name", .text called), ("id", .uuid u)]

/-- An entry as it is shown among others: its key is a text. -/
def shownAmong (called : String) (u : Uuid) : Value :=
  .object [("name", .text called), ("id", .text u.text)]

theorem rootRows_both {f : Fetch} (hf : Fetch.ofNode (api (.uuid false)).registry both = .ok f)
    (hroute : Rows.route f.rows (Fetch.shown f) = .along [key (.uuid false)] false) :
    rootRows (scanOf (api (.uuid false)).registry) uuids.committed (entry (.uuid false)) both =
      [second, first] := by
  have harranged : Route.arrange (uuids.committed.rows (entry (.uuid false)))
      (.along [key (.uuid false)] false) = [second, first] := by
    show [first, second].mergeSort (fun a b => (Route.indexOrder [key (.uuid false)] a b).isLE) = _
    rw [mergeSort_pair]
    rfl
  have hmet : [second, first].filter (meets (entry (.uuid false)) both.condition) =
      [second, first] := rfl
  have hsorted : sorted (entry (.uuid false)) both [second, first] = [second, first] := by
    rw [sorted, mergeSort_pair]
    rfl
  rw [rootRows, scanOf_arrange ((routeOf_root hf).trans (congrArg _ hroute)), harranged, hmet,
    hsorted]
  rfl

theorem row_both (called : String) (u : Uuid) :
    Hydration.row (api (.uuid false)).registry both (fetchedAmong called u) =
      .ok (shownAmong called u) := by
  have hcolumns : (both.columns.mapM fun column => do
      return (column, ← Hydration.shownColumn (entry (.uuid false))
        [("name", .text called), ("id", .uuid u)] column)) =
      .ok [("name", .text called), ("id", .text u.text)] := rfl
  exact (Hydration.row_of_parts rfl hcolumns rfl).trans rfl

theorem fetch_both : (Storage.fetch (api (.uuid false)).registry .own both uuids).1 =
    .ok [shownAmong "b" ⟨1⟩, shownAmong "a" ⟨2⟩] := by
  obtain ⟨f, hf, htable, hcondition, horder, habove, hcolumns, hnested, hshown, hsent⟩ : ∃ f,
      Fetch.ofNode (api (.uuid false)).registry both = .ok f ∧
      f.rows.table = entry (.uuid false) ∧ f.rows.condition =
        some (.compare (key (.uuid false)) .inArray (.tuple [.uuid ⟨2⟩, .uuid ⟨1⟩])) ∧
      f.rows.orderBy = [] ∧ f.rows.above = none ∧ f.columns = [name, key (.uuid false)] ∧
      f.nested = [] ∧ Fetch.shown f = [name, key (.uuid false)] ∧
      (Storage.boundCells (Fetch.checkSize f) (Dialect.sqlite.fetch f)).toOption.isSome :=
    ⟨_, rfl, rfl, rfl, rfl, rfl, rfl, rfl, rfl, rfl⟩
  have hroot : rootRows (scanOf (api (.uuid false)).registry) uuids.committed (entry (.uuid false))
      both = [second, first] :=
    rootRows_both hf (hshown ▸ route_entries htable hcondition horder habove)
  have hsecond : fetchedRow uuids.committed f second = .ok (fetchedAmong "b" ⟨1⟩) := by
    rw [fetchedRow, hcolumns, hnested]
    rfl
  have hfirst : fetchedRow uuids.committed f first = .ok (fetchedAmong "a" ⟨2⟩) := by
    rw [fetchedRow, hcolumns, hnested]
    rfl
  have hresult : Fetch.result .byName uuids.committed f =
      .ok [fetchedAmong "b" ⟨1⟩, fetchedAmong "a" ⟨2⟩] := by
    rw [result_eq_ok_iff hf rfl (checkMatches_compare (.inr rfl)), hroot, List.mapM_cons, hsecond,
      List.mapM_cons, hfirst]
    rfl
  refine Storage.fetch_of_seen rfl hf hsent hresult ?_
  rw [Hydration.rows, List.mapM_cons, row_both, List.mapM_cons, row_both]
  rfl

theorem insert_uuids : Storage.insert (entry (.uuid false)) .own
    (rowsOf (.uuid ⟨2⟩) (.uuid ⟨1⟩)) {} = (.ok [.uuid ⟨2⟩, .uuid ⟨1⟩], uuids) :=
  insert_rowsOf rfl

/-- No key is found again, so the rows stay in the order of the database. -/
theorem arranged_both : arranged "id" [.uuid ⟨2⟩, .uuid ⟨1⟩]
      [shownAmong "b" ⟨1⟩, shownAmong "a" ⟨2⟩] =
    .ok [shownAmong "b" ⟨1⟩, shownAmong "a" ⟨2⟩] := by
  rw [arranged_eq_ok (List.forall_mem_cons.mpr ⟨rfl, List.forall_mem_singleton.mpr rfl⟩)
    (List.forall_mem_cons.mpr ⟨rfl, List.forall_mem_singleton.mpr rfl⟩)]
  show Except.ok (([(2, shownAmong "b" ⟨1⟩), (2, shownAmong "a" ⟨2⟩)].mergeSort fun a b =>
    decide (a.1 ≤ b.1)).map Prod.snd) = _
  rw [mergeSort_pair]
  rfl

/-- Two entries with UUIDs for keys are given back in the order of these, not in their own. -/
theorem insertMany_of_uuids :
    Storage.insert (entry (.uuid false)) .own (rowsOf (.uuid ⟨2⟩) (.uuid ⟨1⟩)) {} =
        (.ok [.uuid ⟨2⟩, .uuid ⟨1⟩], uuids) ∧
      (Storage.fetch (api (.uuid false)).registry .own
        (withKey names (key (.uuid false)) (.uuid ⟨2⟩)) uuids).1 = .ok [shown "a"] ∧
      (Storage.fetch (api (.uuid false)).registry .own
        (withKey names (key (.uuid false)) (.uuid ⟨1⟩)) uuids).1 = .ok [shown "b"] ∧
      ((insertMany (api (.uuid false)) .own (entry (.uuid false)) (.ok asked)
        (values (.uuid ⟨2⟩) (.uuid ⟨1⟩))).run.run { storage := {} }).1 =
        .ok (.list [shown "b", shown "a"]) := by
  refine ⟨insert_uuids, fetch_alone rfl rfl rfl rfl (by decide +kernel),
    fetch_alone rfl rfl rfl rfl (by decide +kernel), ?_⟩
  rw [insertMany, if_neg (by decide), Step.run_bind, Step.run_ofAttempt,
    payloadsOf_values (readValue_uuid _) (readValue_uuid _)]
  dsimp only
  rw [Step.run_bind, Step.run_store, insert_uuids]
  exact (selectByKeys_eq_ok (by simp) rfl rfl (plan_asked _) fetch_both arranged_both).trans rfl

end Journal
end RelGraph.Operations
