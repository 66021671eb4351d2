import RelGraph.Proofs.Exports.Levels
import RelGraph.Proofs.Operations.Reselection
/-!
The rows that operations give. What a read, a deletion or a write gives are rows as callers see them
for the fields that were asked for. Written rows are selected again with the column that they are
known by, which is taken away where it was not asked for; a relation that goes by the name of that
column is then taken away with it.
-/
namespace RelGraph.Operations

open Outcome Plan
open Exports (rowsIn rowsOfAll mem_rowsOfAll)
open Hydration (AsksSame Shown)
open Store (Access Storage)

theorem Step.bind_eq_ok {α β : Type} {x : Step α} {g : α → Step β} {s : State} {b : β}
    (h : ((x >>= g).run.run s).1 = .ok b) :
    ∃ a mid, x.run.run s = (.ok a, mid) ∧ ((g a).run.run mid).1 = .ok b := by
  rw [Step.run_bind] at h
  split at h
  · rename_i a mid hx
    exact ⟨a, mid, hx, h⟩
  · cases h

theorem Step.ofAttempt_bind_eq_ok {α β : Type} {a : Attempt α} {g : α → Step β} {s : State} {b : β}
    (h : ((ofAttempt a >>= g).run.run s).1 = .ok b) : ∃ x, a = .ok x ∧
      ((g x).run.run s).1 = .ok b := by
  obtain ⟨x, mid, hx, h⟩ := Step.bind_eq_ok h
  obtain ⟨rfl, rfl⟩ := Prod.mk.inj hx
  exact ⟨x, rfl, h⟩

/-! ## Rows of a plan -/

section Plans

variable {r : Registry} {maxDepth depth : Nat} {t : Table} {args ms row : Members Value}
  {relation : Option Relation} {fields : List (String × Selection)} {n m : Node} {key : String}
  {fetched rows : List Value} {v : Value}

/-- A row among those that a plan shows is shown by it. -/
theorem row_of_mem_rows (h : Hydration.rows r n fetched = .ok rows) (hrow : row ∈ rowsOfAll rows) :
    ∃ ms, Hydration.row r n (.object ms) = .ok (.object row) := by
  obtain ⟨w, hw, hrow⟩ := mem_rowsOfAll.mp hrow
  obtain ⟨item, -, hitem⟩ := exists_of_mem_mapM h hw
  obtain ⟨ms, hms⟩ := Hydration.row_of_object hitem
  obtain ⟨shown, rfl⟩ := Hydration.isObject_of_row hms
  obtain rfl := List.mem_singleton.mp hrow
  exact ⟨ms, hms⟩

/-- Without a column that a plan has besides, a row is what the plan shows without the column. -/
theorem row_without (hcolumn : key ∉ n.columns) (hrelations : key ∉ Members.names n.relations)
    (htruncated : key ∉ Members.names n.truncated)
    (h : Hydration.row r (addColumn n key) (.object ms) = .ok v) :
    Hydration.row r n (.object ms) = .ok (without key v) := by
  have hmore : addColumn n key = { n with columns := n.columns ++ [key] } := by
    rw [addColumn, if_neg (by simpa using hcolumn)]
  rw [hmore] at h
  obtain ⟨t, own, below, ht, hown, hbelow, rfl⟩ := Hydration.row_eq_ok h
  rw [List.mapM_append] at hown
  obtain ⟨before, hbefore, hown⟩ := bind_eq_ok.mp hown
  obtain ⟨last, hlast, hown⟩ := bind_eq_ok.mp hown
  obtain rfl := pure_eq_ok.mp hown
  obtain ⟨w, rfl⟩ : ∃ w, last = [(key, w)] := by
    rw [List.mapM_cons] at hlast
    obtain ⟨kv, hkv, hlast⟩ := bind_eq_ok.mp hlast
    obtain ⟨w, -, hkv⟩ := bind_eq_ok.mp hkv
    obtain rfl := pure_eq_ok.mp hkv
    exact ⟨w, (Except.ok.inj hlast).symm⟩
  have hnames : Members.names before = n.columns := by
    simpa using (mapM_named_eq_ok hbefore).1
  have hbelowNames : key ∉ Members.names below := by
    rw [(mapM_named_eq_ok hbelow).1]
    exact hrelations
  have hfresh : key ∉ Members.names before := by rwa [hnames]
  rw [Hydration.row_of_parts (n := n) ht hbefore hbelow, without,
    Members.erase_update (by rw [Members.names_mapValues]; exact htruncated),
    Members.erase_update hbelowNames, Members.erase_ofPairs_append hfresh]

theorem ofFields_of_plan {asked : Selection} (ht : r.table? t.name = some t)
    (h : (ofSelection r maxDepth t.name asked args).1 = .ok n) :
    ofFields r maxDepth 0 t args none asked.fields = .ok n := by
  rwa [ofSelection_fst, Registry.table_eq_ok.mpr ht] at h

/-- Rows of a plan that asks for what fields ask for are shown for the fields. -/
theorem shown_of_rows (h : ofFields r maxDepth depth t args relation fields = .ok n)
    (hsame : AsksSame n m) (hrows : Hydration.rows r m fetched = .ok rows)
    (hrow : row ∈ rowsOfAll rows) : Shown r maxDepth t fields row := by
  obtain ⟨ms, hms⟩ := row_of_mem_rows hrows hrow
  rw [hsame.row_eq] at hms
  exact ⟨depth, args, relation, n, ms, h, n, List.mem_cons_self, hms⟩

end Plans

/-! ## Results -/

section Results

variable {api : Api} {access : Access} {t : Table} {op : Naming.Operation} {s : Attempt Selection}
  {asked : Selection} {args row : Members Value} {keys rows : List Value} {state : State}
  {v : Value}

/-- The column by which written rows are selected again is not asked for, and a relation that is
asked for goes by its name. -/
def LosesRelation (t : Table) (fields : List (String × Selection)) : Prop :=
  ∃ key, t.rowKey = some key ∧ key ∉ columnNames t fields ∧ key ∈ rowKeys t fields

/-- Whether an operation selects rows again that it has written. -/
def selectsAgain : Naming.Operation → Bool
  | .insertMany | .updateMany => true
  | _ => false

/-- The rows that a plan fetches are shown for the fields that it was made for. -/
theorem shown_of_fetch {n m : Node} (hplan : ofFields api.registry api.config.maxDepth 0 t args none
      asked.fields = .ok n) (hsame : AsksSame n m)
    (h : (Storage.fetch api.registry access m state.storage).1 = .ok rows)
    (hrow : row ∈ rowsOfAll rows) : Shown api.registry api.config.maxDepth t asked.fields row := by
  obtain ⟨_, fetched, -, -, hrows⟩ := Storage.fetch_eq_ok h
  exact shown_of_rows hplan hsame hrows hrow

/-- The plan of a read asks for what the selection asks for. -/
theorem asksSame_of_planRead {read : Read} (ht : api.registry.table? t.name = some t)
    (h : ((planRead api t op asked args).run.run state).1 = .ok read) :
    ∃ n, ofFields api.registry api.config.maxDepth 0 t args none asked.fields = .ok n ∧
      AsksSame n read.node := by
  obtain ⟨n, mid, hn, h⟩ := Step.bind_eq_ok h
  obtain ⟨hplan, -⟩ := Prod.mk.inj hn
  refine ⟨n, ofFields_of_plan ht hplan, ?_⟩
  obtain rfl := Except.ok.inj h
  split <;> exact ⟨rfl, rfl, rfl, rfl⟩

/-- A read gives rows that are shown for what it asks for. -/
theorem shown_of_runRead {read : Read} {n : Node}
    (hplan : ofFields api.registry api.config.maxDepth 0 t args none asked.fields = .ok n)
    (hsame : AsksSame n read.node) (h : ((runRead api access read).run.run state).1 = .ok v)
    (hrow : row ∈ rowsIn v) : Shown api.registry api.config.maxDepth t asked.fields row := by
  obtain ⟨rows, mid, hrows, h⟩ := Step.bind_eq_ok h
  obtain ⟨hfetch, -⟩ := Prod.mk.inj hrows
  obtain rfl := Except.ok.inj h
  refine shown_of_fetch hplan hsame hfetch ?_
  split at hrow
  · cases rows with
    | nil => cases hrow
    | cons first rest => exact mem_rowsOfAll.mpr ⟨first, List.mem_cons_self, hrow⟩
  · exact hrow

/-- Putting rows in order leaves them the same rows. -/
theorem arranged_perm {key : String} {out : List Value} (h : arranged key keys rows = .ok out) : out.Perm rows := by
  obtain ⟨_, -, h⟩ := bind_eq_ok.mp h
  obtain ⟨placed, hplaced, h⟩ := bind_eq_ok.mp h
  obtain rfl := pure_eq_ok.mp h
  have hrows : rows = placed.map Prod.snd := by
    have hpairs : List.Forall₂ (fun (v : Value) (p : Nat × Value) => p.2 = id v) rows placed :=
      (mapM_eq_ok.mp hplaced).imp fun v p hp => by
        obtain ⟨_, -, hp⟩ := bind_eq_ok.mp hp
        obtain rfl := pure_eq_ok.mp hp
        rfl
    simpa using map_eq_of_forall₂ hpairs
  rw [hrows]
  exact (List.mergeSort_perm _ _).map Prod.snd

/-- The plan by keys asks for what the selection asks for, and for the key besides. -/
theorem planByKeys_eq_ok {key : String} {n' : Node} {askedFor : Bool}
    (ht : api.registry.table? t.name = some t)
    (h : ((planByKeys api t key s keys).run.run state).1 = .ok (n', askedFor)) :
    ∃ asked n m, s = .ok asked ∧
      ofFields api.registry api.config.maxDepth 0 t [] none asked.fields = .ok n ∧
      AsksSame n m ∧ n' = addColumn m key ∧ askedFor = n.columns.contains key := by
  obtain ⟨asked, hs, hplanned⟩ := Step.ofAttempt_bind_eq_ok h
  obtain ⟨n, _, hn, hplanned⟩ := Step.bind_eq_ok hplanned
  obtain ⟨hplan, -⟩ := Prod.mk.inj hn
  obtain ⟨rfl, rfl⟩ := Prod.mk.inj (Except.ok.inj hplanned)
  let chosen := Predicate.compare key .inArray (.tuple keys)
  exact ⟨asked, n, { n with condition := Predicate.conjoin [n.condition, some chosen] }, hs,
    ofFields_of_plan ht hplan, ⟨rfl, rfl, rfl, rfl⟩, rfl, rfl⟩

/-- Selecting written rows again gives rows that are shown for what is asked for, unless a relation
is taken away with their key. -/
theorem shown_of_selectByKeys (ht : api.registry.table? t.name = some t)
    (h : ((selectByKeys api access t s keys).run.run state).1 = .ok v) (hrow : row ∈ rowsIn v) :
    ∃ asked, s = .ok asked ∧ (¬ LosesRelation t asked.fields →
      Shown api.registry api.config.maxDepth t asked.fields row) := by
  unfold selectByKeys at h
  split at h
  · obtain rfl := Except.ok.inj h
    cases hrow
  · obtain rfl := Except.ok.inj h
    cases hrow
  · rename_i key _ hkey
    obtain ⟨⟨n', askedFor⟩, mid, hplanned, h⟩ := Step.bind_eq_ok h
    obtain ⟨asked, n, m, hs, hplan, hsame, rfl, rfl⟩ :=
      planByKeys_eq_ok ht (congrArg Prod.fst hplanned)
    refine ⟨asked, hs, fun hkept => ?_⟩
    obtain ⟨rows, _, hrows, h⟩ := Step.bind_eq_ok h
    obtain ⟨hfetch, -⟩ := Prod.mk.inj hrows
    obtain ⟨out, harranged, h⟩ := Step.ofAttempt_bind_eq_ok h
    obtain rfl := Except.ok.inj h
    obtain ⟨_, fetched, -, -, hshown⟩ := Storage.fetch_eq_ok hfetch
    -- Every row that is left was fetched, and the column that was added has been taken away again.
    split at hrow
    · rename_i hcontained
      obtain ⟨w, hw, hrow⟩ := mem_rowsOfAll.mp hrow
      have hmore : AsksSame n (addColumn m key) := by
        rw [addColumn, hsame.columns, if_pos hcontained]
        exact hsame
      exact shown_of_rows hplan hmore hshown
        (mem_rowsOfAll.mpr ⟨w, (arranged_perm harranged).mem_iff.mp hw, hrow⟩)
    · rename_i hnew
      have hcolumn : key ∉ n.columns := by simpa using hnew
      have hrelation : key ∉ rowKeys t asked.fields := by
        intro hmem
        exact hkept ⟨key, hkey, mt (mem_columns_ofFields hplan).mpr hcolumn, hmem⟩
      obtain ⟨hrelations, htruncated⟩ := not_or.mp (mt (mem_keys_ofFields hplan).mp hrelation)
      obtain ⟨w, hw, hrow⟩ := mem_rowsOfAll.mp hrow
      obtain ⟨w', hw', rfl⟩ := List.mem_map.mp hw
      obtain ⟨item, -, hitem⟩ := exists_of_mem_mapM hshown ((arranged_perm harranged).mem_iff.mp hw')
      obtain ⟨ms, hms⟩ := Hydration.row_of_object hitem
      have hless : Hydration.row api.registry m (.object ms) = .ok (without key w') :=
        row_without (by rwa [hsame.columns]) (by rwa [hsame.relations])
          (by rwa [hsame.truncated]) hms
      obtain ⟨shown, hshown'⟩ := Hydration.isObject_of_row hless
      rw [hshown'] at hrow hless
      obtain rfl := List.mem_singleton.mp hrow
      rw [hsame.row_eq] at hless
      exact ⟨0, [], none, n, ms, hplan, n, List.mem_cons_self, hless⟩

/-- A deletion gives rows that are shown for what is asked for, with their relations cut off. -/
theorem shown_of_deleteMany (ht : api.registry.table? t.name = some t)
    (h : ((deleteMany api access t s args).run.run state).1 = .ok v) (hrow : row ∈ rowsIn v) :
    ∃ asked, s = .ok asked ∧ Shown api.registry api.config.maxDepth t asked.fields row := by
  obtain ⟨asked, hs, hrun⟩ := Step.ofAttempt_bind_eq_ok h
  obtain ⟨n, mid, hn, hrun⟩ := Step.bind_eq_ok hrun
  obtain ⟨hplan, -⟩ := Prod.mk.inj hn
  obtain ⟨rows, _, hrows, hrun⟩ := Step.bind_eq_ok hrun
  have hdeleted : (Storage.delete api.registry t access n.withoutRelations mid.storage).1 =
      .ok rows := congrArg Prod.fst hrows
  obtain rfl := Except.ok.inj hrun
  rw [Storage.delete_fst] at hdeleted
  obtain ⟨fetched, -, hshown⟩ := bind_eq_ok.mp hdeleted
  obtain ⟨ms, hms⟩ := row_of_mem_rows hshown hrow
  exact ⟨asked, hs, 0, _, none, n, ms, ofFields_of_plan ht hplan, _,
    List.mem_cons_of_mem _ List.mem_cons_self, hms⟩

/-- What an operation gives are rows that are shown for what is asked for, unless they were written
and a relation is taken away with their key. -/
theorem shown_of_run (ht : api.registry.table? t.name = some t)
    (h : ((run api access t op s args).run.run state).1 = .ok v) (hrow : row ∈ rowsIn v) :
    ∃ asked, s = .ok asked ∧ ((selectsAgain op = true → ¬ LosesRelation t asked.fields) →
      Shown api.registry api.config.maxDepth t asked.fields row) := by
  cases op with
  | findMany | findFirst =>
    obtain ⟨asked, hs, hrun⟩ := Step.ofAttempt_bind_eq_ok h
    obtain ⟨read, mid, hread, hrun⟩ := Step.bind_eq_ok hrun
    obtain ⟨n, hplan, hsame⟩ := asksSame_of_planRead ht (congrArg Prod.fst hread)
    exact ⟨asked, hs, fun _ => shown_of_runRead hplan hsame hrun hrow⟩
  | insertMany =>
    rw [run, insertMany] at h
    split at h
    · cases h
    · obtain ⟨rows, -, hrun⟩ := Step.ofAttempt_bind_eq_ok h
      obtain ⟨keys, mid, -, hrun⟩ := Step.bind_eq_ok hrun
      obtain ⟨asked, hs, hshown⟩ := shown_of_selectByKeys ht hrun hrow
      exact ⟨asked, hs, fun hkept => hshown (hkept rfl)⟩
  | updateMany =>
    rw [run, updateMany] at h
    split at h
    · cases h
    · obtain ⟨values, -, hrun⟩ := Step.ofAttempt_bind_eq_ok h
      obtain ⟨condition, -, hrun⟩ := Step.ofAttempt_bind_eq_ok hrun
      obtain ⟨keys, mid, -, hrun⟩ := Step.bind_eq_ok hrun
      obtain ⟨asked, hs, hshown⟩ := shown_of_selectByKeys ht hrun hrow
      exact ⟨asked, hs, fun hkept => hshown (hkept rfl)⟩
  | deleteMany =>
    obtain ⟨asked, hs, hshown⟩ := shown_of_deleteMany ht h hrow
    exact ⟨asked, hs, fun _ => hshown⟩

end Results

end RelGraph.Operations
