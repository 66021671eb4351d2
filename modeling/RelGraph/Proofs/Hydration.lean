import RelGraph.Hydration
import RelGraph.Proofs.Plan.Planned
import RelGraph.Proofs.Schema.Registry
/-!
Rows as callers see them, read field by field: under the key of a relation stands what the relation
shows, under the name of a column what the column shows.
-/
namespace RelGraph.Hydration

open Outcome

/-- The member of a fetched row, turned into what a column shows. -/
def shownColumn (t : Table) (ms : Members Value) (name : String) : Attempt Value := do
  let c ← t.column name
  match Conversion.showValue c ((Members.get? ms name).getD .null) with
  | .ok v => pure v
  | .error m => Attempt.mishap m

/-- The member of a fetched row, turned into what a relation shows. -/
def shownRelation (r : Registry) (ms : Members Value) (kv : String × Node) : Attempt Value := do
  relationValue r kv.2 (← decode ((Members.get? ms kv.1).getD .null))

theorem columns_eq_mapM (t : Table) (ms : Members Value) (names : List String) :
    columns t (.object ms) names = names.mapM fun name => do
      return (name, ← shownColumn t ms name) := by
  induction names with
  | nil => rfl
  | cons name rest ih =>
    rw [columns, ih, List.mapM_cons]
    simp only [shownColumn, bind_assoc, pure_bind]
    refine congrArg (t.column name >>= ·) (funext fun c => ?_)
    rw [show Shape.members "get" (.object ms) = pure ms from rfl, pure_bind]
    cases Conversion.showValue c ((Members.get? ms name).getD .null) with
    | ok v => rfl
    | error m => rfl

theorem relationValues_eq_mapM (r : Registry) (ms : Members Value)
    (relations : List (String × Node)) :
    relationValues r relations (.object ms) = relations.mapM fun kv => do
      return (kv.1, ← shownRelation r ms kv) := by
  induction relations with
  | nil =>
    rw [relationValues]
    rfl
  | cons kv rest ih =>
    rw [relationValues, ih, List.mapM_cons]
    simp only [shownRelation, bind_assoc, pure_bind]
    rfl

/-- Two plans ask for the same of each row. -/
structure AsksSame (n m : Node) : Prop where
  table : m.table = n.table
  columns : m.columns = n.columns
  relations : m.relations = n.relations
  truncated : m.truncated = n.truncated

theorem AsksSame.row_eq {r : Registry} {n m : Node} (h : AsksSame n m) : row r m = row r n := by
  obtain ⟨table, columns, condition, orderBy, limit, offset, relation, relations, truncated⟩ := n
  obtain ⟨table', columns', condition', orderBy', limit', offset', relation', relations',
    truncated'⟩ := m
  obtain ⟨rfl, rfl, rfl, rfl⟩ := h
  funext v
  rw [row, row]

/-- What a row as callers see it is made of. -/
theorem row_eq_ok {r : Registry} {n : Node} {ms : Members Value} {v : Value}
    (h : row r n (.object ms) = .ok v) :
    ∃ t own below, r.table? n.table = some t ∧
      (n.columns.mapM fun name => do return (name, ← shownColumn t ms name)) = .ok own ∧
      (n.relations.mapM fun kv => do return (kv.1, ← shownRelation r ms kv)) = .ok below ∧
      v = .object (Members.update (Members.update (Members.ofPairs own) below)
        (Members.mapValues emptyValue n.truncated)) := by
  obtain ⟨table, names, condition, orderBy, limit, offset, relation, relations, truncated⟩ := n
  rw [row] at h
  obtain ⟨t, ht, h⟩ := bind_eq_ok.mp h
  obtain ⟨own, hown, h⟩ := bind_eq_ok.mp h
  obtain ⟨below, hbelow, h⟩ := bind_eq_ok.mp h
  rw [columns_eq_mapM] at hown
  rw [relationValues_eq_mapM] at hbelow
  exact ⟨t, own, below, Registry.table_eq_ok.mp ht, hown, hbelow, (pure_eq_ok.mp h).symm⟩

/-- A row as callers see it is made of its parts. -/
theorem row_of_parts {r : Registry} {n : Node} {ms : Members Value} {t : Table}
    {own below : Members Value} (ht : r.table? n.table = some t)
    (hown : (n.columns.mapM fun name => do return (name, ← shownColumn t ms name)) = .ok own)
    (hbelow : (n.relations.mapM fun kv => do return (kv.1, ← shownRelation r ms kv)) = .ok below) :
    row r n (.object ms) = .ok (.object (Members.update (Members.update (Members.ofPairs own) below)
      (Members.mapValues emptyValue n.truncated))) := by
  obtain ⟨table, names, condition, orderBy, limit, offset, relation, relations, truncated⟩ := n
  rw [row, Registry.table_eq_ok.mpr ht]
  dsimp only [bind, Except.bind]
  rw [columns_eq_mapM, hown]
  dsimp only
  rw [relationValues_eq_mapM, hbelow]
  rfl

/-- Where nothing is asked of a row it does not matter what was fetched. -/
theorem row_of_unasked {r : Registry} {n : Node} (h : n.columns = [] ∧ n.relations = [])
    (fetched fetched' : Value) : row r n fetched = row r n fetched' := by
  obtain ⟨table, columns, condition, orderBy, limit, offset, relation, relations, truncated⟩ := n
  obtain ⟨rfl, rfl⟩ := h
  rw [row, row, relationValues, relationValues]
  rfl

/-- Anything can be asked of rows with members only. -/
theorem isObject_or_unasked {r : Registry} {n : Node} {fetched v : Value}
    (h : row r n fetched = .ok v) :
    (∃ ms, fetched = .object ms) ∨ n.columns = [] ∧ n.relations = [] := by
  have hmembers : ∀ ms, Shape.members "get" fetched = .ok ms → fetched = .object ms := by
    intro ms hms
    cases fetched with
    | object ms' => rw [Except.ok.inj hms]
    | _ => cases hms
  obtain ⟨table, names, condition, orderBy, limit, offset, relation, relations, truncated⟩ := n
  rw [row] at h
  obtain ⟨t, -, h⟩ := bind_eq_ok.mp h
  obtain ⟨own, hown, h⟩ := bind_eq_ok.mp h
  obtain ⟨below, hbelow, -⟩ := bind_eq_ok.mp h
  cases names with
  | cons name rest =>
    obtain ⟨c, -, hown⟩ := bind_eq_ok.mp hown
    obtain ⟨ms, hms, -⟩ := bind_eq_ok.mp hown
    exact .inl ⟨ms, hmembers ms hms⟩
  | nil =>
    cases relations with
    | nil => exact .inr ⟨rfl, rfl⟩
    | cons kv rest =>
      rw [relationValues] at hbelow
      obtain ⟨ms, hms, -⟩ := bind_eq_ok.mp hbelow
      exact .inl ⟨ms, hmembers ms hms⟩

/-- A row is made of members that were fetched. -/
theorem row_of_object {r : Registry} {n : Node} {fetched v : Value}
    (h : row r n fetched = .ok v) : ∃ ms, row r n (.object ms) = .ok v := by
  rcases isObject_or_unasked h with ⟨ms, rfl⟩ | hnone
  · exact ⟨ms, h⟩
  · exact ⟨[], by rw [← h, row_of_unasked hnone]⟩

/-- A row has exactly the fields that a plan asks for. -/
def HasFields (n : Node) (v : Value) : Prop :=
  ∃ ms, v = .object ms ∧ ∀ name, name ∈ Members.names ms ↔ name ∈ n.columns ∨
    name ∈ Members.names n.relations ∨ name ∈ Members.names n.truncated

theorem hasFields_of_row {r : Registry} {n : Node} {ms : Members Value} {v : Value}
    (h : row r n (.object ms) = .ok v) : HasFields n v := by
  obtain ⟨t, own, below, -, hown, hbelow, rfl⟩ := row_eq_ok h
  refine ⟨_, rfl, fun name => ?_⟩
  have hcolumns : Members.names own = n.columns := by simpa using (mapM_named_eq_ok hown).1
  have hrelations : Members.names below = Members.names n.relations := (mapM_named_eq_ok hbelow).1
  rw [Members.mem_names_update, Members.mem_names_update, Members.ofPairs, Members.mem_names_update,
    hcolumns, hrelations, Members.names_mapValues, or_assoc]
  simp [Members.names]

/-- Under the key of a relation a row shows the relation. -/
theorem field_relation {r : Registry} {n : Node} {ms : Members Value} {v : Value}
    (hn : n.Planned) (h : row r n (.object ms) = .ok v) {key : String} {child : Node}
    (hkey : (key, child) ∈ n.relations) : shownRelation r ms (key, child) = .ok (v.field key) := by
  obtain ⟨t, own, below, -, -, hbelow, rfl⟩ := row_eq_ok h
  obtain ⟨hnames, hthere, -⟩ := mapM_named_eq_ok hbelow
  obtain ⟨w, hw, hmem⟩ := hthere _ hkey
  have hfound : Members.get? (Members.update (Members.ofPairs own) below) key = some w :=
    Members.get?_update_of_mem (by rw [hnames]; exact hn.keys) hmem
  rw [hw, hn.cut (List.ne_nil_of_mem hkey), Members.mapValues, List.map_nil, Members.update_nil,
    Value.field, hfound]
  rfl

/-- Under the name of a column a row shows the column, unless a relation goes by that name. -/
theorem field_column {r : Registry} {n : Node} {ms : Members Value} {v : Value}
    (h : row r n (.object ms) = .ok v) {name : String} (hname : name ∈ n.columns)
    (hrelations : name ∉ Members.names n.relations)
    (htruncated : name ∉ Members.names n.truncated) :
    ∃ t, r.table? n.table = some t ∧ shownColumn t ms name = .ok (v.field name) := by
  obtain ⟨t, own, below, ht, hown, hbelow, rfl⟩ := row_eq_ok h
  obtain ⟨hnames, -, -⟩ := mapM_named_eq_ok hbelow
  obtain ⟨-, hthere, hback⟩ := mapM_named_eq_ok hown
  obtain ⟨x, hx, hmem⟩ := hthere name hname
  refine ⟨t, ht, ?_⟩
  -- Relations and what was cut off are written over the columns, but not under this name.
  rw [hx, Value.field,
    Members.get?_update_of_not_mem (by rw [Members.names_mapValues]; exact htruncated),
    Members.get?_update_of_not_mem (by rw [hnames]; exact hrelations), Members.ofPairs,
    Members.get?_update_of_forall (v := x) (Members.mem_names_of_mem hmem) ?_]
  · rfl
  · intro y hy
    obtain ⟨name', -, rfl, hfound⟩ := hback _ hy
    rw [hx] at hfound
    exact (Except.ok.inj hfound).symm

/-- Under the key of a relation that was cut off a row shows nothing. -/
theorem field_truncated {r : Registry} {n : Node} {ms : Members Value} {v : Value}
    (h : row r n (.object ms) = .ok v) {key : String} {rel : Relation}
    (hnames : (Members.names n.truncated).Nodup) (hkey : Members.get? n.truncated key = some rel) :
    v.field key = emptyValue rel := by
  obtain ⟨t, own, below, -, -, -, rfl⟩ := row_eq_ok h
  have hmem : (key, emptyValue rel) ∈ Members.mapValues emptyValue n.truncated :=
    List.mem_map.mpr ⟨(key, rel), Members.mem_of_get? hkey, rfl⟩
  rw [Value.field, Members.get?_update_of_mem (by rwa [Members.names_mapValues]) hmem,
    Option.getD_some]

/-- A row is an object. -/
theorem isObject_of_row {r : Registry} {n : Node} {ms : Members Value} {v : Value}
    (h : row r n (.object ms) = .ok v) : ∃ shown, v = .object shown := by
  obtain ⟨t, own, below, -, -, -, rfl⟩ := row_eq_ok h
  exact ⟨_, rfl⟩

theorem relationValue_list {r : Registry} {child : Node} {rel : Relation} (items : List Value)
    (hrel : child.relation = some rel) (hmany : rel.toMany = true) :
    relationValue r child (.list items) =
      items.mapM (row r child) >>= fun rows => pure (.list rows) := by
  rw [relationValue, hrel, Option.map_some, Option.getD_some, hmany, if_pos rfl]
  cases items with
  | nil => rfl
  | cons item rest => rfl

/-- A relation to many rows shows each of the rows that it holds. -/
theorem relationValue_toMany {r : Registry} {child : Node} {rel : Relation} {items : List Value}
    {v : Value} (hrel : child.relation = some rel) (hmany : rel.toMany = true)
    (h : relationValue r child (.list items) = .ok v) :
    ∃ rows, v = .list rows ∧ items.mapM (row r child) = .ok rows := by
  rw [relationValue_list items hrel hmany] at h
  obtain ⟨rows, hrows, h⟩ := bind_eq_ok.mp h
  exact ⟨rows, (pure_eq_ok.mp h).symm, hrows⟩

/-- A relation to many rows shows a list whatever it holds. -/
theorem isList_of_relationValue {r : Registry} {child : Node} {rel : Relation} {payload v : Value}
    (hrel : child.relation = some rel) (hmany : rel.toMany = true)
    (h : relationValue r child payload = .ok v) : ∃ rows, v = .list rows := by
  rw [relationValue, hrel, Option.map_some, Option.getD_some, hmany, if_pos rfl] at h
  obtain ⟨items, h⟩ : ∃ items : List Value,
      (items.mapM (row r child) >>= fun rows => pure (.list rows)) = (.ok v : Attempt Value) := by
    split at h
    · obtain ⟨items, -, h⟩ := bind_eq_ok.mp h
      exact ⟨items, h⟩
    · exact ⟨[], h⟩
  obtain ⟨rows, -, h⟩ := bind_eq_ok.mp h
  exact ⟨rows, (pure_eq_ok.mp h).symm⟩

/-- What a relation shows is what callers read under its response key. -/
theorem readRelation_of_shown {r : Registry} {t : Table} {child : Node} {rel : Relation}
    {payload v : Value} {key : String} (hrel : child.relation = some rel)
    (h : relationValue r child payload = .ok (v.field (Plan.relationKey t key))) :
    readRelation t rel key v = v.field (Plan.relationKey t key) := by
  rw [readRelation]
  generalize v.field (Plan.relationKey t key) = shown at h
  cases hmany : rel.toMany with
  | true =>
    obtain ⟨rows, rfl⟩ := isList_of_relationValue hrel hmany h
    rfl
  | false =>
    rw [emptyValue, hmany]
    cases shown <;> rfl

/-- A relation to one row shows it where it holds anything, and null otherwise. -/
theorem relationValue_toOne {r : Registry} {child : Node} {rel : Relation} {payload v : Value}
    (hrel : child.relation = some rel) (hone : rel.toMany = false)
    (h : relationValue r child payload = .ok v) :
    if payload.truthy then row r child payload = .ok v else v = .null := by
  rw [relationValue, hrel, Option.map_some, Option.getD_some, hone, if_neg (by decide)] at h
  split at h
  · rename_i htruthy
    rw [if_pos htruthy]
    exact h
  · rename_i htruthy
    rw [if_neg htruthy]
    exact (Except.ok.inj h).symm

end RelGraph.Hydration
