import RelGraph.Proofs.Exports.Levels
import RelGraph.Proofs.Plan.Levels
/-!
The shape of rows as callers see them, down through all relations. Whatever was fetched, a row that
is shown at all is an object with exactly the fields of its plan: a list of such rows under a
relation to many, null or one such row under a relation to one, and the empty value where a relation
was cut off. A row is shown exactly when everything that its plan asks for can be read.
-/
namespace RelGraph.Hydration

open Outcome

variable {r : Registry} {n child : Node} {fetched payload v : Value} {rel : Relation}

/-! ## The shape of a plan -/

mutual

/-- A row has the shape of a plan: the fields are those of the plan, each under its name once. -/
inductive Shaped : Node → Value → Prop
  | object {n : Node} {ms : Members Value}
      (apart : (Members.names ms).Nodup)
      (fields : ∀ name, name ∈ Members.names ms ↔ name ∈ n.columns ∨
        name ∈ Members.names n.relations ∨ name ∈ Members.names n.truncated)
      (relations : ∀ kv ∈ n.relations, ShapedBelow kv.2 ((Value.object ms).field kv.1))
      (truncated : ∀ kv ∈ n.truncated,
        (Value.object ms).field kv.1 = if kv.2.toMany then .list [] else .null) :
      Shaped n (.object ms)

/-- What a row has for a relation has the shape of the plan below it: a list of rows for many, and
null or a row for one. -/
inductive ShapedBelow : Node → Value → Prop
  | many {child : Node} {rel : Relation} {items : List Value}
      (relation : child.relation = some rel) (toMany : rel.toMany = true)
      (shaped : ∀ item ∈ items, Shaped child item) : ShapedBelow child (.list items)
  | none {child : Node} {rel : Relation} (relation : child.relation = some rel)
      (toOne : rel.toMany = false) : ShapedBelow child .null
  | one {child : Node} {rel : Relation} {item : Value} (relation : child.relation = some rel)
      (toOne : rel.toMany = false) (shaped : Shaped child item) : ShapedBelow child item

end

/-! ## What a relation holds -/

/-- The rows that a payload holds for a relation. -/
def heldRows (child : Node) (payload : Value) : Attempt (List Value) :=
  if !payload.truthy then .ok []
  else if (child.relation.map (·.toMany)).getD true then Shape.parts payload
  else .ok [payload]

/-- What a relation shows for the rows that it holds. -/
def shownRows (child : Node) (items : List Value) : Value :=
  if (child.relation.map (·.toMany)).getD true then .list items else items.head?.getD .null

/-- A relation shows the rows that it holds, each as a row of the plan below it. -/
theorem relationValue_eq : relationValue r child payload = do
    let items ← heldRows child payload
    return shownRows child (← items.mapM (row r child)) := by
  rw [relationValue, heldRows]
  unfold shownRows
  cases htruthy : payload.truthy <;> cases hmany : (child.relation.map (·.toMany)).getD true
  · rfl
  · rfl
  · show row r child payload = ([payload].mapM (row r child) >>= fun items => _)
    rw [List.mapM_cons]
    cases row r child payload <;> rfl
  · rfl

theorem exists_relationValue_iff : (∃ v, relationValue r child payload = .ok v) ↔
    ∃ items, heldRows child payload = .ok items ∧
      ∀ item ∈ items, ∃ v, row r child item = .ok v := by
  rw [relationValue_eq]
  simp only [bind_eq_ok, pure_eq_ok]
  constructor
  · rintro ⟨_, items, hitems, shown, hshown, -⟩
    exact ⟨items, hitems, exists_mapM_eq_ok.mp ⟨shown, hshown⟩⟩
  · rintro ⟨items, hitems, hrows⟩
    obtain ⟨shown, hshown⟩ := exists_mapM_eq_ok.mpr hrows
    exact ⟨_, items, hitems, shown, hshown, rfl⟩

/-- What a relation shows has the shape of the plan below it where its rows have. -/
theorem shapedBelow_of_relationValue (hrel : child.relation = some rel)
    (hrows : ∀ item w, row r child item = .ok w → Shaped child w)
    (h : relationValue r child payload = .ok v) : ShapedBelow child v := by
  rw [relationValue_eq] at h
  obtain ⟨items, -, h⟩ := bind_eq_ok.mp h
  obtain ⟨shown, hshown, h⟩ := bind_eq_ok.mp h
  obtain rfl := pure_eq_ok.mp h
  have hshaped : ∀ w ∈ shown, Shaped child w := by
    intro w hw
    obtain ⟨item, -, hitem⟩ := exists_of_mem_mapM hshown hw
    exact hrows item w hitem
  rw [shownRows, hrel, Option.map_some, Option.getD_some]
  cases hmany : rel.toMany with
  | true => exact .many hrel hmany hshaped
  | false =>
    cases shown with
    | nil => exact .none hrel hmany
    | cons first rest => exact .one hrel hmany (hshaped first List.mem_cons_self)

/-! ## Rows that can be shown -/

/-- A fetched row can be shown: it has members, unless nothing is asked of it; the columns asked for
are there, with values that can be shown; and what it has for a relation is made of rows that can
be shown. -/
inductive Legible (r : Registry) : Node → Value → Prop
  | intro {n : Node} {fetched : Value} (t : Table) (ms : Members Value)
      (table : r.table? n.table = some t)
      (members : fetched = .object ms ∨ n.columns = [] ∧ n.relations = [])
      (columns : ∀ name ∈ n.columns, ∃ c v, t.column? name = some c ∧
        Conversion.showValue c ((Members.get? ms name).getD .null) = .ok v)
      (payloads : ∀ kv ∈ n.relations, ∃ payload items,
        decode ((Members.get? ms kv.1).getD .null) = .ok payload ∧
          heldRows kv.2 payload = .ok items)
      (below : ∀ kv ∈ n.relations, ∀ payload items,
        decode ((Members.get? ms kv.1).getD .null) = .ok payload →
          heldRows kv.2 payload = .ok items → ∀ item ∈ items, Legible r kv.2 item) :
      Legible r n fetched

theorem exists_shownColumn_iff {t : Table} {ms : Members Value} {name : String} :
    (∃ v, shownColumn t ms name = .ok v) ↔ ∃ c v, t.column? name = some c ∧
      Conversion.showValue c ((Members.get? ms name).getD .null) = .ok v := by
  simp only [shownColumn, bind_eq_ok, Table.column_eq_ok]
  constructor
  · rintro ⟨v, c, hc, h⟩
    split at h
    · rename_i w hw
      exact ⟨c, w, hc, hw⟩
    · cases h
  · rintro ⟨c, v, hc, hv⟩
    exact ⟨v, c, hc, by rw [hv]; rfl⟩

theorem exists_row_iff {ms : Members Value} : (∃ v, row r n (.object ms) = .ok v) ↔
    ∃ t, r.table? n.table = some t ∧ (∀ name ∈ n.columns, ∃ v, shownColumn t ms name = .ok v) ∧
      ∀ kv ∈ n.relations, ∃ v, shownRelation r ms kv = .ok v := by
  constructor
  · rintro ⟨v, h⟩
    obtain ⟨t, own, below, ht, hown, hbelow, -⟩ := row_eq_ok h
    exact ⟨t, ht, fun name hname => ((mapM_named_eq_ok hown).2.1 name hname).imp fun _ h => h.1,
      fun kv hkv => ((mapM_named_eq_ok hbelow).2.1 kv hkv).imp fun _ h => h.1⟩
  · rintro ⟨t, ht, hcolumns, hrelations⟩
    have hown : ∀ name ∈ n.columns, ∃ kv : String × Value,
        (do return (name, ← shownColumn t ms name)) = (.ok kv : Attempt (String × Value)) := by
      intro name hname
      obtain ⟨v, hv⟩ := hcolumns name hname
      exact ⟨(name, v), by rw [hv]; rfl⟩
    have hbelow : ∀ kv ∈ n.relations, ∃ shown : String × Value,
        (do return (kv.1, ← shownRelation r ms kv)) = (.ok shown : Attempt (String × Value)) := by
      intro kv hkv
      obtain ⟨v, hv⟩ := hrelations kv hkv
      exact ⟨(kv.1, v), by rw [hv]; rfl⟩
    obtain ⟨own, hown⟩ := exists_mapM_eq_ok.mpr hown
    obtain ⟨below, hbelow⟩ := exists_mapM_eq_ok.mpr hbelow
    exact ⟨_, row_of_parts ht hown hbelow⟩

theorem exists_shownRelation_iff {ms : Members Value} {kv : String × Node} :
    (∃ v, shownRelation r ms kv = .ok v) ↔ ∃ payload items,
      decode ((Members.get? ms kv.1).getD .null) = .ok payload ∧
        heldRows kv.2 payload = .ok items ∧ ∀ item ∈ items, ∃ v, row r kv.2 item = .ok v := by
  simp only [shownRelation, bind_eq_ok]
  constructor
  · rintro ⟨v, payload, hpayload, hv⟩
    obtain ⟨items, hitems, hrows⟩ := exists_relationValue_iff.mp ⟨v, hv⟩
    exact ⟨payload, items, hpayload, hitems, hrows⟩
  · rintro ⟨payload, items, hpayload, hitems, hrows⟩
    obtain ⟨v, hv⟩ := exists_relationValue_iff.mpr ⟨items, hitems, hrows⟩
    exact ⟨v, payload, hpayload, hv⟩

/-- A row is shown exactly when it can be. -/
theorem exists_row_iff_legible (hn : n.Planned) :
    (∃ v, row r n fetched = .ok v) ↔ Legible r n fetched := by
  induction hn generalizing fetched with
  | @intro n keys cut attached below ih =>
    constructor
    · rintro ⟨v, h⟩
      obtain ⟨ms, members, h⟩ : ∃ ms, (fetched = .object ms ∨ n.columns = [] ∧ n.relations = []) ∧
          row r n (.object ms) = .ok v := by
        rcases isObject_or_unasked h with ⟨ms, rfl⟩ | hnone
        · exact ⟨ms, .inl rfl, h⟩
        · exact ⟨[], .inr hnone, by rw [← h, row_of_unasked hnone]⟩
      obtain ⟨t, table, hcolumns, hrelations⟩ := exists_row_iff.mp ⟨v, h⟩
      refine .intro t ms table members (fun name hname => ?_) (fun kv hkv => ?_)
        (fun kv hkv payload items hpayload hitems item hitem => ?_)
      · exact exists_shownColumn_iff.mp (hcolumns name hname)
      · obtain ⟨payload, items, hpayload, hitems, -⟩ :=
          exists_shownRelation_iff.mp (hrelations kv hkv)
        exact ⟨payload, items, hpayload, hitems⟩
      · obtain ⟨payload', items', hpayload', hitems', hrows⟩ :=
          exists_shownRelation_iff.mp (hrelations kv hkv)
        obtain rfl := Except.ok.inj (hpayload.symm.trans hpayload')
        obtain rfl := Except.ok.inj (hitems.symm.trans hitems')
        exact (ih kv hkv).mp (hrows item hitem)
    · rintro ⟨t, ms, table, members, columns, payloads, rows⟩
      have hrow : row r n fetched = row r n (.object ms) := by
        rcases members with rfl | hnone
        · rfl
        · exact row_of_unasked hnone _ _
      rw [hrow]
      refine exists_row_iff.mpr ⟨t, table, fun name hname => ?_, fun kv hkv => ?_⟩
      · exact exists_shownColumn_iff.mpr (columns name hname)
      · obtain ⟨payload, items, hpayload, hitems⟩ := payloads kv hkv
        refine exists_shownRelation_iff.mpr ⟨payload, items, hpayload, hitems, fun item hitem => ?_⟩
        exact (ih kv hkv).mpr (rows kv hkv payload items hpayload hitems item hitem)

/-! ## Rows of planned shape -/

theorem nodup_names_of_row {ms shown : Members Value}
    (h : row r n (.object ms) = .ok (.object shown)) : (Members.names shown).Nodup := by
  obtain ⟨t, own, below, -, -, -, hv⟩ := row_eq_ok h
  obtain rfl := Value.object.inj hv
  exact Members.nodup_names_update
    (Members.nodup_names_update (Members.nodup_names_update List.nodup_nil))

/-- A row has the shape of its plan, as long as at no level two relations are cut off under one
name. -/
theorem shaped_of_row (hn : n.Planned)
    (hcut : ∀ levels m, n.Below levels m → (Members.names m.truncated).Nodup)
    (h : row r n fetched = .ok v) : Shaped n v := by
  induction hn generalizing fetched v with
  | @intro n keys cut attached below ih =>
    obtain ⟨ms, h⟩ := row_of_object h
    obtain ⟨shown, rfl, fields⟩ := hasFields_of_row h
    refine .object (nodup_names_of_row h) fields (fun kv hkv => ?_) (fun kv hkv => ?_)
    · obtain ⟨payload, -, hvalue⟩ :=
        bind_eq_ok.mp (field_relation (.intro keys cut attached below) h hkv)
      obtain ⟨rel, hrel, -⟩ := attached kv hkv
      refine shapedBelow_of_relationValue hrel (fun item w hitem => ?_) hvalue
      exact ih kv hkv (fun levels m hm => hcut (levels + 1) m (.relation hkv hm)) hitem
    · have hnames := hcut 0 n .here
      exact field_truncated h hnames (Members.get?_of_mem hnames hkv)

theorem planned_withoutRelations : n.withoutRelations.Planned :=
  .intro List.nodup_nil (fun h => absurd rfl h) nofun nofun

/-- A relation to many is never read as null, whatever it is read from. -/
theorem readRelation_ne_null {t : Table} {key : String} {parent : Value}
    (hmany : rel.toMany = true) : readRelation t rel key parent ≠ .null := by
  rw [readRelation, emptyValue, if_pos hmany]
  cases hnull : (parent.field (Plan.relationKey t key)).isNull with
  | true => simp
  | false =>
    intro h
    rw [if_neg (by simp)] at h
    rw [h] at hnull
    cases hnull

/-- What stands under the row key of a relation has the shape of the plan below it also when it is
read by the response key. -/
theorem ShapedBelow.readRelation {t : Table} {key : String} {parent : Value}
    (hrel : child.relation = some rel)
    (h : ShapedBelow child (parent.field (Plan.relationKey t key))) :
    ShapedBelow child (Hydration.readRelation t rel key parent) := by
  rw [Hydration.readRelation]
  generalize parent.field (Plan.relationKey t key) = shown at h
  split
  · rw [emptyValue]
    cases hmany : rel.toMany with
    | true => exact .many hrel hmany (by simp)
    | false => exact .none hrel hmany
  · exact h

/-- A plan and the plan with its relations cut off ask for the same fields. -/
theorem hasFields_of_withoutRelations {m : Node} (hn : n.Planned)
    (hm : m ∈ [n, n.withoutRelations]) (h : row r m fetched = .ok v) : HasFields n v := by
  obtain ⟨ms, h⟩ := row_of_object h
  obtain ⟨shown, rfl, fields⟩ := hasFields_of_row h
  refine ⟨shown, rfl, fun name => ?_⟩
  obtain rfl | rfl := List.mem_pair.mp hm
  · exact fields name
  · rw [fields, Node.mem_names_withoutRelations hn]
    simp [Node.withoutRelations, Members.names]

/-- A fetched row is shown, with or without its relations, exactly when what it holds can be read.
It then has exactly the fields that were asked for, and the shape of its plan down through all
relations. Relations are read as what has that shape, those that were cut off as nothing, and one to
many never as null. -/
theorem shaped_of_ofSelection {maxDepth : Nat} {table : String} {s : Selection}
    {args : Members Value} {m : Node} (h : (Plan.ofSelection r maxDepth table s args).1 = .ok n)
    (hm : m ∈ [n, n.withoutRelations]) (fetched : Value) :
    ((∃ v, row r m fetched = .ok v) ↔ Legible r m fetched) ∧
    (∀ v, row r m fetched = .ok v → HasFields n v ∧ Shaped m v ∧
      (∀ kv ∈ m.relations, ∀ t rel key, kv.2.relation = some rel →
        Plan.relationKey t key = kv.1 → ShapedBelow kv.2 (readRelation t rel key v)) ∧
      ∀ kv ∈ m.truncated, ∀ t key, Plan.relationKey t key = kv.1 →
        readRelation t kv.2 key v = if kv.2.toMany then .list [] else .null) ∧
    ∀ (t : Table) (rel : Relation) (key : String) (parent : Value), rel.toMany = true →
      readRelation t rel key parent ≠ .null := by
  obtain ⟨t, -, hlevel⟩ := Plan.isLevel_of_ofSelection h
  have hplanned : m.Planned := by
    obtain rfl | rfl := List.mem_pair.mp hm
    · exact hlevel.planned
    · exact planned_withoutRelations
  have hcut : ∀ levels m', m.Below levels m' → (Members.names m'.truncated).Nodup := by
    intro levels m' hbelow
    obtain rfl | rfl := List.mem_pair.mp hm
    · obtain ⟨t', relation', hlevel'⟩ := hlevel.of_below hbelow
      exact hlevel'.nodup_truncated
    · cases hbelow with
      | here => exact Members.nodup_names_update hlevel.nodup_truncated
      | relation hchild => cases hchild
  refine ⟨exists_row_iff_legible hplanned, fun v hv => ?_, fun _ _ _ _ => readRelation_ne_null⟩
  have hshaped := shaped_of_row hplanned hcut hv
  refine ⟨hasFields_of_withoutRelations hlevel.planned hm hv, hshaped, ?_, ?_⟩
  · intro kv hkv t rel key hrel hkey
    obtain ⟨-, -, relations, -⟩ := hshaped
    exact ShapedBelow.readRelation hrel (hkey ▸ relations kv hkv)
  · intro kv hkv t key hkey
    obtain ⟨-, -, -, truncated⟩ := hshaped
    rw [readRelation, hkey, truncated kv hkv, emptyValue]
    cases kv.2.toMany <;> rfl

/-! ## A folder with the folders in it -/

namespace Folders

open Plan.Folders

/-- Folders with the folders in them, and for each of these the one that it is in, which lies too
deep. -/
def within : Selection :=
  let id : String × Selection := ("id", ⟨"id", none, [], []⟩)
  let outer : Selection := ⟨"outer", none, [], [id]⟩
  ⟨"folderFindMany", none, [], [id, ("inner", ⟨"inner", none, [], [id, ("outer", outer)]⟩)]⟩

/-- The plan for the folders in a folder, without what lies deeper. -/
def lastLevel : Node :=
  { table := "folder", columns := ["id"], relation := some inner, truncated := [("outer", outer)] }

/-- The plan for one level of relations. -/
def oneLevel : Node := { table := "folder", columns := ["id"], relations := [("inner", lastLevel)] }

/-- A folder with two others in it; one of them has no number. -/
def held : Members Value :=
  [("id", .int 1), ("inner", .list [.object [("id", .int 2)], .object []])]

/-- The folders in it as callers see them. -/
def shownInner : Value :=
  .list [.object [("id", .int 2), ("outer", .null)], .object [("id", .null), ("outer", .null)]]

theorem row_held : row registry oneLevel (.object held) =
    .ok (.object [("id", .int 1), ("inner", shownInner)]) := by
  have hinner : shownRelation registry held ("inner", lastLevel) = .ok shownInner := by
    show relationValue registry lastLevel (.list [.object [("id", .int 2)], .object []]) = _
    rw [relationValue_list _ rfl rfl]
    simp only [List.mapM_cons, List.mapM_nil, lastLevel, row, relationValues]
    rfl
  have hown : (oneLevel.columns.mapM fun name => do
      return (name, ← shownColumn folder held name)) = .ok [("id", .int 1)] := rfl
  exact row_of_parts rfl hown (by rw [oneLevel, List.mapM_cons, hinner]; rfl)

/-- The folder is shown in the shape of its plan, with a list of two folders. -/
theorem shaped_held : (Plan.ofSelection registry 1 "folder" within []).1 = .ok oneLevel ∧
    row registry oneLevel (.object held) = .ok (.object [("id", .int 1), ("inner", shownInner)]) ∧
    Shaped oneLevel (.object [("id", .int 1), ("inner", shownInner)]) := by
  have hplan : (Plan.ofSelection registry 1 "folder" within []).1 = .ok oneLevel := by cbv
  obtain ⟨-, hshown, -⟩ := shaped_of_ofSelection hplan List.mem_cons_self (.object held)
  exact ⟨hplan, row_held, (hshown _ row_held).2.1⟩

end Folders

end RelGraph.Hydration
