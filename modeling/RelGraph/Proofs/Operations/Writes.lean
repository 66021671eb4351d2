import RelGraph.Proofs.Operations.Results
import RelGraph.Proofs.Fetch.Views
import RelGraph.Proofs.Store.Changes
/-!
Updates and deletions as callers see them. An update gives the rows that it has changed, each once
and as a read shows it afterwards, though the rows are looked up by the keys that they have by then;
only rows without a key are not found again. A deletion gives the rows that are gone, each once and
with the columns that a read has shown of it before, and its relations are empty.
-/
namespace RelGraph

open Store Sql Direct Outcome

/-! ## Views without the key -/

/-- A row is shown alike where it has the same values under all names that are asked for. -/
theorem Hydration.row_congr {r : Registry} {n : Node} {ms ms' : Members Value} {v : Value}
    (h : ∀ name, name ∈ n.columns ∨ name ∈ Members.names n.relations →
      Members.get? ms' name = Members.get? ms name)
    (hrow : Hydration.row r n (.object ms) = .ok v) :
    Hydration.row r n (.object ms') = .ok v := by
  obtain ⟨t, own, below, ht, hown, hbelow, rfl⟩ := row_eq_ok hrow
  refine row_of_parts ht (hown ▸ mapM_congr fun name hname => ?_)
    (hbelow ▸ mapM_congr fun kv hkv => ?_)
  · rw [shownColumn, shownColumn, h name (.inl hname)]
  · rw [shownRelation, shownRelation, h kv.1 (.inr (List.mem_map_of_mem hkv))]

namespace Operations

section Views

variable {r : Registry} {db : Database} {n m : Node} {t : Table} {c : Column} {keys : List Value}
  {f f' : Fetch} {row : StoredRow} {v w : Value} {ms : Members Value}

theorem asAsked_of_row (hrelations : c.name ∉ Members.names n.relations)
    (htruncated : c.name ∉ Members.names n.truncated)
    (h : Hydration.row r (withKeys n c keys) (.object ms) = .ok w) :
    Hydration.row r n (.object ms) = .ok (asAsked c n w) := by
  have hsame : Hydration.AsksSame (Plan.addColumn n c.name) (withKeys n c keys) := by
    rw [withKeys, Plan.addColumn, Plan.addColumn]
    split <;> exact ⟨rfl, rfl, rfl, rfl⟩
  rw [hsame.row_eq] at h
  rw [asAsked]
  split
  · rename_i hmem
    rwa [Plan.addColumn, if_pos (by simpa using hmem)] at h
  · rename_i hmem
    exact row_without hmem hrelations htruncated h

/-- A read of the whole table has a statement where the selection by keys has one. -/
theorem exists_ofNode (hkey : t.KeyColumn c) (ht : r.table? n.table = some t)
    (hcondition : n.condition = none) (horder : n.orderBy = none)
    (h : Fetch.ofNode r (withKeys n c keys) = .ok f') : ∃ f, Fetch.ofNode r n = .ok f := by
  obtain ⟨t', own', nested, next, rows, ht', hown', hnested, -, rfl⟩ := Fetch.ofNode_eq_ok h
  rw [withKeys_eq] at ht' hown' hnested
  obtain rfl : t' = t := Option.some.inj (ht'.symm.trans ht)
  obtain ⟨own, hown⟩ : ∃ own, n.columns.mapM t'.column = .ok own := by
    dsimp only at hown'
    split at hown'
    · exact ⟨own', hown'⟩
    · rw [List.mapM_append] at hown'
      obtain ⟨own, hown, -⟩ := bind_eq_ok.mp hown'
      exact ⟨own, hown⟩
  obtain ⟨rows, hrows⟩ : ∃ rows, Fetch.rowsOf t' (.table t'.declaration.name) n = .ok rows := by
    rw [Fetch.rowsOf, hcondition, horder]
    exact ⟨_, rfl⟩
  have hfallback : Fetch.fallback t' = .ok c := by
    rw [Fetch.fallback.eq_def, hkey.key]
    exact Table.column_eq_ok.mpr hkey.found
  rw [Fetch.ofNode, bind_of_eq_ok (Registry.table_eq_ok.mpr ht), bind_of_eq_ok hown,
    bind_of_eq_ok hnested]
  dsimp only
  rw [bind_of_eq_ok hrows]
  split
  · exact ⟨_, bind_of_eq_ok hfallback _⟩
  · exact ⟨_, rfl⟩

/-- What a selection by keys shows of a row is what a read of the whole table shows of it, with the
key besides. -/
theorem presents_of_withKeys (hkey : t.KeyColumn c) (ht : r.table? n.table = some t)
    (hcondition : n.condition = none) (horder : n.orderBy = none)
    (hrelations : c.name ∉ Members.names n.relations)
    (htruncated : c.name ∉ Members.names n.truncated)
    (hf' : Fetch.ofNode r (withKeys n c keys) = .ok f')
    (h : Seen r db f' (withKeys n c keys) row w) : Presents r db n row (asAsked c n w) := by
  obtain ⟨f, hf⟩ := exists_ofNode hkey ht hcondition horder hf'
  obtain ⟨hsource, hnested⟩ :=
    nested_eq_of_ofNode (by rw [withKeys_eq]) (by rw [withKeys_eq]) hf hf'
  have hcolumns := columns_of_ofNode ht hf
  have hcolumns' : f'.columns = rootColumns t (withKeys n c keys) :=
    columns_of_ofNode (by rw [withKeys_eq]; exact ht) hf'
  obtain ⟨fetched, hfetched, hw⟩ := h
  obtain ⟨below, own, left, hbelow, hown, hleft, hnodup, rfl⟩ := fetchedRow_eq_ok.mp hfetched
  rw [hsource, hnested] at hbelow
  have hrow := asAsked_of_row hrelations htruncated hw
  rcases @rootColumns_withKeys n t c keys hkey with ⟨hsame, -⟩ | ⟨hnew, hmore, -⟩
  · rw [hcolumns', hsame, ← hcolumns] at hown
    exact ⟨f, hf, _, fetchedRow_eq_ok.mpr ⟨below, own, left, hbelow, hown, hleft, hnodup, rfl⟩,
      hrow⟩
  · -- The key comes behind the other columns, and nothing that is asked for goes by its name.
    rw [hcolumns', hmore, ← hcolumns, resultMembers_eq_mapM, List.mapM_append] at hown
    obtain ⟨own', hown', hown⟩ := bind_eq_ok.mp hown
    obtain ⟨last, hlast, hown⟩ := bind_eq_ok.mp hown
    obtain rfl := pure_eq_ok.mp hown
    obtain ⟨key, rfl⟩ : ∃ key, last = [(c.name, key)] := by
      rw [List.mapM_cons] at hlast
      obtain ⟨kv, hkv, hlast⟩ := bind_eq_ok.mp hlast
      obtain ⟨key, -, hkv⟩ := bind_eq_ok.mp hkv
      obtain rfl := pure_eq_ok.mp hkv
      exact ⟨key, (Except.ok.inj hlast).symm⟩
    rw [← resultMembers_eq_mapM] at hown'
    rw [List.append_assoc, List.singleton_append] at hnodup hrow
    have hless : (Members.names (own' ++ left)).Nodup :=
      hnodup.sublist ((List.Sublist.append_left (List.sublist_cons_self _ left) own').map _)
    refine ⟨f, hf, _, fetchedRow_eq_ok.mpr ⟨below, own', left, hbelow, hown', hleft, hless, rfl⟩,
      Hydration.row_congr (fun name hname => ?_) hrow⟩
    refine (Members.get?_insert ?_).symm
    rintro rfl
    exact hname.elim hnew hrelations

end Views

/-! ## What is asked for of a row -/

section Asked

variable {api : Api} {access : Access} {t : Table} {asked : Selection} {args : Members Value}
  {n : Node} {db : Database} {row : StoredRow} {v : Value}

/-- What a read of all rows with what is asked for shows of a row. -/
def ShowsAsked (api : Api) (t : Table) (asked : Selection) (db : Database) (row : StoredRow)
    (v : Value) : Prop :=
  ∃ n, (Plan.ofSelection api.registry api.config.maxDepth t.name asked []).1 = .ok n ∧
    Presents api.registry db n row v

/-- Each column that is asked for shows the cell of a stored row, unless a relation goes by its
name. -/
def ShowsColumns (t : Table) (asked : Selection) (row : StoredRow) (v : Value) : Prop :=
  ∀ col, t.column? col.name = some col → col.name ∈ Plan.columnNames t asked.fields →
    col.name ∉ Plan.rowKeys t asked.fields → rootShown col (row.cell col) = some (v.field col.name)

/-- Two rows have the same in each column that is asked for, unless a relation goes by its name. -/
def SameColumns (t : Table) (asked : Selection) (v w : Value) : Prop :=
  ∀ name ∈ Plan.columnNames t asked.fields, name ∉ Plan.rowKeys t asked.fields →
    v.field name = w.field name

/-- The relations that are asked for read empty. -/
def ReadsEmpty (t : Table) (asked : Selection) (v : Value) : Prop :=
  ∀ f, Plan.IsLast t asked.fields f →
    Hydration.readRelation t f.relation f.key v = Hydration.emptyValue f.relation

/-- Rows that show the columns of one stored row have the same in them. -/
theorem ShowsColumns.same {w : Value} (h : ShowsColumns t asked row v)
    (h' : ShowsColumns t asked row w) : SameColumns t asked v w := by
  intro name hname hfree
  obtain ⟨col, hcol⟩ := Option.isSome_iff_exists.mp (List.mem_filter.mp hname).2
  obtain rfl := Table.column?_name hcol
  exact Option.some.inj ((h col hcol hname hfree).symm.trans (h' col hcol hname hfree))

theorem hasAsked_of_presents
    (hplan : Plan.ofFields api.registry api.config.maxDepth 0 t args none asked.fields = .ok n)
    (h : Presents api.registry db n row v) : HasAsked t asked v := by
  obtain ⟨ms, rfl, hnames⟩ := h.hasFields
  refine ⟨ms, rfl, fun name => ?_⟩
  rw [hnames, Plan.mem_columns_ofFields hplan, Plan.mem_keys_ofFields hplan]

theorem showsColumns_of_presents (ht : api.registry.table? n.table = some t)
    (hplan : Plan.ofFields api.registry api.config.maxDepth 0 t args none asked.fields = .ok n)
    (h : Presents api.registry db n row v) : ShowsColumns t asked row v := by
  intro col hcol hname hfree
  obtain ⟨hrelations, htruncated⟩ := not_or.mp (mt (Plan.mem_keys_ofFields hplan).mp hfree)
  exact h.field_column ht ((Plan.mem_columns_ofFields hplan).mpr hname) hrelations htruncated hcol

/-- What a read shows of a row has what is asked for, and the columns of the row. -/
theorem ShowsAsked.showsColumns (ht : api.registry.table? t.name = some t)
    (h : ShowsAsked api t asked db row v) : HasAsked t asked v ∧ ShowsColumns t asked row v := by
  obtain ⟨n, hplan, h⟩ := h
  have hfields := ofFields_of_plan ht hplan
  have ht' : api.registry.table? n.table = some t := by
    rw [(plansAll_ofSelection ht hplan).rows.table, ht]
  exact ⟨hasAsked_of_presents hfields h, showsColumns_of_presents ht' hfields h⟩

theorem ShowsAsked.unique {w : Value} (h : ShowsAsked api t asked db row v)
    (h' : ShowsAsked api t asked db row w) : v = w := by
  obtain ⟨n, hplan, h⟩ := h
  obtain ⟨n', hplan', h'⟩ := h'
  obtain rfl := Except.ok.inj (hplan.symm.trans hplan')
  exact h.unique h'

/-- With a condition and no other argument a plan is about the rows that meet it. -/
theorem sameRows_of_where (ht : api.registry.table? t.name = some t) {given : Value}
    (h : (Plan.ofSelection api.registry api.config.maxDepth t.name asked [("where", given)]).1 =
      .ok n) :
    ∃ p, compileWhere t given = .ok p ∧ Plan.SameRows { table := t.name, condition := p } n := by
  obtain ⟨start, hstart, hadded⟩ := bind_eq_ok.mp (ofFields_of_plan ht h)
  obtain ⟨p, hp, hstart⟩ := bind_eq_ok.mp hstart
  obtain rfl : { table := t.name, condition := p } = start := Except.ok.inj hstart
  exact ⟨p, hp, Plan.sameRows_addFields hadded⟩

end Asked

/-! ## Written rows selected again -/

section Again

variable {api : Api} {access : Access} {t : Table} {c : Column} {n n' : Node} {asked : Selection}
  {keys rows out : List Value} {s s' mid : State} {before news : List StoredRow} {v : Value}
  {db : Database} {askedFor : Bool}

/-- Steps that go well one after the other. -/
theorem Step.bind_run_eq_ok {α β : Type} {x : Step α} {g : α → Step β} {b : β}
    (h : (x >>= g).run.run s = (.ok b, s')) :
    ∃ a mid, x.run.run s = (.ok a, mid) ∧ (g a).run.run mid = (.ok b, s') := by
  obtain ⟨a, mid, hx, -⟩ := Step.bind_eq_ok (congrArg Prod.fst h)
  rw [Step.run_bind, hx] at h
  exact ⟨a, mid, hx, h⟩

theorem Step.ofAttempt_bind_run_eq_ok {α β : Type} {a : Attempt α} {g : α → Step β} {b : β}
    (h : ((ofAttempt a >>= g).run.run s) = (.ok b, s')) :
    ∃ x, a = .ok x ∧ (g x).run.run s = (.ok b, s') := by
  obtain ⟨x, mid, hx, h⟩ := Step.bind_run_eq_ok h
  obtain ⟨rfl, rfl⟩ := Prod.mk.inj hx
  exact ⟨x, rfl, h⟩

theorem Step.store_bind_run_eq_ok {α β : Type} {call : Storage → Storage.Outcome α}
    {g : α → Step β} {b : β} (h : ((store call >>= g).run.run s) = (.ok b, s')) :
    ∃ x mid, call s.storage = (.ok x, mid.storage) ∧ (g x).run.run mid = (.ok b, s') := by
  obtain ⟨x, mid, hx, h⟩ := Step.bind_run_eq_ok h
  obtain ⟨hcall, rfl⟩ := Prod.mk.inj hx
  exact ⟨x, _, Prod.ext hcall rfl, h⟩

theorem Step.plan_bind_run_eq_ok {β : Type} {p : Plan.Planned} {g : Node → Step β} {b : β}
    (h : ((plan p >>= g).run.run s) = (.ok b, s')) :
    ∃ n, p.1 = .ok n ∧ (g n).run.run ⟨s.storage, s.warnings ++ p.2⟩ = (.ok b, s') := by
  obtain ⟨n, mid, hn, h⟩ := Step.bind_run_eq_ok h
  obtain ⟨hp, rfl⟩ := Prod.mk.inj hn
  exact ⟨n, hp, h⟩

/-- Planning a selection by keys leaves the storage as it was. -/
theorem planByKeys_run_eq_ok (ht : api.registry.table? t.name = some t)
    (h : (planByKeys api t c.name (.ok asked) keys).run.run s = (.ok (n', askedFor), mid)) :
    ∃ n, (Plan.ofSelection api.registry api.config.maxDepth t.name asked []).1 = .ok n ∧
      n' = withKeys n c keys ∧ askedFor = n.columns.contains c.name ∧ mid.storage = s.storage := by
  cases hplan : (Plan.ofSelection api.registry api.config.maxDepth t.name asked []).1 with
  | error e =>
    rw [planByKeys, Step.run_bind, Step.run_ofAttempt] at h
    dsimp only at h
    rw [Step.run_bind, Step.run_plan, hplan] at h
    cases (Prod.mk.inj h).1
  | ok n =>
    obtain ⟨warnings, hrun⟩ := run_planByKeys (s := s) (c := c)
      (plansAll_ofSelection ht hplan).rows.condition hplan
    obtain ⟨hresult, rfl⟩ := Prod.mk.inj (hrun.symm.trans h)
    obtain ⟨rfl, rfl⟩ := Prod.mk.inj (Except.ok.inj hresult)
    exact ⟨n, rfl, rfl, rfl, rfl⟩

theorem fetch_settled {r : Registry} {s : Storage} (h : s.Settled db) :
    (Storage.fetch r access n s).2.Settled db := by
  have hcall : ∀ s : Storage, s.Settled db → (Storage.fetchCall r n s).2.Settled db := by
    intro s hs
    rw [Storage.fetchCall]
    split
    · exact hs
    · obtain ⟨hcommitted, hworking⟩ := Storage.counted_sameData (s := s)
        (Storage.fetchResult s.working ‹Fetch›)
      exact ⟨hcommitted.trans hs.1, hworking.trans hs.2⟩
  cases access with
  | own =>
    have hafter := hcall s.rollback ⟨h.1, h.1⟩
    exact ⟨hafter.1, hafter.1⟩
  | borrowed carrier =>
    show (s.inSession (.borrowed carrier) (Storage.fetchCall r n)).2.Settled db
    rw [Storage.inSession]
    split
    · exact hcall s h
    · exact h

/-- Written rows that are selected again by the keys that the write returned are seen as a read
shows them, each once, those aside that have no key. -/
theorem selectByKeys_shows (hkey : t.KeyColumn c) (hplain : isPlainKey c.declaration.type = true)
    (ht : api.registry.table? t.name = some t)
    (hadds : Insert.Adds t before news ((s.storage.seen access).rows t))
    (h : (selectByKeys api access t (.ok asked) keys).run.run s = (.ok v, s')) :
    (∀ db, s.storage.Settled db → s'.storage.Settled db) ∧ ∃ out, v = .list out ∧
      (c.name ∉ Plan.rowKeys t asked.fields → List.Forall₂ (ReadsKey c) news keys →
        ∃ vs, List.Forall₂ (ShowsAsked api t asked (s.storage.seen access))
          (news.filter (hasKey c)) vs ∧ out.Perm vs) := by
  unfold selectByKeys at h
  split at h
  · obtain ⟨hv, rfl⟩ := Prod.mk.inj h
    obtain rfl := Except.ok.inj hv
    refine ⟨fun _ hdb => hdb, [], rfl, fun _ hread => ?_⟩
    obtain rfl := List.forall₂_nil_right_iff.mp hread
    exact ⟨[], .nil, .rfl⟩
  · rename_i hnone
    rw [hkey.key] at hnone
    cases hnone
  · rename_i keys _ _ key _ hkey'
    obtain rfl : key = c.name := Option.some.inj (hkey'.symm.trans hkey.key)
    obtain ⟨⟨n', askedFor⟩, mid, hplanned, h⟩ := Step.bind_run_eq_ok h
    obtain ⟨n, hplan, rfl, rfl, hstorage⟩ := planByKeys_run_eq_ok ht hplanned
    obtain ⟨rows, mid', hrows, h⟩ := Step.store_bind_run_eq_ok h
    obtain ⟨out, harranged, h⟩ := Step.ofAttempt_bind_run_eq_ok h
    obtain ⟨hv, rfl⟩ := Prod.mk.inj h
    rw [hstorage] at hrows
    have hfetch := congrArg Prod.fst hrows
    refine ⟨fun db hdb => ?_, out.map (asAsked c n), ?_, fun hfree hread => ?_⟩
    · rw [← show _ = mid'.storage from congrArg Prod.snd hrows]
      exact fetch_settled hdb
    · rw [map_asAsked]
      exact (Except.ok.inj hv).symm
    · have hall := (plansAll_ofSelection ht hplan).rows
      have ht' : api.registry.table? n.table = some t := by rw [hall.table, ht]
      obtain ⟨hrelations, htruncated⟩ :=
        not_or.mp (mt ((plansAll_ofSelection ht hplan).relations c.name).mp hfree)
      obtain ⟨shown, hshown, hperm⟩ := presents_of_fetch (by rw [withKeys_eq]; exact ht')
        (by rw [withKeys_eq]; exact hall.limit) (by rw [withKeys_eq]; exact hall.offset) hfetch
      have hfound := filter_readKeys hkey hplain hadds hread
      have hviews : List.Forall₂ (ShowsAsked api t asked (s.storage.seen access))
          (((s.storage.seen access).rows t).filter
            (meets t (some (.compare c.name .inArray (.tuple keys)))))
          (shown.map (asAsked c n)) := by
        rw [List.forall₂_map_right_iff]
        rw [withKeys_eq] at hshown
        refine hshown.imp fun row w hpresents => ⟨n, hplan, ?_⟩
        obtain ⟨f, hf, hseen⟩ := hpresents
        rw [← withKeys_eq] at hf hseen
        exact presents_of_withKeys hkey ht' hall.condition hall.orderBy hrelations htruncated hf
          hseen
      obtain ⟨vs, hvs, hsame⟩ := List.perm_comp_forall₂ hfound.symm hviews
      exact ⟨vs, hvs, (((arranged_perm harranged).trans hperm).map _).trans hsame.symm⟩

end Again

/-! ## Updates -/

section Updates

variable {api : Api} {access : Access} {t : Table} {c : Column} {asked : Selection}
  {args : Members Value} {s s' : State} {new : StoredRow} {key v : Value}

theorem readsKey_of_keyOf (hkey : t.KeyColumn c) (hplain : isPlainKey c.declaration.type = true)
    (hkind : KeyOfKind c new) (h : Storage.keyOf t new = .ok key) : ReadsKey c new key := by
  cases hsome : hasKey c new with
  | true =>
    obtain ⟨key', hkept⟩ := keepsKey_of_kind hkind hsome
    obtain rfl := Except.ok.inj ((keyOf_of_keepsKey hkey hkept).symm.trans h)
    exact .inr hkept
  | false =>
    have hcell : new.cell c = .null := by
      rw [hasKey, Bool.not_eq_false'] at hsome
      cases hcell : new.cell c <;> simp_all [Cell.isNull]
    have hreturned : returned t [] = [c] := by
      simp [returned, returnedNames, hkey.key, hkey.found]
    have hread : Binding.result c.declaration.type (new.cell c) = .ok .null := by
      rw [hcell]
      obtain hc | hc | ⟨long, hc⟩ := plainKey_cases hplain <;> rw [hc] <;> rfl
    rw [Storage.keyOf, hreturned, hkey.key, resultMembers_eq_mapM] at h
    simp [hread, Value.field, Members.get?] at h
    exact .inl ⟨hcell, h.symm⟩

/-- The key of a changed row is of its kind where the key of the row before was, and where the
update sets it to nothing but null or a value of that kind. -/
theorem keyOfKind_of_changed {values : Members Value} {old : StoredRow} (hkey : t.KeyColumn c)
    (hplain : isPlainKey c.declaration.type = true)
    (hset : ∀ v, Members.get? values c.name = some v →
      v = .null ∨ KeyValue c.declaration.type v)
    (hold : KeyOfKind c old) (h : Changed t values old new) : KeyOfKind c new := by
  cases hget : Members.get? values c.name with
  | none =>
    have hcell := h.kept c hkey.mem hget hkey.given
    rw [KeyOfKind.eq_def] at hold ⊢
    rwa [hcell]
  | some v =>
    have hcell := h.set c hkey.mem v hget
    rcases hset v hget with rfl | hvalue
    · have hnull : new.cell c = .null := by
        rw [hcell]
        obtain hc | hc | ⟨long, hc⟩ := plainKey_cases hplain <;>
          rw [storedCell, affinityOf, hc] <;> rfl
      rw [KeyOfKind.eq_def, hnull]
      split <;> trivial
    · obtain ⟨hstored, key, hkey⟩ := hvalue.keyCell
      exact keyOfKind_of_keyCell hplain (hcell.trans hstored ▸ hkey)

/-- An update that goes well has changed the rows for which its condition held, and gives those of
them that have a key as a read shows them now. -/
theorem updateMany_eq_ok (hkept : t.KeptBy c) (hplain : isPlainKey c.declaration.type = true)
    (ht : api.registry.table? t.name = some t)
    (hnumbered : Numbered t ((s.storage.seen access).rows t))
    (h : (updateMany api access t (.ok asked) args).run.run s = (.ok v, s')) :
    ∃ values p db news out, payloadOf t .update (Plan.argument args "set") = .ok values ∧
      compileWhere t (Plan.argument args "where") = .ok p ∧
      Updated t values p (s.storage.seen access) db news ∧ s'.storage.Settled db ∧
      v = .list out ∧ (c.name ∉ Plan.rowKeys t asked.fields → (∀ new ∈ news, KeyOfKind c new) →
        ∃ vs, List.Forall₂ (ShowsAsked api t asked db) (news.filter (hasKey c)) vs ∧
          out.Perm vs) := by
  rw [updateMany] at h
  split at h
  · cases (Prod.mk.inj h).1
  · obtain ⟨values, hvalues, h⟩ := Step.ofAttempt_bind_run_eq_ok h
    obtain ⟨p, hp, h⟩ := Step.ofAttempt_bind_run_eq_ok h
    obtain ⟨keys, mid, hkeys, h⟩ := Step.store_bind_run_eq_ok h
    obtain ⟨db, news, -, hsettled, hupdated, hadds, -, hread⟩ :=
      Storage.update_eq_ok hkept hnumbered hkeys
    rw [← hsettled.seen_eq access] at hadds
    obtain ⟨hstays, out, rfl, hout⟩ := selectByKeys_shows hkept.toKeyColumn hplain ht hadds h
    rw [hsettled.seen_eq access] at hout
    exact ⟨values, p, db, news, out, hvalues, hp, hupdated, hstays db hsettled, rfl,
      fun hfree hkind => hout hfree ((forall₂_with_mem hread).imp fun new key hnew =>
        readsKey_of_keyOf hkept.toKeyColumn hplain (hkind new hnew.1) hnew.2)⟩

end Updates

/-! ## Deletions -/

section Deletions

variable {api : Api} {access : Access} {t : Table} {asked : Selection} {args : Members Value}
  {n : Node} {row : StoredRow} {s s' : State} {v : Value} {columns : List Column}
  {ms : Members Value}

theorem mem_returnedNames {names : List String} {name : String} (h : name ∈ names) :
    name ∈ returnedNames t names := by
  rw [returnedNames]
  split
  · split
    · exact h
    · exact List.mem_append_left _ h
  · exact h

/-- A row that is gone is seen with what is asked for: the columns that it had, and no relations. -/
theorem shows_of_gone {r : Registry} {maxDepth : Nat} (ht : r.table? n.table = some t)
    (hplan : Plan.ofFields r maxDepth 0 t args none asked.fields = .ok n)
    (hcolumns : (returnedNames t n.columns).mapM t.column = .ok columns)
    (hread : resultMembers row.cell columns = .ok ms)
    (h : Hydration.row r n.withoutRelations (.object ms) = .ok v) :
    HasAsked t asked v ∧ ShowsColumns t asked row v ∧ ReadsEmpty t asked v := by
  have hplanned := (Plan.relation_of_ofFields hplan).1
  have hkeys : ∀ name, name ∈ Members.names n.withoutRelations.truncated ↔
      name ∈ Plan.rowKeys t asked.fields := fun name => by
    rw [Node.mem_names_withoutRelations hplanned, Plan.mem_keys_ofFields hplan]
  refine ⟨?_, fun col hcol hname hfree => ?_, fun f hf => ?_⟩
  · obtain ⟨ms', rfl, hnames⟩ := Hydration.hasFields_of_row h
    refine ⟨ms', rfl, fun name => ?_⟩
    rw [hnames, hkeys, show n.withoutRelations.columns = n.columns from rfl,
      show n.withoutRelations.relations = [] from rfl, Plan.mem_columns_ofFields hplan]
    simp [Members.names]
  · have hmem : col.name ∈ n.columns := (Plan.mem_columns_ofFields hplan).mpr hname
    obtain ⟨t', ht', hfield⟩ := Hydration.field_column h hmem
      (by simp [Node.withoutRelations, Members.names]) (mt (hkeys col.name).mp hfree)
    obtain rfl : t' = t := Option.some.inj (ht'.symm.trans ht)
    obtain ⟨x, hx, hget⟩ := get?_resultMembers hread
      (mem_of_column? hcolumns (mem_returnedNames hmem) hcol) fun other hother hsame => by
        have hfound := (column?_of_mem hcolumns hother).1
        rw [hsame] at hfound
        exact Option.some.inj (hfound.symm.trans hcol)
    exact rootShown_of_shownColumn hcol hx hget hfield
  · rw [Hydration.readRelation, Hydration.field_truncated h
      (Members.nodup_names_update (Plan.nodup_truncated hplan))
      (Node.get?_truncated_withoutRelations hplan hf)]
    cases hmany : f.relation.toMany <;> simp [Hydration.emptyValue, hmany, Value.isNull]

/-- A deletion that goes well has taken away the rows for which its condition held, and gives each
of them as it was, without relations. -/
theorem deleteMany_eq_ok (ht : api.registry.table? t.name = some t)
    (h : (deleteMany api access t (.ok asked) args).run.run s = (.ok v, s')) :
    ∃ p db out, compileWhere t (Plan.argument args "where") = .ok p ∧
      Deleted t p (s.storage.seen access) db ∧ s'.storage.Settled db ∧ v = .list out ∧
      List.Forall₂ (fun row v => HasAsked t asked v ∧ ShowsColumns t asked row v ∧
        ReadsEmpty t asked v) (((s.storage.seen access).rows t).filter (meets t p)) out := by
  obtain ⟨_, hasked, h⟩ := Step.ofAttempt_bind_run_eq_ok h
  obtain rfl := Except.ok.inj hasked
  obtain ⟨n, hplan, h⟩ := Step.plan_bind_run_eq_ok h
  obtain ⟨out, mid, hdelete, h⟩ := Step.store_bind_run_eq_ok h
  obtain ⟨hv, rfl⟩ := Prod.mk.inj h
  obtain rfl := Except.ok.inj hv
  obtain ⟨p, hp, hsame⟩ := sameRows_of_where ht hplan
  obtain ⟨db, columns, fetched, -, hsettled, hdeleted, hcolumns, hfetched, hrows⟩ :=
    Storage.delete_eq_ok hdelete
  have hcondition : n.withoutRelations.condition = p := hsame.condition
  rw [hcondition] at hdeleted hfetched
  refine ⟨p, db, out, hp, hdeleted, hsettled, rfl, ?_⟩
  rw [Storage.writtenRows] at hfetched
  split at hfetched
  · cases hfetched
  · refine (forall₂_exists.mpr ⟨fetched, mapM_eq_ok.mp hfetched, mapM_eq_ok.mp hrows⟩).imp
      fun row v hshown => ?_
    obtain ⟨w, hw, hv⟩ := hshown
    obtain ⟨ms, hms, hw⟩ := bind_eq_ok.mp hw
    obtain rfl := pure_eq_ok.mp hw
    exact shows_of_gone (by rw [hsame.table, ht]) (ofFields_of_plan ht hplan) hcolumns hms hv

theorem run_deleteMany {rows : List Value}
    (hplan : (Plan.ofSelection api.registry api.config.maxDepth t.name asked
      [("where", Plan.argument args "where")]).1 = .ok n)
    (hdelete : (Storage.delete api.registry t access n.withoutRelations s.storage).1 = .ok rows) :
    ((run api access t .deleteMany (.ok asked) args).run.run s).1 = .ok (.list rows) := by
  rw [run, deleteMany, Step.run_bind, Step.run_ofAttempt]
  dsimp only
  rw [Step.run_bind, Step.run_plan, hplan]
  dsimp only
  rw [Step.run_bind, Step.run_store]
  dsimp only
  rw [hdelete]
  rfl

end Deletions

/-! ## Reads beside writes -/

section Reads

variable {api : Api} {access : Access} {t : Table} {asked : Selection} {args : Members Value}
  {s s' : State} {v : Value}

/-- A read of many rows fetches its plan. -/
theorem findMany_eq_ok (h : (run api access t .findMany (.ok asked) args).run.run s = (.ok v, s')) :
    ∃ n rows, (Plan.ofSelection api.registry api.config.maxDepth t.name asked args).1 = .ok n ∧
      (Storage.fetch api.registry access n s.storage).1 = .ok rows ∧ v = .list rows := by
  obtain ⟨_, hasked, h⟩ := Step.ofAttempt_bind_run_eq_ok h
  obtain rfl := Except.ok.inj hasked
  obtain ⟨read, mid, hread, h⟩ := Step.bind_run_eq_ok h
  obtain ⟨n, hplan, hread⟩ := Step.plan_bind_run_eq_ok hread
  obtain ⟨hn, rfl⟩ := Prod.mk.inj hread
  obtain rfl : (⟨n, false⟩ : Read) = read := Except.ok.inj hn
  obtain ⟨rows, mid, hrows, h⟩ := Step.store_bind_run_eq_ok h
  obtain ⟨hv, -⟩ := Prod.mk.inj h
  exact ⟨n, rows, hplan, congrArg Prod.fst hrows, (Except.ok.inj hv).symm⟩

theorem run_findMany {n : Node} {rows : List Value}
    (hplan : (Plan.ofSelection api.registry api.config.maxDepth t.name asked args).1 = .ok n)
    (hfetch : (Storage.fetch api.registry access n s.storage).1 = .ok rows) :
    ((run api access t .findMany (.ok asked) args).run.run s).1 = .ok (.list rows) := by
  rw [run, Step.run_bind, Step.run_ofAttempt]
  dsimp only
  rw [Step.run_bind, planRead, Step.run_bind, Step.run_plan, hplan]
  show ((runRead api access ⟨n, false⟩).run.run _).1 = _
  rw [runRead, Step.run_bind, Step.run_store]
  dsimp only
  rw [hfetch]
  rfl

/-- A read of the rows that meet a condition shows the columns of each of them. -/
theorem findMany_where (ht : api.registry.table? t.name = some t) {given : Value}
    (h : (run api access t .findMany (.ok asked) [("where", given)]).run.run s = (.ok v, s')) :
    ∃ p found shown, compileWhere t given = .ok p ∧ v = .list found ∧ found.Perm shown ∧
      List.Forall₂ (ShowsColumns t asked) (((s.storage.seen access).rows t).filter (meets t p))
        shown := by
  obtain ⟨n, found, hplan, hfetch, rfl⟩ := findMany_eq_ok h
  obtain ⟨p, hp, hsame⟩ := sameRows_of_where ht hplan
  have ht' : api.registry.table? n.table = some t := by rw [hsame.table, ht]
  obtain ⟨shown, hshown, hperm⟩ := presents_of_fetch ht' hsame.limit hsame.offset hfetch
  rw [hsame.condition] at hshown
  exact ⟨p, found, shown, hp, rfl, hperm, hshown.imp fun row v =>
    showsColumns_of_presents ht' (ofFields_of_plan ht hplan)⟩

/-- A read of all rows shows each of them. -/
theorem findMany_all (ht : api.registry.table? t.name = some t)
    (h : (run api access t .findMany (.ok asked) []).run.run s = (.ok v, s')) :
    ∃ found shown, v = .list found ∧ found.Perm shown ∧
      List.Forall₂ (ShowsAsked api t asked (s.storage.seen access))
        ((s.storage.seen access).rows t) shown := by
  obtain ⟨n, found, hplan, hfetch, rfl⟩ := findMany_eq_ok h
  have hall := (plansAll_ofSelection ht hplan).rows
  obtain ⟨shown, hshown, hperm⟩ := presents_of_fetch (by rw [hall.table, ht]) hall.limit hall.offset
    hfetch
  have hrows : ((s.storage.seen access).rows t).filter (meets t n.condition) =
      (s.storage.seen access).rows t :=
    List.filter_eq_self.mpr fun row _ => by rw [hall.condition]; rfl
  rw [hrows] at hshown
  exact ⟨found, shown, rfl, hperm, hshown.imp fun row v hv => ⟨n, hplan, hv⟩⟩

/-- Rows that are each shown are shown as they are among all rows. -/
theorem perm_append_of_showsAsked {db : Database} {rows all : List StoredRow}
    {given found shown : List Value} {rest : List StoredRow} (hrows : all.Perm (rows ++ rest))
    (hgiven : List.Forall₂ (ShowsAsked api t asked db) rows given)
    (hshown : List.Forall₂ (ShowsAsked api t asked db) all shown) (hfound : found.Perm shown) :
    ∃ others, found.Perm (given ++ others) := by
  obtain ⟨shown', hshown', hperm⟩ := List.perm_comp_forall₂ hrows.symm hshown
  have hmine : List.Forall₂ (ShowsAsked api t asked db) rows (shown'.take rows.length) :=
    (List.forall₂_take_append _ _ _ hshown'.flip).flip
  have hunique : Relator.RightUnique (ShowsAsked api t asked db) := fun _ _ _ => ShowsAsked.unique
  have hsame : shown'.take rows.length = given :=
    List.right_unique_forall₂' hunique hmine hgiven
  refine ⟨shown'.drop rows.length, hfound.trans (hperm.symm.trans (.of_eq ?_))⟩
  rw [← hsame, List.take_append_drop]

end Reads

/-! ## Writes -/

section Writes

variable {api : Api} {access : Access} {t : Table} {c : Column} {asked : Selection}
  {args : Members Value} {s : State}

/-- An update that goes well changes the rows for which its condition held before, in the columns
that it sets and in computed ones, and nothing else. It gives those of them that have a key, each
once and as a read shows it now, whether or not the condition still holds for it and whatever its
key has become.

A deletion that goes well takes away the rows for which its condition held, and nothing else. It
gives each of them once, with the columns that a read with the condition showed just before, and its
relations read empty. -/
theorem writes_of_run (hkept : t.KeptBy c) (hplain : isPlainKey c.declaration.type = true)
    (ht : api.registry.table? t.name = some t)
    (hnumbered : Numbered t ((s.storage.seen access).rows t)) :
    (∀ v s', (run api access t .updateMany (.ok asked) args).run.run s = (.ok v, s') →
      ∃ values p db news out, payloadOf t .update (Plan.argument args "set") = .ok values ∧
        compileWhere t (Plan.argument args "where") = .ok p ∧
        Updated t values p (s.storage.seen access) db news ∧ s'.storage.Settled db ∧
        v = .list out ∧
        (c.name ∉ Plan.rowKeys t asked.fields → (∀ new ∈ news, KeyOfKind c new) →
          ∃ vs, out.Perm vs ∧
            List.Forall₂ (fun row v => ShowsAsked api t asked db row v ∧ HasAsked t asked v ∧
              ShowsColumns t asked row v) (news.filter (hasKey c)) vs ∧
            ∀ found s'', (run api access t .findMany (.ok asked) []).run.run s' =
              (.ok (.list found), s'') → ∃ others, found.Perm (out ++ others))) ∧
    ∀ v s', (run api access t .deleteMany (.ok asked) args).run.run s = (.ok v, s') →
      ∃ p db out, compileWhere t (Plan.argument args "where") = .ok p ∧
        Deleted t p (s.storage.seen access) db ∧ s'.storage.Settled db ∧ v = .list out ∧
        List.Forall₂ (fun row v => HasAsked t asked v ∧ ShowsColumns t asked row v ∧
          ReadsEmpty t asked v) (((s.storage.seen access).rows t).filter (meets t p)) out ∧
        ∀ found s'', (run api access t .findMany (.ok asked)
            [("where", Plan.argument args "where")]).run.run s = (.ok (.list found), s'') →
          ∃ seen, found.Perm seen ∧ List.Forall₂ (SameColumns t asked) seen out := by
  refine ⟨fun v s' h => ?_, fun v s' h => ?_⟩
  · obtain ⟨values, p, db, news, out, hvalues, hp, hupdated, hsettled, rfl, hout⟩ :=
      updateMany_eq_ok hkept hplain ht hnumbered h
    refine ⟨values, p, db, news, out, hvalues, hp, hupdated, hsettled, rfl, fun hfree hkind => ?_⟩
    obtain ⟨vs, hvs, hperm⟩ := hout hfree hkind
    refine ⟨vs, hperm, hvs.imp fun row v hv => ⟨hv, hv.showsColumns ht⟩, fun found s'' hfound => ?_⟩
    obtain ⟨_, shown, hlist, hshown, hall⟩ := findMany_all ht hfound
    obtain rfl := Value.list.inj hlist
    rw [hsettled.seen_eq access] at hall
    -- The changed rows that have a key are some of the rows that are there now.
    have hrows : (db.rows t).Perm (news.filter (hasKey c) ++
        (news.filter (fun row => !hasKey c row) ++
          ((s.storage.seen access).rows t).filter fun row => !meets t p row)) := by
      rw [← List.append_assoc]
      exact hupdated.rows.trans (List.perm_append_comm.trans
        ((List.filter_append_perm (hasKey c) news).symm.append_right _))
    obtain ⟨others, hothers⟩ := perm_append_of_showsAsked hrows hvs hall hshown
    exact ⟨others, hothers.trans (hperm.symm.append_right others)⟩
  · obtain ⟨p, db, out, hp, hdeleted, hsettled, rfl, hout⟩ := deleteMany_eq_ok ht h
    refine ⟨p, db, out, hp, hdeleted, hsettled, rfl, hout, fun found s'' hfound => ?_⟩
    obtain ⟨p', _, shown, hp', hlist, hshown, hall⟩ := findMany_where ht hfound
    obtain rfl := Except.ok.inj (hp.symm.trans hp')
    obtain rfl := Value.list.inj hlist
    refine ⟨shown, hshown, (forall₂_exists.mpr ⟨_, hall.flip, hout⟩).imp fun w v hboth => ?_⟩
    obtain ⟨row, hw, hv⟩ := hboth
    exact ShowsColumns.same hw hv.2.1

end Writes

/-! ## A renamed entry and one that is gone -/

namespace Journal

/-- The arguments that give the entries of a name another key and another name. -/
def renames : Members Value :=
  [("set", .object (rowOf (.text "z") "c")),
    ("where", .object [("name", .object [("eq", .text "a")])])]

/-- The arguments that choose the entries of a name. -/
def chooses (called : String) : Members Value :=
  [("where", .object [("name", .object [("eq", .text called)])])]

/-- An entry has the name. -/
def isCalled (called : String) : Option Predicate := some (.compare "name" .eq (.text called))

/-- Two entries are there. -/
def before : State := { storage := storage "x" "y" }

/-- The database in which the first entry has another key and another name. -/
def renamed : Database := { tables := [("entry", [stored 1 "z" "c", stored 2 "y" "b"])] }

/-- The plan for the name of the renamed entry, with its key. -/
def again : Node := withKeys names (key (.text false)) [.text "z"]

/-- The renamed entry as it is seen with its key. -/
def seenAgain : Value := .object [("name", .text "c"), ("id", .text "z")]

theorem keptBy : (entry (.text false)).KeptBy (key (.text false)) where
  toKeyColumn := keyColumn (.text false)
  names := by decide
  number := by
    simp [entry, Family.table, key, name, Family.column, isRowNumber, ColumnType.storage,
      ColumnType.bare]

theorem numbered_before : Numbered (entry (.text false))
    ((before.storage.seen .own).rows (entry (.text false))) where
  ordered := by
    show [stored 1 "x" "a", stored 2 "y" "b"].Pairwise fun a b => a.number < b.number
    decide
  kept := by
    simp [entry, Family.table, key, name, Family.column, isRowNumber, ColumnType.storage,
      ColumnType.bare]

theorem update_renames : Storage.update (entry (.text false)) .own (rowOf (.text "z") "c")
    (isCalled "a") before.storage = (.ok [.text "z"], ⟨renamed, renamed, 2⟩) :=
  Storage.update_of_run
    (u := ⟨entry (.text false), rowOf (.text "z") "c", some (.compare name .eq (.text "a"))⟩)
    rfl (by cbv) rfl rfl rfl

theorem fetch_again : (Storage.fetch (api (.text false)).registry .own again
    ⟨renamed, renamed, 2⟩).1 = .ok [seenAgain] := by
  obtain ⟨f, hf, hcolumns, hnested, hsent⟩ : ∃ f,
      Fetch.ofNode (api (.text false)).registry again = .ok f ∧
      f.columns = [name, key (.text false)] ∧ f.nested = [] ∧
      (Storage.boundCells (Fetch.checkSize f) (Dialect.sqlite.fetch f)).toOption.isSome :=
    ⟨_, rfl, rfl, rfl, rfl⟩
  have hroot : rootRows (scanOf (api (.text false)).registry) renamed (entry (.text false)) again =
      [stored 1 "z" "c"] :=
    List.perm_singleton.mp (rootRows_perm (scanOf (api (.text false)).registry) rfl rfl)
  have hrow : fetchedRow renamed f (stored 1 "z" "c") = .ok seenAgain := by
    rw [fetchedRow, hcolumns, hnested]
    rfl
  have hresult : Fetch.result .byName renamed f = .ok [seenAgain] := by
    rw [result_eq_ok_iff hf rfl (checkMatches_compare (.inr rfl)), hroot, List.mapM_cons, hrow]
    rfl
  have hcolumn : (["name", "id"].mapM fun column => do
      return (column, ← Hydration.shownColumn (entry (.text false))
        [("name", .text "c"), ("id", .text "z")] column)) =
      .ok [("name", .text "c"), ("id", .text "z")] := rfl
  have hseen : Hydration.row (api (.text false)).registry again seenAgain = .ok seenAgain :=
    (Hydration.row_of_parts rfl hcolumn rfl).trans rfl
  exact Storage.fetch_of_seen rfl hf hsent hresult (mapM_eq_ok.mpr (.cons hseen .nil))

theorem arranged_again : arranged "id" [.text "z"] [seenAgain] = .ok [seenAgain] := by
  rw [arranged_eq_ok (List.forall_mem_singleton.mpr rfl) (List.forall_mem_singleton.mpr rfl)]
  show Except.ok (([(0, seenAgain)].mergeSort fun a b => decide (a.1 ≤ b.1)).map Prod.snd) = _
  rw [List.mergeSort_singleton]
  rfl

theorem payload_renames : payloadOf (entry (.text false)) .update (Plan.argument renames "set") =
    .ok (rowOf (.text "z") "c") := by
  cbv

theorem where_renames : compileWhere (entry (.text false)) (Plan.argument renames "where") =
    .ok (isCalled "a") := by
  cbv

theorem where_chooses : compileWhere (entry (.text false)) (Plan.argument (chooses "b") "where") =
    .ok (isCalled "b") := by
  cbv

theorem run_renames : ((run (api (.text false)) .own (entry (.text false)) .updateMany (.ok asked)
    renames).run.run before).1 = .ok (.list [shown "c"]) := by
  rw [run, updateMany, if_neg (by decide), Step.run_bind, Step.run_ofAttempt, payload_renames]
  dsimp only
  rw [Step.run_bind, Step.run_ofAttempt, where_renames]
  dsimp only
  rw [Step.run_bind, Step.run_store, update_renames]
  exact (selectByKeys_eq_ok (by simp) rfl rfl (plan_asked _) fetch_again arranged_again).trans rfl

theorem run_chooses : ((run (api (.text false)) .own (entry (.text false)) .deleteMany (.ok asked)
    (chooses "b")).run.run before).1 = .ok (.list [shown "b"]) := by
  have hplan : (Plan.ofSelection (api (.text false)).registry (api (.text false)).config.maxDepth
      (entry (.text false)).name asked [("where", Plan.argument (chooses "b") "where")]).1 =
      .ok { names with condition := isCalled "b" } := by cbv
  have hcolumn : (["name"].mapM fun column => do
      return (column, ← Hydration.shownColumn (entry (.text false))
        [("name", .text "b"), ("id", .text "y")] column)) = .ok [("name", .text "b")] := rfl
  have hseen : Hydration.row (api (.text false)).registry
      { names with condition := isCalled "b" } (.object [("name", .text "b"), ("id", .text "y")]) =
      .ok (shown "b") :=
    (Hydration.row_of_parts rfl hcolumn rfl).trans rfl
  exact run_deleteMany hplan (congrArg Prod.fst (Storage.delete_of_run
    (d := ⟨entry (.text false), some (.compare name .eq (.text "b")), [name, key (.text false)]⟩)
    rfl rfl rfl rfl (mapM_eq_ok.mpr (.cons hseen .nil))))

/-- An entry that is renamed and gets another key is given as it is then, though it no longer has
the name that the update looked for; an entry that is gone is given as it was. -/
theorem written_entries :
    (∃ s' new, (run (api (.text false)) .own (entry (.text false)) .updateMany (.ok asked)
        renames).run.run before = (.ok (.list [shown "c"]), s') ∧
      new.cell (key (.text false)) = .text "z" ∧ new.cell name = .text "c" ∧
      (s'.storage.committed.rows (entry (.text false))).Perm [stored 2 "y" "b", new] ∧
      ShowsAsked (api (.text false)) (entry (.text false)) asked s'.storage.committed new
        (shown "c")) ∧
    ∃ s', (run (api (.text false)) .own (entry (.text false)) .deleteMany (.ok asked)
        (chooses "b")).run.run before = (.ok (.list [shown "b"]), s') ∧
      s'.storage.committed.rows (entry (.text false)) = [stored 1 "x" "a"] ∧
      ShowsColumns (entry (.text false)) asked (stored 2 "y" "b") (shown "b") := by
  constructor
  · obtain ⟨s', hrun⟩ : ∃ s', (run (api (.text false)) .own (entry (.text false)) .updateMany
        (.ok asked) renames).run.run before = (.ok (.list [shown "c"]), s') :=
      ⟨_, Prod.ext run_renames rfl⟩
    obtain ⟨values, p, db, news, out, hvalues, hp, hupdated, hsettled, hout, hgiven⟩ :=
      (writes_of_run keptBy rfl rfl numbered_before).1 _ _ hrun
    obtain rfl := Except.ok.inj (payload_renames.symm.trans hvalues)
    obtain rfl := Except.ok.inj (where_renames.symm.trans hp)
    obtain rfl := Value.list.inj hout
    obtain ⟨new, rfl, hchanged⟩ : ∃ new, news = [new] ∧ Changed (entry (.text false))
        (rowOf (.text "z") "c") (stored 1 "x" "a") new := by
      obtain _ | ⟨hchanged, _ | _⟩ := hupdated.changed
      exact ⟨_, rfl, hchanged⟩
    have hkey : new.cell (key (.text false)) = .text "z" :=
      hchanged.set (key (.text false)) (by simp [entry, Family.table]) (.text "z") rfl
    have hname : new.cell name = .text "c" :=
      hchanged.set name (by simp [entry, Family.table]) (.text "c") rfl
    have hsome : [new].filter (hasKey (key (.text false))) = [new] := by
      simp [hasKey, hkey, Cell.isNull]
    have hold : KeyOfKind (key (.text false)) (stored 1 "x" "a") := trivial
    have hkind : KeyOfKind (key (.text false)) new := by
      refine keyOfKind_of_changed (keyColumn _) rfl (fun v hv => ?_) hold hchanged
      obtain rfl := Option.some.inj hv
      exact .inr .text
    obtain ⟨vs, hperm, hvs, -⟩ := hgiven (by decide) (List.forall_mem_singleton.mpr hkind)
    obtain rfl := List.perm_singleton.mp hperm.symm
    rw [hsome] at hvs
    obtain _ | ⟨⟨hshows, -⟩, _⟩ := hvs
    rw [← hsettled.1] at hshows
    refine ⟨s', new, hrun, hkey, hname, ?_, hshows⟩
    rw [hsettled.1]
    exact hupdated.rows
  · obtain ⟨s', hrun⟩ : ∃ s', (run (api (.text false)) .own (entry (.text false)) .deleteMany
        (.ok asked) (chooses "b")).run.run before = (.ok (.list [shown "b"]), s') :=
      ⟨_, Prod.ext run_chooses rfl⟩
    obtain ⟨p, db, out, hp, hdeleted, hsettled, hout, hgone, -⟩ :=
      (writes_of_run keptBy rfl rfl numbered_before).2 _ _ hrun
    obtain rfl := Except.ok.inj (where_chooses.symm.trans hp)
    obtain rfl := Value.list.inj hout
    obtain _ | ⟨⟨-, hshows, -⟩, _⟩ := hgone
    refine ⟨s', hrun, ?_, hshows⟩
    rw [hsettled.1]
    exact hdeleted.rows

end Journal

/-! ## A column that a relation is read under -/

namespace Marked

/-- A column whose name is that of another column, marked. -/
def mark : Column := Family.column "_name" .json false

/-- Parents with a name and a marked name. -/
def parent : Table :=
  Family.table "parent"
    [Family.column "id" .integer true, Family.column "name" (.text false) false, mark]
    [("children", Family.toChildren)]

/-- The interface to parents and children. -/
def api : Api := ⟨⟨[("parent", parent), ("child", Family.child)]⟩, {}, default⟩

/-- A parent whose marked name is seven. -/
def stored : StoredRow := ⟨1, [("id", .integer 1), ("name", .text "a"), ("_name", .integer 7)]⟩

/-- One parent, and a child of it. -/
def state : State :=
  let db : Database := { tables := [("parent", [stored]),
    ("child", [⟨5, [("id", .integer 5), ("parent_id", .integer 1)]⟩])] }
  { storage := { committed := db, working := db } }

/-- What is asked for by its own name. -/
def plain (name : String) : String × Selection := (name, ⟨name, none, [], []⟩)

/-- The marked name is asked for. -/
def onlyMark : Selection := ⟨"parentFindMany", none, [], [plain "_name"]⟩

/-- The marked name is asked for, and the children as the name. -/
def markAndChildren : Selection := ⟨"parentDeleteMany", none, [],
  [plain "_name", ("name", ⟨"children", some "name", [], [plain "id"]⟩)]⟩

theorem keptBy : parent.KeptBy (Family.column "id" .integer true) where
  only := rfl
  key := rfl
  found := rfl
  stored := by simp [parent, Family.table, Family.column, mark]
  given := rfl
  kind := rfl
  names := by decide
  number := by
    simp [parent, Family.table, Family.column, mark, isRowNumber, ColumnType.storage,
      ColumnType.bare, TableDeclaration.primaryColumns]

theorem run_onlyMark : ((run api .own parent .findMany (.ok onlyMark) []).run.run state).1 =
    .ok (.list [.object [("_name", .int 7)]]) := by
  have hplan : (Plan.ofSelection api.registry api.config.maxDepth parent.name onlyMark []).1 =
      .ok { table := "parent", columns := ["_name"] } := by cbv
  have hfetch : (Storage.fetch api.registry .own { table := "parent", columns := ["_name"] }
      state.storage).1 = .ok [.object [("_name", .int 7)]] := by
    obtain ⟨f, hf, hcolumns, hnested, hsent⟩ : ∃ f, Fetch.ofNode api.registry
        { table := "parent", columns := ["_name"] } = .ok f ∧
        f.columns = [mark] ∧ f.nested = [] ∧
        (Storage.boundCells (Fetch.checkSize f) (Dialect.sqlite.fetch f)).toOption.isSome :=
      ⟨_, rfl, rfl, rfl, rfl⟩
    have hroot : rootRows (scanOf api.registry) state.storage.committed parent
        { table := "parent", columns := ["_name"] } = [stored] :=
      List.perm_singleton.mp (rootRows_perm (scanOf api.registry) rfl rfl)
    have hrow : fetchedRow state.storage.committed f stored =
        .ok (.object [("_name", .int 7)]) := by
      rw [fetchedRow, hcolumns, hnested]
      rfl
    have hresult : Fetch.result .byName state.storage.committed f =
        .ok [.object [("_name", .int 7)]] := by
      rw [result_eq_ok_iff hf rfl rfl, hroot, List.mapM_cons, hrow]
      rfl
    have hcolumn : (["_name"].mapM fun column => do
        return (column, ← Hydration.shownColumn parent [("_name", .int 7)] column)) =
        .ok [("_name", .int 7)] := rfl
    have hseen : Hydration.row api.registry { table := "parent", columns := ["_name"] }
        (.object [("_name", .int 7)]) = .ok (.object [("_name", .int 7)]) :=
      (Hydration.row_of_parts rfl hcolumn rfl).trans rfl
    exact Storage.fetch_of_seen rfl hf hsent hresult (mapM_eq_ok.mpr (.cons hseen .nil))
  exact run_findMany hplan hfetch

/-- The plan for the children. -/
def children : Node :=
  { table := "child", columns := ["id"], relation := some Family.toChildren }

/-- The plan for the marked name and the children. -/
def both : Node :=
  { table := "parent", columns := ["_name"], relations := [("_name", children)] }

theorem run_markAndChildren :
    ((run api .own parent .deleteMany (.ok markAndChildren) []).run.run state).1 =
      .ok (.list [.object [("_name", .list [])]]) := by
  have hplan : (Plan.ofSelection api.registry api.config.maxDepth parent.name markAndChildren
      [("where", Plan.argument [] "where")]).1 = .ok both := by cbv
  have hcolumn : (["_name"].mapM fun column => do
      return (column, ← Hydration.shownColumn parent [("_name", .int 7), ("id", .int 1)] column)) =
      .ok [("_name", .int 7)] := rfl
  have hrow : Hydration.row api.registry both.withoutRelations
      (.object [("_name", .int 7), ("id", .int 1)]) = .ok (.object [("_name", .list [])]) :=
    (Hydration.row_of_parts rfl hcolumn rfl).trans rfl
  exact run_deleteMany hplan (congrArg Prod.fst (Storage.delete_of_run
    (d := ⟨parent, none, [mark, Family.column "id" .integer true]⟩) rfl rfl rfl rfl
    (mapM_eq_ok.mpr (.cons hrow .nil))))

/-- The column that the children are read under has a value before the deletion, and the deletion
gives none for it. -/
theorem marked_name_lost :
    ∃ found gone, ((run api .own parent .findMany (.ok onlyMark) []).run.run state).1 =
        .ok (.list [found]) ∧
      ((run api .own parent .deleteMany (.ok markAndChildren) []).run.run state).1 =
        .ok (.list [gone]) ∧
      "_name" ∈ Plan.columnNames parent markAndChildren.fields ∧
      found.field "_name" = .int 7 ∧ gone.field "_name" = .list [] :=
  ⟨_, _, run_onlyMark, run_markAndChildren, by decide, rfl, rfl⟩

end Marked

end Operations

end RelGraph
