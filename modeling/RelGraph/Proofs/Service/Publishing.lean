import RelGraph.Proofs.Exports.Publication
import RelGraph.Proofs.Operations.Results
import RelGraph.Proofs.Service.Interleaving
/-!
What a root field publishes in the turn in which it is resolved. It goes through the entries of the
first of its nodes, row by row of its result, and through those below a field for the rows that it
finds for the field; so it comes to every field that is written there directly, if the fields on the
way are found for what they are. Fields inside a fragment, and fields of the other nodes, are told to
the resolver, but they publish nothing; and neither does anything where the result is null.
-/
namespace RelGraph.Service

open Outcome
open Exports (Leads Level publications publishedName? rowsIn)
open Graphql (Entry FieldNode Request RootField isKept)
open Hydration (Shown)
open Operations (LosesRelation Read State Step selectsAgain)

variable {svc : Service} {r : Request} {p : Progress} {f : RootField} {args : Members Value}
  {state : State} {turns later : List Turn} {t : Turn} {name : String} {v w : Value}
  {table : Table} {op : Naming.Operation} {node : FieldNode}

/-! ## The field that a turn resolves -/

/-- The field that a turn resolves, with what its resolver gives. -/
def resolved? (svc : Service) (r : Request) (p : Progress) :
    Turn → Option (RootField × Attempt Value)
  | .perform f => some (f, (svc.perform r p f).1)
  | .finish i => p.queue[i]?.map fun job =>
      (job.field, ((Operations.runRead svc.api svc.access job.read).run.run p.state).1)
  | _ => none

/-- A turn publishes what the field that it resolves publishes of its result. -/
theorem published_of_resolved {outcome : Attempt Value}
    (h : svc.resolved? r p t = some (f, outcome)) :
    svc.published r p t = svc.publications f outcome := by
  cases t with
  | perform g =>
    obtain ⟨rfl, rfl⟩ := Prod.mk.inj (Option.some.inj h)
    rfl
  | finish i =>
    obtain ⟨job, hjob, heq⟩ := Option.map_eq_some_iff.mp h
    obtain ⟨rfl, rfl⟩ := Prod.mk.inj heq
    simp only [published, hjob]
  | _ => cases h

theorem publications_eq (hexports : svc.exports = true) (hnode : f.nodes.head? = some node)
    (v : Value) : svc.publications f (.ok v) =
      Exports.fieldPublications v node.directives node.entries := by
  simp only [publications, hexports, hnode]

/-! ## What is published stays -/

theorem mem_publishedBy {kv : String × Value}
    (h : kv ∈ svc.published r (turns.foldl (svc.turn r) p) t) (later : List Turn) :
    kv ∈ svc.publishedBy r p (turns ++ t :: later) := by
  induction turns generalizing p with
  | nil => exact List.mem_append_left _ h
  | cons first turns ih => exact List.mem_append_right _ (ih h)

/-- A name under which a turn publishes has a value from then on. -/
theorem has_of_published (h : (name, v) ∈ svc.published r (svc.course r state turns) t)
    (later : List Turn) : (svc.course r state (turns ++ t :: later)).store.has name = true := by
  obtain ⟨es, htracked⟩ := exists_tracked svc r state (turns ++ t :: later)
  have hmem : v ∈ svc.valuesUnder r state (turns ++ t :: later) name :=
    List.mem_filterMap.mpr ⟨(name, v), mem_publishedBy h later, if_pos rfl⟩
  rw [Exports.Store.has, htracked.store, Exports.Exchange.get?_run htracked.kept,
    values_eq_valuesUnder htracked.published, Option.isSome_iff_ne_none, Ne,
    List.getLast?_eq_none_iff]
  exact List.ne_nil_of_mem hmem

/-! ## Queued reads -/

/-- A read was planned for a field with an operation of its own. -/
def PlannedFor (svc : Service) (r : Request) (f : RootField) (read : Read) : Prop :=
  ∃ table op args state, svc.operationOf r f = some (table, op) ∧
    ((svc.prepareRead r f table op args).run.run state).1 = .ok read

theorem mem_queue_start {job : Job} (h : job ∈ (svc.start r p f args).queue) :
    job ∈ p.queue ∨ svc.PlannedFor r job.field job.read := by
  cases hop : svc.operationOf r f with
  | none =>
    simp only [start, hop] at h
    exact .inl h
  | some target =>
    rcases hread : (svc.prepareRead r f target.1 target.2 args).run.run p.state with ⟨read, state⟩
    simp only [start, hop, hread] at h
    cases read with
    | error e => exact .inl h
    | ok read =>
      rcases List.mem_append.mp h with hbefore | hnew
      · exact .inl hbefore
      · obtain rfl := List.mem_singleton.mp hnew
        exact .inr ⟨target.1, target.2, args, p.state, hop, congrArg Prod.fst hread⟩

theorem mem_queue_startOrWait {job : Job} {args : Exports.Resolution}
    (h : job ∈ (svc.startOrWait r p f args).queue) :
    job ∈ p.queue ∨ svc.PlannedFor r job.field job.read := by
  cases args with
  | settled v => exact mem_queue_start h
  | _ => exact .inl h

/-- A turn queues only reads that were planned for their fields. -/
theorem mem_queue_turn {job : Job} (h : job ∈ (svc.turn r p t).queue) :
    job ∈ p.queue ∨ svc.PlannedFor r job.field job.read := by
  cases t with
  | refuse g =>
    rw [turn, refuse] at h
    split at h <;> exact .inl h
  | takeUp g =>
    rw [turn, takeUp] at h
    split at h
    · exact .inl h
    · rename_i written _
      exact mem_queue_startOrWait
        (p := { p with store := (svc.resolveArguments p.store written).2 }) h
  | perform g => exact .inl h
  | finish i =>
    rw [turn] at h
    split at h
    · exact .inl (List.mem_of_mem_eraseIdx h)
    · exact .inl h
  | goOn i =>
    rw [turn] at h
    split at h
    · rename_i w _
      exact mem_queue_startOrWait (p := { p with
        store := (w.args.resume p.store).2, waiting := p.waiting.eraseIdx i }) h
    · exact .inl h
  | timeOut i =>
    rw [turn] at h
    split at h <;> exact .inl h
  | abandon => cases h

/-- All reads that are queued in a course were planned for their fields. -/
theorem plannedFor_of_queued {job : Job} (h : job ∈ (svc.course r state turns).queue) :
    svc.PlannedFor r job.field job.read := by
  induction turns using List.reverseRecOn with
  | nil => cases h
  | append_singleton turns t ih =>
    rw [course_append] at h
    exact (mem_queue_turn h).elim ih id

/-! ## What a resolved field shows -/

theorem mem_all_of_operationOf (h : svc.operationOf r f = some (table, op)) :
    table ∈ svc.api.registry.all := by
  rw [operationOf] at h
  split at h
  · cases h
  · obtain ⟨htarget, -⟩ := Option.filter_eq_some_iff.mp h
    obtain ⟨entry, hentry, heq⟩ := Option.map_eq_some_iff.mp htarget
    have hmem := List.mem_of_mem_filter (List.mem_of_getLast? hentry)
    obtain ⟨u, hu, hnamed⟩ := List.mem_flatMap.mp hmem
    obtain ⟨o, -, rfl⟩ := List.mem_map.mp hnamed
    obtain ⟨rfl, -⟩ := Prod.mk.inj heq
    exact hu

/-- The rows that a resolved field gives are shown for what it asks for, unless they were written
and a relation is taken away with their key. -/
theorem shown_of_resolved (hnames : svc.api.registry.NamesTables)
    (hresolved : svc.resolved? r (svc.course r state turns) t = some (f, .ok v))
    (hop : svc.operationOf r f = some (table, op)) {row : Members Value} (hrow : row ∈ rowsIn v) :
    ∃ args asked, r.selectionOf f args = .ok asked ∧
      ((selectsAgain op = true → ¬ LosesRelation table asked.fields) →
        Shown svc.api.registry svc.api.config.maxDepth table asked.fields row) := by
  have htable := hnames table (mem_all_of_operationOf hop)
  cases t with
  | perform g =>
    obtain ⟨rfl, hperform⟩ := Prod.mk.inj (Option.some.inj hresolved)
    obtain ⟨args, -, hrun⟩ := Step.ofAttempt_bind_eq_ok hperform
    simp only [hop] at hrun
    obtain ⟨asked, hasked, hshown⟩ := Operations.shown_of_run htable hrun hrow
    exact ⟨args, asked, hasked, hshown⟩
  | finish i =>
    obtain ⟨job, hjob, heq⟩ := Option.map_eq_some_iff.mp hresolved
    obtain ⟨rfl, hread⟩ := Prod.mk.inj heq
    obtain ⟨table', op', args, state', hop', hplanned⟩ :=
      plannedFor_of_queued (List.mem_of_getElem? hjob)
    obtain ⟨rfl, rfl⟩ := Prod.mk.inj (Option.some.inj (hop'.symm.trans hop))
    obtain ⟨asked, hasked, hplanned⟩ := Step.ofAttempt_bind_eq_ok hplanned
    obtain ⟨read, mid, hplan, hplanned⟩ := Step.bind_eq_ok hplanned
    obtain ⟨n, hfields, hsame⟩ := Operations.asksSame_of_planRead htable (congrArg Prod.fst hplan)
    obtain rfl : read = job.read := by
      split at hplanned
      · exact Except.ok.inj hplanned
      · cases hplanned
    exact ⟨args, asked, hasked, fun _ => Operations.shown_of_runRead hfields hsame hread hrow⟩
  | _ => cases hresolved

theorem fields_of_selectionOf {asked : Selection} (h : r.selectionOf f args = .ok asked) :
    Graphql.requestEntries r.schema r.given f.definition.type.name [] (f.nodes.flatMap (·.entries)) =
      .ok asked.fields := by
  obtain ⟨fields, hfields, h⟩ := bind_eq_ok.mp h
  rw [hfields, ← pure_eq_ok.mp h]

theorem entries_subset (hnode : f.nodes.head? = some node) :
    node.entries ⊆ f.nodes.flatMap (·.entries) := fun _ he =>
  List.mem_flatMap.mpr ⟨node, List.mem_of_head? hnode, he⟩

/-! ## What is published -/

/-- When a turn resolves a field with exports on, and the resolver gives null, nothing is published;
and when it gives anything else, the first node of the field publishes it under its name, if it has
one that is not empty. Of every row in the result, and of all rows below that are come to through
fields of this node which are written directly, are left in and meet their own, each such field
that is a column or a relation publishes under its name, whatever it has there, null too. Where rows
were written this is so unless a relation is taken away with their key. What is published under a
name stays in the store. -/
theorem publishes_reached (svc : Service) (r : Request) (state : State) (turns : List Turn)
    (t : Turn) {f : RootField} {v : Value} {node : FieldNode} {table : Table}
    {op : Naming.Operation} (hexports : svc.exports = true)
    (hnames : svc.api.registry.NamesTables)
    (hresolved : svc.resolved? r (svc.course r state turns) t = some (f, .ok v))
    (hnode : f.nodes.head? = some node) (hop : svc.operationOf r f = some (table, op)) :
    (v = .null → svc.published r (svc.course r state turns) t = []) ∧
    (v ≠ .null → ∀ name, publishedName? node.directives = some name → name ≠ "" →
      (name, v) ∈ svc.published r (svc.course r state turns) t) ∧
    (∀ row ∈ rowsIn v, ∃ fields, Graphql.requestEntries r.schema r.given f.definition.type.name []
        (f.nodes.flatMap (·.entries)) = .ok fields ∧
      ((selectsAgain op = true → ¬ LosesRelation table fields) →
        ∀ l, Relation.ReflTransGen (Leads r.schema r.given svc.api.registry)
            ⟨table, f.definition.type.name, fields, node.entries, row⟩ l →
          ∀ x : FieldNode, x.entry ∈ l.entries → isKept r.given x.directives = true →
            x.isOwn = true →
            (l.table.hasColumn x.name = true ∨ (l.table.relation? x.name).isSome) →
            ∀ name, publishedName? x.directives = some name → name ≠ "" →
              ∃ w, (name, w) ∈ svc.published r (svc.course r state turns) t)) ∧
    ∀ name w, (name, w) ∈ svc.published r (svc.course r state turns) t →
      ∀ later, (svc.course r state (turns ++ t :: later)).store.has name = true := by
  have hpublished : svc.published r (svc.course r state turns) t =
      Exports.fieldPublications v node.directives node.entries :=
    (published_of_resolved hresolved).trans (publications_eq hexports hnode v)
  have hother (hnull : v.isNull = false) : svc.published r (svc.course r state turns) t =
      Exports.publication (publishedName? node.directives) v ++
        Exports.publications v node.entries := by
    rw [hpublished, Exports.fieldPublications, hnull, if_neg (by decide)]
  refine ⟨?_, ?_, ?_, fun name w hmem later => has_of_published hmem later⟩
  · rintro rfl
    rw [hpublished]
    rfl
  · intro hv name hname hne
    have hnull : v.isNull = false := by
      cases v <;> first | rfl | exact absurd rfl hv
    rw [hother hnull, Exports.publication_of_name hname hne]
    exact List.mem_cons_self
  · intro row hrow
    obtain ⟨args, asked, hasked, hshown⟩ := shown_of_resolved hnames hresolved hop hrow
    have hfields := fields_of_selectionOf hasked
    refine ⟨asked.fields, hfields, ?_⟩
    intro hkept l hreached x hx hxkept hown hfield name hname hne
    have htable := hnames table (mem_all_of_operationOf hop)
    have hholds : Level.Holds r.schema r.given svc.api.registry svc.api.config.maxDepth
        ⟨table, f.definition.type.name, asked.fields, node.entries, row⟩ :=
      Level.holds_of_told htable (hshown hkept) hfields (entries_subset hnode)
    obtain ⟨w, hw⟩ := Exports.exists_publication (hholds.of_reached hreached) hx hxkept hown hfield
      hname hne
    refine ⟨w, ?_⟩
    have hnull : v.isNull = false := by
      cases v <;> first | rfl | cases hrow
    rw [hother hnull]
    refine List.mem_append_right _ (List.mem_flatMap.mpr ⟨row, hrow, ?_⟩)
    exact Exports.publications_subset_of_reached hholds hreached hw

/-! ## Entries that are exported -/

namespace Letters

open Operations.Journal (entry)

/-- The name of an entry, exported. -/
def exportedName : FieldNode := ⟨none, "name", [], [⟨"export", [("as", .text "x")]⟩], []⟩

theorem namesTables_entries : entries.api.registry.NamesTables := by
  intro t ht
  obtain rfl : t = entry (.text false) := List.mem_singleton.mp ht
  rfl

theorem resolved_all : entries.resolved? request (entries.course request start taken) (.finish 0) =
    some (all, .ok (.list [found "l" "a", found "k" "b"])) := by
  rw [course_taken]
  simp only [resolved?, takenUp, List.getElem?_cons_zero, Option.map_some, read_everything]

/-- When all entries are found, the name of the first is published, and stays. -/
theorem name_published :
    entries.resolved? request (entries.course request start taken) (.finish 0) =
        some (all, .ok (.list [found "l" "a", found "k" "b"])) ∧
      (∃ w, ("x", w) ∈
        entries.published request (entries.course request start taken) (.finish 0)) ∧
      ∀ later,
        (entries.course request start (taken ++ .finish 0 :: later)).store.has "x" = true := by
  have hop : entries.operationOf request all = some (entry (.text false), .findMany) := by cbv
  obtain ⟨-, -, hbelow, hstays⟩ := publishes_reached entries request start taken (.finish 0) rfl
    namesTables_entries resolved_all rfl hop
  have hrow : [("id", .text "l"), ("name", .text "a")] ∈
      rowsIn (.list [found "l" "a", found "k" "b"]) := List.mem_cons_self
  obtain ⟨fields, -, hreached⟩ := hbelow _ hrow
  have hwritten : exportedName.entry ∈ [exported "id" "y", exported "name" "x"] :=
    List.mem_of_getElem? (i := 1) rfl
  have hkept : selectsAgain .findMany = true → ¬ LosesRelation (entry (.text false)) fields :=
    fun hwrites => absurd hwrites (by decide)
  obtain ⟨w, hw⟩ := hreached hkept _ .refl exportedName hwritten rfl (by decide +kernel) (.inl rfl)
    "x" rfl (by decide)
  exact ⟨resolved_all, ⟨w, hw⟩, hstays "x" w hw⟩

/-- The entries of an inline fragment that exports the keys and names of entries. -/
def inFragment : List Graphql.Entry :=
  [.within none (some "Entry") [] [exported "id" "y", exportedName.entry]]

/-- All entries, exported in a fragment. -/
def brought : RootField := find "all" [] inFragment

/-- The request for them. -/
def bringing : Request :=
  { request with entries := [.field (some "all") "entryFindMany" [] [] inFragment] }

/-- What a resolver is told of them. -/
def toldOfEntries : Selection := ⟨"entryFindMany", some "all", [],
  [("id", ⟨"id", none, [], []⟩), ("name", ⟨"name", none, [], []⟩)]⟩

/-- A name that is exported in a fragment is left in, is told to the resolver and is in the result,
and yet it is not published. -/
theorem fragment_unpublished :
    bringing.rootFields = .ok [brought] ∧
      entries.resolved? bringing (entries.course bringing start [.takeUp brought]) (.finish 0) =
        some (brought, .ok (.list [found "l" "a", found "k" "b"])) ∧
      exportedName ∈ Entry.fieldsIn (isKept bringing.given) inFragment ∧
      publishedName? exportedName.directives = some "x" ∧
      bringing.selectionOf brought [] = .ok toldOfEntries ∧
      entries.published bringing (entries.course bringing start [.takeUp brought]) (.finish 0) =
        [] ∧
      (entries.course bringing start [.takeUp brought, .finish 0]).store.has "x" = false := by
  have hqueue : (entries.course bringing start [.takeUp brought]).queue =
      [⟨brought, ⟨everything, false⟩⟩] := by cbv
  have hstate : (entries.course bringing start [.takeUp brought]).state = start := by cbv
  have hresolved : entries.resolved? bringing (entries.course bringing start [.takeUp brought])
      (.finish 0) = some (brought, .ok (.list [found "l" "a", found "k" "b"])) := by
    simp only [resolved?, hqueue, hstate, List.getElem?_cons_zero, Option.map_some,
      read_everything]
  have hquiet : entries.published bringing (entries.course bringing start [.takeUp brought])
      (.finish 0) = [] := by
    rw [published_of_resolved hresolved]
    cbv
  have hstore : (entries.course bringing start [.takeUp brought, .finish 0]).store =
      (entries.course bringing start [.takeUp brought]).store.publishAll
        (entries.published bringing (entries.course bringing start [.takeUp brought])
          (.finish 0)) := by
    show (entries.turn bringing (entries.course bringing start [.takeUp brought])
      (.finish 0)).store = _
    simp only [turn, published, hqueue, List.getElem?_cons_zero]
    rfl
  refine ⟨by cbv, hresolved, List.mem_of_getElem? (i := 1) rfl, rfl, by cbv, hquiet, ?_⟩
  rw [hstore, hquiet]
  cbv

end Letters

end RelGraph.Service
