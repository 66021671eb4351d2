import RelGraph.Graphql.Execution
import RelGraph.Proofs.Graphql.Fragments
import RelGraph.Proofs.Graphql.Grouping
/-!
What a resolver is told is asked for below its field, beside what execution collects there. The one
goes through the entries at once and writes the fields of all levels as they come up; the other
collects level by level, and goes through a fragment once at each. Where no type condition leaves
anything out, both come to the same fields, with the same names and arguments.
-/
namespace RelGraph.Graphql

open Outcome

variable {s : Schema} {vars : Variables} {type : String} {e : Entry} {es : List Entry}
  {node : FieldNode} {ds : List Directive} {keep : List Directive → Bool}

/-! ## What execution collects -/

/-- Whether a name is that of an object type. -/
def Schema.isObject (s : Schema) (name : String) : Bool :=
  match s.type? name with
  | some (.object ..) => true
  | _ => false

/-- Whether a field is about its value, and not about the schema. -/
def FieldNode.isOwn (n : FieldNode) : Bool := !n.name.startsWith "__"

/-- What is below fields of a type: what is found for an object type, and nothing for another. -/
def belowObject (s : Schema) (below : String → List FieldNode → Attempt (List (String × Selection)))
    (type : String) (nodes : List FieldNode) : Attempt (List (String × Selection)) :=
  if s.isObject type then below type nodes else .ok []

/-- What execution comes to for a key of an object: the name and the arguments of its first field,
with what is collected below it. Fields about the schema are left aside. -/
def executedGroup (s : Schema) (vars : Variables)
    (below : String → List FieldNode → Attempt (List (String × Selection))) (object : String)
    (group : String × List FieldNode) : Attempt (Option (String × Selection)) :=
  let (key, nodes) := group
  if nodes.head?.any FieldNode.isOwn then
    match s.anyField? object (nameOf nodes) with
    | none => .ok none
    | some d => do
      let args ← argumentsOf s vars d nodes
      let fields ← belowObject s below d.type.name nodes
      return some (key, ⟨nameOf nodes, nodes.head?.bind (·.label), args, fields⟩)
  else .ok none

/-- The tree of what execution collects below fields of one key, for values of an object type and
down to some levels. -/
def executed (s : Schema) (vars : Variables) :
    Nat → String → List FieldNode → Attempt (List (String × Selection))
  | 0, _, _ => .ok []
  | levels + 1, object, nodes => do
    let groups ← collectBelow s vars object nodes
    groups.filterMapM (executedGroup s vars (executed s vars levels) object)

/-! ## The fields of a level -/

namespace Entry

mutual

/-- The fields that an entry brings in, of the entries that are kept. -/
def fields (keep : List Directive → Bool) : Entry → List FieldNode
  | .field label name args directives entries =>
    if keep directives then [⟨label, name, args, directives, entries⟩] else []
  | .spread _ _ => []
  | .within _ _ directives entries => if keep directives then fieldsIn keep entries else []

/-- The fields that entries bring in, of the entries that are kept. -/
def fieldsIn (keep : List Directive → Bool) : List Entry → List FieldNode
  | [] => []
  | e :: rest => fields keep e ++ fieldsIn keep rest

end

mutual

/-- An entry and all entries inside it, each with the type that it is selected on; there are none
below a field that its type does not have. -/
def selected (s : Schema) (type : String) : Entry → List (String × Entry)
  | .field label name args directives entries =>
    (type, .field label name args directives entries) ::
      match s.field? type name with
      | some d => selectedIn s d.type.name entries
      | none => []
  | .spread fragment directives => [(type, .spread fragment directives)]
  | .within fragment condition directives entries =>
    (type, .within fragment condition directives entries) :: selectedIn s type entries

/-- Entries and all entries inside them, each with the type that it is selected on. -/
def selectedIn (s : Schema) (type : String) : List Entry → List (String × Entry)
  | [] => []
  | e :: rest => selected s type e ++ selectedIn s type rest

end

theorem fieldsIn_eq_flatMap : ∀ es : List Entry, fieldsIn keep es = es.flatMap (fields keep)
  | [] => rfl
  | e :: rest => by rw [fieldsIn, List.flatMap_cons, fieldsIn_eq_flatMap rest]

theorem mem_fieldsIn : node ∈ fieldsIn keep es ↔ ∃ e ∈ es, node ∈ fields keep e := by
  rw [fieldsIn_eq_flatMap, List.mem_flatMap]

/-- The fields below several fields are those below each of them. -/
theorem fieldsIn_flatMap (nodes : List FieldNode) :
    fieldsIn keep (nodes.flatMap (·.entries)) =
      nodes.flatMap fun n => fieldsIn keep n.entries := by
  simp only [fieldsIn_eq_flatMap, List.flatMap_assoc]

theorem mem_selectedIn {te : String × Entry} :
    ∀ {es : List Entry}, te ∈ selectedIn s type es ↔ ∃ e ∈ es, te ∈ selected s type e
  | [] => by simp [selectedIn]
  | e :: rest => by simp [selectedIn, @mem_selectedIn te rest]

theorem depthOf_le {levels : Nat} : depthOf es ≤ levels ↔ ∀ e ∈ es, depth e ≤ levels := by
  induction es with
  | nil => simp [depthOf]
  | cons e es ih => rw [depthOf, Nat.max_le, ih, List.forall_mem_cons]

/-- Whether a field stands in entries: on its own, or under conditions. -/
inductive Stands (node : FieldNode) : List Entry → Prop
  | field {es : List Entry}
      (h : .field node.label node.name node.args node.directives node.entries ∈ es) :
      Stands node es
  | within {es inner : List Entry} {fragment condition : Option String} {ds : List Directive}
      (h : .within fragment condition ds inner ∈ es) (hinner : Stands node inner) : Stands node es

theorem Stands.mono {es' : List Entry} (h : Stands node es) (hsub : es ⊆ es') :
    Stands node es' := by
  cases h with
  | field h => exact .field (hsub h)
  | within h hinner => exact .within (hsub h) hinner

mutual

theorem stands_of_mem_fields : ∀ {e : Entry}, node ∈ fields keep e → Stands node [e]
  | .field .., h => by
    rw [fields] at h
    split at h
    · obtain rfl := List.mem_singleton.mp h
      exact .field (by simp)
    · cases h
  | .spread .., h => by simp [fields] at h
  | .within .., h => by
    rw [fields] at h
    split at h
    · exact .within (List.mem_singleton_self _) (stands_of_mem_fieldsIn h)
    · cases h

theorem stands_of_mem_fieldsIn : ∀ {es : List Entry}, node ∈ fieldsIn keep es → Stands node es
  | [], h => by simp [fieldsIn] at h
  | e :: rest, h => by
    rw [fieldsIn, List.mem_append] at h
    rcases h with h | h
    · exact (stands_of_mem_fields h).mono (by simp)
    · exact (stands_of_mem_fieldsIn h).mono (by simp)

end

namespace Stands

theorem mem_fieldsIn_all (h : Stands node es) : node ∈ fieldsIn (fun _ => true) es := by
  induction h with
  | field h => exact mem_fieldsIn.mpr ⟨_, h, by simp [fields]⟩
  | within h _ ih => exact mem_fieldsIn.mpr ⟨_, h, by simpa [fields] using ih⟩

theorem partsIn_subset (h : Stands node es) : partsIn node.entries ⊆ partsIn es := by
  induction h with
  | field h => exact fun e he => mem_partsIn.mpr ⟨_, h, by simp [parts, he]⟩
  | within h _ ih => exact fun e he => mem_partsIn.mpr ⟨_, h, by simp [parts, ih he]⟩

theorem mem_partsIn_self (h : Stands node es) :
    .field node.label node.name node.args node.directives node.entries ∈ partsIn es := by
  induction h with
  | field h => exact mem_partsIn.mpr ⟨_, h, mem_parts_self _⟩
  | within h _ ih => exact mem_partsIn.mpr ⟨_, h, by simp [parts, ih]⟩

theorem mem_selectedIn_self (h : Stands node es) :
    (type, .field node.label node.name node.args node.directives node.entries) ∈
      selectedIn s type es := by
  induction h with
  | field h => exact mem_selectedIn.mpr ⟨_, h, by simp [selected]⟩
  | within h _ ih => exact mem_selectedIn.mpr ⟨_, h, by simp [selected, ih]⟩

theorem selectedIn_subset {d : FieldDefinition} (h : Stands node es)
    (hd : s.field? type node.name = some d) :
    selectedIn s d.type.name node.entries ⊆ selectedIn s type es := by
  induction h with
  | field h => exact fun te hte => mem_selectedIn.mpr ⟨_, h, by simp [selected, hd, hte]⟩
  | within h _ ih => exact fun te hte => mem_selectedIn.mpr ⟨_, h, by simp [selected, ih hte]⟩

theorem depthOf_lt (h : Stands node es) : depthOf node.entries < depthOf es := by
  induction h with
  | field h =>
    have hle := depthOf_le.mp (Nat.le_refl _) _ h
    rw [depth] at hle
    omega
  | within h _ ih =>
    have hle := depthOf_le.mp (Nat.le_refl _) _ h
    rw [depth] at hle
    omega

end Stands

end Entry

open Entry

/-! ## Conditions -/

/-- Whether the conditions of `skip` and `include` come to truth values, where there are any. -/
def isDecided (vars : Variables) (ds : List Directive) : Bool :=
  ["skip", "include"].all fun name =>
    match statedBy vars ds name with
    | .ok none | .ok (some (.bool _)) => true
    | _ => false

theorem statedBy_of_isDecided (h : isDecided vars ds = true) (name : String)
    (hname : name ∈ ["skip", "include"]) :
    statedBy vars ds name = .ok none ∨ ∃ b, statedBy vars ds name = .ok (some (.bool b)) := by
  have hstated := List.all_eq_true.mp h name hname
  split at hstated
  · exact .inl ‹_›
  · exact .inr ⟨_, ‹_›⟩
  · cases hstated

/-- Whether directives leave an entry in; those that fail do not. -/
def isKept (vars : Variables) (ds : List Directive) : Bool :=
  (isIncluded vars ds).toOption.getD false

/-- Truth values leave out the same for execution and for what a resolver is told. -/
theorem isKept_eq (h : isDecided vars ds = true) :
    isIncluded vars ds = .ok (isKept vars ds) ∧ isTold vars ds = .ok (isKept vars ds) := by
  have hskip := statedBy_of_isDecided h "skip" (by simp)
  have hinclude := statedBy_of_isDecided h "include" (by simp)
  rcases hskip with hskip | ⟨b, hskip⟩ <;> rcases hinclude with hinclude | ⟨c, hinclude⟩ <;>
    rw [isKept, isIncluded, isTold, hskip, hinclude]
  · exact ⟨rfl, rfl⟩
  · cases c <;> exact ⟨rfl, rfl⟩
  · cases b <;> exact ⟨rfl, rfl⟩
  · cases b <;> cases c <;> exact ⟨rfl, rfl⟩

/-! ## What a resolver is told -/

/-- What a resolver is told of a field, after what it has been told of the key of the field. -/
def tellField (s : Schema) (vars : Variables) (parent : String) (before : Option Selection)
    (node : FieldNode) : Attempt Selection :=
  match s.field? parent node.name with
  | none => mergedWith node.key node.name node.label [] before
  | some d => do
    let args ← Coercion.arguments s vars d.args node.args
    let selection ← mergedWith node.key node.name node.label args before
    let below ← requestEntries s vars d.type.name selection.fields node.entries
    return { selection with fields := below }

/-- What a resolver is told of fields, one after the other. -/
def tellFields (s : Schema) (vars : Variables) (parent : String)
    (found : List (String × Selection)) (nodes : List FieldNode) :
    Attempt (List (String × Selection)) :=
  nodes.foldlM (fun found node => do
    return Members.put found node.key
      (← tellField s vars parent (Members.get? found node.key) node)) found

theorem tellFields_append {found : List (String × Selection)} (nodes more : List FieldNode) :
    tellFields s vars type found (nodes ++ more) =
      tellFields s vars type found nodes >>= fun found => tellFields s vars type found more :=
  List.foldlM_append ..

mutual

/-- To go through an entry is to go through the fields that it brings in. -/
theorem requestEntry_eq (found : List (String × Selection)) :
    ∀ e : Entry, (∀ e' ∈ parts e, isDecided vars e'.directives = true) → Whole [e] →
      requestEntry s vars type found e =
        tellFields s vars type found ((fields (isKept vars) e).filter (·.isOwn))
  | .field label name args ds es, hdecided, _ => by
    have htold : isTold vars ds = pure (isKept vars ds) :=
      (isKept_eq (hdecided _ (mem_parts_self _))).2
    rw [requestEntry, fields, htold]
    cases isKept vars ds with
    | false => rfl
    | true =>
      cases hown : name.startsWith "__" with
      | true =>
        rw [if_pos rfl, List.filter_cons_of_neg (by simp [FieldNode.isOwn, hown])]
        rfl
      | false =>
        rw [if_pos rfl, List.filter_cons_of_pos (by simp [FieldNode.isOwn, hown]), tellFields,
          List.filter_nil, List.foldlM_cons, tellField]
        cases s.field? type name <;> simp [FieldNode.key]
  | .spread .., _, hwhole => hwhole.not_spread.elim
  | .within fragment condition ds es, hdecided, hwhole => by
    have htold : isTold vars ds = pure (isKept vars ds) :=
      (isKept_eq (hdecided _ (mem_parts_self _))).2
    rw [requestEntry, fields, htold]
    cases isKept vars ds with
    | false => rfl
    | true =>
      exact requestEntries_eq found es (fun e he => hdecided e (by simp [parts, he])) hwhole.within

theorem requestEntries_eq (found : List (String × Selection)) :
    ∀ es : List Entry, (∀ e ∈ partsIn es, isDecided vars e.directives = true) → Whole es →
      requestEntries s vars type found es =
        tellFields s vars type found ((fieldsIn (isKept vars) es).filter (·.isOwn))
  | [], _, _ => rfl
  | e :: rest, hdecided, hwhole => by
    rw [partsIn, List.forall_mem_append] at hdecided
    rw [requestEntries, requestEntry_eq found e hdecided.1 hwhole.head, fieldsIn,
      List.filter_append, tellFields_append]
    exact congrArg _ (funext fun found => requestEntries_eq found rest hdecided.2 hwhole.tail)

end

/-! ## Fragments gone through once -/

/-- Whether a type condition leaves nothing out, and a field with a selection is of an object
type. -/
def Entry.applies (s : Schema) (type : String) : Entry → Bool
  | .field _ name _ _ entries =>
    entries.isEmpty || (s.field? type name).all fun d => s.isObject d.type.name
  | .spread .. => true
  | .within _ condition _ _ => condition.all (s.isPossible · type)

section Visits

variable {held : String → Option String × List Entry} {seen : List FieldNode} {c : Collected}

/-- Whether the fields that fragments bring in are among some. -/
def Brought (vars : Variables) (held : String → Option String × List Entry) (nodes : List FieldNode)
    (fragment : String) : Prop :=
  fieldsIn (isKept vars) (held fragment).2 ⊆ nodes

theorem Brought.mono {nodes nodes' : List FieldNode} {fragment : String}
    (h : Brought vars held nodes fragment) (hsub : nodes ⊆ nodes') :
    Brought vars held nodes' fragment :=
  List.Subset.trans h hsub

mutual

/-- To leave out a fragment that has been gone through leaves out fields that are there. -/
theorem collectEntry_thins (c : Collected) (seen : List FieldNode) :
    ∀ e : Entry, (∀ e' ∈ parts e, isDecided vars e'.directives = true) →
      (∀ e' ∈ parts e, IsOf held e') → (∀ te ∈ selected s type e, te.2.applies s te.1 = true) →
      (∀ n ∈ c.visited, n ∈ marks e → Brought vars held seen n) →
      ∃ nodes visited, collectEntry s vars type c e =
          .ok ⟨nodes.foldl FieldGroups.add c.groups, visited⟩ ∧
        Thins seen nodes (fields (isKept vars) e) ∧
        ∀ n ∈ visited, n ∈ c.visited ∨ Brought vars held (nodes ++ seen) n
  | .field label name args ds es, hdecided, _, _, _ => by
    have hincluded : isIncluded vars ds = pure (isKept vars ds) :=
      (isKept_eq (hdecided _ (mem_parts_self _))).1
    rw [collectEntry, fields, hincluded]
    cases isKept vars ds with
    | false => exact ⟨[], c.visited, rfl, .nil, fun n hn => .inl hn⟩
    | true => exact ⟨[_], c.visited, rfl, .refl _ _, fun n hn => .inl hn⟩
  | .spread .., _, _, _, _ => ⟨[], c.visited, rfl, .nil, fun n hn => .inl hn⟩
  | .within fragment condition ds es, hdecided, hof, happlies, hseen => by
    have hincluded : isIncluded vars ds = pure (isKept vars ds) :=
      (isKept_eq (hdecided _ (mem_parts_self _))).1
    have happly : condition.all (s.isPossible · type) = true :=
      happlies (type, .within fragment condition ds es) (by simp [selected])
    have hheld : ∀ n, fragment = some n → (held n).2 = es := by
      rintro n rfl
      have h : held n = (condition, es) := hof _ (mem_parts_self _)
      rw [h]
    rw [collectEntry, fields]
    by_cases hvisited : fragment.any c.visited.contains
    · rw [if_pos hvisited]
      refine ⟨[], c.visited, rfl, .of_subset ?_, fun n hn => .inl hn⟩
      obtain ⟨n, rfl, hn⟩ : ∃ n, fragment = some n ∧ n ∈ c.visited := by
        cases fragment with
        | none => cases hvisited
        | some n => exact ⟨n, rfl, by simpa using hvisited⟩
      split
      · have hbrought := hseen n hn (by simp [marks])
        rwa [Brought, hheld n rfl] at hbrought
      · exact List.nil_subset _
    · rw [if_neg hvisited, hincluded]
      cases isKept vars ds with
      | false => exact ⟨[], c.visited, rfl, .nil, fun n hn => .inl hn⟩
      | true =>
        -- The fragment is marked before it is gone through, and does not come up inside itself.
        have hinner : ∀ n ∈ (c.visit fragment).visited, n ∈ marksIn es →
            Brought vars held seen n := by
          intro n hn hmark
          rcases List.mem_append.mp hn with hn | hn
          · have hfragment : fragment = some n := by simpa using hn
            rw [← hheld n hfragment] at hmark
            refine absurd hmark (not_mem_marksIn_held fun e he => hof e ?_)
            rw [hheld n hfragment] at he
            simp [parts, he]
          · exact hseen n hn (by simp [marks, hmark])
        obtain ⟨nodes, visited, hcollect, hthins, hbrought⟩ := collectEntries_thins
          (c.visit fragment) seen es (fun e he => hdecided e (by simp [parts, he]))
          (fun e he => hof e (by simp [parts, he]))
          (fun te hte => happlies te (by simp [selected, hte])) hinner
        refine ⟨nodes, visited, ?_, hthins, fun n hn => ?_⟩
        · have hgroups : (c.visit fragment).groups = c.groups := rfl
          simpa [happly, hgroups] using hcollect
        · rcases hbrought n hn with hn | hn
          · rcases List.mem_append.mp hn with hn | hn
            · refine .inr ?_
              rw [Brought, hheld n (by simpa using hn)]
              exact hthins.subset
            · exact .inl hn
          · exact .inr hn

theorem collectEntries_thins (c : Collected) (seen : List FieldNode) :
    ∀ es : List Entry, (∀ e ∈ partsIn es, isDecided vars e.directives = true) →
      (∀ e ∈ partsIn es, IsOf held e) → (∀ te ∈ selectedIn s type es, te.2.applies s te.1 = true) →
      (∀ n ∈ c.visited, n ∈ marksIn es → Brought vars held seen n) →
      ∃ nodes visited, collectEntries s vars type c es =
          .ok ⟨nodes.foldl FieldGroups.add c.groups, visited⟩ ∧
        Thins seen nodes (fieldsIn (isKept vars) es) ∧
        ∀ n ∈ visited, n ∈ c.visited ∨ Brought vars held (nodes ++ seen) n
  | [], _, _, _, _ => ⟨[], c.visited, rfl, .nil, fun n hn => .inl hn⟩
  | e :: rest, hdecided, hof, happlies, hseen => by
    rw [partsIn, List.forall_mem_append] at hdecided hof
    rw [selectedIn, List.forall_mem_append] at happlies
    obtain ⟨nodes, visited, hfirst, hthins, hbrought⟩ := collectEntry_thins c seen e hdecided.1
      hof.1 happlies.1 fun n hn hmark => hseen n hn (by simp [marksIn, hmark])
    obtain ⟨more, visited', hrest, hthins', hbrought'⟩ := collectEntries_thins
      ⟨nodes.foldl FieldGroups.add c.groups, visited⟩ (nodes ++ seen) rest hdecided.2 hof.2
      happlies.2 fun n hn hmark => by
        rcases hbrought n hn with hn | hn
        · exact (hseen n hn (by simp [marksIn, hmark])).mono (List.subset_append_right _ _)
        · exact hn
    refine ⟨nodes ++ more, visited', ?_, hthins.append hthins', fun n hn => ?_⟩
    · rw [collectEntries, hfirst, List.foldl_append]
      exact hrest
    · have hsub : more ++ (nodes ++ seen) ⊆ nodes ++ more ++ seen := fun x hx => by
        simpa [or_left_comm] using hx
      rcases hbrought' n hn with hn | hn
      · exact (hbrought n hn).imp_right fun hn =>
          hn.mono (List.Subset.trans (List.subset_append_right _ _) hsub)
      · exact .inr (hn.mono hsub)

end

end Visits

end RelGraph.Graphql
