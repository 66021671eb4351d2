import Mathlib
import RelGraph.Graphql.RequestRules
import RelGraph.Proofs.Graphql.Coercion
import RelGraph.Proofs.Graphql.Collection
/-!
The tree that a resolver is told against the fields that execution collects. Fields of one key are
told as one, with what all of them have below; execution takes the first of them and collects below
all of them. By induction on the levels both come to the same wherever type conditions leave nothing
out.
-/
namespace RelGraph.Graphql

open Outcome Entry

variable {s : Schema} {vars : Variables} {type : String} {es : List Entry} {node : FieldNode}

/-! ## What the rules for requests guarantee -/

/-- Whether a field is one of its type, or tells about the schema. -/
def Entry.isKnown (s : Schema) (type : String) : Entry → Bool
  | .field _ name _ _ _ => name.startsWith "__" || (s.field? type name).isSome
  | _ => true

/-- Whether the fields of two selections on a type can be merged, down to some levels: fields of one
response key have one name and arguments that state the same, and can be merged below. -/
def Merge (s : Schema) : Nat → String → List Entry → List Entry → Prop
  | 0, _, _, _ => True
  | levels + 1, type, es, es' =>
    ∀ x ∈ fieldsIn (fun _ => true) es, ∀ y ∈ fieldsIn (fun _ => true) es', x.key = y.key →
      x.name = y.name ∧ Arguments.Agree x.args y.args ∧
        ∀ d, s.field? type x.name = some d → Merge s levels d.type.name x.entries y.entries

/-- Whether the key of a field settles what is asked for under it. -/
def Entry.IsSettled (asked : String → String × Arguments) : Entry → Prop
  | .field label name args _ _ => asked (label.getD name) = (name, args)
  | _ => True

/-- Fields can be merged where keys settle what is asked for. -/
theorem Merge.of_isSettled {es' : List Entry} {asked : String → String × Arguments}
    (h : ∀ e ∈ partsIn es, e.IsSettled asked) (h' : ∀ e ∈ partsIn es', e.IsSettled asked)
    (levels : Nat) : Merge s levels type es es' := by
  induction levels generalizing type es es' with
  | zero => trivial
  | succ levels ih =>
    intro x hx y hy hkey
    have hx := stands_of_mem_fieldsIn hx
    have hy := stands_of_mem_fieldsIn hy
    have hxasked : asked x.key = (x.name, x.args) := h _ hx.mem_partsIn_self
    have hyasked : asked y.key = (y.name, y.args) := h' _ hy.mem_partsIn_self
    rw [hkey, hyasked] at hxasked
    obtain ⟨hname, hargs⟩ := Prod.mk.inj hxasked
    refine ⟨hname.symm, hargs ▸ .refl _, fun d _ => ih ?_ ?_⟩
    · exact fun e he => h e (hx.partsIn_subset he)
    · exact fun e he => h' e (hy.partsIn_subset he)

/-- Entries on a type as the rules for requests accept them. -/
structure Accepted (s : Schema) (vars : Variables) (type : String) (es : List Entry) : Prop where
  /-- Fields are there. -/
  known : ∀ te ∈ selectedIn s type es, te.2.isKnown s te.1 = true
  /-- Conditions of `skip` and `include` are truth values. -/
  decided : ∀ e ∈ partsIn es, isDecided vars e.directives = true
  /-- Fields of one response key ask for the same. -/
  merge : ∀ levels, Merge s levels type es es

/-- Whether type conditions leave nothing out of entries on a type, all levels of which are of
object types. -/
def Unconditional (s : Schema) (type : String) (es : List Entry) : Prop :=
  ∀ te ∈ selectedIn s type es, te.2.applies s te.1 = true

/-! ## Below the fields of one key -/

/-- Whether fields stand in entries under one response key. -/
def OfKey (es : List Entry) (key : String) (ns : List FieldNode) : Prop :=
  ∀ x ∈ ns, Stands x es ∧ x.key = key

section Below

variable {ns ns' : List FieldNode} {x y : FieldNode} {d : FieldDefinition} {key : String}

theorem partsIn_flatMap_subset (h : ∀ x ∈ ns, Stands x es) :
    partsIn (ns.flatMap (·.entries)) ⊆ partsIn es := fun e he => by
  obtain ⟨e', he', he⟩ := mem_partsIn.mp he
  obtain ⟨x, hx, he'⟩ := List.mem_flatMap.mp he'
  exact (h x hx).partsIn_subset (mem_partsIn.mpr ⟨e', he', he⟩)

theorem selectedIn_flatMap_subset (h : ∀ x ∈ ns, Stands x es ∧ s.field? type x.name = some d) :
    selectedIn s d.type.name (ns.flatMap (·.entries)) ⊆ selectedIn s type es := fun te hte => by
  obtain ⟨e, he, hte⟩ := mem_selectedIn.mp hte
  obtain ⟨x, hx, he⟩ := List.mem_flatMap.mp he
  exact (h x hx).1.selectedIn_subset (h x hx).2 (mem_selectedIn.mpr ⟨e, he, hte⟩)

theorem Merge.flatMap {levels : Nat}
    (h : ∀ x ∈ ns, ∀ y ∈ ns', Merge s levels type x.entries y.entries) :
    Merge s levels type (ns.flatMap (·.entries)) (ns'.flatMap (·.entries)) := by
  cases levels with
  | zero => trivial
  | succ levels =>
    intro x hx y hy
    rw [fieldsIn_flatMap] at hx hy
    obtain ⟨x', hx', hx⟩ := List.mem_flatMap.mp hx
    obtain ⟨y', hy', hy⟩ := List.mem_flatMap.mp hy
    exact h x' hx' y' hy' x hx y hy

theorem depthOf_flatMap_le {levels : Nat} (h : ∀ x ∈ ns, depthOf x.entries ≤ levels) :
    depthOf (ns.flatMap (·.entries)) ≤ levels := by
  refine depthOf_le.mpr fun e he => ?_
  obtain ⟨x, hx, he⟩ := List.mem_flatMap.mp he
  exact depthOf_le.mp (h x hx) e he

/-- Fields of one key have one name, and their arguments state the same. -/
theorem Accepted.agree (h : Accepted s vars type es) (hx : Stands x es) (hy : Stands y es)
    (hkey : x.key = y.key) : x.name = y.name ∧ Arguments.Agree x.args y.args := by
  obtain ⟨hname, hargs, -⟩ := h.merge 1 x hx.mem_fieldsIn_all y hy.mem_fieldsIn_all hkey
  exact ⟨hname, hargs⟩

theorem Accepted.agree_of_key (h : Accepted s vars type es) (hns : OfKey es key ns) (hx : x ∈ ns)
    (hy : y ∈ ns) : x.name = y.name ∧ Arguments.Agree x.args y.args := by
  obtain ⟨hx, hxkey⟩ := hns x hx
  obtain ⟨hy, hykey⟩ := hns y hy
  exact h.agree hx hy (hxkey.trans hykey.symm)

/-- A field that is not about the schema is one of its type. -/
theorem Accepted.exists_field (h : Accepted s vars type es) (hx : Stands x es)
    (hown : x.isOwn = true) : ∃ d, s.field? type x.name = some d := by
  have hknown : (x.name.startsWith "__" || (s.field? type x.name).isSome) = true :=
    h.known _ hx.mem_selectedIn_self
  rcases Bool.or_eq_true_iff.mp hknown with habout | hsome
  · rw [FieldNode.isOwn, habout] at hown
    cases hown
  · exact Option.isSome_iff_exists.mp hsome

end Below

/-! ## One key -/

theorem requestEntries_append (found : List (String × Selection)) (es es' : List Entry) :
    requestEntries s vars type found (es ++ es') =
      requestEntries s vars type found es >>= fun found =>
        requestEntries s vars type found es' := by
  induction es generalizing found with
  | nil => rfl
  | cons e es ih =>
    rw [List.cons_append, requestEntries, requestEntries, bind_assoc]
    exact congrArg _ (funext fun found => ih found)

/-- What is told of a field adds what it has below to what has been told of its key. -/
theorem tellField_some {sel : Selection} {d : FieldDefinition} {args : Members Value}
    (hd : s.field? type node.name = some d)
    (hargs : Coercion.arguments s vars d.args node.args = .ok args) (hname : sel.name = node.name)
    (halike : Value.alike (.object sel.args) (.object args) = true) :
    tellField s vars type (some sel) node = do
      let below ← requestEntries s vars d.type.name sel.fields node.entries
      return { sel with fields := below } := by
  have hmerged : mergedWith node.key node.name node.label args (some sel) = .ok sel := by
    rw [mergedWith, if_pos (by simp [hname, halike])]
  rw [tellField, hd]
  dsimp only
  rw [bind_of_eq_ok hargs, bind_of_eq_ok hmerged]

/-- Of several fields of one key a resolver is told the first, with what all of them have below. -/
theorem gatherOne_tellField {x : FieldNode} {xs : List FieldNode} {d : FieldDefinition}
    (hd : s.field? type x.name = some d)
    (hsame : ∀ y ∈ xs, x.name = y.name ∧ Arguments.Agree x.args y.args) {sel : Selection} :
    gatherOne (tellField s vars type) (x :: xs) = .ok (some sel) ↔
      Coercion.arguments s vars d.args x.args = .ok sel.args ∧
        requestEntries s vars d.type.name [] ((x :: xs).flatMap (·.entries)) = .ok sel.fields ∧
        sel.name = x.name ∧ sel.label = x.label := by
  induction xs using List.reverseRecOn generalizing sel with
  | nil =>
    rw [← List.nil_append [x], gatherOne_concat, List.nil_append, List.flatMap_singleton]
    show (do return some (← tellField s vars type none x)) = Except.ok (some sel) ↔ _
    rw [tellField, hd]
    simp only [bind_eq_ok, pure_eq_ok, Option.some.injEq, mergedWith, Except.ok.injEq]
    constructor
    · rintro ⟨_, ⟨args, hargs, _, rfl, below, hbelow, rfl⟩, rfl⟩
      exact ⟨hargs, hbelow, rfl, rfl⟩
    · rintro ⟨hargs, hbelow, hname, hlabel⟩
      refine ⟨_, ⟨_, hargs, _, rfl, _, hbelow, rfl⟩, ?_⟩
      obtain ⟨name, label, args, fields⟩ := sel
      exact congrArg₂ (Selection.mk · · args fields) hname.symm hlabel.symm
  | append_singleton xs y ih =>
    have ih := @ih fun z hz => hsame z (List.mem_append_left _ hz)
    obtain ⟨hname, hagree⟩ := hsame y (by simp)
    rw [← List.cons_append, gatherOne_concat, List.flatMap_append, List.flatMap_singleton,
      requestEntries_append]
    have htell : ∀ before : Selection, before.name = x.name →
        Coercion.arguments s vars d.args x.args = .ok before.args →
        tellField s vars type (some before) y = do
          let below ← requestEntries s vars d.type.name before.fields y.entries
          return { before with fields := below } := by
      intro before hbefore hargs
      obtain ⟨args, hargs', halike⟩ := Coercion.exists_arguments_of_agree hagree hargs
      exact tellField_some (hname ▸ hd) hargs' (hbefore.trans hname) halike
    simp only [bind_eq_ok, pure_eq_ok, Option.some.injEq]
    constructor
    · rintro ⟨_, hfirst, sel', hlast, rfl⟩
      obtain ⟨before, rfl⟩ := exists_of_gatherOne hfirst (List.cons_ne_nil _ _)
      obtain ⟨hargs, hbelow, hname, hlabel⟩ := ih.mp hfirst
      rw [htell before hname hargs] at hlast
      obtain ⟨below, hmore, hlast⟩ := bind_eq_ok.mp hlast
      obtain rfl := pure_eq_ok.mp hlast
      exact ⟨hargs, ⟨before.fields, hbelow, hmore⟩, hname, hlabel⟩
    · rintro ⟨hargs, ⟨found, hbelow, hmore⟩, hname, hlabel⟩
      obtain ⟨name, label, args, fields⟩ := sel
      have hfirst := (@ih ⟨name, label, args, found⟩).mpr ⟨hargs, hbelow, hname, hlabel⟩
      refine ⟨_, hfirst, _, ?_, rfl⟩
      rw [htell ⟨name, label, args, found⟩ hname hargs]
      exact bind_eq_ok.mpr ⟨fields, hmore, rfl⟩

/-! ## What execution comes to for one key -/

section Key

variable {below : String → List FieldNode → Attempt (List (String × Selection))} {x : FieldNode}
  {xs nodes : List FieldNode} {d : FieldDefinition} {key : String}

theorem anyField?_of_isOwn {name : String} (h : name.startsWith "__" = false) :
    s.anyField? type name = s.field? type name := by
  have hne : ∀ special : FieldDefinition, special.name.startsWith "__" = true →
      name ≠ special.name := fun special hspecial heq => by
    rw [heq, hspecial] at h
    cases h
  rw [Schema.anyField?, if_neg (hne Schema.typeNameField (by decide +kernel)),
    if_neg fun hschema => hne Schema.schemaField (by decide +kernel) (by simp_all),
    if_neg fun htype => hne Schema.typeField (by decide +kernel) (by simp_all)]

theorem executedGroup_eq (hown : x.isOwn = true) (hd : s.field? type x.name = some d) :
    executedGroup s vars below type (key, x :: xs) = do
      let args ← Coercion.arguments s vars d.args x.args
      let fields ← belowObject s below d.type.name (x :: xs)
      return some (key, ⟨x.name, x.label, args, fields⟩) := by
  have hany : s.anyField? type (nameOf (x :: xs)) = some d := by
    show s.anyField? type x.name = some d
    rw [anyField?_of_isOwn (by simpa only [FieldNode.isOwn, Bool.not_eq_true'] using hown), hd]
  rw [executedGroup, if_pos (by simpa using hown), hany]
  rfl

/-- The tree of a level has the keys of fields that are not about the schema. -/
theorem Accepted.filterMapM_executedGroup (h : Accepted s vars type es)
    (hstands : ∀ x ∈ nodes, Stands x es) {found : List (String × Selection)} :
    (groupsOf nodes).filterMapM (executedGroup s vars below type) = .ok found ↔
      List.Forall₂ (fun g kv => executedGroup s vars below type g = .ok (some kv))
        (groupsOf (nodes.filter (·.isOwn))) found := by
  have hkind : ∀ x ∈ nodes, ∀ y ∈ nodes, x.key = y.key → x.isOwn = y.isOwn :=
    fun x hx y hy hkey => by
      rw [FieldNode.isOwn, FieldNode.isOwn, (h.agree (hstands x hx) (hstands y hy) hkey).1]
  rw [groupsOf_filter _ hkind]
  refine filterMapM_eq_ok ?_ ?_
  · rintro ⟨key, ns⟩ - hown
    rw [executedGroup, if_neg (by simpa using hown)]
  · rintro ⟨key, ns⟩ hns hown hnone
    obtain ⟨hne, hgroup⟩ := of_mem_groupsOf hns
    obtain ⟨x, xs, rfl⟩ := List.exists_cons_of_ne_nil hne
    obtain ⟨d, hd⟩ := h.exists_field (hstands x (hgroup x (by simp)).1) hown
    rw [executedGroup_eq hown hd] at hnone
    obtain ⟨args, -, hnone⟩ := bind_eq_ok.mp hnone
    obtain ⟨fields, -, hnone⟩ := bind_eq_ok.mp hnone
    cases hnone

end Key

/-! ## Level by level -/

/-- Entries on a type of which both walks come to the same: what they hold of fragments is the same
wherever it stands, and they nest to some depth. -/
structure Level (s : Schema) (vars : Variables) (held : String → Option String × List Entry)
    (depth : Nat) (type : String) (es : List Entry) : Prop where
  accepted : Accepted s vars type es
  unconditional : Unconditional s type es
  whole : Whole es
  isOf : ∀ e ∈ partsIn es, IsOf held e
  depth_le : depthOf es ≤ depth

namespace Level

variable {held : String → Option String × List Entry} {ns kept all : List FieldNode} {depth : Nat}
  {x : FieldNode} {d : FieldDefinition} {key : String}

/-- Below the fields of one key there is a level that nests less deep. -/
theorem below (h : Level s vars held (depth + 1) type es) (hns : OfKey es key ns) (hx : x ∈ ns)
    (hd : s.field? type x.name = some d) :
    Level s vars held depth d.type.name (ns.flatMap (·.entries)) := by
  have hfield : ∀ y ∈ ns, Stands y es ∧ s.field? type y.name = some d := fun y hy =>
    ⟨(hns y hy).1, (h.accepted.agree_of_key hns hx hy).1 ▸ hd⟩
  have hparts : partsIn (ns.flatMap (·.entries)) ⊆ partsIn es :=
    partsIn_flatMap_subset fun y hy => (hns y hy).1
  have hselected := selectedIn_flatMap_subset hfield
  constructor
  · constructor
    · exact fun te hte => h.accepted.known te (hselected hte)
    · exact fun e he => h.accepted.decided e (hparts he)
    · refine fun levels => Merge.flatMap fun y hy z hz => ?_
      have hkey : y.key = z.key := (hns y hy).2.trans (hns z hz).2.symm
      exact (h.accepted.merge (levels + 1) y (hns y hy).1.mem_fieldsIn_all z
        (hns z hz).1.mem_fieldsIn_all hkey).2.2 d (hfield y hy).2
  · exact fun te hte => h.unconditional te (hselected hte)
  · exact h.whole.of_subset hparts
  · exact fun e he => h.isOf e (hparts he)
  · refine depthOf_flatMap_le fun y hy => ?_
    have hlt := (hns y hy).1.depthOf_lt
    have hle := h.depth_le
    omega

/-- What execution collects below fields of one key: the fields that a level has without
repetitions. -/
theorem exists_collectBelow (h : Level s vars held depth type (all.flatMap (·.entries)))
    (hthins : Thins [] kept all) :
    ∃ nodes, collectBelow s vars type kept = .ok (groupsOf nodes) ∧
      Thins [] nodes (fieldsIn (isKept vars) (all.flatMap (·.entries))) := by
  have hsub : kept.flatMap (·.entries) ⊆ all.flatMap (·.entries) := fun e he => by
    obtain ⟨x, hx, he⟩ := List.mem_flatMap.mp he
    exact List.mem_flatMap.mpr ⟨x, hthins.sublist.subset hx, he⟩
  obtain ⟨nodes, visited, hcollect, hnodes, -⟩ := collectEntries_thins {} []
    (kept.flatMap (·.entries)) (fun e he => h.accepted.decided e (partsIn_subset hsub he))
    (fun e he => h.isOf e (partsIn_subset hsub he))
    (fun te hte => by
      obtain ⟨e, he, hte⟩ := mem_selectedIn.mp hte
      exact h.unconditional te (mem_selectedIn.mpr ⟨e, hsub he, hte⟩))
    (fun n hn => by cases hn)
  refine ⟨nodes, ?_, hnodes.trans ?_⟩
  · rw [collectBelow, fieldsFor, bind_of_eq_ok hcollect]
    rfl
  · rw [fieldsIn_flatMap, fieldsIn_flatMap]
    exact hthins.flatMap _

/-- A field that is not of an object type has no selection. -/
theorem flatMap_eq_nil (h : Level s vars held depth type es) (hns : OfKey es key ns) (hx : x ∈ ns)
    (hd : s.field? type x.name = some d) (hobject : ¬ s.isObject d.type.name = true) :
    ns.flatMap (·.entries) = [] := by
  refine List.flatMap_eq_nil_iff.mpr fun y hy => ?_
  by_contra hne
  have hname : x.name = y.name := (h.accepted.agree_of_key hns hx hy).1
  have happlies := h.unconditional _ (hns y hy).1.mem_selectedIn_self
  rw [Entry.applies, ← hname, hd] at happlies
  exact hobject (by simpa [hne] using happlies)

/-- A key comes to what a resolver is told of its fields, if what is below it does. -/
theorem executedGroup_eq_ok_iff
    {below : String → List FieldNode → Attempt (List (String × Selection))}
    {xs ys : List FieldNode} (h : Level s vars held depth type es) (hgroup : OfKey es key (x :: xs))
    (hown : x.isOwn = true)
    (hbelow : ∀ d, s.field? type x.name = some d → ∀ fields,
      requestEntries s vars d.type.name [] ((x :: xs).flatMap (·.entries)) = .ok fields ↔
        below d.type.name (x :: ys) = .ok fields) (kv : String × Selection) :
    executedGroup s vars below type (key, x :: ys) = .ok (some kv) ↔
      Gathers (tellField s vars type) (key, x :: xs) kv := by
  have hx : x ∈ x :: xs := by simp
  obtain ⟨d, hd⟩ := h.accepted.exists_field (hgroup x hx).1 hown
  have hsame : ∀ y ∈ xs, x.name = y.name ∧ Arguments.Agree x.args y.args := fun y hy =>
    h.accepted.agree_of_key hgroup hx (List.mem_cons_of_mem _ hy)
  have hfields : ∀ fields, belowObject s below d.type.name (x :: ys) = .ok fields ↔
      requestEntries s vars d.type.name [] ((x :: xs).flatMap (·.entries)) = .ok fields := by
    intro fields
    rw [belowObject]
    split
    · exact (hbelow d hd fields).symm
    · rename_i hobject
      rw [h.flatMap_eq_nil hgroup hx hd hobject]
      rfl
  rw [executedGroup_eq hown hd, Gathers, gatherOne_tellField hd hsame]
  simp only [bind_eq_ok, pure_eq_ok, hfields, Option.some.injEq]
  constructor
  · rintro ⟨args, hargs, fields, hfields, rfl⟩
    exact ⟨rfl, hargs, hfields, rfl, rfl⟩
  · obtain ⟨_, name, label, args, fields⟩ := kv
    rintro ⟨rfl, hargs, hfields, rfl, rfl⟩
    exact ⟨args, hargs, fields, hfields, rfl⟩

/-- The two walks come to the same below fields of one key, by induction on the levels: what is
collected of a level are the fields that are told of it, but for repetitions, and so the groups of
one key differ in repetitions only, which have nothing new below. -/
theorem requestEntries_eq_ok_iff (h : Level s vars held depth type (all.flatMap (·.entries)))
    (hthins : Thins [] kept all) (below : List (String × Selection)) :
    requestEntries s vars type [] (all.flatMap (·.entries)) = .ok below ↔
      executed s vars depth type kept = .ok below := by
  induction depth generalizing type kept all below with
  | zero =>
    have hnone : fieldsIn (isKept vars) (all.flatMap (·.entries)) = [] := by
      refine List.eq_nil_iff_forall_not_mem.mpr fun x hx => ?_
      have hlt := (stands_of_mem_fieldsIn hx).depthOf_lt
      have hle := h.depth_le
      omega
    rw [requestEntries_eq [] _ h.accepted.decided h.whole, hnone]
    exact Iff.rfl
  | succ depth ih =>
    obtain ⟨nodes, hcollect, hnodes⟩ := h.exists_collectBelow hthins
    have hstands : ∀ x ∈ nodes, Stands x (all.flatMap (·.entries)) := fun x hx =>
      stands_of_mem_fieldsIn (hnodes.sublist.subset hx)
    rw [requestEntries_eq [] _ h.accepted.decided h.whole, executed, bind_of_eq_ok hcollect,
      h.accepted.filterMapM_executedGroup hstands]
    refine Iff.trans gatherAll_eq_ok (Iff.symm ?_)
    refine forall₂_iff_of_forall₂ (groupsOf_thins (hnodes.filter _)) ?_
    rintro ⟨key, ns⟩ ⟨_, ms⟩ - hms ⟨rfl, hns⟩ kv
    obtain ⟨hne, hgroup⟩ := of_mem_groupsOf hms
    obtain ⟨x, xs, rfl⟩ := List.exists_cons_of_ne_nil hne
    obtain ⟨ys, rfl⟩ : ∃ ys, ns = x :: ys := List.head?_eq_some_iff.mp hns.head?_eq
    have hofkey : OfKey (all.flatMap (·.entries)) key (x :: xs) := fun y hy =>
      ⟨stands_of_mem_fieldsIn (List.mem_filter.mp (hgroup y hy).1).1, (hgroup y hy).2⟩
    have hown : x.isOwn = true := (List.mem_filter.mp (hgroup x (by simp)).1).2
    exact h.executedGroup_eq_ok_iff hofkey hown
      (fun d hd fields => ih (h.below hofkey (by simp) hd) hns fields) kv

end Level

/-! ## Root fields -/

section Stands

variable {object : String} {c c' : Collected} {P : FieldNode → Prop}

mutual

/-- Whatever is collected stands in the entries, or has been collected before. -/
theorem of_collectEntry : ∀ {e : Entry} {c c' : Collected},
    collectEntry s vars object c e = .ok c' → (∀ x, Stands x [e] → P x) →
      (∀ g ∈ c.groups, ∀ x ∈ g.2, P x) → ∀ g ∈ c'.groups, ∀ x ∈ g.2, P x
  | .field label name args ds es, c, c', h, hstands, hc => by
    rw [collectEntry] at h
    obtain ⟨kept, -, h⟩ := bind_eq_ok.mp h
    split at h
    · obtain rfl := pure_eq_ok.mp h
      exact forall_mem_add hc (hstands _ (.field (by simp)))
    · obtain rfl := pure_eq_ok.mp h
      exact hc
  | .spread .., c, c', h, _, hc => by
    rw [collectEntry] at h
    obtain rfl := pure_eq_ok.mp h
    exact hc
  | .within fragment condition ds es, c, c', h, hstands, hc => by
    rw [collectEntry] at h
    split at h
    · obtain rfl := pure_eq_ok.mp h
      exact hc
    · obtain ⟨kept, -, h⟩ := bind_eq_ok.mp h
      split at h
      · dsimp only at h
        split at h
        · exact of_collectEntries h (fun x hx =>
            hstands x (.within (List.mem_singleton_self _) hx)) hc
        · obtain rfl := pure_eq_ok.mp h
          exact hc
      · obtain rfl := pure_eq_ok.mp h
        exact hc

theorem of_collectEntries : ∀ {es : List Entry} {c c' : Collected},
    collectEntries s vars object c es = .ok c' → (∀ x, Stands x es → P x) →
      (∀ g ∈ c.groups, ∀ x ∈ g.2, P x) → ∀ g ∈ c'.groups, ∀ x ∈ g.2, P x
  | [], c, c', h, _, hc => by
    rw [collectEntries] at h
    obtain rfl := Except.ok.inj h
    exact hc
  | e :: rest, c, c', h, hstands, hc => by
    rw [collectEntries] at h
    obtain ⟨next, hfirst, h⟩ := bind_eq_ok.mp h
    refine of_collectEntries h (fun x hx => hstands x (hx.mono (by simp))) ?_
    exact of_collectEntry hfirst (fun x hx => hstands x (hx.mono (by simp))) hc

end

end Stands

namespace Request

variable {document : Document} {operation : Option String} {given : Members Value} {r : Request}
  {roots : List RootField} {f : RootField}

theorem stands_of_mem_rootFields (hroots : r.rootFields = .ok roots) (hf : f ∈ roots) :
    ∀ x ∈ f.nodes, Stands x r.entries := by
  obtain ⟨groups, hgroups, hroots⟩ := bind_eq_ok.mp hroots
  obtain rfl := pure_eq_ok.mp hroots
  obtain ⟨c, hcollect, hgroups⟩ := bind_eq_ok.mp hgroups
  obtain rfl := pure_eq_ok.mp hgroups
  obtain ⟨⟨key, nodes⟩, hg, hfield⟩ := List.mem_filterMap.mp hf
  obtain ⟨d, -, rfl⟩ := Option.map_eq_some_iff.mp hfield
  exact of_collectEntries hcollect (fun x hx => hx) (by simp) _ hg

theorem exists_isOf_of_ofDocument (made : ofDocument s document operation given = .ok r)
    (hwhole : Whole r.entries) :
    ∃ held : String → Option String × List Entry, ∀ e ∈ partsIn r.entries, IsOf held e := by
  rw [ofDocument] at made
  split at made
  · cases made
  · obtain ⟨vars, -, made⟩ := bind_eq_ok.mp made
    split at made
    · cases made
    · obtain rfl := pure_eq_ok.mp made
      exact ⟨_, isOf_expand hwhole⟩

/-- The tree that the resolver of a root field is told is that of what execution collects below the
field, at every level with the same keys, names and arguments; and it is there wherever all of this
can be collected. -/
theorem selectionOf_eq_ok_iff (made : ofDocument s document operation given = .ok r)
    (hwhole : Whole r.entries) (hroots : r.rootFields = .ok roots) (hf : f ∈ roots)
    (haccepted : Accepted r.schema r.given f.definition.type.name (f.nodes.flatMap (·.entries)))
    (hdirect : Unconditional r.schema f.definition.type.name (f.nodes.flatMap (·.entries)))
    (args : Members Value) (tree : Selection) :
    r.selectionOf f args = .ok tree ↔
      executed r.schema r.given (depthOf r.entries) f.definition.type.name f.nodes =
          .ok tree.fields ∧
        tree.name = f.definition.name ∧ tree.args = args ∧
          tree.label = if f.key = f.definition.name then none else some f.key := by
  have hstands := stands_of_mem_rootFields hroots hf
  obtain ⟨held, hof⟩ := exists_isOf_of_ofDocument made hwhole
  have hparts : partsIn (f.nodes.flatMap (·.entries)) ⊆ partsIn r.entries :=
    partsIn_flatMap_subset hstands
  have hlevel : Level r.schema r.given held (depthOf r.entries) f.definition.type.name
      (f.nodes.flatMap (·.entries)) := by
    refine ⟨haccepted, hdirect, hwhole.of_subset hparts, fun e he => hof e (hparts he), ?_⟩
    exact depthOf_flatMap_le fun x hx => Nat.le_of_lt (hstands x hx).depthOf_lt
  rw [selectionOf, Graphql.selectionOf]
  simp only [bind_eq_ok, pure_eq_ok, hlevel.requestEntries_eq_ok_iff (.refl [] f.nodes)]
  constructor
  · rintro ⟨fields, hfields, rfl⟩
    exact ⟨hfields, rfl, rfl, rfl⟩
  · obtain ⟨name, label, args, fields⟩ := tree
    rintro ⟨hfields, rfl, rfl, rfl⟩
    exact ⟨fields, hfields, rfl⟩

end Request

/-! ## Posts by users -/

namespace Blog

/-- Users have a name, which can be asked for in short. -/
def userName : FieldDefinition where
  name := "name"
  args := [{ name := "short", type := .named "Boolean", default? := some (.bool false) }]
  type := .named "String"

/-- The schema of posts by users, which may be about either. -/
def schema : Schema where
  types := [
    ("String", .scalar { rule := .text }),
    ("Boolean", .scalar { rule := .boolean }),
    ("Int", .scalar { rule := .int }),
    ("Users", .object [] [userName,
      { name := "posts", args := [{ name := "limit", type := .named "Int" }],
        type := .list (.named "Posts") }]),
    ("Posts", .object [] [{ name := "title", type := .named "String" },
      { name := "author", type := .named "Users" }, { name := "about", type := .named "Node" }]),
    ("Node", .union ["Posts", "Users"]),
    ("Query", .object [] [{ name := "postsFindMany", type := .list (.named "Posts") }])]
  roots := [(.query, "Query")]
  directives := Schema.builtInDirectives

/-- A field without arguments. -/
def plain (name : String) (below : List Entry) : Entry := .field none name [] [] below

/-- Entries for values of a type. -/
def on (type : String) (below : List Entry) : Entry := .within none (some type) [] below

/-- A document that asks for posts. -/
def asking (parameters : List VariableDefinition) (fragments : Document) (below : List Entry) :
    Document :=
  .operation ⟨.query, none, parameters, [], [plain "postsFindMany" below]⟩ :: fragments

/-- The request that asks for posts. -/
def request (given : Variables) (below : List Entry) : Request :=
  ⟨schema, .query, "Query", [plain "postsFindMany" below], given⟩

/-- The field that finds posts. -/
def posts (below : List Entry) : RootField :=
  ⟨"postsFindMany", { name := "postsFindMany", type := .list (.named "Posts") },
    [⟨none, "postsFindMany", [], [], below⟩]⟩

/-- The variable that makes names short. -/
def brief : VariableDefinition := ⟨"brief", .nonNull (.named "Boolean"), none, []⟩

/-- The directive that goes by whether names are short. -/
def whether (name : String) : Directive := ⟨name, [("if", .variable "brief")]⟩

/-- The short name of a user. -/
def shortName : Entry := .field none "name" [("short", .bool true)] [] []

/-- What a card shows of a post. -/
def card : Fragment where
  condition := "Posts"
  directives := []
  entries := [.field (some "heading") "title" [] [] [], plain "author" [shortName]]

/-- Posts with what a card shows of them, twice, and with more below their authors. -/
def cards (shown : Entry) : List Entry :=
  [shown,
    on "Node" [on "Posts" [plain "author" [
      .field none "posts" [("limit", .int "3")] [] [plain "title" []]]]],
    shown,
    .field none "title" [] [whether "skip"] [],
    .field none "author" [] [whether "include"] [plain "__typename" [], shortName]]

/-- What is asked for under the keys of cards. -/
def asked : String → String × Arguments
  | "heading" => ("title", [])
  | "name" => ("name", [("short", .bool true)])
  | "posts" => ("posts", [("limit", .int "3")])
  | key => (key, [])

/-- The entries of a card where they have been put in. -/
def shownCard : Entry := .within (some "card") (some card.condition) [] card.entries

/-- Short names are asked for. -/
def given : Variables := ⟨[("brief", .bool true)], [("brief", .bool true)]⟩

theorem accepted_cards : Accepted schema given "Posts" (cards shownCard) where
  known := by decide +kernel
  decided := List.all_eq_true.mp (by cbv)
  merge := by
    have h : ∀ e ∈ partsIn (cards shownCard), e.IsSettled asked := by
      simp [cards, shownCard, card, shortName, on, plain, partsIn, parts, IsSettled, asked]
    exact Merge.of_isSettled h h

/-- A resolver is told the fields of a card that is spread twice once, with what is asked for below
its author elsewhere. -/
theorem selectionOf_cards :
    (Scope.mk schema (asking [brief] [.fragment "card" card] (cards (.spread "card" [])))).flaws =
      [] ∧
    (request given (cards shownCard)).selectionOf (posts (cards shownCard)) [] =
      .ok ⟨"postsFindMany", none, [], [
        ("heading", ⟨"title", some "heading", [], []⟩),
        ("author", ⟨"author", none, [], [
          ("name", ⟨"name", none, [("short", .bool true)], []⟩),
          ("posts", ⟨"posts", none, [("limit", .int 3)], [
            ("title", ⟨"title", none, [], []⟩)]⟩)]⟩)]⟩ := by
  have made : Request.ofDocument schema
      (asking [brief] [.fragment "card" card] (cards (.spread "card" []))) none
        [("brief", .bool true)] = .ok (request given (cards shownCard)) := by cbv
  have hwhole : Whole (request given (cards shownCard)).entries := by
    unfold Whole
    decide +kernel
  have hroots : (request given (cards shownCard)).rootFields = .ok [posts (cards shownCard)] := by
    cbv
  have hdirect : Unconditional schema "Posts" (cards shownCard) := by
    unfold Unconditional
    decide +kernel
  refine ⟨by decide +kernel, ?_⟩
  exact (Request.selectionOf_eq_ok_iff made hwhole hroots (List.mem_singleton_self _) accepted_cards
    hdirect [] _).mpr ⟨by cbv, rfl, rfl, rfl⟩

/-- The titles of posts, under a key under which users have their names. -/
def titles : List Entry :=
  [.field (some "x") "title" [] [] [],
    on "Node" [on "Users" [.field (some "x") "name" [] [] []]]]

/-- The names of users that posts are about. -/
def names : List Entry := [plain "about" [on "Users" [plain "name" []]]]

/-- Fields for values of other types stand in the way of what execution collects for posts, and
fields for values of a type that may be of several are told without their arguments. -/
theorem not_told_as_executed :
    ((Scope.mk schema (asking [] [] titles)).flaws = [] ∧
      Request.ofDocument schema (asking [] [] titles) none [] = .ok (request {} titles) ∧
      (request {} titles).rootFields = .ok [posts titles] ∧
      executed schema {} 2 "Posts" (posts titles).nodes =
        .ok [("x", ⟨"title", some "x", [], []⟩)] ∧
      ∀ args tree, (request {} titles).selectionOf (posts titles) args ≠ .ok tree) ∧
    ((Scope.mk schema (asking [] [] names)).flaws = [] ∧
      Request.ofDocument schema (asking [] [] names) none [] = .ok (request {} names) ∧
      (request {} names).rootFields = .ok [posts names] ∧
      (request {} names).selectionOf (posts names) [] =
        .ok ⟨"postsFindMany", none, [], [
          ("about", ⟨"about", none, [], [("name", ⟨"name", none, [], []⟩)]⟩)]⟩ ∧
      fieldsFor schema {} "Users" [on "Users" [plain "name" []]] =
        .ok [("name", [⟨none, "name", [], [], []⟩])] ∧
      argumentsOf schema {} userName [⟨none, "name", [], [], []⟩] =
        .ok [("short", .bool false)]) := by
  refine ⟨⟨by decide +kernel, rfl, rfl, by cbv, fun args tree h => ?_⟩,
    by decide +kernel, rfl, rfl, by cbv, rfl, by cbv⟩
  have herror : (request {} titles).selectionOf (posts titles) args =
      .error (.fault (.selectionConflict "x" "name")) := by cbv
  cases herror.symm.trans h

end Blog
end RelGraph.Graphql
