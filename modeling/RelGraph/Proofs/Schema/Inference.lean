import RelGraph.Proofs.Schema.RelationOrder
/-!
Relations that are declared without columns. A to-one relation is joined by the only foreign key of
its owner to its target, or, where the owner has none, by the only one of the target to the owner. A
to-many relation is joined by the columns of the only to-one relation that leads back, or else by
the only foreign key of the target. Foreign keys of the owner lead from its columns, those of the
target to them; all are told by the declarations of the two tables, so that what a relation is
completed to does not depend on the relations that are added before it. A schema loads precisely
where all its declared relations are completed and fit, and of those with one owner and one name the
last stays.
-/
namespace RelGraph

open Outcome

/-! ## Foreign keys -/

/-- The column that is referred to, if it is one of a table. -/
def Reference.columnOf? (table : String) : Reference → Option String
  | .column ref => if ref.table = table then some ref.column else none
  | _ => none

namespace TableDeclaration

variable {t : TableDeclaration} {other : String} {pairs : List (String × String)}

/-- The foreign keys into another table: pairs of own column and column of the other. -/
def keysInto (t : TableDeclaration) (other : String) : List (String × String) :=
  t.references.filterMap fun p => (p.2.columnOf? other).map fun column => (p.1, column)

/-- Whether all foreign keys lead to declared columns. -/
def KeysLead (t : TableDeclaration) : Prop := ∀ p ∈ t.references, ∃ ref, p.2 = .column ref

theorem mem_keysInto {pair : String × String} :
    pair ∈ t.keysInto other ↔ (pair.1, .column ⟨other, pair.2⟩) ∈ t.references := by
  simp only [keysInto, List.mem_filterMap, Option.map_eq_some_iff]
  constructor
  · rintro ⟨⟨own, reference⟩, hmem, column, hcolumn, rfl⟩
    cases reference with
    | column ref =>
      obtain ⟨rfl, rfl⟩ : ref.table = other ∧ ref.column = column := by
        simpa [Reference.columnOf?] using hcolumn
      exact hmem
    | _ => cases hcolumn
  · intro hmem
    exact ⟨_, hmem, pair.2, by simp [Reference.columnOf?], rfl⟩

/-- A foreign key with the column that it refers to, if it leads to one. -/
theorem lead_eq_ok {p : String × Reference} {q : String × ColumnRef} :
    (do return (p.1, ← p.2.resolve) : Attempt (String × ColumnRef)) = .ok q ↔
      p = (q.1, .column q.2) := by
  obtain ⟨own, reference⟩ := p
  obtain ⟨field, ref⟩ := q
  cases reference <;> simp [Reference.resolve, Attempt.mishap]

theorem filterMap_columnOf? {references : List (String × Reference)}
    {resolved : List (String × ColumnRef)}
    (h : List.Forall₂ (fun p q => p = (q.1, Reference.column q.2)) references resolved) :
    (references.filterMap fun p => (p.2.columnOf? other).map fun column => (p.1, column)) =
      (resolved.filter (·.2.table = other)).map fun q => (q.1, q.2.column) := by
  induction h with
  | nil => rfl
  | @cons p q references resolved hp _ ih =>
    subst hp
    rw [List.filterMap_cons, List.filter_cons, ih]
    by_cases hother : q.2.table = other <;> simp [Reference.columnOf?, hother]

/-- Looking up all foreign keys goes well where all lead to declared columns. -/
theorem keysTo_eq_ok : t.keysTo other = .ok pairs ↔ t.KeysLead ∧ t.keysInto other = pairs := by
  have hresolved {resolved : List (String × ColumnRef)} :
      (t.references.mapM fun p => do return (p.1, ← p.2.resolve) : Attempt _) = .ok resolved →
        t.keysInto other = (resolved.filter (·.2.table = other)).map fun q => (q.1, q.2.column) :=
    fun h => filterMap_columnOf? ((mapM_eq_ok.mp h).imp fun _ _ => lead_eq_ok.mp)
  have hlead : (∃ resolved, (t.references.mapM fun p => do return (p.1, ← p.2.resolve) :
      Attempt (List (String × ColumnRef))) = .ok resolved) ↔ t.KeysLead := by
    refine exists_mapM_eq_ok.trans (forall₂_congr fun p _ => ?_)
    simp only [lead_eq_ok]
    exact ⟨fun ⟨q, hq⟩ => ⟨q.2, (Prod.ext_iff.mp hq).2⟩,
      fun ⟨ref, href⟩ => ⟨(p.1, ref), Prod.ext rfl href⟩⟩
  unfold keysTo
  simp only [bind_eq_ok, pure_eq_ok]
  constructor
  · rintro ⟨resolved, h, rfl⟩
    exact ⟨hlead.mp ⟨resolved, h⟩, hresolved h⟩
  · rintro ⟨h, rfl⟩
    obtain ⟨resolved, h⟩ := hlead.mpr h
    exact ⟨resolved, h, (hresolved h).symm⟩

end TableDeclaration

namespace Registry

variable {r : Registry} {child parent field reference : String}

/-- Whether a column of one registered table is a foreign key to a column of another. -/
def HasKey (r : Registry) (child parent field reference : String) : Prop :=
  ∃ c p, r.table? child = some c ∧ r.table? parent = some p ∧
    (field, .column ⟨p.declaration.name, reference⟩) ∈ c.declaration.references

/-- Whether two tables are registered and these are the foreign keys of the first to the second,
while none of the first leads nowhere. -/
def Keys (r : Registry) (child parent : String) (pairs : List (String × String)) : Prop :=
  ∃ c p, r.table? child = some c ∧ r.table? parent = some p ∧
    c.declaration.KeysLead ∧ c.declaration.keysInto p.declaration.name = pairs

theorem Keys.hasKey (h : r.Keys child parent [(field, reference)]) :
    r.HasKey child parent field reference := by
  obtain ⟨c, p, hc, hp, -, hkeys⟩ := h
  exact ⟨c, p, hc, hp, TableDeclaration.mem_keysInto.mp (hkeys ▸ List.mem_singleton_self _)⟩

end Registry

namespace Loading

variable {d : Declarations} {s : Sorted} {r r' : Registry} {rel : Relation}
  {rels ones manys : List Relation} {owner target : String} {declaration : RelationDeclaration}
  {filed : Members (Members Relation)}

theorem keysBetween_eq_ok {child parent : String} {pairs : List (String × String)}
    (hchild : (r.table? child).isSome) (hparent : (r.table? parent).isSome) :
    keysBetween r child parent = .ok pairs ↔ r.Keys child parent pairs := by
  obtain ⟨c, hc⟩ := Option.isSome_iff_exists.mp hchild
  obtain ⟨p, hp⟩ := Option.isSome_iff_exists.mp hparent
  rw [keysBetween, hc, hp]
  refine TableDeclaration.keysTo_eq_ok.trans ⟨fun h => ⟨c, p, hc, hp, h⟩, ?_⟩
  rintro ⟨c', p', hc', hp', h⟩
  cases hc.symm.trans hc'
  cases hp.symm.trans hp'
  exact h

/-! ## What a declared relation is completed to -/

/-- Whether a declared relation lacks columns on a side. -/
def RelationDeclaration.IsOpen (declaration : RelationDeclaration) : Prop :=
  declaration.fields.getD [] = [] ∨ declaration.references.getD [] = []

theorem RelationDeclaration.explicit?_eq_none :
    RelationDeclaration.explicit? declaration = none ↔
      RelationDeclaration.IsOpen declaration := by
  unfold RelationDeclaration.explicit? RelationDeclaration.IsOpen
  cases declaration.fields with
  | none => simp
  | some fields =>
    cases declaration.references with
    | none => simp
    | some references => simp [or_iff_not_imp_left]

/-- The columns by which a to-one relation is joined: those of the only foreign key of the owner to
the target, or, if there is none, of the only one of the target to the owner. -/
inductive InfersOne (r : Registry) (owner target : String) : List String → List String → Prop
  | own {field reference : String} : r.Keys owner target [(field, reference)] →
      InfersOne r owner target [field] [reference]
  | converse {field reference : String} : r.Keys owner target [] →
      r.Keys target owner [(reference, field)] → InfersOne r owner target [field] [reference]

/-- Whether a to-one relation leads back from the target to the owner, and is the last of its owner
and name. -/
structure LeadsBack (ones : List Relation) (owner target : String) (one : Relation) : Prop where
  last : lastAt? ones one.place = some one
  source : one.source = target
  target : one.target = owner

/-- The columns by which a to-many relation is joined: those of the only to-one relation that leads
back, or, unless just one does, of the only foreign key of the target to the owner. -/
inductive InfersMany (r : Registry) (ones : List Relation) (owner target : String) :
    List String → List String → Prop
  | inverse {one : Relation} : LeadsBack ones owner target one →
      (∀ other, LeadsBack ones owner target other → other = one) →
      InfersMany r ones owner target one.references one.fields
  | converse {field reference : String} : (¬ ∃! one, LeadsBack ones owner target one) →
      r.Keys target owner [(reference, field)] → InfersMany r ones owner target [field] [reference]

/-- Whether a relation completes a declared one: it has its owner and name, the target under the
name that it takes part with, and the declared columns, or where these are open inferred ones. -/
structure Completes (d : Declarations) (s : Sorted) (r : Registry) (toMany : Bool)
    (infers : String → String → List String → List String → Prop)
    (declared : String × RelationDeclaration) (rel : Relation) : Prop where
  place : rel.place = ownerAndName declared
  toMany : rel.toMany = toMany
  target : resolve d s r declared.1 declared.2.target = .ok rel.target
  given : ¬ RelationDeclaration.IsOpen declared.2 →
    declared.2.fields = some rel.fields ∧ declared.2.references = some rel.references
  inferred : RelationDeclaration.IsOpen declared.2 →
    infers declared.1 rel.target rel.fields rel.references

/-- A relation completes a declared one where it is made of its parts. -/
theorem completes_iff {toMany : Bool}
    {infers : String → String → List String → List String → Prop} :
    Completes d s r toMany infers (owner, declaration) rel ↔
      ∃ target, resolve d s r owner declaration.target = .ok target ∧ ∃ fields references,
        (match RelationDeclaration.explicit? declaration with
          | some lists => (fields, references) = lists
          | none => infers owner target fields references) ∧
        ⟨declaration.name, toMany, owner, target, fields, references⟩ = rel := by
  constructor
  · obtain ⟨name, many, source, target, fields, references⟩ := rel
    intro h
    obtain ⟨rfl, rfl⟩ : source = owner ∧ name = declaration.name := Prod.mk.inj h.place
    obtain rfl : many = toMany := h.toMany
    refine ⟨target, h.target, fields, references, ?_, rfl⟩
    split
    · rename_i lists hexplicit
      have hgiven := h.given fun hopen => by
        rw [RelationDeclaration.explicit?_eq_none.mpr hopen] at hexplicit
        cases hexplicit
      obtain ⟨hfields, hreferences, -⟩ := RelationDeclaration.explicit?_eq_some hexplicit
      exact Prod.ext (Option.some.inj (hgiven.1.symm.trans hfields))
        (Option.some.inj (hgiven.2.symm.trans hreferences))
    · rename_i hopen
      exact h.inferred (RelationDeclaration.explicit?_eq_none.mp hopen)
  · rintro ⟨target, htarget, fields, references, h, rfl⟩
    refine ⟨rfl, rfl, htarget, fun hgiven => ?_, fun hopen => ?_⟩
    · split at h
      · rename_i hexplicit
        cases h
        obtain ⟨hfields, hreferences, -⟩ := RelationDeclaration.explicit?_eq_some hexplicit
        exact ⟨hfields, hreferences⟩
      · rename_i hopen
        exact absurd (RelationDeclaration.explicit?_eq_none.mp hopen) hgiven
    · rw [RelationDeclaration.explicit?_eq_none.mpr hopen] at h
      exact h

/-- Only one pair joins a relation; none or several are refused. -/
theorem onlyPair_eq_ok {pairs : List (String × String)} {complete : String → String → Relation}
    {f : Fault} :
    (match pairs with
      | [(x, y)] => pure (complete x y)
      | _ => Attempt.fault f : Attempt Relation) = .ok rel ↔
      ∃ x y, pairs = [(x, y)] ∧ complete x y = rel := by
  split
  · rename_i x y
    simp [pure_eq_ok]
  · rename_i hmany
    refine ⟨fun h => ?_, fun ⟨x, y, hpairs, _⟩ => absurd hpairs (hmany x y)⟩
    cases h

/-- A to-one relation is completed where it infers its columns. -/
theorem resolveOne_eq_ok (hs : AllRegistered s r) (howner : (r.table? owner).isSome) :
    resolveOne d s r owner declaration = .ok rel ↔
      Completes d s r false (InfersOne r) (owner, declaration) rel := by
  rw [completes_iff, resolveOne, bind_eq_ok]
  refine exists_congr fun target => and_congr_right fun htarget => ?_
  have hthere := isSome_of_resolve hs htarget
  cases hexplicit : RelationDeclaration.explicit? declaration with
  | some lists =>
    obtain ⟨fields, references⟩ := lists
    simp [pure_eq_ok]
  | none =>
    constructor
    · intro h
      obtain ⟨own, hown, h⟩ := bind_eq_ok.mp h
      have hown := (keysBetween_eq_ok howner hthere).mp hown
      split at h
      · rename_i hnone
        obtain rfl := List.isEmpty_iff.mp hnone
        obtain ⟨back, hback, h⟩ := bind_eq_ok.mp h
        rw [pure_bind] at h
        obtain ⟨field, reference, hpairs, rfl⟩ := onlyPair_eq_ok.mp h
        obtain ⟨p, rfl, hp⟩ := List.map_eq_singleton_iff.mp hpairs
        obtain rfl := Prod.swap_eq_iff_eq_swap.mp hp
        exact ⟨_, _, .converse hown ((keysBetween_eq_ok hthere howner).mp hback), rfl⟩
      · rw [pure_bind] at h
        obtain ⟨field, reference, rfl, rfl⟩ := onlyPair_eq_ok.mp h
        exact ⟨_, _, .own hown, rfl⟩
    · rintro ⟨fields, references, hinfers, rfl⟩
      cases hinfers with
      | own hkeys => exact bind_eq_ok.mpr ⟨_, (keysBetween_eq_ok howner hthere).mpr hkeys, rfl⟩
      | converse hnone hkeys =>
        refine bind_eq_ok.mpr ⟨[], (keysBetween_eq_ok howner hthere).mpr hnone, ?_⟩
        exact bind_eq_ok.mpr ⟨_, (keysBetween_eq_ok hthere howner).mpr hkeys, rfl⟩

/-! ### Relations that lead back -/

/-- The filed relations of an owner are those that are filed at its places, each once. -/
theorem Filed.mem_values (h : Filed filed) {one : Relation} :
    one ∈ Members.values ((Members.get? filed owner).getD []) ↔
      filedAt? filed one.place = some one ∧ one.source = owner := by
  constructor
  · intro hone
    obtain ⟨⟨name, one⟩, hnamed, rfl⟩ := List.mem_map.mp hone
    obtain ⟨rels, hrels, hmem⟩ := mem_getD_filed hnamed
    have hplace : one.place = (owner, name) := h.places _ hrels _ hmem
    refine ⟨?_, (Prod.mk.inj hplace).1⟩
    rw [hplace]
    exact Members.get?_of_mem (h.nodup_getD owner) hnamed
  · rintro ⟨hfiled, rfl⟩
    exact List.mem_map_of_mem (f := Prod.snd) (Members.mem_of_get? hfiled)

theorem Filed.nodup_values (h : Filed filed) (owner : String) :
    (Members.values ((Members.get? filed owner).getD [])).Nodup := by
  refine List.Nodup.of_map (f := Relation.name) ?_
  have hnames : (Members.values ((Members.get? filed owner).getD [])).map (·.name) =
      Members.names ((Members.get? filed owner).getD []) := by
    rw [Members.values, List.map_map]
    refine List.map_congr_left fun named hnamed => ?_
    obtain ⟨rels, hrels, hmem⟩ := mem_getD_filed hnamed
    exact (Prod.mk.inj (h.places _ hrels _ hmem)).2
  exact hnames ▸ h.nodup_getD owner

/-- Of relations that are filed the last of an owner and name is found. -/
theorem filedAt?_filed (rels : List Relation) (place : String × String) :
    filedAt? (rels.foldl file []) place = lastAt? rels place :=
  filedAt?_foldl.trans (Option.or_none ..)

/-- The relations that lead back are found among those that are filed for the target. -/
theorem leadingBack_eq_singleton {one : Relation} :
    (Members.values ((Members.get? (ones.foldl file []) target).getD [])).filter
        (·.target = owner) = [one] ↔
      LeadsBack ones owner target one ∧
        ∀ other, LeadsBack ones owner target other → other = one := by
  have hfiled := filed_foldl filed_nil ones
  generalize hback : (Members.values ((Members.get? (ones.foldl file []) target).getD [])).filter
    (·.target = owner) = back
  -- A list without repetitions is a singleton where it has the one element only.
  have hnodup : back.Nodup := hback ▸ (hfiled.nodup_values target).filter _
  have hmem (other : Relation) : other ∈ back ↔ LeadsBack ones owner target other := by
    rw [← hback, List.mem_filter, hfiled.mem_values, filedAt?_filed, decide_eq_true_iff]
    exact ⟨fun ⟨⟨hlast, hsource⟩, htarget⟩ => ⟨hlast, hsource, htarget⟩,
      fun h => ⟨⟨h.last, h.source⟩, h.target⟩⟩
  rw [← List.perm_singleton, List.perm_ext_iff_of_nodup hnodup (List.nodup_singleton one)]
  simp only [hmem, List.mem_singleton]
  exact ⟨fun h => ⟨(h one).mpr rfl, fun other => (h other).mp⟩,
    fun ⟨hone, honly⟩ other => ⟨honly other, fun heq => heq ▸ hone⟩⟩

/-- A to-many relation is completed where it infers its columns. -/
theorem resolveMany_eq_ok (hs : AllRegistered s r) (howner : (r.table? owner).isSome) :
    resolveMany d s r (ones.foldl file []) owner declaration = .ok rel ↔
      Completes d s r true (InfersMany r ones) (owner, declaration) rel := by
  rw [completes_iff, resolveMany, bind_eq_ok]
  refine exists_congr fun target => and_congr_right fun htarget => ?_
  have hthere := isSome_of_resolve hs htarget
  cases hexplicit : RelationDeclaration.explicit? declaration with
  | some lists =>
    obtain ⟨fields, references⟩ := lists
    simp [pure_eq_ok]
  | none =>
    dsimp only
    constructor
    · intro h
      split at h
      · rename_i one hone
        obtain rfl := pure_eq_ok.mp h
        obtain ⟨hback, honly⟩ := leadingBack_eq_singleton.mp hone
        exact ⟨_, _, .inverse hback honly, rfl⟩
      · rename_i hmany
        obtain ⟨pairs, hpairs, h⟩ := bind_eq_ok.mp h
        obtain ⟨reference, field, rfl, rfl⟩ := onlyPair_eq_ok.mp h
        refine ⟨_, _, .converse ?_ ((keysBetween_eq_ok hthere howner).mp hpairs), rfl⟩
        rintro ⟨one, honly⟩
        exact hmany one (leadingBack_eq_singleton.mpr honly)
    · rintro ⟨fields, references, hinfers, rfl⟩
      cases hinfers with
      | inverse hback honly => rw [leadingBack_eq_singleton.mpr ⟨hback, honly⟩]; rfl
      | converse hmany hkeys =>
        split
        · rename_i one hone
          exact absurd ⟨one, leadingBack_eq_singleton.mp hone⟩ hmany
        · exact bind_eq_ok.mpr ⟨_, (keysBetween_eq_ok hthere howner).mpr hkeys, rfl⟩

/-! ## All declared relations -/

/-- Whether a relation fits its tables: both are registered, its pairs are pairs of their columns,
and no column of its source has its name. -/
def Fits (r : Registry) (rel : Relation) : Prop :=
  ∃ source target, r.table? rel.source = some source ∧ r.table? rel.target = some target ∧
    (∀ p ∈ rel.pairs, source.hasColumn p.1 = true ∧ target.hasColumn p.2 = true) ∧
    source.hasColumn rel.name = false

theorem exists_addRelation : (∃ r', addRelation r rel = .ok r') ↔ Fits r rel := by
  simp only [addRelation_eq_ok, Fits]
  constructor
  · rintro ⟨_, source, target, hsource, htarget, hpairs, hfree, -⟩
    exact ⟨source, target, hsource, htarget, hpairs, hfree⟩
  · rintro ⟨source, target, hsource, htarget, hpairs, hfree⟩
    exact ⟨_, source, target, hsource, htarget, hpairs, hfree, rfl⟩

/-- Whether relations complete all declared ones of a sorted source, one by one: every relation set
has an owner, and all relations fit, except for to-one relations that are not the last of their
owner and name. -/
structure Completed (d : Declarations) (s : Sorted) (r : Registry) (ones manys : List Relation) :
    Prop where
  owned : AllOwned d s r s.relationSets
  toOne : List.Forall₂ (Completes d s r false (InfersOne r))
    (ownedDeclarations d s r (·.toOne) s.relationSets) ones
  toMany : List.Forall₂ (Completes d s r true (InfersMany r ones))
    (ownedDeclarations d s r (·.toMany) s.relationSets) manys
  fitOnes : ∀ one, lastAt? ones one.place = some one → Fits r one
  fitManys : ∀ many ∈ manys, Fits r many

theorem place_of_lastAt? {place : String × String} (h : lastAt? rels place = some rel) :
    rel.place = place := by
  rw [lastAt?] at h
  simpa using List.find?_some h

theorem mem_allFiled_iff :
    rel ∈ allFiled (rels.foldl file []) ↔ lastAt? rels rel.place = some rel := by
  rw [(filed_foldl filed_nil rels).mem_allFiled, filedAt?_filed]

/-- At a place only the last relation is filed. -/
theorem lastAt?_allFiled (rels : List Relation) (place : String × String) :
    lastAt? (allFiled (rels.foldl file [])) place = lastAt? rels place := by
  cases hfound : lastAt? (allFiled (rels.foldl file [])) place with
  | some rel =>
    have hlast := mem_allFiled_iff.mp (mem_of_lastAt? hfound)
    rw [← hlast, place_of_lastAt? hfound]
  | none =>
    refine Eq.symm (Option.eq_none_iff_forall_ne_some.mpr fun rel hrel => ?_)
    obtain rfl := place_of_lastAt? hrel
    rw [lastAt?, List.find?_eq_none] at hfound
    exact hfound rel (List.mem_reverse.mpr (mem_allFiled_iff.mpr hrel)) (decide_eq_true rfl)

/-- Relations are completed one by one where each is. -/
theorem mapM_owned_eq_ok {pick : RelationSet → List RelationDeclaration} {sets : List RelationSet}
    {complete : String × RelationDeclaration → Attempt Relation} {toMany : Bool}
    {infers : String → String → List String → List String → Prop} (hs : AllRegistered s r)
    (h : ∀ owner declaration rel, (r.table? owner).isSome →
      (complete (owner, declaration) = .ok rel ↔
        Completes d s r toMany infers (owner, declaration) rel)) :
    (ownedDeclarations d s r pick sets).mapM complete = .ok rels ↔
      List.Forall₂ (Completes d s r toMany infers) (ownedDeclarations d s r pick sets) rels := by
  have howned : ∀ p ∈ ownedDeclarations d s r pick sets, (r.table? p.1).isSome = true := by
    intro p hp
    obtain ⟨set, -, howner, -⟩ := resolve_of_mem_owned hp
    exact isSome_of_resolve hs howner
  rw [mapM_eq_ok]
  constructor
  · intro hall
    refine (List.forall₂_and_left _ _ |>.mpr ⟨howned, hall⟩).imp fun p rel ⟨hp, hrel⟩ => ?_
    exact (h p.1 p.2 rel hp).mp hrel
  · intro hall
    refine (List.forall₂_and_left _ _ |>.mpr ⟨howned, hall⟩).imp fun p rel ⟨hp, hrel⟩ => ?_
    exact (h p.1 p.2 rel hp).mpr hrel

/-- Declared relations are added where all are completed. -/
theorem addDeclared_iff_completed (hs : AllRegistered s r) : addDeclared d s r = .ok r' ↔
    ∃ ones manys, Completed d s r ones manys ∧
      (allFiled (ones.foldl file []) ++ manys).foldlM addRelation r = .ok r' := by
  have hone {ones : List Relation} : (ownedDeclarations d s r (·.toOne) s.relationSets).mapM
      (fun p => resolveOne d s r p.1 p.2) = .ok ones ↔ _ :=
    mapM_owned_eq_ok hs fun owner declaration rel howner => resolveOne_eq_ok hs howner
  have hmany {ones manys : List Relation} :
      (ownedDeclarations d s r (·.toMany) s.relationSets).mapM
        (fun p => resolveMany d s r (ones.foldl file []) p.1 p.2) = .ok manys ↔ _ :=
    mapM_owned_eq_ok hs fun owner declaration rel howner => resolveMany_eq_ok hs howner
  show addDeclared d (s.withSets s.relationSets) r = .ok r' ↔ _
  rw [addDeclared_eq_ok]
  constructor
  · rintro ⟨howned, ones, manys, hones, hmanys, hadd⟩
    have hfit (rel : Relation) (hrel : rel ∈ allFiled (ones.foldl file []) ++ manys) : Fits r rel :=
      exists_addRelation.mp (exists_foldlM_addRelation.mp ⟨r', hadd⟩ rel hrel)
    refine ⟨ones, manys, ⟨howned, hone.mp hones, hmany.mp hmanys, fun one hlast => ?_,
      fun many hmem => hfit many (List.mem_append_right _ hmem)⟩, hadd⟩
    exact hfit one (List.mem_append_left _ (mem_allFiled_iff.mpr hlast))
  · rintro ⟨ones, manys, h, hadd⟩
    exact ⟨h.owned, ones, manys, hone.mpr h.toOne, hmany.mpr h.toMany, hadd⟩

theorem Completed.exists_added (h : Completed d s r ones manys) :
    ∃ r', (allFiled (ones.foldl file []) ++ manys).foldlM addRelation r = .ok r' := by
  refine exists_foldlM_addRelation.mpr fun rel hrel => exists_addRelation.mpr ?_
  rcases List.mem_append.mp hrel with hone | hmany
  · exact h.fitOnes rel (mem_allFiled_iff.mp hone)
  · exact h.fitManys rel hmany

/-- Where the columns of a relation come from: from a foreign key of its source to its target, from
one of its target to its source, or from a to-one relation that leads back. -/
inductive Follows (r : Registry) (ones : List Relation) (rel : Relation) : Prop
  | key {field reference : String} : rel.fields = [field] → rel.references = [reference] →
      r.HasKey rel.source rel.target field reference → Follows r ones rel
  | keyBack {field reference : String} : rel.fields = [field] → rel.references = [reference] →
      r.HasKey rel.target rel.source reference field → Follows r ones rel
  | inverse {one : Relation} : one ∈ ones → one.source = rel.target → one.target = rel.source →
      rel.fields = one.references → rel.references = one.fields → Follows r ones rel

theorem follows_of_infersOne (h : InfersOne r rel.source rel.target rel.fields rel.references) :
    Follows r ones rel := by
  generalize hfields : rel.fields = fields at h
  generalize hreferences : rel.references = references at h
  cases h with
  | own hkeys => exact .key hfields hreferences hkeys.hasKey
  | converse _ hkeys => exact .keyBack hfields hreferences hkeys.hasKey

theorem follows_of_infersMany
    (h : InfersMany r ones rel.source rel.target rel.fields rel.references) :
    Follows r ones rel := by
  generalize hfields : rel.fields = fields at h
  generalize hreferences : rel.references = references at h
  cases h with
  | inverse hback _ =>
    exact .inverse (mem_of_lastAt? hback.last) hback.source hback.target hfields hreferences
  | converse _ hkeys => exact .keyBack hfields hreferences hkeys.hasKey

/-- Open relations follow foreign keys or other relations. -/
theorem Completed.follows (h : Completed d s r ones manys) :
    List.Forall₂ (fun p rel => RelationDeclaration.IsOpen p.2 → Follows r ones rel)
      (ownedDeclarations d s r (·.toOne) s.relationSets ++
        ownedDeclarations d s r (·.toMany) s.relationSets) (ones ++ manys) := by
  refine List.rel_append (h.toOne.imp fun p rel hrel hopen => ?_)
    (h.toMany.imp fun p rel hrel hopen => ?_)
  · have hsource : rel.source = p.1 := (Prod.mk.inj hrel.place).1
    exact follows_of_infersOne (hsource ▸ hrel.inferred hopen)
  · have hsource : rel.source = p.1 := (Prod.mk.inj hrel.place).1
    exact follows_of_infersMany (hsource ▸ hrel.inferred hopen)

/-- Where no foreign key of a registered table leads nowhere, relations are refused by a fault of
the schema. -/
theorem RelationError.isFault {e : Failure} (h : RelationError r e)
    (hlead : ∀ name t, r.table? name = some t → t.declaration.KeysLead) :
    ∃ f, e = .fault f ∧ f.kind = .schemaBuild := by
  cases h with
  | fault hkind => exact ⟨_, rfl, hkind⟩
  | key ht hp he =>
    obtain ⟨ref, href⟩ := hlead _ _ ht _ hp
    rw [href] at he
    cases he

/-- What the declared relations of a schema come to, once its tables and the relations of its mapped
classes are there. Either it loads: every declared relation is completed, by inferred columns where
its own are open, which are those of a foreign key or of a relation that leads back, and under an
owner and a name stands the last to-many relation, or else the last to-one relation, or else what
the mapped class has. Or it does not, for a fault of the schema or over a foreign key that leads
nowhere, and then not all declared relations can be completed so that they fit. -/
theorem load_completes {source : SchemaSource} {before : Registry}
    (hs : Sorted.add d {} none source = .ok s) (htables : tablesOf s = .ok before)
    (hmapped : addRelations d (s.withSets []) before = .ok r) :
    (∃ loaded ones manys, load d source = .ok loaded ∧ r.SameTables loaded.registry ∧
      Completed d s r ones manys ∧
      List.Forall₂ (fun p rel => RelationDeclaration.IsOpen p.2 → Follows r ones rel)
        (ownedDeclarations d s r (·.toOne) s.relationSets ++
          ownedDeclarations d s r (·.toMany) s.relationSets) (ones ++ manys) ∧
      ∀ place, loaded.registry.relationAt? place =
        (lastAt? manys place).or ((lastAt? ones place).or (r.relationAt? place))) ∨
    ∃ e, load d source = .error e ∧ RelationError r e ∧
      ((∀ name t, r.table? name = some t → t.declaration.KeysLead) →
        ∃ f, e = .fault f ∧ f.kind = .schemaBuild) ∧
      ∀ ones manys, ¬ Completed d s r ones manys := by
  have hsame : before.SameTables r := table?_addRelations hmapped
  have hall : AllRegistered s r := fun n hn =>
    hsame.isSome_eq n.name ▸ allRegistered_tablesOf htables n hn
  have hload : load d source =
      (addDeclared d s r).map fun registry => ⟨registry, s.ignored⟩ := by
    rw [load_withSets (show Sorted.add d {} none source = .ok (s.withSets s.relationSets) from hs),
      bind_of_eq_ok htables, bind_of_eq_ok hmapped]
    rfl
  cases hadded : addDeclared d s r with
  | ok registry =>
    rw [hadded] at hload
    obtain ⟨ones, manys, hcompleted, hadd⟩ := (addDeclared_iff_completed hall).mp hadded
    refine .inl ⟨_, ones, manys, hload, sameTables_foldlM hadd, hcompleted, hcompleted.follows,
      fun place => ?_⟩
    rw [relationAt?_foldlM hadd, lastAt?_append, lastAt?_allFiled, Option.or_assoc]
  | error e =>
    -- Had all declared relations been completed, they would have been added.
    rw [hadded] at hload
    have hrefused : addDeclared d (s.withSets s.relationSets) r = .error e := hadded
    have herror : RelationError r e := relationError_addDeclared hall hrefused
    refine .inr ⟨e, hload, herror, herror.isFault, fun ones manys hcompleted => ?_⟩
    obtain ⟨registry, hadd⟩ := hcompleted.exists_added
    cases hadded.symm.trans ((addDeclared_iff_completed hall).mpr ⟨ones, manys, hcompleted, hadd⟩)

namespace Staff

open Posts (number)

/-- Employees with their bosses, who are employees, and their offices; the relations are all open.
Employees may refer to more. -/
def declared (more : List ForeignKey) : Declarations where
  tables := [
    { name := "offices", columns := [number "id" true] },
    { name := "employees"
      columns := [number "id" true, number "boss_id" false, number "office_id" false,
        number "team_id" false]
      keys := ⟨[("boss_id", .column ⟨"employees", "id"⟩)]⟩ ::
        ⟨[("office_id", .column ⟨"offices", "id"⟩)]⟩ :: more }]
  relationSets := [
    { owner := .table "employees"
      toOne := [{ name := "boss", target := .table "employees" }]
      toMany := [{ name := "reports", target := .table "employees" }] },
    { owner := .table "offices"
      toOne := [{ name := "member", target := .table "employees" }]
      toMany := [{ name := "members", target := .table "employees" }] }]

/-- Both tables with their relations. -/
def source : SchemaSource :=
  .listing [.table "offices", .table "employees", .relations 0, .relations 1]

/-- The boss of an employee is found by the employee's own foreign key, the reports the other way
round, although both are employees, and the members of an office by their foreign key to it. -/
theorem boss_and_reports : ∃ s before r loaded ones manys,
    Sorted.add (declared []) {} none source = .ok s ∧ tablesOf s = .ok before ∧
    addRelations (declared []) (s.withSets []) before = .ok r ∧
    load (declared []) source = .ok loaded ∧ Completed (declared []) s r ones manys ∧
    loaded.registry.relationAt? ("employees", "boss") =
      some ⟨"boss", false, "employees", "employees", ["boss_id"], ["id"]⟩ ∧
    loaded.registry.relationAt? ("employees", "reports") =
      some ⟨"reports", true, "employees", "employees", ["id"], ["boss_id"]⟩ ∧
    loaded.registry.relationAt? ("offices", "member") =
      some ⟨"member", false, "offices", "employees", ["id"], ["office_id"]⟩ ∧
    loaded.registry.relationAt? ("offices", "members") =
      some ⟨"members", true, "offices", "employees", ["id"], ["office_id"]⟩ := by
  obtain ⟨s, hs⟩ : ∃ s, Sorted.add (declared []) {} none source = .ok s := ⟨_, rfl⟩
  obtain ⟨before, htables⟩ : ∃ before, tablesOf s = .ok before := by
    cases hs
    exact ⟨_, rfl⟩
  obtain ⟨r, hmapped⟩ : ∃ r, addRelations (declared []) (s.withSets []) before = .ok r := by
    cases hs
    exact ⟨_, rfl⟩
  obtain ⟨loaded, ones, manys, hload, -, hcompleted, -⟩ | ⟨e, he, -⟩ :=
    load_completes hs htables hmapped
  · refine ⟨s, before, r, loaded, ones, manys, hs, htables, hmapped, hload, hcompleted, ?_⟩
    cases hload
    exact ⟨rfl, rfl, rfl, rfl⟩
  · cases he

/-- Where employees also refer to a table that nobody declared, their bosses are not found by the
foreign key, and it is no fault of the schema that is reported. -/
theorem boss_refused : ∃ s before r,
    Sorted.add (declared [⟨[("team_id", .missingTable)]⟩]) {} none source = .ok s ∧
    tablesOf s = .ok before ∧
    addRelations (declared [⟨[("team_id", .missingTable)]⟩]) (s.withSets []) before = .ok r ∧
    (r.table? "employees").map (·.declaration.keysInto "employees") = some [("boss_id", "id")] ∧
    load (declared [⟨[("team_id", .missingTable)]⟩]) source =
      .error (.mishap (.misdeclared .referencedTableMissing)) :=
  ⟨_, _, _, rfl, rfl, rfl, rfl, rfl⟩

end Staff

end Loading
end RelGraph
