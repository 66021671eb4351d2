import RelGraph.Proofs.Schema.Additions
import RelGraph.Proofs.Schema.Placement
import RelGraph.Proofs.Schema.Registration
import RelGraph.Proofs.Schema.Relations
/-!
The order of declared relations has no say in what a schema loads to. All to-one relations are
completed before any to-many relation is, from what no relation changes: the names of the tables and
their foreign keys. So a source whose relation sets stand at other places loads where the source
does, with the same tables and the same relations by name, unless two declarations that differ give
one table one name. Where such a source does not load, the relation that is refused first may be
another one.
-/
namespace RelGraph

open Outcome

namespace Loading

variable {d : Declarations} {s : Sorted} {r r' : Registry} {sets sets' : List RelationSet}
  {owner name : String} {target : Target} {declaration : RelationDeclaration} {rel : Relation}
  {ones ones' : Members (Members Relation)} {e : Failure}

/-! ## What relations leave alone -/

/-- The name under which a target takes part, if it does. -/
def nameOfTarget? (d : Declarations) (s : Sorted) (r : Registry) : Target → Option String
  | .table table => s.nameOf? table
  | .model model => (d.modelTable? model).bind fun t => s.nameOf? t.name
  | .name text => if (r.table? text).isSome then some text else s.nameOf? text

theorem resolve_eq : resolve d s r owner target =
    match nameOfTarget? d s r target with
    | some name => .ok name
    | none => Attempt.fault (.relationTargetMissing owner (shown target)) := by
  cases target <;> rfl

theorem resolve_congr (h : r.SameTables r') :
    resolve d s r owner target = resolve d s r' owner target := by
  cases target with
  | name text => rw [resolve_eq, resolve_eq, nameOfTarget?, nameOfTarget?, h.isSome_eq]
  | _ => rfl

theorem keysBetween_eq {child parent : String} : keysBetween r child parent =
    match (r.table? child).map (·.declaration), (r.table? parent).map (·.declaration) with
    | some c, some p => c.keysTo p.name
    | _, _ => .ok [] := by
  rw [keysBetween]
  cases r.table? child <;> cases r.table? parent <;> rfl

theorem keysBetween_congr (h : r.SameTables r') (child parent : String) :
    keysBetween r child parent = keysBetween r' child parent := by
  rw [keysBetween_eq, keysBetween_eq, h.declaration_eq, h.declaration_eq]

theorem resolveMany_congr (h : r.SameTables r') :
    resolveMany d s r ones owner declaration = resolveMany d s r' ones owner declaration := by
  rw [resolveMany, resolveMany, resolve_congr h]
  simp only [keysBetween_congr h]

/-- To-many relations are completed from the to-one relations in whatever order. -/
theorem resolveMany_congr_ones (h : ∀ owner, ((Members.get? ones owner).getD []).Perm
    ((Members.get? ones' owner).getD [])) :
    resolveMany d s r ones owner declaration = resolveMany d s r ones' owner declaration := by
  rw [resolveMany, resolveMany]
  refine congrArg _ (funext fun target => ?_)
  split
  · rfl
  · have hback := ((h target).map Prod.snd).filter fun one => decide (one.target = owner)
    dsimp only [Members.values]
    split
    · rename_i one hone
      rw [hone] at hback
      rw [← List.singleton_perm.mp hback]
    · rename_i hnone
      split
      · rename_i one hone
        rw [hone] at hback
        exact absurd (List.perm_singleton.mp hback) (hnone one)
      · rfl

/-! ## Errors -/

/-- What adding a declared relation may fail with: a fault of the schema, or the error of a foreign
key of a registered table that leads nowhere. -/
inductive RelationError (r : Registry) : Failure → Prop
  | fault {f : Fault} : f.kind = .schemaBuild → RelationError r (.fault f)
  | key {name : String} {t : Table} {p : String × Reference} {e : Failure} :
      r.table? name = some t → p ∈ t.declaration.references → p.2.resolve = .error e →
      RelationError r e

theorem RelationError.of_sameTables (h : RelationError r e) (hsame : r.SameTables r') :
    RelationError r' e := by
  cases h with
  | fault hkind => exact .fault hkind
  | key ht hp he =>
    obtain ⟨t', ht', hdeclaration, -⟩ := hsame.exists_table? ht
    exact .key ht' (hdeclaration ▸ hp) he

theorem relationError_resolve (h : resolve d s r owner target = .error e) : RelationError r e := by
  rw [resolve_eq] at h
  split at h
  · cases h
  · cases h
    exact .fault rfl

theorem relationError_keysBetween {child parent : String}
    (h : keysBetween r child parent = .error e) : RelationError r e := by
  rw [keysBetween] at h
  split at h
  · rename_i c p hc hp
    rcases bind_eq_error.mp h with h | ⟨_, -, h⟩
    · obtain ⟨key, hkey, h⟩ := exists_of_mapM_eq_error h
      rcases bind_eq_error.mp h with h | ⟨_, -, h⟩
      · exact .key hc hkey h
      · cases h
    · cases h
  · cases h

theorem relationError_resolveOne (h : resolveOne d s r owner declaration = .error e) :
    RelationError r e := by
  rcases bind_eq_error.mp h with h | ⟨target, -, h⟩
  · exact relationError_resolve h
  split at h
  · cases h
  rcases bind_eq_error.mp h with h | ⟨own, -, h⟩
  · exact relationError_keysBetween h
  extract_lets complete at h
  have hcomplete : ∀ pairs, complete pairs = .error e → RelationError r e := by
    intro pairs h
    dsimp only [complete] at h
    split at h
    · cases h
    · cases h
      exact .fault rfl
  split at h
  · rcases bind_eq_error.mp h with h | ⟨back, -, h⟩
    · exact relationError_keysBetween h
    · rw [pure_bind] at h
      exact hcomplete _ h
  · exact hcomplete own h

theorem relationError_resolveMany (h : resolveMany d s r ones owner declaration = .error e) :
    RelationError r e := by
  rcases bind_eq_error.mp h with h | ⟨target, -, h⟩
  · exact relationError_resolve h
  split at h
  · cases h
  dsimp only at h
  split at h
  · cases h
  rcases bind_eq_error.mp h with h | ⟨pairs, -, h⟩
  · exact relationError_keysBetween h
  split at h
  · cases h
  · cases h
    exact .fault rfl

/-- A relation between registered tables is refused by a fault of the schema. -/
theorem relationError_addRelation (hsource : (r.table? rel.source).isSome)
    (htarget : (r.table? rel.target).isSome) (h : addRelation r rel = .error e) :
    RelationError r e := by
  obtain ⟨source, hsource⟩ := Option.isSome_iff_exists.mp hsource
  obtain ⟨target, htarget⟩ := Option.isSome_iff_exists.mp htarget
  rw [addRelation, bind_of_eq_ok (Registry.table_eq_ok.mpr hsource),
    bind_of_eq_ok (Registry.table_eq_ok.mpr htarget)] at h
  split at h
  · cases h
    exact .fault rfl
  · split at h
    · cases h
      exact .fault rfl
    · cases h

/-! ## Completed relations -/

/-- Every recorded table is registered. -/
def AllRegistered (s : Sorted) (r : Registry) : Prop :=
  ∀ n ∈ s.tables, (r.table? n.name).isSome = true

theorem isSome_of_resolve (hs : AllRegistered s r) (h : resolve d s r owner target = .ok name) :
    (r.table? name).isSome := by
  have hname {table : String} (h : s.nameOf? table = some name) : (r.table? name).isSome := by
    obtain ⟨n, hn, rfl⟩ := Option.map_eq_some_iff.mp h
    exact hs n (List.mem_of_find?_eq_some hn)
  rw [resolve_eq] at h
  split at h
  · rename_i found hfound
    cases h
    cases target with
    | table table => exact hname hfound
    | model model =>
      obtain ⟨t, -, ht⟩ := Option.bind_eq_some_iff.mp hfound
      exact hname ht
    | name text =>
      rw [nameOfTarget?] at hfound
      split at hfound
      · rename_i hthere
        cases hfound
        exact hthere
      · exact hname hfound
  · cases h

/-- A completed relation stands with its owner under its name, and its target is resolved. -/
theorem place_of_resolveOne (h : resolveOne d s r owner declaration = .ok rel) :
    rel.place = (owner, declaration.name) ∧
      resolve d s r owner declaration.target = .ok rel.target := by
  obtain ⟨target, fields, references, htarget, rfl, -⟩ := of_resolveOne h
  exact ⟨rfl, htarget⟩

theorem place_of_resolveMany (h : resolveMany d s r ones owner declaration = .ok rel) :
    rel.place = (owner, declaration.name) ∧
      resolve d s r owner declaration.target = .ok rel.target := by
  obtain ⟨target, fields, references, htarget, rfl, -⟩ := of_resolveMany h
  exact ⟨rfl, htarget⟩

/-! ## Declarations by owner -/

/-- The declarations of some sets, each with the name of the table that owns it. -/
def ownedDeclarations (d : Declarations) (s : Sorted) (r : Registry)
    (pick : RelationSet → List RelationDeclaration) (sets : List RelationSet) :
    List (String × RelationDeclaration) :=
  sets.flatMap fun set =>
    match resolve d s r setOwner set.owner with
    | .ok owner => (pick set).map fun declaration => (owner, declaration)
    | .error _ => []

/-- The owner and the name that a declaration gives a relation to. -/
def ownerAndName (p : String × RelationDeclaration) : String × String := (p.1, p.2.name)

/-- Whether every set has an owner. -/
def AllOwned (d : Declarations) (s : Sorted) (r : Registry) (sets : List RelationSet) : Prop :=
  ∀ set ∈ sets, ∃ owner, resolve d s r setOwner set.owner = .ok owner

variable {pick : RelationSet → List RelationDeclaration}

theorem resolve_of_mem_owned {p : String × RelationDeclaration}
    (h : p ∈ ownedDeclarations d s r pick sets) :
    ∃ set ∈ sets, resolve d s r setOwner set.owner = .ok p.1 ∧ p.2 ∈ pick set := by
  obtain ⟨set, hset, hp⟩ := List.mem_flatMap.mp h
  split at hp
  · rename_i owner howner
    obtain ⟨declaration, hdeclaration, rfl⟩ := List.mem_map.mp hp
    exact ⟨set, hset, howner, hdeclaration⟩
  · cases hp

theorem owned_perm (h : sets.Perm sets') :
    (ownedDeclarations d s r pick sets).Perm (ownedDeclarations d s r pick sets') :=
  h.flatMap_right _

theorem owned_congr (h : r.SameTables r') :
    ownedDeclarations d s r pick sets = ownedDeclarations d s r' pick sets := by
  simp only [ownedDeclarations, resolve_congr h]

/-- Going through the declarations of all sets is going through all declarations by owner. -/
theorem foldlM_owned {β : Type} (step : β → String → RelationDeclaration → Attempt β)
    {acc acc' : β} :
    (sets.foldlM (fun acc set => do
      let owner ← resolve d s r setOwner set.owner
      (pick set).foldlM (fun acc declaration => step acc owner declaration) acc) acc) = .ok acc' ↔
    AllOwned d s r sets ∧ (ownedDeclarations d s r pick sets).foldlM
      (fun acc p => step acc p.1 p.2) acc = .ok acc' := by
  induction sets generalizing acc with
  | nil => simp [AllOwned, ownedDeclarations]
  | cons set sets ih =>
    rw [List.foldlM_cons, AllOwned, List.forall_mem_cons, ownedDeclarations, List.flatMap_cons,
      List.foldlM_append, bind_eq_ok]
    cases howner : resolve d s r setOwner set.owner with
    | error e =>
      refine ⟨fun ⟨_, h, _⟩ => ?_, fun ⟨⟨⟨_, h⟩, _⟩, _⟩ => ?_⟩
      · cases h
      · cases h
    | ok owner =>
      simp only [List.foldlM_map, bind_eq_ok]
      constructor
      · rintro ⟨next, ⟨_, howner', hnext⟩, h⟩
        cases howner'
        obtain ⟨hall, h⟩ := ih.mp h
        exact ⟨⟨⟨owner, rfl⟩, hall⟩, next, hnext, h⟩
      · rintro ⟨⟨-, hall⟩, next, hnext, h⟩
        exact ⟨next, ⟨owner, rfl, hnext⟩, ih.mpr ⟨hall, h⟩⟩

/-! ## The passes over declared relations -/

/-- The to-one relations of all sets are completed and filed. -/
theorem collectOnes_eq_ok : collectOnes d (s.withSets sets) r = .ok ones ↔
    AllOwned d s r sets ∧ ∃ rels, (ownedDeclarations d s r (·.toOne) sets).mapM
      (fun p => resolveOne d s r p.1 p.2) = .ok rels ∧ rels.foldl file [] = ones := by
  have hfile (acc : Members (Members Relation)) (owner : String)
      (declaration : RelationDeclaration) :
      (do
        let one ← resolveOne d s r owner declaration
        let filed := Members.put ((Members.get? acc owner).getD []) declaration.name one
        return Members.put acc owner filed) =
      (do return file acc (← resolveOne d s r owner declaration)) := by
    cases hone : resolveOne d s r owner declaration with
    | error e => rfl
    | ok one =>
      obtain ⟨hsource, hname⟩ := Prod.mk.inj (place_of_resolveOne hone).1
      rw [← hsource, ← hname]
      rfl
  show (sets.foldlM (fun acc set => do
    let owner ← resolve d s r setOwner set.owner
    set.toOne.foldlM (fun acc declaration => do
      let one ← resolveOne d s r owner declaration
      let filed := Members.put ((Members.get? acc owner).getD []) declaration.name one
      return Members.put acc owner filed) acc) []) = .ok ones ↔ _
  simp only [hfile]
  rw [foldlM_owned (fun acc owner declaration => do
    return file acc (← resolveOne d s r owner declaration)), foldlM_mapM_eq_ok]
  simp only [List.foldlM_pure, pure_eq_ok]

/-- Completes and adds the to-many relations of a set, by what one registry has. -/
def addManys (d : Declarations) (s : Sorted) (r : Registry) (ones : Members (Members Relation))
    (acc : Registry) (set : RelationSet) : Attempt Registry := do
  let owner ← resolve d s r setOwner set.owner
  set.toMany.foldlM (fun acc declaration => do
    addRelation acc (← resolveMany d s r ones owner declaration)) acc

/-- Completes and adds the to-many relations of a set, by what there is at each of them. -/
def addManysInTurn (d : Declarations) (s : Sorted) (ones : Members (Members Relation))
    (acc : Registry) (set : RelationSet) : Attempt Registry := do
  let owner ← resolve d s acc setOwner set.owner
  set.toMany.foldlM (fun acc declaration => do
    addRelation acc (← resolveMany d s acc ones owner declaration)) acc

/-- Adds the relations of all sets. -/
def addDeclared (d : Declarations) (s : Sorted) (r : Registry) : Attempt Registry := do
  let ones ← collectOnes d s r
  let r ← (Members.values ones).foldlM
    (fun r rels => (Members.values rels).foldlM addRelation r) r
  s.relationSets.foldlM (addManysInTurn d s ones) r

theorem foldlM_allFiled : ((Members.values ones).foldlM
    (fun r rels => (Members.values rels).foldlM addRelation r) r) =
      (allFiled ones).foldlM addRelation r := by
  rw [allFiled, foldlM_flatMap]

/-- The relations of mapped classes come first, whatever is declared besides. -/
theorem addRelations_eq : addRelations d (s.withSets sets) r =
    addRelations d (s.withSets []) r >>= addDeclared d (s.withSets sets) := by
  have hsplit (sets : List RelationSet) : addRelations d (s.withSets sets) r = (do
      let joined ← if s.mapped.isEmpty then pure [] else d.joinedRelationships
      s.mapped.foldlM (addRelationships d s joined) r) >>= addDeclared d (s.withSets sets) := by
    unfold addRelations
    show (if s.mapped.isEmpty then _ else _) = _
    split <;> exact (bind_assoc _ _ _).symm
  have hnone : addDeclared d (s.withSets []) = pure := rfl
  rw [hsplit, hsplit, hnone, bind_pure]

/-- A relation that is completed and added leaves the tables as they are. -/
theorem sameTables_addCompleted {acc acc' : Registry} {completed : Attempt Relation}
    (h : (do addRelation acc (← completed)) = .ok acc') (hsame : r.SameTables acc) :
    r.SameTables acc' := by
  obtain ⟨_, -, hadd⟩ := bind_eq_ok.mp h
  exact hsame.trans (sameTables_addRelation hadd)

theorem addManysInTurn_eq {acc : Registry} {set : RelationSet} (h : r.SameTables acc) :
    addManysInTurn d s ones acc set = addManys d s r ones acc set := by
  rw [addManysInTurn, addManys, resolve_congr h.symm]
  refine congrArg _ (funext fun owner => ?_)
  exact foldlM_congr_of_kept (P := r.SameTables) (fun _ _ _ _ => sameTables_addCompleted)
    (fun acc declaration _ hsame => by rw [resolveMany_congr hsame.symm]) h

theorem sameTables_addManys {acc acc' : Registry} {set : RelationSet}
    (h : addManys d s r ones acc set = .ok acc') (hsame : r.SameTables acc) :
    r.SameTables acc' := by
  obtain ⟨owner, -, h⟩ := bind_eq_ok.mp h
  exact foldlM_induction h (fun _ _ _ _ => sameTables_addCompleted) hsame

theorem foldlM_addManysInTurn {acc : Registry} (h : r.SameTables acc) :
    sets.foldlM (addManysInTurn d s ones) acc = sets.foldlM (addManys d s r ones) acc := by
  refine foldlM_congr_of_kept (P := r.SameTables) (fun acc set _ acc' hadd hsame => ?_)
    (fun acc set _ hsame => addManysInTurn_eq hsame) h
  rw [addManysInTurn_eq hsame] at hadd
  exact sameTables_addManys hadd hsame

/-- What adding the relations of all sets comes to: the to-one relations that are filed and then the
to-many relations are added, all completed by what there was before. -/
theorem addDeclared_eq_ok : addDeclared d (s.withSets sets) r = .ok r' ↔
    AllOwned d s r sets ∧ ∃ rels manys,
      (ownedDeclarations d s r (·.toOne) sets).mapM
        (fun p => resolveOne d s r p.1 p.2) = .ok rels ∧
      (ownedDeclarations d s r (·.toMany) sets).mapM
        (fun p => resolveMany d s r (rels.foldl file []) p.1 p.2) = .ok manys ∧
      (allFiled (rels.foldl file []) ++ manys).foldlM addRelation r = .ok r' := by
  have hmany {ones : Members (Members Relation)} {acc : Registry} (hsame : r.SameTables acc) :
      sets.foldlM (addManysInTurn d s ones) acc = .ok r' ↔ AllOwned d s r sets ∧ ∃ manys,
        (ownedDeclarations d s r (·.toMany) sets).mapM
          (fun p => resolveMany d s r ones p.1 p.2) = .ok manys ∧
        manys.foldlM addRelation acc = .ok r' := by
    rw [foldlM_addManysInTurn hsame]
    unfold addManys
    rw [foldlM_owned (fun acc owner declaration => do
      addRelation acc (← resolveMany d s r ones owner declaration)), foldlM_mapM_eq_ok]
  constructor
  · intro h
    obtain ⟨ones, hones, h⟩ := bind_eq_ok.mp h
    obtain ⟨next, hnext, h⟩ := bind_eq_ok.mp h
    obtain ⟨howned, rels, hrels, rfl⟩ := collectOnes_eq_ok.mp hones
    rw [foldlM_allFiled] at hnext
    obtain ⟨-, manys, hmanys, h⟩ := (hmany (sameTables_foldlM hnext)).mp h
    refine ⟨howned, rels, manys, hrels, hmanys, ?_⟩
    rw [List.foldlM_append]
    exact bind_eq_ok.mpr ⟨next, hnext, h⟩
  · rintro ⟨howned, rels, manys, hrels, hmanys, h⟩
    rw [List.foldlM_append] at h
    obtain ⟨next, hnext, h⟩ := bind_eq_ok.mp h
    refine bind_eq_ok.mpr ⟨_, collectOnes_eq_ok.mpr ⟨howned, rels, hrels, rfl⟩, ?_⟩
    exact bind_eq_ok.mpr ⟨next, foldlM_allFiled.trans hnext,
      (hmany (sameTables_foldlM hnext)).mpr ⟨howned, manys, hmanys, h⟩⟩

/-! ## Refused relations -/

/-- A completed relation of an owner of some set is refused by a fault of the schema. -/
theorem relationError_add {acc : Registry} {setTarget : Target} (hs : AllRegistered s r)
    (hsame : r.SameTables acc) (howner : resolve d s r setOwner setTarget = .ok owner)
    (hplace : rel.place = (owner, declaration.name) ∧
      resolve d s r owner declaration.target = .ok rel.target)
    (h : addRelation acc rel = .error e) : RelationError r e := by
  obtain ⟨hsource, htarget⟩ := hplace
  have hsource : rel.source = owner := (Prod.mk.inj hsource).1
  refine (relationError_addRelation ?_ ?_ h).of_sameTables hsame.symm
  · rw [← hsame.isSome_eq, hsource]
    exact isSome_of_resolve hs howner
  · rw [← hsame.isSome_eq]
    exact isSome_of_resolve hs htarget

theorem relationError_collectOnes (h : collectOnes d s r = .error e) : RelationError r e := by
  obtain ⟨set, -, acc, -, h⟩ :=
    exists_of_foldlM_eq_error (P := fun _ => True) h (fun _ _ _ _ _ _ => trivial) trivial
  rcases bind_eq_error.mp h with h | ⟨owner, -, h⟩
  · exact relationError_resolve h
  obtain ⟨declaration, -, acc, -, h⟩ :=
    exists_of_foldlM_eq_error (P := fun _ => True) h (fun _ _ _ _ _ _ => trivial) trivial
  rcases bind_eq_error.mp h with h | ⟨one, -, h⟩
  · exact relationError_resolveOne h
  · cases h

theorem relationError_addManys {acc : Registry} {set : RelationSet} (hs : AllRegistered s r)
    (hsame : r.SameTables acc) (h : addManys d s r ones acc set = .error e) :
    RelationError r e := by
  rcases bind_eq_error.mp h with h | ⟨owner, howner, h⟩
  · exact relationError_resolve h
  obtain ⟨declaration, -, acc, hsame, h⟩ := exists_of_foldlM_eq_error h
    (fun _ _ _ _ => sameTables_addCompleted) hsame
  rcases bind_eq_error.mp h with h | ⟨rel, hrel, h⟩
  · exact relationError_resolveMany h
  · exact relationError_add hs hsame howner (place_of_resolveMany hrel) h

/-- Where all recorded tables are registered, declared relations are refused by a fault of the
schema or over a foreign key that leads nowhere. -/
theorem relationError_addDeclared (hs : AllRegistered s r)
    (h : addDeclared d (s.withSets sets) r = .error e) : RelationError r e := by
  rcases bind_eq_error.mp h with h | ⟨ones, hones, h⟩
  · exact relationError_collectOnes h
  rw [foldlM_allFiled] at h
  obtain ⟨-, rels, hrels, rfl⟩ := collectOnes_eq_ok.mp hones
  rcases bind_eq_error.mp h with h | ⟨next, hnext, h⟩
  · obtain ⟨rel, hrel, acc, hsame, h⟩ := exists_of_foldlM_eq_error h
      (fun acc rel _ acc' hadd hsame => hsame.trans (sameTables_addRelation hadd))
      (Registry.SameTables.refl r)
    obtain ⟨p, hp, hone⟩ := exists_of_mem_mapM hrels (mem_of_mem_allFiled hrel)
    obtain ⟨set, -, howner, -⟩ := resolve_of_mem_owned hp
    exact relationError_add hs hsame howner (place_of_resolveOne hone) h
  · have hsame := sameTables_foldlM hnext
    rw [foldlM_addManysInTurn (s := s.withSets sets) hsame] at h
    obtain ⟨set, -, acc, hsame, h⟩ := exists_of_foldlM_eq_error h
      (fun acc set _ acc' hadd hsame => sameTables_addManys hadd hsame) hsame
    exact relationError_addManys (s := s.withSets sets) hs hsame h

/-! ## Relation sets in another order -/

/-- Owners and names that tell declarations apart tell the completed relations apart. -/
theorem injOn_place {owned : List (String × RelationDeclaration)}
    {complete : String × RelationDeclaration → Attempt Relation} {rels : List Relation}
    (howned : Set.InjOn ownerAndName {p | p ∈ owned}) (h : owned.mapM complete = .ok rels)
    (hplace : ∀ p rel, complete p = .ok rel → rel.place = ownerAndName p) :
    Set.InjOn Relation.place {rel | rel ∈ rels} := by
  intro a ha b hb hab
  obtain ⟨p, hp, hpa⟩ := exists_of_mem_mapM h ha
  obtain ⟨q, hq, hqb⟩ := exists_of_mem_mapM h hb
  obtain rfl : p = q :=
    howned hp hq ((hplace p a hpa).symm.trans (hab.trans (hplace q b hqb)))
  exact Except.ok.inj (hpa.symm.trans hqb)

/-- Relation sets in another order come to the same relations. -/
theorem sameRelations_of_perm (hperm : sets.Perm sets')
    (hone : Set.InjOn ownerAndName {p | p ∈ ownedDeclarations d s r (·.toOne) sets})
    (hmany : Set.InjOn ownerAndName {p | p ∈ ownedDeclarations d s r (·.toMany) sets})
    (h : addDeclared d (s.withSets sets) r = .ok r') :
    ∃ r'', addDeclared d (s.withSets sets') r = .ok r'' ∧ r'.SameRelations r'' := by
  obtain ⟨howned, rels, manys, hrels, hmanys, hadd⟩ := addDeclared_eq_ok.mp h
  have hplaces : Set.InjOn Relation.place {rel | rel ∈ rels} :=
    injOn_place hone hrels fun p rel hrel => (place_of_resolveOne hrel).1
  have hplacesManys : Set.InjOn Relation.place {rel | rel ∈ manys} :=
    injOn_place hmany hmanys fun p rel hrel => (place_of_resolveMany hrel).1
  obtain ⟨rels', hrels', hrelsPerm⟩ := mapM_perm (owned_perm hperm) hrels
  obtain ⟨manys', hmanys', hmanysPerm⟩ := mapM_perm (owned_perm hperm) hmanys
  -- The same to-one relations are filed, so that the to-many relations are completed alike.
  have hback := (filed_foldl filed_nil rels).perm_getD (filed_foldl filed_nil rels')
    (filedAt?_perm hrelsPerm hplaces)
  simp only [resolveMany_congr_ones hback] at hmanys'
  have hmem (rel : Relation) :
      rel ∈ allFiled (rels.foldl file []) ↔ rel ∈ allFiled (rels'.foldl file []) :=
    mem_allFiled_perm hrelsPerm hplaces
  have hfirst : Set.InjOn Relation.place {rel | rel ∈ allFiled (rels.foldl file [])} :=
    hplaces.mono fun rel hrel => mem_of_mem_allFiled hrel
  obtain ⟨r'', hadd'⟩ : ∃ r'', (allFiled (rels'.foldl file []) ++ manys').foldlM addRelation r =
      .ok r'' := by
    refine exists_foldlM_addRelation.mpr fun rel hrel => ?_
    refine exists_foldlM_addRelation.mp ⟨r', hadd⟩ rel ?_
    rw [List.mem_append] at hrel ⊢
    exact hrel.imp (hmem rel).mpr hmanysPerm.mem_iff.mpr
  have howned' : AllOwned d s r sets' := fun set hset => howned set (hperm.mem_iff.mpr hset)
  exact ⟨r'', addDeclared_eq_ok.mpr ⟨howned', rels', manys', hrels', hmanys', hadd'⟩,
    sameRelations_foldlM hadd hadd' hmem (fun _ => hmanysPerm.mem_iff) hfirst hplacesManys⟩

/-- Relation sets in another order are refused as well, or come to the same relations. -/
theorem addDeclared_of_perm (hs : AllRegistered s r) (hperm : sets.Perm sets')
    (hone : Set.InjOn ownerAndName {p | p ∈ ownedDeclarations d s r (·.toOne) sets})
    (hmany : Set.InjOn ownerAndName {p | p ∈ ownedDeclarations d s r (·.toMany) sets}) :
    (∃ e e', addDeclared d (s.withSets sets) r = .error e ∧
      addDeclared d (s.withSets sets') r = .error e' ∧ RelationError r e ∧ RelationError r e') ∨
    ∃ r' r'', addDeclared d (s.withSets sets) r = .ok r' ∧
      addDeclared d (s.withSets sets') r = .ok r'' ∧ r'.SameRelations r'' := by
  cases h : addDeclared d (s.withSets sets) r with
  | ok r' =>
    obtain ⟨r'', h', hsame⟩ := sameRelations_of_perm hperm hone hmany h
    exact .inr ⟨r', r'', rfl, h', hsame⟩
  | error e =>
    cases h' : addDeclared d (s.withSets sets') r with
    | ok r'' =>
      have hone' : Set.InjOn ownerAndName {p | p ∈ ownedDeclarations d s r (·.toOne) sets'} := by
        simpa only [(owned_perm hperm).mem_iff] using hone
      have hmany' : Set.InjOn ownerAndName {p | p ∈ ownedDeclarations d s r (·.toMany) sets'} := by
        simpa only [(owned_perm hperm).mem_iff] using hmany
      obtain ⟨r', hok, -⟩ := sameRelations_of_perm hperm.symm hone' hmany' h'
      cases h.symm.trans hok
    | error e' =>
      exact .inl ⟨e, e', rfl, rfl, relationError_addDeclared hs h, relationError_addDeclared hs h'⟩

/-- No table is given one to-one name, or one to-many name, by declarations that differ. -/
def DeclaresOnce (d : Declarations) (source : SchemaSource) : Prop :=
  ∀ s r, Sorted.add d {} none source = .ok s → tablesOf s = .ok r →
    Set.InjOn ownerAndName {p | p ∈ ownedDeclarations d s r (·.toOne) s.relationSets} ∧
    Set.InjOn ownerAndName {p | p ∈ ownedDeclarations d s r (·.toMany) s.relationSets}

theorem allRegistered_tablesOf (h : tablesOf s = .ok r) : AllRegistered s r := by
  intro n hn
  rw [← isSome_of_rel (table?_tablesOf h n.name).2, Sorted.isSome_lastNamed?]
  exact List.mem_map_of_mem (f := (·.name)) hn

/-- A source is loaded up to its declared relations, and these come last. -/
theorem load_withSets {source : SchemaSource}
    (h : Sorted.add d {} none source = .ok (s.withSets sets)) :
    load d source = tablesOf s >>= fun r => addRelations d (s.withSets []) r >>= fun next =>
      (addDeclared d (s.withSets sets) next).map fun registry => ⟨registry, s.ignored⟩ := by
  rw [load, bind_of_eq_ok h]
  refine congrArg (tablesOf s >>= ·) (funext fun r => ?_)
  rw [addRelations_eq, bind_assoc]
  rfl

/-- A source whose relation sets stand at other places comes to the same, if no table is given one
name by declarations that differ. Either both fail with one error, or neither gets past its declared
relations, be it for a fault of the schema or over a foreign key that leads nowhere, and the two may
fail differently, or both load: with the same tables, each with the same relations by name. -/
theorem load_of_moved {source source' : SchemaSource} (hmoved : source.Moved source')
    (honce : DeclaresOnce d source) :
    (∃ e, load d source = .error e ∧ load d source' = .error e) ∨
    (∃ s r e e', Sorted.add d {} none source = .ok s ∧ tablesOf s = .ok r ∧
      load d source = .error e ∧ load d source' = .error e' ∧
      RelationError r e ∧ RelationError r e') ∨
    ∃ loaded loaded', load d source = .ok loaded ∧ load d source' = .ok loaded' ∧
      loaded.ignored = loaded'.ignored ∧ loaded.registry.SameRelations loaded'.registry := by
  obtain ⟨e, he, he'⟩ | ⟨s, sets, sets', hperm, hs, hs'⟩ := Sorted.add_of_moved hmoved (d := d)
  · exact .inl ⟨e, by rw [load, he]; rfl, by rw [load, he']; rfl⟩
  cases htables : tablesOf s with
  | error e =>
    exact .inl ⟨e, by rw [load_withSets hs, htables]; rfl, by rw [load_withSets hs', htables]; rfl⟩
  | ok r =>
  cases hnext : addRelations d (s.withSets []) r with
  | error e =>
    refine .inl ⟨e, ?_, ?_⟩
    · rw [load_withSets hs, bind_of_eq_ok htables, hnext]
      rfl
    · rw [load_withSets hs', bind_of_eq_ok htables, hnext]
      rfl
  | ok next =>
  have hload := load_withSets hs
  have hload' := load_withSets hs'
  rw [bind_of_eq_ok htables, bind_of_eq_ok hnext] at hload hload'
  have hsame : r.SameTables next := table?_addRelations hnext
  have hall : AllRegistered s next := fun n hn =>
    hsame.isSome_eq n.name ▸ allRegistered_tablesOf htables n hn
  obtain ⟨hone, hmany⟩ := honce _ r hs htables
  change Set.InjOn ownerAndName {p | p ∈ ownedDeclarations d s r (·.toOne) sets} at hone
  change Set.InjOn ownerAndName {p | p ∈ ownedDeclarations d s r (·.toMany) sets} at hmany
  rw [owned_congr hsame] at hone hmany
  rcases addDeclared_of_perm hall hperm hone hmany with ⟨e, e', h, h', he, he'⟩ |
    ⟨registry, registry', h, h', hrelations⟩
  · rw [h] at hload
    rw [h'] at hload'
    exact .inr (.inl ⟨_, r, e, e', hs, htables, hload, hload', he.of_sameTables hsame.symm,
      he'.of_sameTables hsame.symm⟩)
  · rw [h] at hload
    rw [h'] at hload'
    exact .inr (.inr ⟨_, _, hload, hload', rfl, hrelations⟩)

/-! ## Relation sets at other places -/

namespace Catalogue

/-- The relation sets of the catalogue before and behind its tables. -/
def moved : SchemaSource := .listing [.relations 1, .listing [.mappedBase, .relations 0]]

/-- The books of an author are completed from the writer of a book, wherever either is declared. -/
theorem books_moved : everything.Moved moved ∧ DeclaresOnce (declared ["author"]) everything ∧
    ∃ loaded loaded', load (declared ["author"]) everything = .ok loaded ∧
      load (declared ["author"]) moved = .ok loaded' ∧
      loaded.registry.SameRelations loaded'.registry ∧
      ∃ rel, loaded'.registry.relationAt? ("authors", "books") = some rel ∧
        rel.references = ["author"] := by
  have hmoved : everything.Moved moved := ⟨rfl, List.Perm.swap 1 0 []⟩
  have honce : DeclaresOnce (declared ["author"]) everything := by
    intro s r hs hr
    cases hs
    cases hr
    exact ⟨List.inj_on_of_nodup_map (by decide), List.inj_on_of_nodup_map (by decide)⟩
  refine ⟨hmoved, honce, ?_⟩
  obtain ⟨e, he, -⟩ | ⟨s, r, e, e', -, -, he, -⟩ | ⟨loaded, loaded', h, h', -, hsame⟩ :=
    load_of_moved hmoved honce
  · cases he
  · cases he
  · refine ⟨loaded, loaded', h, h', hsame, ?_⟩
    cases h'
    exact ⟨_, rfl, rfl⟩

end Catalogue

namespace Posts

/-- A column that is a number. -/
def number (name : String) (primary : Bool) : ColumnDeclaration where
  key := name
  name := name
  type := .integer
  primary := primary

/-- Posts refer to a column that users lack, and one of their two relations to a table that is not
there. -/
def declared : Declarations where
  tables := [
    { name := "users", columns := [number "id" true] },
    { name := "posts"
      columns := [number "id" true, number "user_id" false]
      keys := [⟨[("user_id", .missingColumn "users")]⟩] }]
  relationSets := [
    { owner := .table "posts", toOne := [{ name := "u", target := .table "users" }] },
    { owner := .table "posts", toOne := [{ name := "g", target := .name "ghost" }] }]

/-- Both tables with both relation sets, one way around and the other. -/
def source (first second : Nat) : SchemaSource :=
  .mapping [("users", .table "users"), ("posts", .table "posts"),
    ("relations 0", .relations first), ("relations 1", .relations second)]

/-- The relation that is declared first is refused first, which is no fault of the schema where it
is refused over a foreign key. -/
theorem refused_in_turn : (source 0 1).Moved (source 1 0) ∧
    DeclaresOnce declared (source 0 1) ∧
    load declared (source 0 1) = .error (.mishap (.misdeclared .referencedColumnMissing)) ∧
    load declared (source 1 0) = .error (.fault (.relationTargetMissing "posts" "'ghost'")) := by
  refine ⟨⟨rfl, List.Perm.swap 1 0 []⟩, ?_, rfl, rfl⟩
  intro s r hs hr
  cases hs
  cases hr
  exact ⟨List.inj_on_of_nodup_map (by decide), List.inj_on_of_nodup_map (by decide)⟩

end Posts

end Loading
end RelGraph
