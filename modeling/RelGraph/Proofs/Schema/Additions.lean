import RelGraph.Proofs.Schema.Registry
import Mathlib.Data.Set.Function
/-!
Many relations added to a registry. To-one relations are filed by owner and name before they are
added; adding a relation is filing it, too, among the relations of all tables. Of those that are
filed at one place the last stays, so where places tell relations apart their order has no say in
what is filed, nor in what a table has under a name. A relation fits or not by the columns of its
two tables, which no relation changes, so many can be added precisely where each can be added on its
own.
-/
namespace RelGraph

open Outcome

/-- What is found in a list is found in any list of the same items, if only one item will do. -/
theorem find?_eq_of_mem_iff {α : Type} {l l' : List α} {p : α → Bool} (hmem : ∀ a, a ∈ l ↔ a ∈ l')
    (hone : ∀ a ∈ l, ∀ b ∈ l, p a = true → p b = true → a = b) : l.find? p = l'.find? p := by
  cases hfound : l.find? p with
  | none =>
    refine (List.find?_eq_none.mpr fun a ha => ?_).symm
    exact List.find?_eq_none.mp hfound a ((hmem a).mpr ha)
  | some a =>
    have ha := List.mem_of_find?_eq_some hfound
    have hpa := List.find?_some hfound
    obtain ⟨b, hb⟩ := Option.isSome_iff_exists.mp
      (List.find?_isSome.mpr ⟨a, (hmem a).mp ha, hpa⟩)
    rw [hb, hone a ha b ((hmem b).mpr (List.mem_of_find?_eq_some hb)) hpa (List.find?_some hb)]

/-! ## The same tables -/

/-- Two registries have the same tables, whatever their relations. -/
def Registry.SameTables (r r' : Registry) : Prop :=
  ∀ name, Option.Rel Table.WithRelations (r.table? name) (r'.table? name)

namespace Registry.SameTables

variable {r r' r'' : Registry}

theorem refl (r : Registry) : r.SameTables r := Registry.withRelations_refl r

theorem trans (h : r.SameTables r') (h' : r'.SameTables r'') : r.SameTables r'' :=
  fun name => Registry.withRelations_trans (h name) (h' name)

theorem symm (h : r.SameTables r') : r'.SameTables r := by
  intro name
  have hname := h name
  generalize r.table? name = t at hname ⊢
  generalize r'.table? name = t' at hname ⊢
  cases hname with
  | none => exact .none
  | some hsame =>
    obtain ⟨relations, rfl⟩ := hsame
    exact .some ⟨_, rfl⟩

theorem isSome_eq (h : r.SameTables r') (name : String) :
    (r.table? name).isSome = (r'.table? name).isSome := isSome_of_rel (h name)

theorem declaration_eq (h : r.SameTables r') (name : String) :
    (r.table? name).map (·.declaration) = (r'.table? name).map (·.declaration) := by
  have hname := h name
  generalize r.table? name = t at hname ⊢
  generalize r'.table? name = t' at hname ⊢
  cases hname with
  | none => rfl
  | some hsame =>
    obtain ⟨relations, rfl⟩ := hsame
    rfl

/-- The other table under the name of a table has its declaration and columns. -/
theorem exists_table? (h : r.SameTables r') {name : String} {t : Table}
    (ht : r.table? name = some t) : ∃ t', r'.table? name = some t' ∧
      t'.declaration = t.declaration ∧ ∀ name, t'.hasColumn name = t.hasColumn name := by
  have hname := h name
  rw [ht] at hname
  generalize r'.table? name = t' at hname ⊢
  cases hname with
  | some hsame =>
    obtain ⟨relations, rfl⟩ := hsame
    exact ⟨_, rfl, rfl, fun _ => rfl⟩

end Registry.SameTables

/-- Where a relation stands: its source and its name. -/
def Relation.place (rel : Relation) : String × String := (rel.source, rel.name)

/-- The relation at a place. -/
def Registry.relationAt? (r : Registry) (place : String × String) : Option Relation :=
  (r.table? place.1).bind (·.relation? place.2)

/-- Two registries have the same tables in the same order, and every table has the same relations
by name. -/
structure Registry.SameRelations (r r' : Registry) : Prop where
  names : Members.names r.tables = Members.names r'.tables
  tables : r.SameTables r'
  relations : ∀ table name, r.relationAt? (table, name) = r'.relationAt? (table, name)

/-- The last relation of a list at a place. -/
def lastAt? (rels : List Relation) (place : String × String) : Option Relation :=
  rels.reverse.find? (·.place = place)

theorem lastAt?_cons {rel : Relation} {rels : List Relation} {place : String × String} :
    lastAt? (rel :: rels) place =
      (lastAt? rels place).or (if rel.place = place then some rel else none) := by
  rw [lastAt?, List.reverse_cons, List.find?_append, List.find?_singleton]
  simp [lastAt?]

theorem lastAt?_append {rels more : List Relation} {place : String × String} :
    lastAt? (rels ++ more) place = (lastAt? more place).or (lastAt? rels place) := by
  rw [lastAt?, List.reverse_append, List.find?_append]
  rfl

theorem mem_of_lastAt? {rels : List Relation} {rel : Relation} {place : String × String}
    (h : lastAt? rels place = some rel) : rel ∈ rels :=
  List.mem_reverse.mp (List.mem_of_find?_eq_some h)

/-- Where places tell relations apart, their order has no say in which is the last at a place. -/
theorem lastAt?_congr {rels rels' : List Relation} (hmem : ∀ rel, rel ∈ rels ↔ rel ∈ rels')
    (hplaces : Set.InjOn Relation.place {rel | rel ∈ rels}) (place : String × String) :
    lastAt? rels place = lastAt? rels' place := by
  refine find?_eq_of_mem_iff (by simpa using hmem) fun a ha b hb hpa hpb => ?_
  refine hplaces (List.mem_reverse.mp ha) (List.mem_reverse.mp hb) ?_
  rw [of_decide_eq_true hpa, of_decide_eq_true hpb]

namespace Loading

variable {r r' : Registry} {rel : Relation} {rels : List Relation} {place : String × String}

/-! ## Relations by owner and name -/

/-- Files a relation under its owner and its name. -/
def file (ones : Members (Members Relation)) (one : Relation) : Members (Members Relation) :=
  Members.put ones one.source
    (Members.put ((Members.get? ones one.source).getD []) one.name one)

/-- The filed relation at a place. -/
def filedAt? (ones : Members (Members Relation)) (place : String × String) : Option Relation :=
  Members.get? ((Members.get? ones place.1).getD []) place.2

/-- All filed relations. -/
def allFiled (ones : Members (Members Relation)) : List Relation :=
  (Members.values ones).flatMap Members.values

/-- Every relation is filed once, under its owner and its name. -/
structure Filed (ones : Members (Members Relation)) : Prop where
  owners : (Members.names ones).Nodup
  names : ∀ entry ∈ ones, (Members.names entry.2).Nodup
  places : ∀ entry ∈ ones, ∀ named ∈ entry.2, named.2.place = (entry.1, named.1)

variable {ones ones' : Members (Members Relation)}

/-- What an owner has was filed. -/
theorem mem_getD_filed {owner : String} {named : String × Relation}
    (h : named ∈ (Members.get? ones owner).getD []) :
    ∃ rels, (owner, rels) ∈ ones ∧ named ∈ rels := by
  cases hrels : Members.get? ones owner with
  | none => simp [hrels] at h
  | some rels => exact ⟨rels, Members.mem_of_get? hrels, by simpa [hrels] using h⟩

theorem Filed.nodup_getD (h : Filed ones) (owner : String) :
    (Members.names ((Members.get? ones owner).getD [])).Nodup := by
  cases hrels : Members.get? ones owner with
  | none => exact List.nodup_nil
  | some rels => exact h.names _ (Members.mem_of_get? hrels)

theorem filed_file (h : Filed ones) (one : Relation) : Filed (file ones one) := by
  refine ⟨Members.nodup_names_put h.owners, fun entry hentry => ?_,
    fun entry hentry named hnamed => ?_⟩
  · rcases Members.mem_put hentry with rfl | hbefore
    · exact Members.nodup_names_put (h.nodup_getD one.source)
    · exact h.names entry hbefore
  · rcases Members.mem_put hentry with rfl | hbefore
    · rcases Members.mem_put hnamed with rfl | hown
      · rfl
      · obtain ⟨rels, hrels, hmem⟩ := mem_getD_filed hown
        exact h.places _ hrels named hmem
    · exact h.places entry hbefore named hnamed

theorem filed_foldl (h : Filed ones) (rels : List Relation) : Filed (rels.foldl file ones) := by
  induction rels generalizing ones with
  | nil => exact h
  | cons rel rels ih => exact ih (filed_file h rel)

theorem filed_nil : Filed [] := ⟨List.nodup_nil, by simp, by simp⟩

theorem filedAt?_file {one : Relation} : filedAt? (file ones one) place =
    if one.place = place then some one else filedAt? ones place := by
  obtain ⟨owner, name⟩ := place
  by_cases howner : one.source = owner
  · subst howner
    rw [filedAt?, file, Members.get?_put_self]
    show Members.get? (Members.put _ _ _) name = _
    by_cases hname : one.name = name
    · subst hname
      rw [Members.get?_put_self]
      exact (if_pos rfl).symm
    · have hplace : one.place ≠ (one.source, name) := fun h => hname (Prod.mk.inj h).2
      rw [Members.get?_put_of_ne _ _ (Ne.symm hname), if_neg hplace]
      rfl
  · have hplace : one.place ≠ (owner, name) := fun h => howner (Prod.mk.inj h).1
    rw [filedAt?, file, Members.get?_put_of_ne _ _ (Ne.symm howner), if_neg hplace]
    rfl

/-- The last relation that is filed at a place stays. -/
theorem filedAt?_foldl : filedAt? (rels.foldl file ones) place =
    (lastAt? rels place).or (filedAt? ones place) := by
  induction rels generalizing ones with
  | nil => rfl
  | cons rel rels ih =>
    rw [List.foldl_cons, ih, filedAt?_file, lastAt?_cons, Option.or_assoc]
    congr 1
    split <;> rfl

theorem Filed.mem_allFiled (h : Filed ones) :
    rel ∈ allFiled ones ↔ filedAt? ones rel.place = some rel := by
  constructor
  · intro hrel
    obtain ⟨rels, hrels, hmem⟩ := List.mem_flatMap.mp hrel
    obtain ⟨⟨owner, rels⟩, hentry, rfl⟩ := List.mem_map.mp hrels
    obtain ⟨⟨name, rel⟩, hnamed, rfl⟩ := List.mem_map.mp hmem
    rw [h.places _ hentry _ hnamed, filedAt?, Members.get?_of_mem h.owners hentry]
    exact Members.get?_of_mem (h.names _ hentry) hnamed
  · intro hfiled
    obtain ⟨rels, hrels, hmem⟩ := mem_getD_filed (Members.mem_of_get? hfiled)
    exact List.mem_flatMap.mpr ⟨rels, List.mem_map_of_mem (f := Prod.snd) hrels,
      List.mem_map_of_mem (f := Prod.snd) hmem⟩

theorem mem_of_mem_allFiled (h : rel ∈ allFiled (rels.foldl file [])) : rel ∈ rels := by
  rw [(filed_foldl filed_nil rels).mem_allFiled, filedAt?_foldl] at h
  change (lastAt? rels rel.place).or none = some rel at h
  rw [Option.or_none] at h
  exact mem_of_lastAt? h

/-- Where places tell relations apart, the same are filed in whatever order. -/
theorem filedAt?_perm {rels' : List Relation} (hperm : rels.Perm rels')
    (hplaces : Set.InjOn Relation.place {rel | rel ∈ rels}) (place : String × String) :
    filedAt? (rels.foldl file []) place = filedAt? (rels'.foldl file []) place := by
  rw [filedAt?_foldl, filedAt?_foldl, lastAt?_congr (fun _ => hperm.mem_iff) hplaces]

theorem mem_allFiled_perm {rels' : List Relation} (hperm : rels.Perm rels')
    (hplaces : Set.InjOn Relation.place {rel | rel ∈ rels}) :
    rel ∈ allFiled (rels.foldl file []) ↔ rel ∈ allFiled (rels'.foldl file []) := by
  rw [(filed_foldl filed_nil rels).mem_allFiled, (filed_foldl filed_nil rels').mem_allFiled,
    filedAt?_perm hperm hplaces]

/-- The relations of an owner are the same in some order where the same are filed. -/
theorem Filed.perm_getD (h : Filed ones) (h' : Filed ones')
    (hsame : ∀ place, filedAt? ones place = filedAt? ones' place) (owner : String) :
    ((Members.get? ones owner).getD []).Perm ((Members.get? ones' owner).getD []) :=
  Members.perm_of_get? (h.nodup_getD owner) (h'.nodup_getD owner) fun name => hsame (owner, name)

/-! ## Adding relations -/

theorem sameTables_addRelation (h : addRelation r rel = .ok r') : r.SameTables r' :=
  table?_addRelation h

theorem sameTables_foldlM (h : rels.foldlM addRelation r = .ok r') : r.SameTables r' :=
  foldlM_induction (P := r.SameTables) h
    (fun _ _ _ _ hadd hsame => hsame.trans (sameTables_addRelation hadd)) (.refl r)

theorem names_foldlM (h : rels.foldlM addRelation r = .ok r') :
    Members.names r'.tables = Members.names r.tables :=
  foldlM_induction (P := fun r' => Members.names r'.tables = Members.names r.tables) h
    (fun _ _ _ _ hadd hnames => (names_addRelation hadd).trans hnames) rfl

/-- A relation fits where the tables have the same columns. -/
theorem exists_addRelation_of_sameTables (hsame : r.SameTables r')
    (h : ∃ added, addRelation r rel = .ok added) : ∃ added, addRelation r' rel = .ok added := by
  obtain ⟨_, h⟩ := h
  obtain ⟨source, target, hsource, htarget, hpairs, hfree, -⟩ := addRelation_eq_ok.mp h
  obtain ⟨source', hsource', -, hhere⟩ := hsame.exists_table? hsource
  obtain ⟨target', htarget', -, hthere⟩ := hsame.exists_table? htarget
  refine ⟨_, addRelation_eq_ok.mpr ⟨source', target', hsource', htarget', fun p hp => ?_, ?_, rfl⟩⟩
  · rw [hhere, hthere]
    exact hpairs p hp
  · rw [hhere, hfree]

/-- Relations can be added one after the other where each can be added on its own. -/
theorem exists_foldlM_addRelation : (∃ r', rels.foldlM addRelation r = .ok r') ↔
    ∀ rel ∈ rels, ∃ r', addRelation r rel = .ok r' := by
  induction rels generalizing r with
  | nil => simp [pure_eq_ok]
  | cons rel rels ih =>
    rw [List.forall_mem_cons]
    simp only [List.foldlM_cons, bind_eq_ok]
    constructor
    · rintro ⟨r', next, hnext, hrest⟩
      have hsame := sameTables_addRelation hnext
      exact ⟨⟨next, hnext⟩, fun rel hrel =>
        exists_addRelation_of_sameTables hsame.symm (ih.mp ⟨r', hrest⟩ rel hrel)⟩
    · rintro ⟨⟨next, hnext⟩, hrest⟩
      have hsame := sameTables_addRelation hnext
      obtain ⟨r', hr'⟩ := ih.mpr fun rel hrel =>
        exists_addRelation_of_sameTables hsame (hrest rel hrel)
      exact ⟨r', next, hnext, hr'⟩

/-- The relations of a registry by table and name. -/
def relationsOf (r : Registry) : Members (Members Relation) :=
  Members.mapValues (·.relations) r.tables

theorem relationAt?_eq : r.relationAt? place = filedAt? (relationsOf r) place := by
  rw [Registry.relationAt?, Registry.table?, filedAt?, relationsOf, Members.get?_mapValues]
  cases Members.get? r.tables place.1 <;> rfl

/-- Adding a relation files it. -/
theorem relationsOf_addRelation (h : addRelation r rel = .ok r') :
    relationsOf r' = file (relationsOf r) rel := by
  obtain ⟨source, target, hsource, -, -, -, rfl⟩ := addRelation_eq_ok.mp h
  have hsource : Members.get? r.tables rel.source = some source := hsource
  rw [file, relationsOf, relationsOf, Members.mapValues_put, Members.get?_mapValues, hsource]
  rfl

/-- The last relation that is added at a place stays. -/
theorem relationAt?_foldlM (h : rels.foldlM addRelation r = .ok r') (place : String × String) :
    r'.relationAt? place = (lastAt? rels place).or (r.relationAt? place) := by
  have hfiled : relationsOf r' = rels.foldl file (relationsOf r) := by
    induction rels generalizing r with
    | nil =>
      obtain rfl := pure_eq_ok.mp h
      rfl
    | cons rel rels ih =>
      rw [List.foldlM_cons] at h
      obtain ⟨next, hnext, h⟩ := bind_eq_ok.mp h
      rw [ih h, relationsOf_addRelation hnext, List.foldl_cons]
  rw [relationAt?_eq, hfiled, filedAt?_foldl, relationAt?_eq]

/-- Relations that are added come to the same as the same relations in another order, those that
come later among themselves, where places tell each lot apart. -/
theorem sameRelations_foldlM {r'' : Registry} {rels' more more' : List Relation}
    (h : (rels ++ more).foldlM addRelation r = .ok r')
    (h' : (rels' ++ more').foldlM addRelation r = .ok r'')
    (hmem : ∀ rel, rel ∈ rels ↔ rel ∈ rels') (hmore : ∀ rel, rel ∈ more ↔ rel ∈ more')
    (hplaces : Set.InjOn Relation.place {rel | rel ∈ rels})
    (hplacesMore : Set.InjOn Relation.place {rel | rel ∈ more}) : r'.SameRelations r'' where
  names := by rw [names_foldlM h, names_foldlM h']
  tables := (sameTables_foldlM h).symm.trans (sameTables_foldlM h')
  relations := fun table name => by
    rw [relationAt?_foldlM h, relationAt?_foldlM h', lastAt?_append, lastAt?_append,
      lastAt?_congr hmem hplaces, lastAt?_congr hmore hplacesMore]

end Loading
end RelGraph
