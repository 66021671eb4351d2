import RelGraph.Members
import Mathlib.Data.List.Forall2
import Mathlib.Data.List.Nodup
/-!
Members read back: what is found under a name after members were written, joined or written into
others.
-/
namespace RelGraph.Members

variable {α : Type} {ms news : Members α} {key : String} {v : α}

theorem get?_eq_none : get? ms key = none ↔ key ∉ names ms := by
  induction ms with
  | nil => simp [get?, names]
  | cons kv rest ih =>
    obtain ⟨k, x⟩ := kv
    by_cases hk : k = key
    · simp [get?, names, hk]
    · simp only [get?, hk, if_false, ih, names, List.map_cons, List.mem_cons, not_or]
      exact ⟨fun h => ⟨fun heq => hk heq.symm, h⟩, fun h => h.2⟩

theorem mem_of_get? (h : get? ms key = some v) : (key, v) ∈ ms := by
  induction ms with
  | nil => simp [get?] at h
  | cons kv rest ih =>
    obtain ⟨k, x⟩ := kv
    rw [get?] at h
    split at h
    · rename_i hk
      simp [← Option.some.inj h, hk]
    · exact List.mem_cons_of_mem _ (ih h)

theorem mem_names_of_mem (h : (key, v) ∈ ms) : key ∈ names ms :=
  List.mem_map_of_mem h

theorem get?_of_mem (hnames : (names ms).Nodup) (h : (key, v) ∈ ms) : get? ms key = some v := by
  induction ms with
  | nil => simp at h
  | cons kv rest ih =>
    obtain ⟨k, x⟩ := kv
    obtain ⟨hk, hrest⟩ := List.nodup_cons.mp hnames
    rcases List.mem_cons.mp h with heq | h
    · obtain ⟨rfl, rfl⟩ := Prod.mk.inj heq
      simp [get?]
    · have hne : k ≠ key := fun heq => hk (heq ▸ mem_names_of_mem h)
      simp only [get?, hne, if_false]
      exact ih hrest h

theorem get?_append {more : Members α} :
    get? (ms ++ more) key = (get? ms key).or (get? more key) := by
  induction ms with
  | nil => rfl
  | cons kv rest ih =>
    rw [List.cons_append, get?, get?]
    split
    · rfl
    · exact ih

theorem forall_get?_iff {P : String → α → Prop} (hnames : (names ms).Nodup) :
    (∀ key v, get? ms key = some v → P key v) ↔ ∀ kv ∈ ms, P kv.1 kv.2 :=
  ⟨fun h kv hkv => h kv.1 kv.2 (get?_of_mem hnames hkv),
    fun h key v hv => h (key, v) (mem_of_get? hv)⟩

/-- A member beside others hides none of them that has another name. -/
theorem get?_insert {after : Members α} {name : String} (h : name ≠ key) :
    get? (ms ++ (key, v) :: after) name = get? (ms ++ after) name := by
  induction ms with
  | nil => simp [get?, h.symm]
  | cons kv rest ih => simp only [List.cons_append, get?, ih]

/-- Members with the same names and values have them in some order. -/
theorem perm_of_get? {ms' : Members α} (h : (names ms).Nodup)
    (h' : (names ms').Nodup) (hget : ∀ key, get? ms key = get? ms' key) : ms.Perm ms' := by
  refine (List.perm_ext_iff_of_nodup (List.Nodup.of_map _ h) (List.Nodup.of_map _ h')).mpr ?_
  rintro ⟨key, v⟩
  exact ⟨fun hmem => mem_of_get? (hget key ▸ get?_of_mem h hmem),
    fun hmem => mem_of_get? ((hget key).symm ▸ get?_of_mem h' hmem)⟩

/-! ## Writing one -/

theorem mem_put {kv : String × α} (h : kv ∈ put ms key v) : kv = (key, v) ∨ kv ∈ ms := by
  induction ms with
  | nil => exact .inl (by simpa [put] using h)
  | cons kv' rest ih =>
    rw [put] at h
    split at h
    · rename_i hk
      rcases List.mem_cons.mp h with rfl | h
      · exact .inl (by rw [hk])
      · exact .inr (List.mem_cons_of_mem _ h)
    · rcases List.mem_cons.mp h with rfl | h
      · exact .inr (by simp)
      · exact (ih h).imp_right (List.mem_cons_of_mem _)

theorem mem_names_put {name : String} :
    name ∈ names (put ms key v) ↔ name ∈ names ms ∨ name = key := by
  rw [names_put]
  split
  · rename_i hhas
    refine ⟨.inl, fun hname => hname.elim id ?_⟩
    rintro rfl
    obtain ⟨x, hx⟩ := Option.isSome_iff_exists.mp hhas
    exact mem_names_of_mem (mem_of_get? hx)
  · simp

theorem nodup_names_put (h : (names ms).Nodup) : (names (put ms key v)).Nodup := by
  rw [names_put]
  split
  · exact h
  · rename_i hnew
    have hkey : key ∉ names ms := by
      rw [← get?_eq_none]
      simpa [has] using hnew
    simpa using h.concat hkey

theorem put_self (h : get? ms key = some v) : put ms key v = ms := by
  induction ms with
  | nil => cases h
  | cons kv rest ih =>
    obtain ⟨k, x⟩ := kv
    rw [get?] at h
    rw [put]
    split
    · rename_i hk
      rw [if_pos hk] at h
      rw [Option.some.inj h]
    · rename_i hk
      rw [if_neg hk] at h
      rw [ih h]

/-- Writing is the same among the members of a kind, if what is written and what it replaces are of
the kind. -/
theorem filter_put {test : String × α → Bool} (hv : test (key, v) = true)
    (hms : ∀ w, (key, w) ∈ ms → test (key, w) = true) :
    (put ms key v).filter test = put (ms.filter test) key v := by
  induction ms with
  | nil => simp [put, hv]
  | cons kv rest ih =>
    obtain ⟨k, x⟩ := kv
    have hrest := ih fun w hw => hms w (List.mem_cons_of_mem _ hw)
    rw [put]
    by_cases hk : k = key
    · subst hk
      rw [if_pos rfl, List.filter_cons_of_pos hv, List.filter_cons_of_pos (hms x (by simp)), put,
        if_pos rfl]
    · rw [if_neg hk]
      by_cases hx : test (k, x)
      · rw [List.filter_cons_of_pos hx, List.filter_cons_of_pos hx, hrest, put, if_neg hk]
      · rw [List.filter_cons_of_neg hx, List.filter_cons_of_neg hx, hrest]

theorem filter_put_of_not {test : String × α → Bool} (hv : test (key, v) = false)
    (hms : ∀ w, (key, w) ∈ ms → test (key, w) = false) :
    (put ms key v).filter test = ms.filter test := by
  induction ms with
  | nil => simp [put, hv]
  | cons kv rest ih =>
    obtain ⟨k, x⟩ := kv
    have hrest := ih fun w hw => hms w (List.mem_cons_of_mem _ hw)
    rw [put]
    by_cases hk : k = key
    · subst hk
      rw [if_pos rfl, List.filter_cons_of_neg (by simp [hv]),
        List.filter_cons_of_neg (by simp [hms x (by simp)])]
    · rw [if_neg hk, List.filter_cons, List.filter_cons, hrest]

theorem get?_filter {test : String × α → Bool} (hms : ∀ w, (key, w) ∈ ms → test (key, w) = true) :
    get? (ms.filter test) key = get? ms key := by
  induction ms with
  | nil => rfl
  | cons kv rest ih =>
    obtain ⟨k, x⟩ := kv
    have hrest := ih fun w hw => hms w (List.mem_cons_of_mem _ hw)
    by_cases hk : k = key
    · subst hk
      rw [List.filter_cons_of_pos (hms x (by simp)), get?, get?, if_pos rfl, if_pos rfl]
    · by_cases hx : test (k, x)
      · rw [List.filter_cons_of_pos hx, get?, get?, if_neg hk, if_neg hk, hrest]
      · rw [List.filter_cons_of_neg hx, get?, if_neg hk, hrest]

theorem put_ne_nil : put ms key v ≠ [] := by
  cases ms with
  | nil => simp [put]
  | cons kv rest =>
    rw [put]
    split <;> simp

/-! ## Writing many -/

theorem update_nil : update ms [] = ms := rfl

theorem mem_update {kv : String × α} (h : kv ∈ update ms news) : kv ∈ ms ∨ kv ∈ news := by
  induction news generalizing ms with
  | nil => exact .inl h
  | cons kv' rest ih =>
    have h : kv ∈ update (put ms kv'.1 kv'.2) rest := h
    rcases ih h with hput | hrest
    · exact (mem_put hput).elim (fun heq => .inr (heq ▸ List.mem_cons_self)) .inl
    · exact .inr (List.mem_cons_of_mem _ hrest)

theorem nodup_names_update (h : (names ms).Nodup) : (names (update ms news)).Nodup := by
  induction news generalizing ms with
  | nil => exact h
  | cons kv rest ih => exact ih (nodup_names_put h)

theorem mem_names_update : key ∈ names (update ms news) ↔ key ∈ names ms ∨ key ∈ names news := by
  induction news generalizing ms with
  | nil => simp [update, names]
  | cons kv rest ih =>
    show key ∈ names (update (put ms kv.1 kv.2) rest) ↔ _
    rw [ih, mem_names_put, or_assoc]
    simp [names]

theorem put_of_not_mem (h : key ∉ names ms) : put ms key v = ms ++ [(key, v)] := by
  induction ms with
  | nil => rfl
  | cons kv rest ih =>
    simp only [names, List.map_cons, List.mem_cons, not_or] at h
    rw [put, if_neg (Ne.symm h.1), ih h.2, List.cons_append]

/-- A value is written where its name stands. -/
theorem put_append_cons {before after : Members α} {w : α} (h : key ∉ names before) :
    put (before ++ (key, w) :: after) key v = before ++ (key, v) :: after := by
  induction before with
  | nil => simp [put]
  | cons kv before ih =>
    simp only [names, List.map_cons, List.mem_cons, not_or] at h
    rw [List.cons_append, put, if_neg (Ne.symm h.1), ih h.2, List.cons_append]

/-- Members whose names are all apart are written one behind the other. -/
theorem update_eq_append (h : (names (ms ++ news)).Nodup) : update ms news = ms ++ news := by
  induction news generalizing ms with
  | nil => simp [update]
  | cons kv rest ih =>
    have hkey : kv.1 ∉ names ms := by
      intro hmem
      rw [names, List.map_append, List.nodup_append] at h
      exact h.2.2 _ hmem _ (by simp) rfl
    show update (put ms kv.1 kv.2) rest = _
    rw [put_of_not_mem hkey, ih (by simpa using h), List.append_assoc, List.singleton_append]

theorem update_append (more : Members α) :
    update ms (news ++ more) = update (update ms news) more :=
  List.foldl_append

theorem get?_update_of_not_mem (h : key ∉ names news) :
    get? (update ms news) key = get? ms key := by
  induction news generalizing ms with
  | nil => rfl
  | cons kv rest ih =>
    simp only [names, List.map_cons, List.mem_cons, not_or] at h
    show get? (update (put ms kv.1 kv.2) rest) key = get? ms key
    rw [ih h.2, get?_put_of_ne _ _ h.1]

/-- What is written last under a name stays. -/
theorem get?_update_of_last {after : Members α} (h : key ∉ names after) :
    get? (update ms (news ++ (key, v) :: after)) key = some v := by
  rw [update_append]
  show get? (update (put (update ms news) key v) after) key = some v
  rw [get?_update_of_not_mem h, get?_put_self]

/-- A name under which only one value was written has that value. -/
theorem get?_update_of_forall (hmem : key ∈ names news) (h : ∀ x, (key, x) ∈ news → x = v) :
    get? (update ms news) key = some v := by
  induction news generalizing ms with
  | nil => simp [names] at hmem
  | cons kv rest ih =>
    obtain ⟨k, x⟩ := kv
    show get? (update (put ms k x) rest) key = some v
    -- What is written last under the name stays, and all of it is the same.
    by_cases hrest : key ∈ names rest
    · exact ih hrest fun x hx => h x (by simp [hx])
    · have hk : key = k := by
        rcases List.mem_cons.mp hmem with hk | hk
        · exact hk
        · exact absurd hk hrest
      subst hk
      rw [get?_update_of_not_mem hrest, get?_put_self, h x (by simp)]

theorem get?_update_of_mem (hnames : (names news).Nodup) (h : (key, v) ∈ news) :
    get? (update ms news) key = some v := by
  refine get?_update_of_forall (mem_names_of_mem h) fun x hx => ?_
  have := get?_of_mem hnames hx
  rw [get?_of_mem hnames h] at this
  exact (Option.some.inj this).symm

theorem get?_ofPairs (hnames : (names news).Nodup) : get? (ofPairs news) key = get? news key := by
  cases hget : get? news key with
  | none => rw [ofPairs, get?_update_of_not_mem (get?_eq_none.mp hget), get?]
  | some v => exact get?_update_of_mem hnames (mem_of_get? hget)

theorem update_ne_nil (h : ms ≠ []) : update ms news ≠ [] := by
  induction news generalizing ms with
  | nil => exact h
  | cons kv rest ih => exact ih put_ne_nil

theorem ofPairs_eq_nil : ofPairs ms = [] ↔ ms = [] := by
  cases ms with
  | nil => simp [ofPairs, update]
  | cons kv rest =>
    have hne : update (put [] kv.1 kv.2) rest ≠ [] := update_ne_nil put_ne_nil
    simpa [ofPairs, update] using hne

theorem not_mem_names_ofPairs (h : key ∉ names news) : key ∉ names (ofPairs news) := by
  rw [← get?_eq_none] at h ⊢
  rw [ofPairs, get?_update_of_not_mem (get?_eq_none.mp h)]
  rfl

/-! ## Mapping values -/

section MapValues

variable {β : Type} (f : α → β)

theorem names_mapValues : names (mapValues f ms) = names ms := by
  rw [names, mapValues, List.map_map]
  rfl

theorem get?_mapValues : get? (mapValues f ms) key = (get? ms key).map f := by
  induction ms with
  | nil => rfl
  | cons kv rest ih =>
    show (if kv.1 = key then _ else _) = Option.map f (if kv.1 = key then _ else _)
    split
    · rfl
    · exact ih

theorem mapValues_put : mapValues f (put ms key v) = put (mapValues f ms) key (f v) := by
  induction ms with
  | nil => rfl
  | cons kv rest ih =>
    obtain ⟨k, x⟩ := kv
    show mapValues f (if k = key then _ else _) = if k = key then _ else _
    split
    · rfl
    · exact congrArg ((k, f x) :: ·) ih

theorem mapValues_update :
    mapValues f (update ms news) = update (mapValues f ms) (mapValues f news) := by
  induction news generalizing ms with
  | nil => rfl
  | cons kv rest ih =>
    show mapValues f (update (put ms kv.1 kv.2) rest) = _
    rw [ih, mapValues_put]
    rfl

end MapValues

/-! ## Taking one away -/

theorem erase_of_not_mem (h : key ∉ names ms) : erase ms key = ms := by
  refine List.filter_eq_self.mpr fun kv hkv => ?_
  have hne : kv.1 ≠ key := fun heq => h (heq ▸ mem_names_of_mem hkv)
  simpa using hne

theorem erase_cons {kv : String × α} :
    erase (kv :: ms) key = if kv.1 = key then erase ms key else kv :: erase ms key := by
  by_cases h : kv.1 = key <;> simp [erase, h]

theorem erase_put_self : erase (put ms key v) key = erase ms key := by
  induction ms with
  | nil => simp [put, erase]
  | cons kv rest ih =>
    rw [put]
    by_cases hk : kv.1 = key <;> simp [erase_cons, hk, ih]

theorem erase_put_of_ne {other : String} (h : other ≠ key) :
    erase (put ms other v) key = put (erase ms key) other v := by
  induction ms with
  | nil => simp [put, erase, h]
  | cons kv rest ih =>
    rw [put, erase_cons]
    by_cases hk : kv.1 = other
    · simp [erase_cons, put, hk, h]
    · rw [if_neg hk, erase_cons, ih]
      by_cases hkey : kv.1 = key <;> simp [put, hk, hkey]

theorem get?_erase_self : get? (erase ms key) key = none := by
  rw [get?_eq_none]
  simp [names, erase]

theorem get?_erase_of_ne {name : String} (h : name ≠ key) :
    get? (erase ms key) name = get? ms name := by
  induction ms with
  | nil => rfl
  | cons kv rest ih =>
    rw [erase_cons]
    by_cases hk : kv.1 = key
    · rw [if_pos hk, ih, get?, if_neg fun heq => h (heq.symm.trans hk)]
    · rw [if_neg hk, get?, get?, ih]

theorem nodup_names_erase (h : (names ms).Nodup) : (names (erase ms key)).Nodup :=
  h.sublist (List.filter_sublist.map _)

/-- What is written under other names stays where one name is taken away. -/
theorem erase_update (h : key ∉ names news) :
    erase (update ms news) key = update (erase ms key) news := by
  induction news generalizing ms with
  | nil => rfl
  | cons kv rest ih =>
    simp only [names, List.map_cons, List.mem_cons, not_or] at h
    show erase (update (put ms kv.1 kv.2) rest) key = update (put (erase ms key) kv.1 kv.2) rest
    rw [ih h.2, erase_put_of_ne (Ne.symm h.1)]

/-- A pair under a name of its own leaves nothing behind when the name is taken away. -/
theorem erase_ofPairs_append (h : key ∉ names ms) :
    erase (ofPairs (ms ++ [(key, v)])) key = ofPairs ms := by
  rw [ofPairs, update_append]
  show erase (put (ofPairs ms) key v) key = _
  rw [erase_put_self, erase_of_not_mem (not_mem_names_ofPairs h)]

/-! ## Side by side -/

section Related

variable {β : Type} {R : String × α → String × β → Prop} {ms' : Members β}

theorem rel_get? (h : List.Forall₂ R ms ms') (hkeys : ∀ a b, R a b → a.1 = b.1) :
    Option.Rel (fun v w => R (key, v) (key, w)) (get? ms key) (get? ms' key) := by
  induction h with
  | nil => exact .none
  | @cons a b ms ms' hab _ ih =>
    obtain ⟨k, v⟩ := a
    obtain ⟨k', w⟩ := b
    obtain rfl : k = k' := hkeys _ _ hab
    rw [get?, get?]
    split
    · rename_i hk
      exact .some (hk ▸ hab)
    · exact ih

theorem forall₂_put (h : List.Forall₂ R ms ms') (hkeys : ∀ a b, R a b → a.1 = b.1) {v : α} {w : β}
    (hvw : R (key, v) (key, w)) : List.Forall₂ R (put ms key v) (put ms' key w) := by
  induction h with
  | nil => exact .cons hvw .nil
  | @cons a b ms ms' hab hrest ih =>
    obtain ⟨k, x⟩ := a
    obtain ⟨k', y⟩ := b
    obtain rfl : k = k' := hkeys _ _ hab
    rw [put, put]
    split
    · rename_i hk
      exact .cons (hk ▸ hvw) hrest
    · exact .cons hab ih

end Related

end RelGraph.Members
