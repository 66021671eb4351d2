import RelGraph.Proofs.Exports.Resolution
/-!
The places of names in values. A value in which placeholders stand is filled by putting what their
names stand for in their places; the texts besides and all keys and orders are as they were, what is
put in is not looked into, and tuples become lists. A value in which no placeholder stands is not
changed otherwise.
-/
namespace RelGraph.Exports

/-- A value stands in another, at whatever depth. -/
inductive Within (u : Value) : Value → Prop
  | self : Within u u
  | item {items : List Value} {v : Value} : v ∈ items → Within u v → Within u (.list items)
  | component {items : List Value} {v : Value} :
      v ∈ items → Within u v → Within u (.tuple items)
  | member {ms : List (String × Value)} {key : String} {v : Value} :
      (key, v) ∈ ms → Within u v → Within u (.object ms)

/-- The text that stands for a name. -/
def placeholder (name : String) : String := "$_" ++ name

/-- Whether the placeholder of a name stands in a value. -/
def Occurs (name : String) (v : Value) : Prop := name ≠ "" ∧ Within (.text (placeholder name)) v

mutual

/-- A value with its texts replaced and with lists for its tuples. -/
def replaced (f : String → Value) : Value → Value
  | .text t => f t
  | .list items => .list (replacedItems f items)
  | .tuple items => .list (replacedItems f items)
  | .object ms => .object (replacedMembers f ms)
  | v => v

/-- Items with their texts replaced. -/
def replacedItems (f : String → Value) : List Value → List Value
  | [] => []
  | v :: rest => replaced f v :: replacedItems f rest

/-- Members with the texts in their values replaced. -/
def replacedMembers (f : String → Value) : List (String × Value) → List (String × Value)
  | [] => []
  | (key, v) :: rest => (key, replaced f v) :: replacedMembers f rest

end

/-- A value with lists for its tuples. -/
def untupled (v : Value) : Value := replaced .text v

/-- A value with what names stand for in the places of their placeholders. -/
def fill (values : String → Value) (v : Value) : Value :=
  replaced (fun t => (placeholderName? t).elim (.text t) values) v

section Texts

variable {f g : String → Value} {values : String → Value} {name t : String} {u v : Value}
  {items : List Value} {ms : List (String × Value)} {published : String → Option Value}

theorem placeholderName?_eq_some :
    placeholderName? t = some name ↔ name ≠ "" ∧ t = placeholder name := by
  constructor
  · intro h
    rw [placeholderName?] at h
    split at h
    · rename_i c rest ht
      obtain rfl := Option.some.inj h
      refine ⟨by simp [← String.toList_inj], ?_⟩
      rw [← String.toList_inj, ht, placeholder]
      simp
    · cases h
  · rintro ⟨hname, rfl⟩
    obtain ⟨c, rest, hrest⟩ : ∃ c rest, name.toList = c :: rest :=
      List.exists_cons_of_ne_nil fun hnil => hname (String.toList_eq_nil_iff.mp hnil)
    have ht : (placeholder name).toList = '$' :: '_' :: c :: rest := by simp [placeholder, hrest]
    rw [placeholderName?, ht]
    exact congrArg some (by rw [← hrest, String.ofList_toList])

theorem occurs_text : Occurs name (.text t) ↔ placeholderName? t = some name := by
  rw [placeholderName?_eq_some, Occurs]
  refine and_congr_right fun _ => ⟨fun h => ?_, fun h => h ▸ .self⟩
  cases h
  rfl

theorem occurs_list : Occurs name (.list items) ↔ ∃ v ∈ items, Occurs name v := by
  constructor
  · rintro ⟨hname, h⟩
    cases h with
    | item hv h => exact ⟨_, hv, hname, h⟩
  · rintro ⟨v, hv, hname, h⟩
    exact ⟨hname, .item hv h⟩

theorem occurs_tuple : Occurs name (.tuple items) ↔ ∃ v ∈ items, Occurs name v := by
  constructor
  · rintro ⟨hname, h⟩
    cases h with
    | component hv h => exact ⟨_, hv, hname, h⟩
  · rintro ⟨v, hv, hname, h⟩
    exact ⟨hname, .component hv h⟩

theorem occurs_object : Occurs name (.object ms) ↔ ∃ kv ∈ ms, Occurs name kv.2 := by
  constructor
  · rintro ⟨hname, h⟩
    cases h with
    | member hv h => exact ⟨_, hv, hname, h⟩
  · rintro ⟨⟨key, v⟩, hv, hname, h⟩
    exact ⟨hname, .member hv h⟩

theorem replacedItems_eq : ∀ items : List Value, replacedItems f items = items.map (replaced f)
  | [] => rfl
  | v :: rest => by rw [replacedItems, replacedItems_eq rest, List.map_cons]

theorem replacedMembers_eq : ∀ ms : List (String × Value),
    replacedMembers f ms = ms.map fun kv => (kv.1, replaced f kv.2)
  | [] => rfl
  | (key, v) :: rest => by rw [replacedMembers, replacedMembers_eq rest, List.map_cons]

mutual

/-- Whether a placeholder is found is whether one stands somewhere. -/
theorem hasPlaceholder_iff : ∀ v : Value, hasPlaceholder v = true ↔ ∃ name, Occurs name v
  | .text t => by
    simp only [hasPlaceholder, occurs_text, Option.isSome_iff_exists]
  | .list items => by
    simp only [hasPlaceholder, anyPlaceholder_iff items, occurs_list]
  | .tuple items => by
    simp only [hasPlaceholder, anyPlaceholder_iff items, occurs_tuple]
  | .object ms => by
    simp only [hasPlaceholder, anyPlaceholderIn_iff ms, occurs_object]
  | .null | .bool _ | .int _ | .float _ | .decimal _ | .bytes _ | .date _ | .time _ | .moment _
  | .uuid _ => by
    refine ⟨fun h => (by cases h), fun ⟨name, _, h⟩ => (by cases h)⟩

theorem anyPlaceholder_iff : ∀ items : List Value,
    anyPlaceholder items = true ↔ ∃ name, ∃ v ∈ items, Occurs name v
  | [] => by simp [anyPlaceholder]
  | v :: rest => by
    simp only [anyPlaceholder, Bool.or_eq_true, hasPlaceholder_iff v, anyPlaceholder_iff rest,
      List.exists_mem_cons_iff, exists_or]

theorem anyPlaceholderIn_iff : ∀ ms : List (String × Value),
    anyPlaceholderIn ms = true ↔ ∃ name, ∃ kv ∈ ms, Occurs name kv.2
  | [] => by simp [anyPlaceholderIn]
  | (key, v) :: rest => by
    simp only [anyPlaceholderIn, Bool.or_eq_true, hasPlaceholder_iff v, anyPlaceholderIn_iff rest,
      List.exists_mem_cons_iff, exists_or]

end

mutual

/-- What a value becomes depends on the texts that stand in it. -/
theorem replaced_congr : ∀ {v : Value}, (∀ t, Within (.text t) v → f t = g t) →
    replaced f v = replaced g v
  | .text t, h => by
    rw [replaced, replaced]
    exact h t .self
  | .list items, h => by
    rw [replaced, replaced, replacedItems_congr fun t v hv hin => h t (.item hv hin)]
  | .tuple items, h => by
    rw [replaced, replaced, replacedItems_congr fun t v hv hin => h t (.component hv hin)]
  | .object ms, h => by
    rw [replaced, replaced, replacedMembers_congr fun t kv hv hin => h t (.member hv hin)]
  | .null, _ | .bool _, _ | .int _, _ | .float _, _ | .decimal _, _ | .bytes _, _ | .date _, _
  | .time _, _ | .moment _, _ | .uuid _, _ => by
    rw [replaced, replaced]
    all_goals simp

theorem replacedItems_congr : ∀ {items : List Value},
    (∀ t, ∀ v ∈ items, Within (.text t) v → f t = g t) →
    replacedItems f items = replacedItems g items
  | [], _ => rfl
  | v :: rest, h => by
    rw [replacedItems, replacedItems, replaced_congr fun t => h t v List.mem_cons_self,
      replacedItems_congr fun t v hv => h t v (List.mem_cons_of_mem _ hv)]

theorem replacedMembers_congr : ∀ {ms : List (String × Value)},
    (∀ t, ∀ kv ∈ ms, Within (.text t) kv.2 → f t = g t) →
    replacedMembers f ms = replacedMembers g ms
  | [], _ => rfl
  | (key, v) :: rest, h => by
    rw [replacedMembers, replacedMembers,
      replaced_congr fun t => h t (key, v) List.mem_cons_self,
      replacedMembers_congr fun t kv hkv => h t kv (List.mem_cons_of_mem _ hkv)]

end

/-- A value in which no placeholder stands has nothing to be filled. -/
theorem fill_of_none (h : ∀ name, ¬ Occurs name v) : fill values v = untupled v := by
  refine replaced_congr fun t ht => ?_
  have hnone : placeholderName? t = none := by
    refine Option.eq_none_iff_forall_ne_some.mpr fun name hname => ?_
    obtain ⟨hne, rfl⟩ := placeholderName?_eq_some.mp hname
    exact h name ⟨hne, ht⟩
  rw [hnone]
  rfl

mutual

/-- A value is filled with what its names stand for, if each is given just that. -/
theorem filled_iff_fill {given : String → Value → Prop} : ∀ {v w : Value},
    (∀ name u, Occurs name v → (given name u ↔ u = values name)) →
    (Filled given v w ↔ w = fill values v)
  | .text t, w, h => by
    rw [Filled, fill, replaced]
    split
    · rename_i ht
      rw [ht]
      rfl
    · rename_i name ht
      rw [ht]
      exact h name w (occurs_text.mpr ht)
  | .list items, w, h => by
    rw [Filled, fill, replaced]
    simp only [filledItems_iff_fill fun name u v hv hname =>
      h name u (occurs_list.mpr ⟨v, hv, hname⟩), exists_eq_right]
  | .tuple items, w, h => by
    rw [Filled, fill, replaced]
    simp only [filledItems_iff_fill fun name u v hv hname =>
      h name u (occurs_tuple.mpr ⟨v, hv, hname⟩), exists_eq_right]
  | .object ms, w, h => by
    rw [Filled, fill, replaced]
    simp only [filledMembers_iff_fill fun name u kv hkv hname =>
      h name u (occurs_object.mpr ⟨kv, hkv, hname⟩), exists_eq_right]
  | .null, _, _ | .bool _, _, _ | .int _, _, _ | .float _, _, _ | .decimal _, _, _
  | .bytes _, _, _ | .date _, _, _ | .time _, _, _ | .moment _, _, _ | .uuid _, _, _ => by
    rw [Filled, fill, replaced]
    all_goals simp

theorem filledItems_iff_fill {given : String → Value → Prop} : ∀ {items ws : List Value},
    (∀ name u, ∀ v ∈ items, Occurs name v → (given name u ↔ u = values name)) →
    (FilledItems given items ws ↔
      ws = replacedItems (fun t => (placeholderName? t).elim (.text t) values) items)
  | [], ws, _ => by rw [FilledItems, replacedItems]
  | v :: rest, ws, h => by
    rw [FilledItems, replacedItems]
    simp only [filled_iff_fill fun name u => h name u v List.mem_cons_self,
      filledItems_iff_fill fun name u v hv => h name u v (List.mem_cons_of_mem _ hv)]
    simp [fill]

theorem filledMembers_iff_fill {given : String → Value → Prop} :
    ∀ {ms ws : List (String × Value)},
    (∀ name u, ∀ kv ∈ ms, Occurs name kv.2 → (given name u ↔ u = values name)) →
    (FilledMembers given ms ws ↔
      ws = replacedMembers (fun t => (placeholderName? t).elim (.text t) values) ms)
  | [], ws, _ => by rw [FilledMembers, replacedMembers]
  | (key, v) :: rest, ws, h => by
    rw [FilledMembers, replacedMembers]
    simp only [filled_iff_fill fun name u => h name u (key, v) List.mem_cons_self,
      filledMembers_iff_fill fun name u kv hkv => h name u kv (List.mem_cons_of_mem _ hkv)]
    simp [fill]

end

mutual

/-- What is filled was given something for every name. -/
theorem Filled.exists_given {given : String → Value → Prop} : ∀ {v w : Value},
    Filled given v w → Occurs name v → ∃ u, given name u
  | .text t, w, h, hname => by
    rw [Filled, occurs_text.mp hname] at h
    exact ⟨w, h⟩
  | .list items, _, h, hname => by
    rw [Filled] at h
    obtain ⟨ws, -, hitems⟩ := h
    obtain ⟨v, hv, hname⟩ := occurs_list.mp hname
    exact hitems.exists_given hv hname
  | .tuple items, _, h, hname => by
    rw [Filled] at h
    obtain ⟨ws, -, hitems⟩ := h
    obtain ⟨v, hv, hname⟩ := occurs_tuple.mp hname
    exact hitems.exists_given hv hname
  | .object ms, _, h, hname => by
    rw [Filled] at h
    obtain ⟨ws, -, hms⟩ := h
    obtain ⟨kv, hkv, hname⟩ := occurs_object.mp hname
    exact hms.exists_given hkv hname
  | .null, _, _, hname | .bool _, _, _, hname | .int _, _, _, hname | .float _, _, _, hname
  | .decimal _, _, _, hname | .bytes _, _, _, hname | .date _, _, _, hname
  | .time _, _, _, hname | .moment _, _, _, hname | .uuid _, _, _, hname => by
    cases hname.2

theorem FilledItems.exists_given {given : String → Value → Prop} :
    ∀ {items ws : List Value} {v : Value},
    FilledItems given items ws → v ∈ items → Occurs name v → ∃ u, given name u
  | [], _, _, _, hv, _ => by cases hv
  | first :: rest, _, _, h, hv, hname => by
    rw [FilledItems] at h
    obtain ⟨w, ws, -, hfirst, hrest⟩ := h
    rcases List.mem_cons.mp hv with heq | hv
    · exact hfirst.exists_given (heq ▸ hname)
    · exact hrest.exists_given hv hname

theorem FilledMembers.exists_given {given : String → Value → Prop} :
    ∀ {ms ws : List (String × Value)} {kv : String × Value},
    FilledMembers given ms ws → kv ∈ ms → Occurs name kv.2 → ∃ u, given name u
  | [], _, _, _, hkv, _ => by cases hkv
  | (key, v) :: rest, _, _, h, hkv, hname => by
    rw [FilledMembers] at h
    obtain ⟨w, ws, -, hv, hrest⟩ := h
    rcases List.mem_cons.mp hkv with heq | hkv
    · exact hv.exists_given (by rwa [heq] at hname)
    · exact hrest.exists_given hkv hname

end

end Texts

end RelGraph.Exports
