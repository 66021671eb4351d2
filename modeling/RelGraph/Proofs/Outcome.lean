import RelGraph.Members
import Mathlib.Data.List.Forall2
import Mathlib.Data.List.Perm.Basic
/-!
Computations that can fail, read backwards: what has to have gone well for a sequence of steps to
have gone well.
-/
namespace RelGraph.Outcome

variable {ε α β γ : Type}

theorem bind_eq_ok {x : Except ε α} {f : α → Except ε β} {b : β} :
    x >>= f = .ok b ↔ ∃ a, x = .ok a ∧ f a = .ok b := by
  cases x <;> simp [bind, Except.bind]

theorem bind_of_eq_ok {x : Except ε α} {a : α} (h : x = .ok a) (f : α → Except ε β) :
    x >>= f = f a := by
  rw [h]
  rfl

theorem bind_eq_error {x : Except ε α} {f : α → Except ε β} {e : ε} :
    x >>= f = .error e ↔ x = .error e ∨ ∃ a, x = .ok a ∧ f a = .error e := by
  cases x <;> simp [bind, Except.bind]

theorem pure_eq_ok {a b : α} : (pure a : Except ε α) = .ok b ↔ a = b := by
  simp [pure, Except.pure]

theorem toOption_bind {x : Except ε α} {f : α → Except ε β} :
    (x >>= f).toOption = x.toOption.bind fun a => (f a).toOption := by
  cases x <;> rfl

theorem eq_ok_of_isSome {x : Except ε α} (h : x.toOption.isSome) : ∃ a, x = .ok a := by
  cases x with
  | ok a => exact ⟨a, rfl⟩
  | error e => cases h

theorem map_eq_ok {x : Except ε α} {f : α → β} {b : β} :
    x.map f = .ok b ↔ ∃ a, x = .ok a ∧ f a = b := by
  cases x <;> simp [Except.map]

theorem map_eq_error {x : Except ε α} {f : α → β} {e : ε} : x.map f = .error e ↔ x = .error e := by
  cases x <;> simp [Except.map]

theorem mapM_eq_ok {f : α → Except ε β} {l : List α} {bs : List β} :
    l.mapM f = .ok bs ↔ List.Forall₂ (fun a b => f a = .ok b) l bs := by
  induction l generalizing bs with
  | nil => cases bs <;> simp [pure_eq_ok]
  | cons a l ih =>
    simp only [List.mapM_cons, bind_eq_ok, pure_eq_ok, List.forall₂_cons_left_iff, ih]
    constructor
    · rintro ⟨b, hb, rest, hrest, rfl⟩
      exact ⟨b, rest, hb, hrest, rfl⟩
    · rintro ⟨b, rest, hb, hrest, rfl⟩
      exact ⟨b, hb, rest, hrest, rfl⟩

/-- Every result of a sequence of steps is that of one of them. -/
theorem exists_of_mem_mapM {f : α → Except ε β} {l : List α} {bs : List β} (h : l.mapM f = .ok bs)
    {b : β} (hb : b ∈ bs) : ∃ a ∈ l, f a = .ok b := by
  replace h := mapM_eq_ok.mp h
  induction h with
  | nil => simp at hb
  | cons ha _ ih =>
    rcases List.mem_cons.mp hb with rfl | hb
    · exact ⟨_, List.mem_cons_self, ha⟩
    · obtain ⟨a, hmem, hab⟩ := ih hb
      exact ⟨a, List.mem_cons_of_mem _ hmem, hab⟩

/-- A sequence of steps goes well where each of them does. -/
theorem exists_mapM_eq_ok {f : α → Except ε β} {l : List α} :
    (∃ bs, l.mapM f = .ok bs) ↔ ∀ a ∈ l, ∃ b, f a = .ok b := by
  induction l with
  | nil => simp [pure_eq_ok]
  | cons a l ih =>
    rw [List.forall_mem_cons, ← ih, List.mapM_cons]
    simp only [bind_eq_ok, pure_eq_ok]
    constructor
    · rintro ⟨_, b, hb, rest, hrest, -⟩
      exact ⟨⟨b, hb⟩, rest, hrest⟩
    · rintro ⟨⟨b, hb⟩, rest, hrest⟩
      exact ⟨_, b, hb, rest, hrest, rfl⟩

/-- A sequence of steps goes wrong as one of them does. -/
theorem exists_of_mapM_eq_error {f : α → Except ε β} {l : List α} {e : ε}
    (h : l.mapM f = .error e) : ∃ a ∈ l, f a = .error e := by
  induction l with
  | nil => cases h
  | cons a l ih =>
    rw [List.mapM_cons] at h
    rcases bind_eq_error.mp h with hfirst | ⟨b, -, h⟩
    · exact ⟨a, List.mem_cons_self, hfirst⟩
    · rcases bind_eq_error.mp h with hrest | ⟨bs, -, h⟩
      · obtain ⟨a', hmem, ha'⟩ := ih hrest
        exact ⟨a', List.mem_cons_of_mem _ hmem, ha'⟩
      · cases h

/-- A sequence of steps that each give a member has one member for each step, under its name. -/
theorem mapM_named_eq_ok {name : α → String} {f : α → Except ε β} {l : List α} {ms : Members β}
    (h : (l.mapM fun a => do return (name a, ← f a)) = .ok ms) :
    Members.names ms = l.map name ∧ (∀ a ∈ l, ∃ b, f a = .ok b ∧ (name a, b) ∈ ms) ∧
      ∀ kv ∈ ms, ∃ a ∈ l, name a = kv.1 ∧ f a = .ok kv.2 := by
  replace h := mapM_eq_ok.mp h
  induction h with
  | nil => simp [Members.names]
  | @cons a kv l ms ha _ ih =>
    obtain ⟨b, hb, ha⟩ := bind_eq_ok.mp ha
    obtain rfl := pure_eq_ok.mp ha
    obtain ⟨hnames, hthere, hback⟩ := ih
    refine ⟨?_, ?_, ?_⟩
    · simpa [Members.names] using hnames
    · refine List.forall_mem_cons.mpr ⟨⟨b, hb, by simp⟩, fun a' ha' => ?_⟩
      obtain ⟨b', hb', hmem⟩ := hthere a' ha'
      exact ⟨b', hb', List.mem_cons_of_mem _ hmem⟩
    · refine List.forall_mem_cons.mpr ⟨⟨a, by simp, rfl, hb⟩, fun kv hkv => ?_⟩
      obtain ⟨a', ha', hfound⟩ := hback kv hkv
      exact ⟨a', List.mem_cons_of_mem _ ha', hfound⟩

theorem rel_bind {δ : Type} {R : α → β → Prop} {S : γ → δ → Prop} {x : Option α} {y : Option β}
    {f : α → Option γ} {g : β → Option δ} (h : Option.Rel R x y)
    (hfg : ∀ a b, R a b → Option.Rel S (f a) (g b)) : Option.Rel S (x.bind f) (y.bind g) := by
  cases h with
  | none => exact .none
  | some hab => exact hfg _ _ hab

theorem rel_of_isSome {R : α → β → Prop} {x : Option α} {y : Option β}
    (h : x.isSome = y.isSome) (hR : ∀ a b, x = some a → y = some b → R a b) :
    Option.Rel R x y := by
  cases x <;> cases y
  · exact .none
  · cases h
  · cases h
  · exact .some (hR _ _ rfl rfl)

theorem isSome_of_rel {R : α → β → Prop} {x : Option α} {y : Option β} (h : Option.Rel R x y) :
    x.isSome = y.isSome := by
  cases h <;> rfl

theorem rel_map {δ : Type} {R : α → β → Prop} {S : γ → δ → Prop} {x : Option α} {y : Option β}
    {f : α → γ} {g : β → δ} (h : Option.Rel R x y) (hfg : ∀ a b, R a b → S (f a) (g b)) :
    Option.Rel S (x.map f) (y.map g) := by
  cases h with
  | none => exact .none
  | some hab => exact .some (hfg _ _ hab)

/-- What is related by way of something one by one is related by way of a list. -/
theorem forall₂_exists {R : α → β → Prop} {S : β → γ → Prop} {l : List α} {cs : List γ} :
    List.Forall₂ (fun a c => ∃ b, R a b ∧ S b c) l cs ↔
      ∃ bs, List.Forall₂ R l bs ∧ List.Forall₂ S bs cs := by
  constructor
  · intro h
    induction h with
    | nil => exact ⟨[], .nil, .nil⟩
    | cons hac _ ih =>
      obtain ⟨b, hab, hbc⟩ := hac
      obtain ⟨bs, hbs, hcs⟩ := ih
      exact ⟨b :: bs, .cons hab hbs, .cons hbc hcs⟩
  · rintro ⟨bs, hbs, hcs⟩
    induction hbs generalizing cs with
    | nil =>
      cases hcs
      exact .nil
    | cons hab _ ih =>
      obtain ⟨c, rest, hbc, hrest, rfl⟩ := List.forall₂_cons_left_iff.mp hcs
      exact .cons ⟨_, hab, hbc⟩ (ih hrest)

/-- Two sequences of steps, one after the other, go well where the steps do that each consist of two
of them. -/
theorem mapM_mapM_eq_ok {f : α → Except ε β} {g : β → Except ε γ} {l : List α} {cs : List γ} :
    (l.mapM f >>= fun bs => bs.mapM g) = .ok cs ↔ (l.mapM fun a => f a >>= g) = .ok cs := by
  simp only [bind_eq_ok, mapM_eq_ok]
  exact forall₂_exists.symm

/-- A sequence of steps that each come to the same come to the same. -/
theorem mapM_congr {f g : α → Except ε β} {l : List α} (h : ∀ a ∈ l, f a = g a) :
    l.mapM f = l.mapM g := by
  induction l with
  | nil => rfl
  | cons a l ih =>
    rw [List.mapM_cons, List.mapM_cons, h a (by simp), ih fun b hb => h b (by simp [hb])]

/-- A sequence of steps comes to the same with other steps that come to the same where they are
reached. -/
theorem mapM_congr_of_reached {f g : α → Except ε β} {l : List α}
    (h : ∀ before a after, l = before ++ a :: after → (∀ b ∈ before, ∃ r, f b = .ok r) →
      g a = f a) : l.mapM g = l.mapM f := by
  induction l with
  | nil => rfl
  | cons a l ih =>
    rw [List.mapM_cons, List.mapM_cons, h [] a l rfl nofun]
    cases ha : f a with
    | error e => rfl
    | ok r =>
      rw [ih fun before b after hsplit hbefore => ?_]
      exact h (a :: before) b after (by rw [hsplit, List.cons_append])
        (List.forall_mem_cons.mpr ⟨⟨r, ha⟩, hbefore⟩)

/-- A sequence of steps goes wrong as the first step does that goes wrong. -/
theorem mapM_eq_error_of_reached {f : α → Except ε β} {before after : List α} {a : α} {e : ε}
    (hbefore : ∀ b ∈ before, ∃ r, f b = .ok r) (h : f a = .error e) :
    (before ++ a :: after).mapM f = .error e := by
  induction before with
  | nil =>
    rw [List.nil_append, List.mapM_cons, h]
    rfl
  | cons b before ih =>
    obtain ⟨⟨r, hr⟩, hbefore⟩ := List.forall_mem_cons.mp hbefore
    rw [List.cons_append, List.mapM_cons, hr, ih hbefore]
    rfl

/-- Going on with results that are mapped one by one is going on with the results. -/
theorem mapM_map_bind (f : β → γ) (g : α → Except ε β) (l : List α) {δ : Type}
    (k : List γ → Except ε δ) :
    (l.mapM fun a => f <$> g a) >>= k = l.mapM g >>= fun bs => k (bs.map f) := by
  induction l generalizing k with
  | nil => rfl
  | cons a l ih =>
    simp only [List.mapM_cons, bind_assoc, pure_bind, bind_map_left]
    refine congrArg _ (funext fun b => ?_)
    rw [ih fun bs => k (f b :: bs)]
    simp only [List.map_cons]

/-- Every item of a list is checked where the check of the list goes well. -/
theorem forM_eq_ok {f : α → Except ε Unit} {l : List α} {u : Unit} :
    l.forM f = .ok u ↔ ∀ a ∈ l, f a = .ok () := by
  induction l with
  | nil => simp [List.forM, pure_eq_ok]
  | cons a l ih =>
    show (f a >>= fun _ => l.forM f) = _ ↔ _
    rw [bind_eq_ok, List.forall_mem_cons, ← ih]
    exact ⟨fun ⟨_, ha, hl⟩ => ⟨ha, hl⟩, fun ⟨ha, hl⟩ => ⟨(), ha, hl⟩⟩

/-- Going through lists one after the other is going through all their items. -/
theorem foldlM_flatMap {f : α → List β} {g : γ → β → Except ε γ} {l : List α} {c : γ} :
    (l.flatMap f).foldlM g c = l.foldlM (fun c a => (f a).foldlM g c) c := by
  induction l generalizing c with
  | nil => rfl
  | cons a l ih =>
    rw [List.flatMap_cons, List.foldlM_append, List.foldlM_cons]
    exact congrArg _ (funext fun _ => ih)

/-- What every step keeps, all steps keep. -/
theorem foldlM_induction {P : β → Prop} {f : β → α → Except ε β} {l : List α} {b b' : β}
    (h : l.foldlM f b = .ok b') (hstep : ∀ b, ∀ a ∈ l, ∀ b', f b a = .ok b' → P b → P b')
    (hb : P b) : P b' := by
  induction l generalizing b with
  | nil =>
    obtain rfl := pure_eq_ok.mp h
    exact hb
  | cons a l ih =>
    rw [List.foldlM_cons] at h
    obtain ⟨next, hnext, h⟩ := bind_eq_ok.mp h
    exact ih h (fun b a' ha' => hstep b a' (by simp [ha'])) (hstep b a (by simp) next hnext hb)

/-- Steps go wrong as one of them does, from where what every step keeps still holds. -/
theorem exists_of_foldlM_eq_error {P : β → Prop} {f : β → α → Except ε β}
    {l : List α} {b : β} {e : ε} (h : l.foldlM f b = .error e)
    (hstep : ∀ b, ∀ a ∈ l, ∀ b', f b a = .ok b' → P b → P b') (hb : P b) :
    ∃ a ∈ l, ∃ b, P b ∧ f b a = .error e := by
  induction l generalizing b with
  | nil => cases h
  | cons a l ih =>
    rw [List.foldlM_cons] at h
    rcases bind_eq_error.mp h with hfirst | ⟨next, hnext, h⟩
    · exact ⟨a, List.mem_cons_self, b, hb, hfirst⟩
    · obtain ⟨a', ha', found⟩ := ih h (fun b a' ha' => hstep b a' (List.mem_cons_of_mem _ ha'))
        (hstep b a List.mem_cons_self next hnext hb)
      exact ⟨a', List.mem_cons_of_mem _ ha', found⟩

/-- Steps come to the same as others that come to the same where what every step keeps holds. -/
theorem foldlM_congr_of_kept {P : β → Prop} {f g : β → α → Except ε β}
    {l : List α} {b : β} (hstep : ∀ b, ∀ a ∈ l, ∀ b', f b a = .ok b' → P b → P b')
    (hfg : ∀ b, ∀ a ∈ l, P b → f b a = g b a) (hb : P b) : l.foldlM f b = l.foldlM g b := by
  induction l generalizing b with
  | nil => rfl
  | cons a l ih =>
    rw [List.foldlM_cons, List.foldlM_cons, ← hfg b a List.mem_cons_self hb]
    cases hnext : f b a with
    | error e => rfl
    | ok next =>
      exact ih (fun b a' ha' => hstep b a' (List.mem_cons_of_mem _ ha'))
        (fun b a' ha' => hfg b a' (List.mem_cons_of_mem _ ha'))
        (hstep b a List.mem_cons_self next hnext hb)

/-- Steps that each begin with one of their own go well where all of these do and then the rest. -/
theorem foldlM_mapM_eq_ok {f : α → Except ε γ} {g : β → γ → Except ε β}
    {l : List α} {b b' : β} :
    (l.foldlM (fun b a => do g b (← f a)) b) = .ok b' ↔
      ∃ cs, l.mapM f = .ok cs ∧ cs.foldlM g b = .ok b' := by
  induction l generalizing b with
  | nil => simp [pure_eq_ok]
  | cons a l ih =>
    rw [List.foldlM_cons, List.mapM_cons]
    simp only [bind_eq_ok, pure_eq_ok, ih]
    constructor
    · rintro ⟨next, ⟨c, hc, hnext⟩, cs, hcs, h⟩
      refine ⟨c :: cs, ⟨c, hc, cs, hcs, rfl⟩, ?_⟩
      rw [List.foldlM_cons]
      exact bind_eq_ok.mpr ⟨next, hnext, h⟩
    · rintro ⟨_, ⟨c, hc, cs, hcs, rfl⟩, h⟩
      rw [List.foldlM_cons] at h
      obtain ⟨next, hnext, h⟩ := bind_eq_ok.mp h
      exact ⟨next, ⟨c, hc, hnext⟩, cs, hcs, h⟩

/-- Steps over the same items in another order give the same in another order. -/
theorem mapM_perm {f : α → Except ε β} {l l' : List α} {bs : List β}
    (hperm : l.Perm l') (h : l.mapM f = .ok bs) : ∃ bs', l'.mapM f = .ok bs' ∧ bs.Perm bs' := by
  obtain ⟨bs', hbs', hsame⟩ := List.perm_comp_forall₂ hperm.symm (mapM_eq_ok.mp h)
  exact ⟨bs', mapM_eq_ok.mpr hbs', hsame.symm⟩

/-- Steps of which some give nothing are those that give something. -/
theorem filterMapM_eq_ok {f : α → Except ε (Option β)} {p : α → Bool} {l : List α} {bs : List β}
    (hnone : ∀ a ∈ l, p a = false → f a = .ok none)
    (hsome : ∀ a ∈ l, p a = true → f a ≠ .ok none) :
    l.filterMapM f = .ok bs ↔ List.Forall₂ (fun a b => f a = .ok (some b)) (l.filter p) bs := by
  induction l generalizing bs with
  | nil => cases bs <;> simp [pure_eq_ok]
  | cons a l ih =>
    rw [List.forall_mem_cons] at hnone hsome
    have ih : ∀ bs, l.filterMapM f = .ok bs ↔
        List.Forall₂ (fun a b => f a = .ok (some b)) (l.filter p) bs :=
      fun _ => ih hnone.2 hsome.2
    rw [List.filterMapM_cons]
    cases ha : p a with
    | false =>
      rw [hnone.1 ha, List.filter_cons_of_neg (by simp [ha]), ← ih]
      rfl
    | true =>
      rw [List.filter_cons_of_pos ha]
      cases hfa : f a with
      | error e =>
        refine ⟨fun h => ?_, fun h => ?_⟩
        · cases h
        · cases h with
          | cons hab _ => cases hfa.symm.trans hab
      | ok o =>
        cases o with
        | none => exact absurd hfa (hsome.1 ha)
        | some b =>
          show (do return b :: (← l.filterMapM f)) = Except.ok bs ↔ _
          simp only [bind_eq_ok, pure_eq_ok, List.forall₂_cons_left_iff, ih, hfa, Except.ok.injEq,
            Option.some.injEq]
          constructor
          · rintro ⟨rest, hrest, rfl⟩
            exact ⟨b, rest, rfl, hrest, rfl⟩
          · rintro ⟨_, rest, rfl, hrest, rfl⟩
            exact ⟨rest, hrest, rfl⟩

/-- What is related one by one is related to the same by relations that agree on it. -/
theorem forall₂_iff_of_forall₂ {R : α → β → Prop} {P : α → γ → Prop} {Q : β → γ → Prop}
    {l : List α} {bs : List β} {cs : List γ} (h : List.Forall₂ R l bs)
    (hiff : ∀ a b, a ∈ l → b ∈ bs → R a b → ∀ c, P a c ↔ Q b c) :
    List.Forall₂ P l cs ↔ List.Forall₂ Q bs cs := by
  induction h generalizing cs with
  | nil => cases cs <;> simp
  | @cons a b l bs hab _ ih =>
    cases cs with
    | nil => simp
    | cons c cs =>
      rw [List.forall₂_cons, List.forall₂_cons, hiff a b (by simp) (by simp) hab c,
        ih fun a b ha hb => hiff a b (by simp [ha]) (by simp [hb])]

/-- What is related one by one is related at every position. -/
theorem getElem?_of_forall₂ {R : α → β → Prop} {l : List α} {bs : List β} (h : List.Forall₂ R l bs)
    {i : Nat} {b : β} (hb : bs[i]? = some b) : ∃ a, l[i]? = some a ∧ R a b := by
  induction h generalizing i with
  | nil => simp at hb
  | @cons a b' l bs hab _ ih =>
    cases i with
    | zero =>
      obtain rfl : b' = b := by simpa using hb
      exact ⟨a, rfl, hab⟩
    | succ i => exact ih (by simpa using hb)

/-- What is related one by one is related to something. -/
theorem exists_of_forall₂ {R : α → β → Prop} {l : List α} {bs : List β} (h : List.Forall₂ R l bs)
    {a : α} (ha : a ∈ l) : ∃ b ∈ bs, R a b := by
  obtain ⟨i, hi⟩ := List.getElem?_of_mem ha
  obtain ⟨b, hb, hab⟩ := getElem?_of_forall₂ h.flip hi
  exact ⟨b, List.mem_of_getElem? hb, hab⟩

/-- What is related one by one by way of an item is what a list of items is made of. -/
theorem exists_items_of_forall₂ {f : γ → α} {g : γ → β} {P : γ → Prop} {l : List α} {bs : List β}
    (h : List.Forall₂ (fun a b => ∃ x, f x = a ∧ g x = b ∧ P x) l bs) :
    ∃ xs : List γ, xs.map f = l ∧ xs.map g = bs ∧ ∀ x ∈ xs, P x := by
  induction h with
  | nil => exact ⟨[], rfl, rfl, by simp⟩
  | cons hab _ ih =>
    obtain ⟨x, rfl, rfl, hx⟩ := hab
    obtain ⟨xs, rfl, rfl, hxs⟩ := ih
    exact ⟨x :: xs, rfl, rfl, List.forall_mem_cons.mpr ⟨hx, hxs⟩⟩

/-- What is related to a split list is split in the same way. -/
theorem split_of_forall₂ {R : α → β → Prop} {before after : List α} {a : α} {bs : List β}
    (h : List.Forall₂ R (before ++ a :: after) bs) :
    ∃ earlier b later, bs = earlier ++ b :: later ∧ R a b ∧ List.Forall₂ R after later := by
  induction before generalizing bs with
  | nil =>
    obtain ⟨b, later, hab, hlater, rfl⟩ := List.forall₂_cons_left_iff.mp h
    exact ⟨[], b, later, rfl, hab, hlater⟩
  | cons _ before ih =>
    obtain ⟨first, rest, -, hrest, rfl⟩ := List.forall₂_cons_left_iff.mp h
    obtain ⟨earlier, b, later, rfl, hab, hlater⟩ := ih hrest
    exact ⟨first :: earlier, b, later, rfl, hab, hlater⟩

/-- Lists whose items have one image pair by pair have one image. -/
theorem map_eq_of_forall₂ {f : α → γ} {g : β → γ} {l : List α} {bs : List β}
    (h : List.Forall₂ (fun a b => g b = f a) l bs) : l.map f = bs.map g := by
  induction h with
  | nil => rfl
  | cons hab _ ih => rw [List.map_cons, List.map_cons, hab, ih]

end RelGraph.Outcome
