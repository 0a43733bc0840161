import Mathlib.Data.List.Forall2
import Reshape.Part

/-!
# Steps that succeed

Everything in the library that can fail is put together from steps, in `Except` where nothing is
kept after a failure and in `EStateM` where the state reached so far is.  A composed step
succeeds only if each of its parts did; the statements here take a successful composition apart
and carry an invariant through a row of steps.
-/

namespace Reshape

/-! ## §1 Rows that correspond -/

section Rows

variable {α β : Type} {R : α → β → Prop} {as : List α} {bs : List β}

theorem exists_right_of_forall₂ (h : List.Forall₂ R as bs) {a : α} (ha : a ∈ as) :
    ∃ b ∈ bs, R a b := by
  induction h with
  | nil => cases ha
  | @cons a' b as bs hab _ ih =>
      rcases List.mem_cons.mp ha with rfl | ha
      · exact ⟨b, List.mem_cons_self, hab⟩
      · obtain ⟨b', hb', hr⟩ := ih ha
        exact ⟨b', List.mem_cons_of_mem b hb', hr⟩

theorem exists_left_of_forall₂ (h : List.Forall₂ R as bs) {b : β} (hb : b ∈ bs) :
    ∃ a ∈ as, R a b :=
  exists_right_of_forall₂ (R := flip R) (List.Forall₂.flip h) hb

/-- What corresponds stands in the rows. -/
theorem forall₂_with_mem (h : List.Forall₂ R as bs) :
    List.Forall₂ (fun a b => a ∈ as ∧ b ∈ bs ∧ R a b) as bs := by
  have hright : List.Forall₂ (fun b a => b ∈ bs ∧ R a b) bs as :=
    (List.forall₂_and_left _ _).mpr ⟨fun b hb => hb, h.flip⟩
  exact (List.forall₂_and_left _ _).mpr ⟨fun a ha => ha, hright.flip⟩

theorem map_eq_iff_forall₂ {γ : Type} {f : α → γ} {g : β → γ} :
    as.map f = bs.map g ↔ List.Forall₂ (fun a b => f a = g b) as bs := by
  rw [← List.forall₂_eq_eq_eq, List.forall₂_map_left_iff, List.forall₂_map_right_iff]

theorem map_eq_of_forall₂ {γ : Type} {f : α → γ} {g : β → γ}
    (h : List.Forall₂ (fun a b => f a = g b) as bs) : as.map f = bs.map g :=
  map_eq_iff_forall₂.mpr h

/-- A relation between the items of a row carries over to the row that corresponds to it. -/
theorem pairwise_of_forall₂ {S : α → α → Prop} {T : β → β → Prop} (h : List.Forall₂ R as bs)
    (hpairs : as.Pairwise S)
    (hstep : ∀ a ∈ as, ∀ a' ∈ as, ∀ b b', S a a' → R a b → R a' b' → T b b') :
    bs.Pairwise T := by
  induction h with
  | nil => exact .nil
  | @cons a b as bs hab hrest ih =>
      rw [List.pairwise_cons] at hpairs ⊢
      constructor
      · intro b' hb'
        obtain ⟨a', ha', hr⟩ := exists_left_of_forall₂ hrest hb'
        exact hstep a List.mem_cons_self a' (List.mem_cons_of_mem a ha') b b'
          (hpairs.1 a' ha') hab hr
      · exact ih hpairs.2 fun c hc c' hc' =>
          hstep c (List.mem_cons_of_mem a hc) c' (List.mem_cons_of_mem a hc')

/-- The row of a part of the items is a part of their row. -/
theorem sublist_of_forall₂ {S : α → β → Prop} {cs : List α} {ds : List β}
    (hsub : cs.Sublist as) (h : List.Forall₂ R as bs) (hpart : List.Forall₂ S cs ds)
    (hsame : ∀ a b d, R a b → S a d → b = d) : ds.Sublist bs := by
  induction hsub generalizing bs ds with
  | slnil =>
      cases hpart
      exact List.nil_sublist bs
  | cons a hrest ih =>
      cases h with
      | cons hab hbs => exact (ih hbs hpart).cons _
  | cons_cons a hrest ih =>
      cases h with
      | cons hab hbs =>
        cases hpart with
        | cons had hds =>
          cases hsame _ _ _ hab had
          exact (ih hbs hds).cons_cons _

/-- Two rows that correspond to one have the same images if their items do. -/
theorem map_eq_map_of_forall₂ {γ δ : Type} {S : α → γ → Prop} {cs : List γ} {f : β → δ}
    {g : γ → δ} (h : List.Forall₂ R as bs) (h' : List.Forall₂ S as cs)
    (hsame : ∀ a b c, R a b → S a c → f b = g c) : bs.map f = cs.map g := by
  induction h generalizing cs with
  | nil =>
      cases h'
      rfl
  | cons hab _ ih =>
      cases h' with
      | cons hac hcs => rw [List.map_cons, List.map_cons, hsame _ _ _ hab hac, ih hcs]

/-- Rows correspond through a third one. -/
theorem forall₂_through {γ : Type} {S : β → γ → Prop} {cs : List γ} (h : List.Forall₂ R as bs)
    (h' : List.Forall₂ S bs cs) : List.Forall₂ (fun a c => ∃ b, R a b ∧ S b c) as cs := by
  induction h generalizing cs with
  | nil =>
      cases h'
      exact .nil
  | @cons a b as bs hab _ ih =>
      cases h' with
      | cons hbc hrest => exact .cons ⟨b, hab, hbc⟩ (ih hrest)

/-- An item of a row of which one was changed stood there before or is the changed one. -/
theorem mem_of_mem_modify {f : α → α} {i : Nat} {a : α} (h : a ∈ as.modify i f) :
    a ∈ as ∨ ∃ b, as[i]? = some b ∧ a = f b := by
  obtain ⟨j, hj⟩ := List.getElem?_of_mem h
  rw [List.getElem?_modify] at hj
  obtain ⟨b, hb, rfl⟩ := Option.map_eq_some_iff.mp hj
  by_cases hij : i = j
  · subst hij
    exact .inr ⟨b, hb, if_pos rfl⟩
  · rw [if_neg hij]
    exact .inl (List.mem_of_getElem? hb)

/-- What is made of the pairs of two rows that correspond is told by both of them. -/
theorem forall₂_zip {γ : Type} {P : α × β → γ → Prop} {cs : List γ}
    (h : List.Forall₂ R as bs) (hmade : List.Forall₂ P (as.zip bs) cs) :
    List.Forall₂ (fun a c => ∃ b, R a b ∧ P (a, b) c) as cs ∧
      List.Forall₂ (fun b c => ∃ a, R a b ∧ P (a, b) c) bs cs := by
  induction h generalizing cs with
  | nil =>
      cases hmade
      exact ⟨.nil, .nil⟩
  | @cons a b as bs hab _ ih =>
      cases hmade with
      | cons hc hrest =>
        obtain ⟨hleft, hright⟩ := ih hrest
        exact ⟨.cons ⟨b, hab, hc⟩ hleft, .cons ⟨a, hab, hc⟩ hright⟩

/-- A row that was made of the items at its places. -/
theorem map_zip_of_forall₂ {γ δ : Type} {g : β → γ} {f : α × γ → δ} {k : β → δ}
    (h : List.Forall₂ R as bs) (hsame : ∀ a b, R a b → f (a, g b) = k b) :
    (as.zip (bs.map g)).map f = bs.map k := by
  induction h with
  | nil => rfl
  | cons hab _ ih =>
      rw [List.map_cons, List.zip_cons_cons, List.map_cons, List.map_cons, hsame _ _ hab, ih]

end Rows

/-! ## §2 Steps without a state -/

section Except

variable {ε δ α β σ : Type}

@[simp] theorem except_pure_eq_ok {a b : α} : (pure a : Except ε α) = .ok b ↔ a = b := by
  simp [pure, Except.pure]

@[simp] theorem except_throw_eq_ok {e : ε} {b : α} : (throw e : Except ε α) = .ok b ↔ False := by
  simp [throw, throwThe, MonadExceptOf.throw]

theorem except_bind_eq_ok {x : Except ε α} {f : α → Except ε β} {b : β} :
    (x >>= f) = .ok b ↔ ∃ a, x = .ok a ∧ f a = .ok b := by
  cases x with
  | error e => simp [bind, Except.bind]
  | ok a => simp [bind, Except.bind]

theorem except_bind_eq_error {x : Except ε α} {f : α → Except ε β} {e : ε} :
    (x >>= f) = .error e ↔ x = .error e ∨ ∃ a, x = .ok a ∧ f a = .error e := by
  cases x with
  | error e' => simp [bind, Except.bind]
  | ok a => simp [bind, Except.bind]

theorem except_map_eq_ok {x : Except ε α} {f : α → β} {b : β} :
    x.map f = .ok b ↔ ∃ a, x = .ok a ∧ f a = b := by
  cases x with
  | error e => simp [Except.map]
  | ok a => simp [Except.map]

@[simp] theorem mapError_eq_ok {x : Except ε α} {g : ε → δ} {a : α} :
    x.mapError g = .ok a ↔ x = .ok a := by
  cases x with
  | error e => simp [Except.mapError]
  | ok b => simp [Except.mapError]

theorem eq_ok_of_toOption {x : Except ε α} {a : α} (h : x.toOption = some a) : x = .ok a := by
  cases x with
  | error e => cases h
  | ok b => exact congrArg Except.ok (Option.some.inj h)

/-- A row of steps gives one result for each item, in order. -/
theorem except_mapM_eq_ok {f : α → Except ε β} {l : List α} {bs : List β} :
    l.mapM f = .ok bs ↔ List.Forall₂ (fun a b => f a = .ok b) l bs := by
  induction l generalizing bs with
  | nil => simp [pure, Except.pure, eq_comm]
  | cons a l ih =>
      simp only [List.mapM_cons, except_bind_eq_ok, except_pure_eq_ok, ih,
        List.forall₂_cons_left_iff]
      constructor
      · rintro ⟨b, hb, bs', hbs, rfl⟩
        exact ⟨b, bs', hb, hbs, rfl⟩
      · rintro ⟨b, bs', hb, hbs, rfl⟩
        exact ⟨b, hb, bs', hbs, rfl⟩

/-- A row of steps fails with the fault of one of them. -/
theorem except_mapM_eq_error {f : α → Except ε β} {l : List α} {e : ε}
    (h : l.mapM f = .error e) : ∃ a ∈ l, f a = .error e := by
  induction l with
  | nil => cases h
  | cons a l ih =>
      rw [List.mapM_cons] at h
      rcases except_bind_eq_error.mp h with h | ⟨b, -, h⟩
      · exact ⟨a, List.mem_cons_self, h⟩
      · rcases except_bind_eq_error.mp h with h | ⟨bs, -, h⟩
        · obtain ⟨a', ha', h⟩ := ih h
          exact ⟨a', List.mem_cons_of_mem a ha', h⟩
        · cases h

/-- What every step keeps holds at the end of the row. -/
theorem except_foldlM_invariant {f : σ → α → Except ε σ} (P : σ → Prop) {l : List α} {s t : σ}
    (step : ∀ s a t, a ∈ l → P s → f s a = .ok t → P t) (hs : P s)
    (h : l.foldlM f s = .ok t) : P t := by
  induction l generalizing s with
  | nil =>
      cases (except_pure_eq_ok.mp h)
      exact hs
  | cons a l ih =>
      rw [List.foldlM_cons] at h
      obtain ⟨u, hu, hrest⟩ := except_bind_eq_ok.mp h
      have hP : P u := step s a u List.mem_cons_self hs hu
      exact ih (fun s b t hb => step s b t (List.mem_cons_of_mem a hb)) hP hrest

/-- Steps that keep in touch through a map of their results do so in a row. -/
theorem except_bind_map {γ κ : Type} {x : Except ε α} {f : α → Except ε β} {k : α → κ}
    {g : β → γ} {f' : κ → Except ε γ} (h : ∀ a, f' (k a) = (f a).map g) :
    (x.map k >>= f') = (x >>= f).map g := by
  cases x with
  | error e => rfl
  | ok a => exact h a

theorem except_bind_same {γ : Type} {x : Except ε α} {f : α → Except ε β} {g : β → γ}
    {f' : α → Except ε γ} (h : ∀ a, f' a = (f a).map g) : (x >>= f') = (x >>= f).map g := by
  cases x with
  | error e => rfl
  | ok a => exact h a

theorem except_foldlM_map {τ : Type} {f : σ → α → Except ε σ} {f' : τ → α → Except ε τ}
    {g : σ → τ} (h : ∀ s a, f' (g s) a = (f s a).map g) (l : List α) :
    ∀ s, l.foldlM f' (g s) = (l.foldlM f s).map g := by
  induction l with
  | nil => exact fun s => rfl
  | cons a l ih =>
      intro s
      rw [List.foldlM_cons, List.foldlM_cons, h]
      exact except_bind_map ih

/-! ### How steps fail -/

/-- The step fails with errors of one kind only. -/
def FaultsOnly (P : ε → Prop) (x : Except ε α) : Prop := ∀ e, x = .error e → P e

namespace FaultsOnly

variable {P : ε → Prop} {x : Except ε α} {f : α → Except ε β}

theorem ok (a : α) : FaultsOnly P (.ok a : Except ε α) := nofun

theorem error {e : ε} (he : P e) : FaultsOnly P (.error e : Except ε α) := by
  rintro e' ⟨⟩
  exact he

theorem ite {c : Prop} [Decidable c] {x y : Except ε α} (hx : c → FaultsOnly P x)
    (hy : ¬ c → FaultsOnly P y) : FaultsOnly P (if c then x else y) := by
  split
  · next h => exact hx h
  · next h => exact hy h

theorem mapError {y : Except δ α} {inject : δ → ε} (h : ∀ e, P (inject e)) :
    FaultsOnly P (y.mapError inject) := by
  cases y with
  | ok a => exact ok a
  | error e => exact error (h e)

/-- What follows a step matters only where the step gave something. -/
theorem bind_of (hx : FaultsOnly P x) (hf : ∀ a, x = .ok a → FaultsOnly P (f a)) :
    FaultsOnly P (x >>= f) := by
  intro e h
  rcases except_bind_eq_error.mp h with h | ⟨a, ha, h⟩
  · exact hx e h
  · exact hf a ha e h

theorem bind (hx : FaultsOnly P x) (hf : ∀ a, FaultsOnly P (f a)) : FaultsOnly P (x >>= f) :=
  bind_of hx fun a _ => hf a

theorem mapM {f : β → Except ε α} (hf : ∀ b, FaultsOnly P (f b)) (l : List β) :
    FaultsOnly P (l.mapM f) := by
  induction l with
  | nil =>
      rw [List.mapM_nil]
      exact ok []
  | cons b l ih =>
      rw [List.mapM_cons]
      exact bind (hf b) fun a => bind ih fun as => ok (a :: as)

end FaultsOnly

end Except

/-! ## §3 Steps with a state -/

section State

variable {ε σ τ α β : Type}

/-- The state in which an action ends, whether or not it succeeds. -/
def stateAfter (x : EStateM ε σ α) (s : σ) : σ :=
  match x s with
  | .ok _ t => t
  | .error _ t => t

theorem stateAfter_of_ok {x : EStateM ε σ α} {s t : σ} {a : α} (h : x s = .ok a t) :
    stateAfter x s = t := by
  simp [stateAfter, h]

theorem stateAfter_of_error {x : EStateM ε σ α} {s t : σ} {e : ε} (h : x s = .error e t) :
    stateAfter x s = t := by
  simp [stateAfter, h]

theorem state_pure_eq_ok {a b : α} {s t : σ} :
    (pure a : EStateM ε σ α) s = .ok b t ↔ a = b ∧ s = t := by
  simp [pure, EStateM.pure]

theorem state_throw_eq_ok {e : ε} {b : α} {s t : σ} :
    (throw e : EStateM ε σ α) s = .ok b t ↔ False := by
  show EStateM.Result.error e s = .ok b t ↔ False
  simp

theorem state_get_eq_ok {s t u : σ} :
    (get : EStateM ε σ σ) s = .ok u t ↔ s = u ∧ s = t := by
  show EStateM.Result.ok s s = .ok u t ↔ s = u ∧ s = t
  simp

theorem state_set_eq_ok {s t u : σ} {x : PUnit} :
    (set u : EStateM ε σ PUnit) s = .ok x t ↔ u = t := by
  show EStateM.Result.ok ⟨⟩ u = .ok x t ↔ u = t
  simp

theorem state_modify_eq_ok {f : σ → σ} {s t : σ} {x : PUnit} :
    (modify f : EStateM ε σ PUnit) s = .ok x t ↔ f s = t := by
  show EStateM.Result.ok ⟨⟩ (f s) = .ok x t ↔ f s = t
  simp

theorem state_ite_eq_ok {c : Prop} [Decidable c] {x y : EStateM ε σ α} {s t : σ} {a : α} :
    (if c then x else y) s = .ok a t ↔ c ∧ x s = .ok a t ∨ ¬c ∧ y s = .ok a t := by
  by_cases hc : c <;> simp [hc]

theorem state_bind_eq_ok {x : EStateM ε σ α} {f : α → EStateM ε σ β} {s u : σ} {b : β} :
    (x >>= f) s = .ok b u ↔ ∃ a t, x s = .ok a t ∧ f a t = .ok b u := by
  simp only [bind, EStateM.bind]
  cases hx : x s with
  | error e t => simp
  | ok a t => simp

theorem state_bind_eq_error {x : EStateM ε σ α} {f : α → EStateM ε σ β} {s u : σ} {e : ε} :
    (x >>= f) s = .error e u ↔ x s = .error e u ∨ ∃ a t, x s = .ok a t ∧ f a t = .error e u := by
  simp only [bind, EStateM.bind]
  cases hx : x s with
  | error e' t => simp
  | ok a t => simp

/-- Whether the action succeeds with a result that passes the check. -/
def accepts (check : α → σ → Bool) : EStateM.Result ε σ α → Bool
  | .ok a s => check a s
  | .error _ _ => false

theorem accepts_eq_true {check : α → σ → Bool} {r : EStateM.Result ε σ α} :
    accepts check r = true ↔ ∃ a s, r = .ok a s ∧ check a s = true := by
  cases r with
  | ok a s => simp [accepts]
  | error e s => simp [accepts]

/-- Whether the action fails with an error, and in a state, that pass the check. -/
def rejects (check : ε → σ → Bool) : EStateM.Result ε σ α → Bool
  | .ok _ _ => false
  | .error e s => check e s

theorem rejects_eq_true {check : ε → σ → Bool} {r : EStateM.Result ε σ α} :
    rejects check r = true ↔ ∃ e s, r = .error e s ∧ check e s = true := by
  cases r with
  | ok a s => simp [rejects]
  | error e s => simp [rejects]

/-- Each kind of action takes over results in its own way; all that matters is that a value comes
back as it is and that a fault stays one. -/
theorem state_lift_eq_ok {δ : Type} (lift : Except δ α → EStateM ε σ α) {inject : δ → ε}
    (hok : ∀ a, lift (.ok a) = pure a) (herror : ∀ e, lift (.error e) = throw (inject e))
    {x : Except δ α} {a : α} {s t : σ} : lift x s = .ok a t ↔ x = .ok a ∧ s = t := by
  cases x with
  | error e =>
      rw [herror, state_throw_eq_ok]
      simp
  | ok b =>
      rw [hok, state_pure_eq_ok]
      simp

theorem onPart_eq_ok {part : σ → τ} {put : σ → τ → σ} {x : EStateM ε τ α} {s u : σ} {a : α} :
    onPart part put x s = .ok a u ↔ ∃ t, x (part s) = .ok a t ∧ put s t = u := by
  simp only [onPart]
  cases hx : x (part s) with
  | error e t => simp
  | ok b t => simp [and_comm]

/-- Each item of a row was worked on in a state that has what every step keeps, and gave the result
at its place. -/
theorem state_mapM_forall₂_of {f : α → EStateM ε σ β} (P : σ → Prop) {l : List α} {bs : List β}
    {s u : σ} (step : ∀ a ∈ l, ∀ s b t, P s → f a s = .ok b t → P t) (hs : P s)
    (h : l.mapM f s = .ok bs u) : List.Forall₂ (fun a b => ∃ s t, P s ∧ f a s = .ok b t) l bs := by
  induction l generalizing bs s with
  | nil =>
      rw [List.mapM_nil] at h
      cases (state_pure_eq_ok.mp h).1
      exact .nil
  | cons a l ih =>
      rw [List.mapM_cons] at h
      obtain ⟨b, t, hb, h⟩ := state_bind_eq_ok.mp h
      obtain ⟨bs', v, hbs, h⟩ := state_bind_eq_ok.mp h
      obtain ⟨rfl, rfl⟩ := state_pure_eq_ok.mp h
      have hP : P t := step a List.mem_cons_self s b t hs hb
      exact .cons ⟨s, t, hs, hb⟩ (ih (fun x hx => step x (List.mem_cons_of_mem a hx)) hP hbs)

/-- Each item of a row was worked on in some state and gave the result at its place. -/
theorem state_mapM_forall₂ {f : α → EStateM ε σ β} {l : List α} {bs : List β} {s u : σ}
    (h : l.mapM f s = .ok bs u) : List.Forall₂ (fun a b => ∃ s t, f a s = .ok b t) l bs :=
  (state_mapM_forall₂_of (fun _ => True) (fun _ _ _ _ _ _ _ => trivial) trivial h).imp
    fun _ _ ⟨s, t, _, hstep⟩ => ⟨s, t, hstep⟩

/-- What every step adds to holds of all results and of the state at the end of the row. -/
theorem state_mapM_accumulates {f : α → EStateM ε σ β} (P : List β → σ → Prop) {l : List α}
    {bs : List β} {s u : σ}
    (step : ∀ a ∈ l, ∀ done s b t, P done s → f a s = .ok b t → P (done ++ [b]) t) (hs : P [] s)
    (h : l.mapM f s = .ok bs u) : P bs u := by
  suffices hall : ∀ {done bs : List β} {s : σ}, P done s → l.mapM f s = .ok bs u →
      P (done ++ bs) u from hall hs h
  clear h hs
  induction l with
  | nil =>
      intro done bs s hs h
      rw [List.mapM_nil] at h
      obtain ⟨rfl, rfl⟩ := state_pure_eq_ok.mp h
      rwa [List.append_nil]
  | cons a l ih =>
      intro done bs s hs h
      rw [List.mapM_cons] at h
      obtain ⟨b, t, hb, h⟩ := state_bind_eq_ok.mp h
      obtain ⟨bs', v, hbs, h⟩ := state_bind_eq_ok.mp h
      obtain ⟨rfl, rfl⟩ := state_pure_eq_ok.mp h
      have hP : P (done ++ [b]) t := step a List.mem_cons_self done s b t hs hb
      rw [← List.singleton_append, ← List.append_assoc]
      exact ih (fun x hx => step x (List.mem_cons_of_mem a hx)) hP hbs

/-- What every step keeps holds of the state at the end of the row. -/
theorem state_mapM_invariant {f : α → EStateM ε σ β} (P : σ → Prop) {l : List α} {bs : List β}
    {s u : σ} (step : ∀ a ∈ l, ∀ s b t, P s → f a s = .ok b t → P t) (hs : P s)
    (h : l.mapM f s = .ok bs u) : P u :=
  state_mapM_accumulates (fun _ => P) (fun a ha _ s b t => step a ha s b t) hs h

/-! ### Where actions lead -/

/-- Whether or not the action succeeds, the states before and after it are related. -/
def Moves (R : σ → σ → Prop) (x : EStateM ε σ α) : Prop := ∀ s, R s (stateAfter x s)

namespace Moves

variable {R : σ → σ → Prop} {x : EStateM ε σ α} {f : α → EStateM ε σ β}

theorem of_ok (hx : Moves R x) {s t : σ} {a : α} (h : x s = .ok a t) : R s t :=
  stateAfter_of_ok h ▸ hx s

theorem bind (trans : ∀ {s t u}, R s t → R t u → R s u) (hx : Moves R x)
    (hf : ∀ a, Moves R (f a)) : Moves R (x >>= f) := by
  intro s
  have hs := hx s
  simp only [stateAfter, Bind.bind, EStateM.bind] at hs ⊢
  cases h : x s with
  | error e t => simpa [h] using hs
  | ok a t =>
      simp only [h] at hs ⊢
      exact trans hs (hf a t)

variable (refl : ∀ s, R s s)
include refl

theorem pure (a : α) : Moves R (Pure.pure a : EStateM ε σ α) := fun s => refl s

theorem throw (e : ε) : Moves R (MonadExcept.throw e : EStateM ε σ α) := fun s => refl s

theorem get : Moves R (MonadState.get : EStateM ε σ σ) := fun s => refl s

theorem mapM (trans : ∀ {s t u}, R s t → R t u → R s u) {f : β → EStateM ε σ α}
    (hf : ∀ b, Moves R (f b)) (l : List β) : Moves R (l.mapM f) := by
  induction l with
  | nil => exact pure refl []
  | cons b l ih =>
      rw [List.mapM_cons]
      exact bind trans (hf b) fun a => bind trans ih fun as => pure refl (a :: as)

end Moves

/-! ### How actions fail -/

/-- The action fails with errors of one kind only. -/
def FailsOnly (P : ε → Prop) (x : EStateM ε σ α) : Prop := ∀ s e t, x s = .error e t → P e

namespace FailsOnly

variable {P : ε → Prop} {x : EStateM ε σ α} {f : α → EStateM ε σ β}

theorem pure (a : α) : FailsOnly P (Pure.pure a : EStateM ε σ α) := nofun

theorem get : FailsOnly P (MonadState.get : EStateM ε σ σ) := nofun

theorem set (s : σ) : FailsOnly P (MonadStateOf.set s : EStateM ε σ PUnit) := nofun

theorem throw {e : ε} (he : P e) : FailsOnly P (MonadExcept.throw e : EStateM ε σ α) := by
  intro s e' t h
  cases h
  exact he

theorem mono {Q : ε → Prop} (h : ∀ e, P e → Q e) (hx : FailsOnly P x) : FailsOnly Q x :=
  fun s e t hs => h e (hx s e t hs)

/-- What follows an action matters only where the action gave something. -/
theorem bind_of (hx : FailsOnly P x) (hf : ∀ a, (∃ s t, x s = .ok a t) → FailsOnly P (f a)) :
    FailsOnly P (x >>= f) := by
  intro s e u h
  rcases state_bind_eq_error.mp h with h | ⟨a, t, ha, h⟩
  · exact hx s e u h
  · exact hf a ⟨s, t, ha⟩ t e u h

theorem bind (hx : FailsOnly P x) (hf : ∀ a, FailsOnly P (f a)) : FailsOnly P (x >>= f) :=
  bind_of hx fun a _ => hf a

theorem mapM {f : β → EStateM ε σ α} (hf : ∀ b, FailsOnly P (f b)) (l : List β) :
    FailsOnly P (l.mapM f) := by
  induction l with
  | nil =>
      rw [List.mapM_nil]
      exact pure []
  | cons b l ih =>
      rw [List.mapM_cons]
      exact bind (hf b) fun a => bind ih fun as => pure (a :: as)

theorem ite {c : Prop} [Decidable c] {x y : EStateM ε σ α} (hx : FailsOnly P x)
    (hy : FailsOnly P y) : FailsOnly P (if c then x else y) := by
  split
  · exact hx
  · exact hy

theorem foldlM {f : α → β → EStateM ε σ α} (hf : ∀ a b, FailsOnly P (f a b)) (l : List β) :
    ∀ a, FailsOnly P (l.foldlM f a) := by
  induction l with
  | nil => exact fun a => pure a
  | cons b l ih => exact fun a => bind (hf a b) ih

/-- Each kind of action takes over results in its own way. -/
theorem lift {δ : Type} {lift : Except δ α → EStateM ε σ α} (inject : δ → ε) {y : Except δ α}
    (hok : ∀ a, lift (.ok a) = Pure.pure a)
    (herror : ∀ e, lift (.error e) = MonadExcept.throw (inject e))
    (hy : FaultsOnly (fun e => P (inject e)) y) : FailsOnly P (lift y) := by
  cases y with
  | ok a => exact hok a ▸ pure a
  | error e => exact herror e ▸ throw (hy e rfl)

theorem onPart {part : σ → τ} {put : σ → τ → σ} {y : EStateM ε τ α} (hy : FailsOnly P y) :
    FailsOnly P (onPart part put y) := by
  intro s e t h
  unfold Reshape.onPart at h
  split at h
  · cases h
  · next hpart =>
    cases h
    exact hy _ _ _ hpart

/-- An error of another kind comes from the steps that follow. -/
theorem passes (hx : FailsOnly P x) {s u : σ} {e : ε} (he : ¬ P e)
    (h : (x >>= f) s = .error e u) : ∃ a t, x s = .ok a t ∧ f a t = .error e u := by
  rcases state_bind_eq_error.mp h with h | h
  · exact (he (hx s e u h)).elim
  · exact h

end FailsOnly

/-! ### Two actions side by side -/

/-- Two actions come to the same end: they both succeed and leave related states, or they fail with
the same error, unless one of them fails with an error that is excused. -/
inductive Tallies (R : σ → τ → Prop) (excused : ε → Prop) :
    EStateM.Result ε σ α → EStateM.Result ε τ β → Prop
  | ok {a : α} {b : β} {s : σ} {t : τ} (h : R s t) : Tallies R excused (.ok a s) (.ok b t)
  | same {e : ε} {s : σ} {t : τ} : Tallies R excused (.error e s) (.error e t)
  | left {e : ε} {s : σ} {y : EStateM.Result ε τ β} (h : excused e) :
      Tallies R excused (.error e s) y
  | right {x : EStateM.Result ε σ α} {e : ε} {t : τ} (h : excused e) :
      Tallies R excused x (.error e t)

theorem Tallies.mono {R : σ → τ → Prop} {excused excused' : ε → Prop}
    (hexcused : ∀ e, excused e → excused' e) {x : EStateM.Result ε σ α}
    {y : EStateM.Result ε τ β} (h : Tallies R excused x y) : Tallies R excused' x y := by
  cases h with
  | ok h => exact .ok h
  | same => exact .same
  | left he => exact .left (hexcused _ he)
  | right he => exact .right (hexcused _ he)

theorem Tallies.bind {γ δ : Type} {R R' : σ → τ → Prop} {excused : ε → Prop}
    {x : EStateM ε σ α} {y : EStateM ε τ β} {f : α → EStateM ε σ γ} {g : β → EStateM ε τ δ} {s : σ}
    {t : τ} (h : Tallies R excused (x s) (y t))
    (hfg : ∀ a b s' t', R s' t' → Tallies R' excused (f a s') (g b t')) :
    Tallies R' excused ((x >>= f) s) ((y >>= g) t) := by
  simp only [Bind.bind, EStateM.bind]
  generalize x s = xs at h
  generalize y t = yt at h
  cases h with
  | @ok a b s' t' h' => exact hfg a b s' t' h'
  | same => exact .same
  | left he => exact .left he
  | right he => exact .right he

/-- From related states the actions come to the same end. -/
def Beside (R : σ → τ → Prop) (excused : ε → Prop) (x : EStateM ε σ α) (y : EStateM ε τ β) : Prop :=
  ∀ s t, R s t → Tallies R excused (x s) (y t)

namespace Beside

variable {γ δ : Type} {R : σ → τ → Prop} {excused : ε → Prop}

theorem pure (a : α) (b : β) :
    Beside R excused (Pure.pure a : EStateM ε σ α) (Pure.pure b : EStateM ε τ β) :=
  fun _ _ h => .ok h

theorem throw (e : ε) :
    Beside R excused (MonadExcept.throw e : EStateM ε σ α) (MonadExcept.throw e : EStateM ε τ β) :=
  fun _ _ _ => .same

theorem bind {x : EStateM ε σ α} {y : EStateM ε τ β} {f : α → EStateM ε σ γ}
    {g : β → EStateM ε τ δ} (hxy : Beside R excused x y) (hfg : ∀ a b, Beside R excused (f a) (g b)) :
    Beside R excused (x >>= f) (y >>= g) :=
  fun s t h => (hxy s t h).bind hfg

theorem mapM {f : γ → EStateM ε σ α} {g : γ → EStateM ε τ β} {l : List γ}
    (h : ∀ c ∈ l, Beside R excused (f c) (g c)) : Beside R excused (l.mapM f) (l.mapM g) := by
  induction l with
  | nil =>
      rw [List.mapM_nil, List.mapM_nil]
      exact pure [] []
  | cons c l ih =>
      rw [List.forall_mem_cons] at h
      rw [List.mapM_cons, List.mapM_cons]
      exact bind h.1 fun a b => bind (ih h.2) fun as bs => pure (a :: as) (b :: bs)

theorem foldlM {f : α → γ → EStateM ε σ α} {g : β → γ → EStateM ε τ β}
    (h : ∀ a b c, Beside R excused (f a c) (g b c)) (l : List γ) :
    ∀ a b, Beside R excused (l.foldlM f a) (l.foldlM g b) := by
  induction l with
  | nil => exact pure
  | cons c l ih => exact fun a b => bind (h a b c) ih

end Beside

end State

end Reshape
