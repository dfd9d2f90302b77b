import Settings.Level

/-!
# What a run can end with

A callback may look at the state of its host, so how a run ends is not a function of its arguments.
`Run.Yields` says that some state of the host lets the run end with a value, and `Run.Takes` the
same of an edit and the state that it leaves. Both are inverted along the way a run is put together,
and after that no proof mentions the host. `Run.Determined` says that the host has no say in the
result; then what a run can end with is what it always ends with.
-/

set_option autoImplicit false

namespace Settings.Run

variable {ε ε' σ τ ρ α β : Type}

/-- Some state of the host lets the run end with the value. -/
def Yields (r : Run ε σ α) (a : α) : Prop := ∃ s s', r s = (.ok a, s')

/-- Some state of the host lets the edit take one state to another and end with the value. -/
def Takes (r : Run ε (τ × σ) α) (t : τ) (a : α) (t' : τ) : Prop :=
  ∃ s s', r (t, s) = (.ok a, (t', s'))

/-- Whatever the state of the host, the run ends with the value. -/
def Gives (r : Run ε σ α) (a : α) : Prop := ∀ s, (r s).1 = .ok a

/-- Whatever the state of the host, the edit takes one state to another and ends with the value. -/
def Does (r : Run ε (τ × σ) α) (t : τ) (a : α) (t' : τ) : Prop :=
  ∀ s, ∃ s', r (t, s) = (.ok a, (t', s'))

/-- Whatever error the run ends with meets the condition. -/
def FailsWith (errors : ε → Prop) (r : Run ε σ α) : Prop := ∀ s e, (r s).1 = .error e → errors e

/-- The run ends in the same way whatever the state of the host. -/
def Determined (r : Run ε σ α) : Prop := ∀ s t, (r s).1 = (r t).1

theorem map_apply (f : α → β) (r : Run ε σ α) (s : σ) :
    (f <$> r) s = ((r s).1.map f, (r s).2) := by
  rw [map_eq_pure_bind, bind_apply]
  rcases r s with ⟨e | a, s'⟩ <;> rfl

/-! ## Inverting runs -/

theorem Yields.of_pure {a b : α} (h : (pure a : Run ε σ α).Yields b) : b = a := by
  obtain ⟨s, s', h⟩ := h
  cases h
  rfl

theorem yields_pure [Nonempty σ] (a : α) : (pure a : Run ε σ α).Yields a := by
  obtain ⟨s⟩ := ‹Nonempty σ›
  exact ⟨s, s, rfl⟩

/-- A run that ends with some value yields the value that it ends with. -/
theorem yields_getD {r : Run ε σ α} {s : σ} {a : α} (h : (r s).1.toOption.isSome) :
    r.Yields ((r s).1.toOption.getD a) := by
  refine ⟨s, (r s).2, Prod.ext ?_ rfl⟩
  cases hr : (r s).1 with
  | error e =>
    rw [hr] at h
    cases h
  | ok b => rfl

theorem Yields.of_bind {r : Run ε σ α} {f : α → Run ε σ β} {b : β} (h : (r >>= f).Yields b) :
    ∃ a, r.Yields a ∧ (f a).Yields b := by
  obtain ⟨s, s', h⟩ := h
  obtain ⟨a, t, hr, hf⟩ := bind_eq_ok.1 h
  exact ⟨a, ⟨s, t, hr⟩, t, s', hf⟩

theorem Yields.of_map {r : Run ε σ α} {f : α → β} {b : β} (h : (f <$> r).Yields b) :
    ∃ a, r.Yields a ∧ b = f a := by
  rw [map_eq_pure_bind] at h
  obtain ⟨a, ha, hb⟩ := h.of_bind
  exact ⟨a, ha, hb.of_pure⟩

theorem Yields.of_mapError {r : Run ε σ α} {f : ε → ε'} {a : α} (h : (r.mapError f).Yields a) :
    r.Yields a := by
  obtain ⟨s, s', h⟩ := h
  unfold mapError at h
  split at h
  · next b t hr =>
    cases h
    exact ⟨s, s', hr⟩
  · cases h

theorem Yields.map {r : Run ε σ α} {a : α} (h : r.Yields a) (f : α → β) :
    (f <$> r).Yields (f a) := by
  obtain ⟨s, s', h⟩ := h
  exact ⟨s, s', by rw [map_eq_pure_bind, bind_apply, h]; rfl⟩

theorem not_yields_fail {e : ε} {a : α} : ¬ (fail e : Run ε σ α).Yields a := by
  rintro ⟨s, s', h⟩
  cases h

theorem Yields.of_ofOption {e : ε} {o : Option α} {a : α}
    (h : (ofOption e o : Run ε σ α).Yields a) : o = some a := by
  cases o with
  | none => exact absurd h not_yields_fail
  | some b => exact congrArg some h.of_pure.symm

/-! ## Inverting edits -/

/-- An edit that ends with a value takes its state to the one that it leaves. -/
theorem takes_of_ok {r : Run ε (τ × σ) α} {t : τ} {s : σ} {a : α} (h : (r (t, s)).1 = .ok a) :
    r.Takes t a (r (t, s)).2.1 := ⟨s, (r (t, s)).2.2, Prod.ext h rfl⟩

theorem Takes.of_pure {a b : α} {t t' : τ} (h : (pure a : Run ε (τ × σ) α).Takes t b t') :
    b = a ∧ t' = t := by
  obtain ⟨s, s', h⟩ := h
  cases h
  exact ⟨rfl, rfl⟩

theorem Takes.of_bind {r : Run ε (τ × σ) α} {f : α → Run ε (τ × σ) β} {t t' : τ} {b : β}
    (h : (r >>= f).Takes t b t') : ∃ a u, r.Takes t a u ∧ (f a).Takes u b t' := by
  obtain ⟨s, s', h⟩ := h
  obtain ⟨a, ⟨u, s₁⟩, hr, hf⟩ := bind_eq_ok.1 h
  exact ⟨a, u, ⟨s, s₁, hr⟩, s₁, s', hf⟩

theorem Takes.of_map {r : Run ε (τ × σ) α} {f : α → β} {t t' : τ} {b : β}
    (h : (f <$> r).Takes t b t') : ∃ a, r.Takes t a t' ∧ b = f a := by
  rw [map_eq_pure_bind] at h
  obtain ⟨a, u, ha, hb⟩ := h.of_bind
  obtain ⟨rfl, rfl⟩ := hb.of_pure
  exact ⟨a, ha, rfl⟩

/-- A run beside a state leaves the state alone. -/
theorem Takes.of_beside {r : Run ε σ α} {t t' : τ} {a : α}
    (h : (r.beside : Run ε (τ × σ) α).Takes t a t') : r.Yields a ∧ t' = t := by
  obtain ⟨s, s', h⟩ := h
  simp only [beside, Prod.mk.injEq] at h
  obtain ⟨h, rfl, rfl⟩ := h
  exact ⟨⟨s, (r s).2, Prod.ext h rfl⟩, rfl⟩

theorem Takes.of_update {f : τ → τ} {t t' : τ} {u : Unit}
    (h : (update fun p : τ × σ => (f p.1, p.2) : Run ε (τ × σ) Unit).Takes t u t') : t' = f t := by
  obtain ⟨s, s', h⟩ := h
  cases h
  rfl

/-- Reading the state first hands it to what follows. -/
theorem Takes.of_state {f : τ → Run ε (τ × σ) β} {t t' : τ} {b : β}
    (h : (state >>= fun p : τ × σ => f p.1).Takes t b t') : (f t).Takes t b t' := by
  obtain ⟨s, s', h⟩ := h
  exact ⟨s, s', h⟩

theorem Takes.of_zoom {part : τ → ρ} {leave : Bool → ρ → τ → τ} {r : Run ε (ρ × σ) α} {t t' : τ}
    {a : α} (h : (zoom part leave r).Takes t a t') :
    ∃ p, r.Takes (part t) a p ∧ t' = leave true p t := by
  obtain ⟨s, s', h⟩ := h
  unfold zoom at h
  dsimp only at h
  split at h
  · next b p s₁ hr =>
    cases h
    exact ⟨p, ⟨s, s', hr⟩, rfl⟩
  · cases h

theorem not_takes_fail {e : ε} {t t' : τ} {a : α} : ¬ (fail e : Run ε (τ × σ) α).Takes t a t' := by
  rintro ⟨s, s', h⟩
  cases h

/-! ## How runs fail -/

theorem failsWith_pure (errors : ε → Prop) (a : α) : (pure a : Run ε σ α).FailsWith errors := by
  rintro s e ⟨⟩

theorem failsWith_update (errors : ε → Prop) (f : σ → σ) :
    (update f : Run ε σ Unit).FailsWith errors := by
  rintro s e ⟨⟩

theorem failsWith_fail {errors : ε → Prop} {e : ε} (h : errors e) :
    (fail e : Run ε σ α).FailsWith errors := by
  rintro s _ ⟨⟩
  exact h

theorem FailsWith.imp {errors errors' : ε → Prop} {r : Run ε σ α} (h : r.FailsWith errors)
    (himp : ∀ e, errors e → errors' e) : r.FailsWith errors' :=
  fun s e he => himp e (h s e he)

theorem FailsWith.bind {errors : ε → Prop} {r : Run ε σ α} {f : α → Run ε σ β}
    (hr : r.FailsWith errors) (hf : ∀ a, (f a).FailsWith errors) : (r >>= f).FailsWith errors := by
  intro s e he
  rw [bind_apply] at he
  split at he
  · next a s' hs => exact hf a s' e he
  · next e' s' hs =>
    cases he
    exact hr s e (by rw [hs])

theorem FailsWith.beside {errors : ε → Prop} {r : Run ε σ α} (h : r.FailsWith errors) :
    (r.beside : Run ε (τ × σ) α).FailsWith errors := fun p e he => h p.2 e he

theorem FailsWith.zoom {errors : ε → Prop} {r : Run ε (ρ × σ) α} (h : r.FailsWith errors)
    (part : τ → ρ) (leave : Bool → ρ → τ → τ) : (zoom part leave r).FailsWith errors := by
  rintro ⟨t, s⟩ e he
  unfold Run.zoom at he
  dsimp only at he
  split at he
  · cases he
  · next e' p s' hr =>
    cases he
    exact h (part t, s) e (by rw [hr])

/-- A run that cannot fail succeeds. -/
theorem FailsWith.ok {r : Run ε σ Unit} (h : r.FailsWith fun _ => False) (s : σ) :
    (r s).1 = .ok () := by
  cases hr : (r s).1 with
  | error e => exact absurd hr (h s e)
  | ok u => rfl

/-! ## Edits that always succeed -/

theorem does_pure (a : α) (t : τ) : (pure a : Run ε (τ × σ) α).Does t a t := fun s => ⟨s, rfl⟩

theorem Does.bind {r : Run ε (τ × σ) α} {f : α → Run ε (τ × σ) β} {t u t' : τ} {a : α} {b : β}
    (hr : r.Does t a u) (hf : (f a).Does u b t') : (r >>= f).Does t b t' := by
  intro s
  obtain ⟨s₁, hr⟩ := hr s
  rw [bind_ok hr]
  exact hf s₁

theorem Does.map {r : Run ε (τ × σ) α} {t t' : τ} {a : α} (h : r.Does t a t') (f : α → β) :
    (f <$> r).Does t (f a) t' := by
  rw [map_eq_pure_bind]
  exact h.bind (does_pure (f a) t')

theorem does_update (f : τ → τ) (t : τ) :
    (update fun p : τ × σ => (f p.1, p.2) : Run ε (τ × σ) Unit).Does t () (f t) :=
  fun s => ⟨s, rfl⟩

/-- Reading the state first hands it to what follows. -/
theorem does_state {f : τ → Run ε (τ × σ) β} {t t' : τ} {b : β} (h : (f t).Does t b t') :
    (state >>= fun p : τ × σ => f p.1).Does t b t' := h

theorem does_zoom (part : τ → ρ) (leave : Bool → ρ → τ → τ) {r : Run ε (ρ × σ) α} {t : τ} {a : α}
    {p : ρ} (h : r.Does (part t) a p) : (zoom part leave r).Does t a (leave true p t) := by
  intro s
  obtain ⟨s', h⟩ := h s
  unfold Run.zoom
  dsimp only
  rw [h]
  exact ⟨s', rfl⟩

theorem Gives.beside {r : Run ε σ α} {a : α} (h : r.Gives a) (t : τ) :
    (r.beside : Run ε (τ × σ) α).Does t a t :=
  fun s => ⟨(r s).2, by simp only [Run.beside, h s]⟩

/-! ## Runs in which the host has no say -/

theorem gives_pure (a : α) : (pure a : Run ε σ α).Gives a := fun _ => rfl

theorem Gives.bind {r : Run ε σ α} {f : α → Run ε σ β} {a : α} {b : β} (hr : r.Gives a)
    (hf : (f a).Gives b) : (r >>= f).Gives b := by
  intro s
  rw [bind_ok (Prod.ext (hr s) rfl : r s = (.ok a, (r s).2))]
  exact hf _

theorem Gives.mapError {r : Run ε σ α} {a : α} (h : r.Gives a) (f : ε → ε') :
    (r.mapError f).Gives a := by
  intro s
  unfold Run.mapError
  rw [(Prod.ext (h s) rfl : r s = (.ok a, (r s).2))]

theorem Determined.gives {r : Run ε σ α} (hd : r.Determined) {a : α} (h : r.Yields a) :
    r.Gives a := by
  obtain ⟨s, s', h⟩ := h
  intro t
  rw [hd t s, h]

theorem Gives.yields [Nonempty σ] {r : Run ε σ α} {a : α} (h : r.Gives a) : r.Yields a := by
  obtain ⟨s⟩ := ‹Nonempty σ›
  exact ⟨s, (r s).2, Prod.ext (h s) rfl⟩

theorem Yields.eq_of_gives {r : Run ε σ α} {a b : α} (h : r.Yields a) (hb : r.Gives b) : a = b := by
  obtain ⟨s, s', h⟩ := h
  have hb := hb s
  rw [h] at hb
  exact Except.ok.inj hb

theorem Determined.unique {r : Run ε σ α} (hd : r.Determined) {a b : α} (ha : r.Yields a)
    (hb : r.Yields b) : b = a := hb.eq_of_gives (hd.gives ha)

theorem Gives.unique [Nonempty σ] {r : Run ε σ α} {a b : α} (ha : r.Gives a) (hb : r.Gives b) :
    a = b := by
  obtain ⟨s⟩ := ‹Nonempty σ›
  exact Except.ok.inj ((ha s).symm.trans (hb s))

/-- A host with a single state has no say. -/
theorem determined_of_subsingleton [Subsingleton σ] (r : Run ε σ α) : r.Determined :=
  fun s t => by rw [Subsingleton.elim s t]

theorem determined_pure (a : α) : (pure a : Run ε σ α).Determined := fun _ _ => rfl

theorem determined_fail (e : ε) : (fail e : Run ε σ α).Determined := fun _ _ => rfl

theorem Determined.bind {r : Run ε σ α} {f : α → Run ε σ β} (hr : r.Determined)
    (hf : ∀ a, (f a).Determined) : (r >>= f).Determined := by
  intro s t
  have h := hr s t
  rw [bind_apply, bind_apply]
  -- Either both runs fail with one error, or both go on with one value.
  rcases hs : r s with ⟨a | a, s₁⟩ <;> rcases ht : r t with ⟨b | b, t₁⟩ <;>
    rw [hs, ht] at h <;> cases h
  · rfl
  · exact hf a s₁ t₁

theorem Determined.of_map {r : Run ε σ α} {f : α → β} (h : (f <$> r).Determined)
    (hf : ∀ a b, f a = f b → a = b) : r.Determined := by
  intro s t
  have hst := h s t
  -- The map keeps errors apart from values, and values apart from each other.
  rw [map_eq_pure_bind, bind_apply, bind_apply] at hst
  rcases hs : r s with ⟨a | a, s₁⟩ <;> rcases ht : r t with ⟨b | b, t₁⟩ <;>
    rw [hs, ht] at hst
  · exact congrArg Except.error (Except.error.inj hst)
  · cases hst
  · cases hst
  · exact congrArg Except.ok (hf a b (Except.ok.inj hst))

theorem Determined.mapError {r : Run ε σ α} (hr : r.Determined) (f : ε → ε') :
    (r.mapError f).Determined := by
  intro s t
  have h := hr s t
  unfold Run.mapError
  rcases hs : r s with ⟨a | a, s₁⟩ <;> rcases ht : r t with ⟨b | b, t₁⟩ <;>
    rw [hs, ht] at h <;> cases h <;> rfl

end Settings.Run
