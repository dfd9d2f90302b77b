import Settings.Proofs.Outcome

/-!
# Two runs side by side

Two runs over different hosts are compared by what they end with: started from hosts that
correspond they end alike, with related values or with the same error, and the hosts correspond
again. A `Link` says which hosts correspond. It may also name states of the first host from which
on there is nothing left to compare, such as the record of a call that should not have been made;
such a state is never left again. The rules below follow the way a run is put together, so that two
programs of one form are compared by comparing their parts.
-/

set_option autoImplicit false

namespace Settings

variable {ε ε' σ σ₁ σ₂ τ ρ α α₁ α₂ β β₁ β₂ : Type}

/-! ## Runs -/

/-- How two hosts are compared: which of their states correspond, and at which states of the first
the comparison is lost. -/
structure Link (σ₁ σ₂ : Type) where
  hosts : σ₁ → σ₂ → Prop
  lost : σ₁ → Prop

namespace Link

/-- Two runs have ended alike, or the comparison is lost. -/
inductive Ends (link : Link σ₁ σ₂) (A : α₁ → α₂ → Prop) :
    Except ε α₁ × σ₁ → Except ε α₂ × σ₂ → Prop
  | lost {p : Except ε α₁ × σ₁} {q : Except ε α₂ × σ₂} (h : link.lost p.2) : Ends link A p q
  | ok {a : α₁} {b : α₂} {s₁ : σ₁} {s₂ : σ₂} (value : A a b) (hosts : link.hosts s₁ s₂) :
      Ends link A (.ok a, s₁) (.ok b, s₂)
  | error {e : ε} {s₁ : σ₁} {s₂ : σ₂} (hosts : link.hosts s₁ s₂) :
      Ends link A (.error e, s₁) (.error e, s₂)

/-- Under a condition the two runs end alike; without it, too, a lost comparison stays lost. -/
structure Alike (link : Link σ₁ σ₂) (P : Prop) (A : α₁ → α₂ → Prop) (r₁ : Run ε σ₁ α₁)
    (r₂ : Run ε σ₂ α₂) : Prop where
  stays : ∀ s, link.lost s → link.lost (r₁ s).2
  ends : P → ∀ s₁ s₂, link.hosts s₁ s₂ → link.Ends A (r₁ s₁) (r₂ s₂)

/-- The two runs end alike, with the same value. -/
abbrev Same (link : Link σ₁ σ₂) (r₁ : Run ε σ₁ α) (r₂ : Run ε σ₂ α) : Prop :=
  link.Alike True Eq r₁ r₂

variable {link : Link σ₁ σ₂} {P Q : Prop} {A : α₁ → α₂ → Prop} {B : β₁ → β₂ → Prop}

theorem Ends.imp {A' : α₁ → α₂ → Prop} {p : Except ε α₁ × σ₁} {q : Except ε α₂ × σ₂}
    (h : link.Ends A p q) (hA : ∀ a b, A a b → A' a b) : link.Ends A' p q := by
  cases h with
  | lost h => exact .lost h
  | ok value hosts => exact .ok (hA _ _ value) hosts
  | error hosts => exact .error hosts

/-- Where the comparison is not lost, the hosts correspond and both results are of one kind. -/
theorem Ends.results {p : Except ε α₁ × σ₁} {q : Except ε α₂ × σ₂} (h : link.Ends A p q)
    (hnot : ¬ link.lost p.2) : link.hosts p.2 q.2 ∧
      ((∃ a b, p.1 = .ok a ∧ q.1 = .ok b ∧ A a b) ∨ ∃ e, p.1 = .error e ∧ q.1 = .error e) := by
  cases h with
  | lost h => exact absurd h hnot
  | ok value hosts => exact ⟨hosts, .inl ⟨_, _, rfl, rfl, value⟩⟩
  | error hosts => exact ⟨hosts, .inr ⟨_, rfl, rfl⟩⟩

/-- Runs that end alike with the same value have the same result. -/
theorem Ends.fst_eq {p : Except ε α × σ₁} {q : Except ε α × σ₂} (h : link.Ends Eq p q)
    (hnot : ¬ link.lost p.2) : p.1 = q.1 := by
  obtain ⟨-, ⟨a, b, ha, hb, rfl⟩ | ⟨e, ha, hb⟩⟩ := h.results hnot
  · exact ha.trans hb.symm
  · exact ha.trans hb.symm

theorem Alike.imp {A' : α₁ → α₂ → Prop} {r₁ : Run ε σ₁ α₁} {r₂ : Run ε σ₂ α₂}
    (h : link.Alike P A r₁ r₂) (hP : Q → P) (hA : Q → ∀ a b, A a b → A' a b) :
    link.Alike Q A' r₁ r₂ :=
  ⟨h.stays, fun hQ s₁ s₂ hs => (h.ends (hP hQ) s₁ s₂ hs).imp (hA hQ)⟩

theorem Alike.when {r₁ : Run ε σ₁ α₁} {r₂ : Run ε σ₂ α₂} (h : link.Alike P A r₁ r₂) (hP : Q → P) :
    link.Alike Q A r₁ r₂ :=
  h.imp hP fun _ _ _ hA => hA

/-- What has to hold for the runs to be compared may be used to compare them. -/
theorem Alike.under {r₁ : Run ε σ₁ α₁} {r₂ : Run ε σ₂ α₂}
    (stays : ∀ s, link.lost s → link.lost (r₁ s).2) (h : P → link.Alike True A r₁ r₂) :
    link.Alike P A r₁ r₂ :=
  ⟨stays, fun hP => (h hP).ends trivial⟩

theorem alike_pure {a : α₁} {b : α₂} (h : P → A a b) :
    link.Alike P A (pure a : Run ε σ₁ α₁) (pure b) :=
  ⟨fun _ hs => hs, fun hP _ _ hs => .ok (h hP) hs⟩

theorem alike_fail (e : ε) : link.Alike P A (Run.fail e : Run ε σ₁ α₁) (Run.fail e) :=
  ⟨fun _ hs => hs, fun _ _ _ hs => .error hs⟩

theorem alike_ofOption (e : ε) (o : Option α) :
    link.Alike P Eq (Run.ofOption e o : Run ε σ₁ α) (Run.ofOption e o) := by
  cases o with
  | none => exact alike_fail e
  | some a => exact alike_pure fun _ => rfl

theorem stays_bind {r : Run ε σ₁ α₁} {f : α₁ → Run ε σ₁ β₁}
    (hr : ∀ s, link.lost s → link.lost (r s).2)
    (hf : ∀ a s, link.lost s → link.lost (f a s).2) (s : σ₁) (hs : link.lost s) :
    link.lost ((r >>= f) s).2 := by
  have hlost := hr s hs
  rw [Run.bind_apply]
  split
  · next a t h =>
    rw [h] at hlost
    exact hf a t hlost
  · next e t h =>
    rw [h] at hlost
    exact hlost

theorem stays_map {r : Run ε σ₁ α₁} (hr : ∀ s, link.lost s → link.lost (r s).2) (f : α₁ → β₁)
    (s : σ₁) (hs : link.lost s) : link.lost ((f <$> r) s).2 := by
  rw [map_eq_pure_bind]
  exact stays_bind hr (fun _ _ hs => hs) s hs

/-- What follows on two runs is compared for the values that they can end with together. -/
private theorem Alike.bind_of_stays {r₁ : Run ε σ₁ α₁} {r₂ : Run ε σ₂ α₂}
    {f₁ : α₁ → Run ε σ₁ β₁} {f₂ : α₂ → Run ε σ₂ β₂} (hr : link.Alike P A r₁ r₂)
    (hstays : ∀ a s, link.lost s → link.lost (f₁ a s).2)
    (hf : P → ∀ a b, A a b → ∀ s₁ s₂, link.hosts s₁ s₂ → link.Ends B (f₁ a s₁) (f₂ b s₂)) :
    link.Alike P B (r₁ >>= f₁) (r₂ >>= f₂) := by
  refine ⟨stays_bind hr.stays hstays, fun hP s₁ s₂ hs => ?_⟩
  have hends := hr.ends hP s₁ s₂ hs
  rw [Run.bind_apply, Run.bind_apply]
  rcases h₁ : r₁ s₁ with ⟨a | a, t₁⟩ <;> rcases h₂ : r₂ s₂ with ⟨b | b, t₂⟩ <;>
    rw [h₁, h₂] at hends <;> cases hends
  -- What comes after a lost comparison does not matter.
  case error.error.lost h => exact .lost h
  case error.error.error hosts => exact .error hosts
  case error.ok.lost h => exact .lost h
  case ok.error.lost h => exact .lost (hstays a t₁ h)
  case ok.ok.lost h => exact .lost (hstays a t₁ h)
  case ok.ok.ok value hosts => exact hf hP a b value t₁ t₂ hosts

theorem Alike.bind [Nonempty α₂] {r₁ : Run ε σ₁ α₁} {r₂ : Run ε σ₂ α₂} {f₁ : α₁ → Run ε σ₁ β₁}
    {f₂ : α₂ → Run ε σ₂ β₂} (hr : link.Alike P A r₁ r₂)
    (hf : ∀ a b, link.Alike (P ∧ A a b) B (f₁ a) (f₂ b)) :
    link.Alike P B (r₁ >>= f₁) (r₂ >>= f₂) := by
  obtain ⟨b₀⟩ := ‹Nonempty α₂›
  exact hr.bind_of_stays (fun a => (hf a b₀).stays) fun hP a b hab => (hf a b).ends ⟨hP, hab⟩

/-- After runs that end with the same value it is enough to compare what follows that value. -/
theorem Alike.bind_same {r₁ : Run ε σ₁ α} {r₂ : Run ε σ₂ α} {f₁ : α → Run ε σ₁ β₁}
    {f₂ : α → Run ε σ₂ β₂} (hr : link.Alike P Eq r₁ r₂)
    (hf : ∀ a, link.Alike P B (f₁ a) (f₂ a)) : link.Alike P B (r₁ >>= f₁) (r₂ >>= f₂) := by
  refine hr.bind_of_stays (fun a => (hf a).stays) ?_
  rintro hP a _ rfl
  exact (hf a).ends hP

theorem Alike.map {r₁ : Run ε σ₁ α₁} {r₂ : Run ε σ₂ α₂} (hr : link.Alike P A r₁ r₂) {f₁ : α₁ → β₁}
    {f₂ : α₂ → β₂} (hf : P → ∀ a b, A a b → B (f₁ a) (f₂ b)) :
    link.Alike P B (f₁ <$> r₁) (f₂ <$> r₂) := by
  rw [map_eq_pure_bind, map_eq_pure_bind]
  exact hr.bind_of_stays (fun _ _ hs => hs) fun hP a b hab _ _ hs => .ok (hf hP a b hab) hs

theorem Alike.mapError {r₁ : Run ε σ₁ α₁} {r₂ : Run ε σ₂ α₂} (hr : link.Alike P A r₁ r₂)
    (f : ε → ε') : link.Alike P A (r₁.mapError f) (r₂.mapError f) := by
  constructor
  · intro s hs
    have hlost := hr.stays s hs
    unfold Run.mapError
    rcases h : r₁ s with ⟨a | a, t⟩ <;> rw [h] at hlost <;> exact hlost
  · intro hP s₁ s₂ hs
    have hends := hr.ends hP s₁ s₂ hs
    unfold Run.mapError
    rcases h₁ : r₁ s₁ with ⟨a | a, t₁⟩ <;> rcases h₂ : r₂ s₂ with ⟨b | b, t₂⟩ <;>
      rw [h₁, h₂] at hends <;> cases hends
    case error.error.error hosts => exact .error hosts
    case ok.ok.ok value hosts => exact .ok value hosts
    all_goals exact .lost ‹_›

end Link

/-! ## Edits -/

namespace Run

/-- An edit of a given state, as a run that ends with what the edit leaves. -/
def on (r : Run ε (τ × σ) α) (t : τ) : Run ε σ (α × τ) := fun s =>
  match r (t, s) with
  | (.ok a, (t, s)) => (.ok (a, t), s)
  | (.error e, (_, s)) => (.error e, s)

theorem on_bind (r : Run ε (τ × σ) α) (f : α → Run ε (τ × σ) β) (t : τ) :
    (r >>= f).on t = r.on t >>= fun p => (f p.1).on p.2 := by
  funext s
  rw [bind_apply]
  unfold on
  rw [bind_apply]
  rcases r (t, s) with ⟨a | a, t', s'⟩ <;> rfl

theorem on_map (f : α → β) (r : Run ε (τ × σ) α) (t : τ) :
    (f <$> r).on t = (fun p => (f p.1, p.2)) <$> r.on t := by
  rw [map_eq_pure_bind, map_eq_pure_bind, on_bind]
  rfl

theorem on_beside (r : Run ε σ α) (t : τ) :
    (r.beside : Run ε (τ × σ) α).on t = (fun a => (a, t)) <$> r := by
  rw [map_eq_pure_bind]
  funext s
  rw [bind_apply]
  unfold on beside
  dsimp only
  rcases r s with ⟨a | a, s'⟩ <;> rfl

theorem on_update (f : τ → τ) (t : τ) :
    (update fun p : τ × σ => (f p.1, p.2) : Run ε (τ × σ) Unit).on t = pure ((), f t) := rfl

theorem on_zoom (part : τ → ρ) (leave : Bool → ρ → τ → τ) (r : Run ε (ρ × σ) α) (t : τ) :
    (zoom part leave r).on t = (fun p => (p.1, leave true p.2 t)) <$> r.on (part t) := by
  rw [map_eq_pure_bind]
  funext s
  rw [bind_apply]
  unfold on zoom
  dsimp only
  rcases r (part t, s) with ⟨a | a, t', s'⟩ <;> rfl

theorem on_fst (r : Run ε (τ × σ) α) (t : τ) (s : σ) :
    (r.on t s).1.map Prod.fst = (r (t, s)).1 := by
  unfold on
  rcases r (t, s) with ⟨a | a, t', s'⟩ <;> rfl

theorem on_snd (r : Run ε (τ × σ) α) (t : τ) (s : σ) : (r.on t s).2 = (r (t, s)).2.2 := by
  unfold on
  rcases r (t, s) with ⟨a | a, t', s'⟩ <;> rfl

/-- An edit of a given state that is undone if it fails, the error then given back beside the
state. -/
def orUndo (r : Run ε (τ × σ) Unit) (t : τ) : Run ε σ (τ × Option ε) := fun s =>
  match r.on t s with
  | (.ok ((), t'), s) => (.ok (t', none), s)
  | (.error e, s) => (.ok (t, some e), s)

end Run

namespace Link

/-- Two edits, started on related states, end alike and leave related states. -/
def Edits (link : Link σ₁ σ₂) (P : τ → τ → Prop) (Q : α₁ → α₂ → τ → τ → Prop)
    (r₁ : Run ε (τ × σ₁) α₁) (r₂ : Run ε (τ × σ₂) α₂) : Prop :=
  ∀ t₁ t₂, link.Alike (P t₁ t₂) (fun p q => Q p.1 q.1 p.2 q.2) (r₁.on t₁) (r₂.on t₂)

/-- Two edits end alike, with the same value, and what they leave is related as what they found. -/
abbrev Keeps (link : Link σ₁ σ₂) (I : τ → τ → Prop) (r₁ : Run ε (τ × σ₁) α)
    (r₂ : Run ε (τ × σ₂) α) : Prop :=
  link.Edits I (fun a b t₁ t₂ => a = b ∧ I t₁ t₂) r₁ r₂

variable {link : Link σ₁ σ₂} {P : τ → τ → Prop} {Q : α₁ → α₂ → τ → τ → Prop}
  {S : β₁ → β₂ → τ → τ → Prop}

theorem edits_pure {a : α₁} {b : α₂} (h : ∀ t₁ t₂, P t₁ t₂ → Q a b t₁ t₂) :
    link.Edits P Q (pure a : Run ε (τ × σ₁) α₁) (pure b) :=
  fun t₁ t₂ => alike_pure (h t₁ t₂)

theorem edits_fail (e : ε) : link.Edits P Q (Run.fail e : Run ε (τ × σ₁) α₁) (Run.fail e) :=
  fun _ _ => alike_fail e

theorem Edits.bind [Nonempty α₂] [Nonempty τ] {r₁ : Run ε (τ × σ₁) α₁} {r₂ : Run ε (τ × σ₂) α₂}
    {f₁ : α₁ → Run ε (τ × σ₁) β₁} {f₂ : α₂ → Run ε (τ × σ₂) β₂} (hr : link.Edits P Q r₁ r₂)
    (hf : ∀ a b, link.Edits (Q a b) S (f₁ a) (f₂ b)) :
    link.Edits P S (r₁ >>= f₁) (r₂ >>= f₂) := by
  intro t₁ t₂
  rw [Run.on_bind, Run.on_bind]
  exact (hr t₁ t₂).bind fun p q =>
    (hf p.1 q.1 p.2 q.2).when And.right

/-- What follows on edits that end with the same value is compared for that value. -/
theorem Edits.bind_same [Nonempty α] [Nonempty τ] {r₁ : Run ε (τ × σ₁) α} {r₂ : Run ε (τ × σ₂) α}
    {I : τ → τ → Prop} {f₁ : α → Run ε (τ × σ₁) β₁} {f₂ : α → Run ε (τ × σ₂) β₂}
    (hr : link.Edits P (fun a b t₁ t₂ => a = b ∧ I t₁ t₂) r₁ r₂)
    (hf : ∀ a, link.Edits I S (f₁ a) (f₂ a)) : link.Edits P S (r₁ >>= f₁) (r₂ >>= f₂) := by
  refine hr.bind fun a b t₁ t₂ => ⟨(hf a t₁ t₂).stays, ?_⟩
  rintro ⟨rfl, hI⟩
  exact (hf a t₁ t₂).ends hI

/-- What follows on edits that end with a value and its image is compared for that value. -/
theorem Edits.bind_image [Nonempty α₂] [Nonempty τ] {r₁ : Run ε (τ × σ₁) α₁}
    {r₂ : Run ε (τ × σ₂) α₂} {I : τ → τ → Prop} {g : α₁ → α₂} {f₁ : α₁ → Run ε (τ × σ₁) β₁}
    {f₂ : α₂ → Run ε (τ × σ₂) β₂} (hr : link.Edits P (fun a b t₁ t₂ => b = g a ∧ I t₁ t₂) r₁ r₂)
    (hf : ∀ a, link.Edits I S (f₁ a) (f₂ (g a))) : link.Edits P S (r₁ >>= f₁) (r₂ >>= f₂) := by
  refine hr.bind fun a b t₁ t₂ => ⟨(hf a t₁ t₂).stays, ?_⟩
  rintro ⟨rfl, hI⟩
  exact (hf a t₁ t₂).ends hI

theorem Edits.map {r₁ : Run ε (τ × σ₁) α₁} {r₂ : Run ε (τ × σ₂) α₂} (hr : link.Edits P Q r₁ r₂)
    {f₁ : α₁ → β₁} {f₂ : α₂ → β₂} (hf : ∀ a b t₁ t₂, Q a b t₁ t₂ → S (f₁ a) (f₂ b) t₁ t₂) :
    link.Edits P S (f₁ <$> r₁) (f₂ <$> r₂) := by
  intro t₁ t₂
  rw [Run.on_map, Run.on_map]
  exact (hr t₁ t₂).map fun _ _ _ h => hf _ _ _ _ h

/-- Runs beside the edited state leave the states as they are. -/
theorem Edits.beside {A : α₁ → α₂ → Prop} {r₁ : Run ε σ₁ α₁} {r₂ : Run ε σ₂ α₂}
    (hr : link.Alike True A r₁ r₂) :
    link.Edits P (fun a b t₁ t₂ => A a b ∧ P t₁ t₂) r₁.beside r₂.beside := by
  intro t₁ t₂
  rw [Run.on_beside, Run.on_beside]
  exact (hr.when fun _ => trivial).map fun hP _ _ hA => ⟨hA, hP⟩

/-- Edits that are undone if they fail are undone together. -/
theorem Edits.orUndo {I : τ → τ → Prop} {r₁ : Run ε (τ × σ₁) Unit} {r₂ : Run ε (τ × σ₂) Unit}
    (hr : link.Keeps I r₁ r₂) (t₁ t₂ : τ) :
    link.Alike (I t₁ t₂) (fun p q => I p.1 q.1 ∧ p.2 = q.2) (r₁.orUndo t₁) (r₂.orUndo t₂) := by
  constructor
  · intro s hs
    have hlost := (hr t₁ t₂).stays s hs
    unfold Run.orUndo
    rcases h : r₁.on t₁ s with ⟨e | ⟨⟨⟩, t⟩, s'⟩ <;> rw [h] at hlost <;> exact hlost
  · intro hI s₁ s₂ hs
    have hends := (hr t₁ t₂).ends hI s₁ s₂ hs
    unfold Run.orUndo
    rcases h₁ : r₁.on t₁ s₁ with ⟨e₁ | ⟨⟨⟩, t₁'⟩, s₁'⟩ <;>
      rcases h₂ : r₂.on t₂ s₂ with ⟨e₂ | ⟨⟨⟩, t₂'⟩, s₂'⟩ <;> rw [h₁, h₂] at hends <;> cases hends
    case error.error.error hosts => exact .ok ⟨hI, rfl⟩ hosts
    case ok.ok.ok value hosts => exact .ok ⟨value.2, rfl⟩ hosts
    all_goals exact .lost ‹_›

theorem Edits.zoom {P' : ρ → ρ → Prop} {Q' : α₁ → α₂ → ρ → ρ → Prop} {part : τ → ρ}
    {leave : Bool → ρ → τ → τ} {r₁ : Run ε (ρ × σ₁) α₁} {r₂ : Run ε (ρ × σ₂) α₂}
    (hr : link.Edits P' Q' r₁ r₂) (hpart : ∀ t₁ t₂, P t₁ t₂ → P' (part t₁) (part t₂))
    (hleave : ∀ t₁ t₂, P t₁ t₂ → ∀ a b p₁ p₂, Q' a b p₁ p₂ →
      Q a b (leave true p₁ t₁) (leave true p₂ t₂)) :
    link.Edits P Q (Run.zoom part leave r₁) (Run.zoom part leave r₂) := by
  intro t₁ t₂
  rw [Run.on_zoom, Run.on_zoom]
  exact ((hr (part t₁) (part t₂)).when (hpart t₁ t₂)).map
    fun hP _ _ h => hleave t₁ t₂ hP _ _ _ _ h

end Link

end Settings
