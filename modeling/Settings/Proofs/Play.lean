import Settings.Proofs.LockstepChange
import Settings.Proofs.History

/-!
# Whole runs of a store

`Namespace.play` builds a store and takes step after step, the host's state handed on, and tells
which store each step left and whether it failed. Two translations of a specification whose
callbacks run alike play alike: a step is one edit of the level, undone if it fails
(`Step.edit`), and edits go in lockstep.
-/

set_option autoImplicit false

namespace Settings

variable {σ σ₁ σ₂ : Type}

/-- Takes a step and gives the store after it, and the error if the step failed. -/
def Store.take (store : Store σ) (step : Step) : Attempt σ (Store σ × Option SettingsError) :=
  fun s =>
    match store.step step s with
    | (store, error, s) => (.ok (store, error), s)

/-- Takes steps one after the other and gives what each of them leaves. -/
def Store.play : List Step → Store σ → Attempt σ (List (Store σ × Option SettingsError))
  | [], _ => pure []
  | step :: steps, store => do
    let visit ← store.take step
    let visits ← Store.play steps visit.1
    pure (visit :: visits)

/-- Builds a store, which is the first that is visited, and takes steps. -/
def Namespace.play (spec : Namespace σ) (options : Options σ) (steps : List Step) :
    Attempt σ (List (Store σ × Option SettingsError)) := do
  let store ← Store.create spec options
  let visits ← Store.play steps store
  pure ((store, none) :: visits)

/-! ## A store made of its parts -/

/-- The check before first use. -/
def Namespace.inspect (spec : Namespace σ) (options : Options σ) : Attempt σ Unit :=
  if options.mode = .development then
    match spec.offence? .root with
    | some offence => Run.fail offence
    | none => pure ()
  else pure ()

theorem Store.create_eq (spec : Namespace σ) (options : Options σ) :
    Store.create spec options = (do
      spec.inspect options
      (fun level => ⟨spec, options, level⟩) <$> spec.defaults .root false) := by
  rw [map_eq_pure_bind]
  unfold Store.create Namespace.inspect
  split
  · cases spec.offence? .root <;> rfl
  · rfl

/-- The edit that a step makes. -/
def Step.edit (spec : Namespace σ) (options : Options σ) : Step → Edit σ Level Unit
  | change input => Store.applyInput spec options input
  | layers inputs => Store.applyInput spec options (Layer.mergeAll inputs)
  | reset => do
    let level ← (spec.defaults .root false).beside
    Run.update fun p => (level, p.2)

theorem Store.change_eq_edit (spec : Namespace σ) (options : Options σ) (level : Level)
    (input : Value) :
    Store.change ⟨spec, options, level⟩ input =
      (fun p => ⟨spec, options, p.2⟩) <$> (applyInput spec options input).on level := by
  rw [map_eq_pure_bind]
  funext s
  unfold Store.change
  rw [Run.bind_apply]
  unfold Run.on
  dsimp only
  rcases applyInput spec options input (level, s) with ⟨e | ⟨⟨⟩⟩, level, s⟩ <;> rfl

/-- What a change ends with, and the state that it leaves the host in, are those of the edit. -/
theorem Store.change_apply (store : Store σ) (input : Value) (s : σ) :
    store.change input s =
      (((applyInput store.spec store.options input).on store.level s).1.map fun p =>
          { store with level := p.2 },
        ((applyInput store.spec store.options input).on store.level s).2) := by
  have h := congrFun (change_eq_edit store.spec store.options store.level input) s
  rwa [Run.map_apply] at h

theorem Step.attempt_eq_edit (step : Step) (spec : Namespace σ) (options : Options σ)
    (level : Level) :
    step.attempt ⟨spec, options, level⟩ =
      (fun p => ⟨spec, options, p.2⟩) <$> (step.edit spec options).on level := by
  cases step with
  | change input => exact Store.change_eq_edit spec options level input
  | layers inputs => exact Store.change_eq_edit spec options level _
  | reset =>
    show (do
      let level ← spec.defaults .root false
      pure (Store.mk spec options level)) = _
    unfold Step.edit
    rw [Run.on_bind, Run.on_beside, map_eq_pure_bind, map_eq_pure_bind, bind_assoc, bind_assoc]
    rfl

theorem Store.take_eq_edit (step : Step) (spec : Namespace σ) (options : Options σ)
    (level : Level) :
    Store.take ⟨spec, options, level⟩ step =
      (fun p => (⟨spec, options, p.1⟩, p.2)) <$> (step.edit spec options).orUndo level := by
  rw [map_eq_pure_bind]
  funext s
  rw [Run.bind_apply]
  unfold Store.take Store.step Run.orUndo
  rw [step.attempt_eq_edit, map_eq_pure_bind, Run.bind_apply]
  rcases (step.edit spec options).on level s with ⟨e | ⟨⟨⟩, level⟩, s⟩ <;> rfl

/-! ## What a run visits -/

section Visits

variable {spec : Namespace σ} {options : Options σ} {store : Store σ}

/-- A step succeeds and leads where its attempt does, or it leaves the store as it is and tells why
the attempt failed. -/
theorem Store.take_cases {step : Step} {visit : Store σ × Option SettingsError}
    (h : (store.take step).Yields visit) :
    (∃ store', visit = (store', none) ∧ (step.attempt store).Yields store') ∨
      ∃ e s, visit = (store, some e) ∧ (step.attempt store s).1 = .error e := by
  obtain ⟨s, s', h⟩ := h
  unfold take Store.step at h
  split at h
  next store' error t hstep =>
  split at hstep
  · next hattempt =>
    cases hstep
    cases h
    exact .inl ⟨_, rfl, s, s', hattempt⟩
  · next hattempt =>
    cases hstep
    cases h
    exact .inr ⟨_, s, rfl, congrArg Prod.fst hattempt⟩

/-- A run is a first step, and the run of the others from where it leads. -/
theorem Store.play_cons_yields {step : Step} {steps : List Step}
    {visits : List (Store σ × Option SettingsError)}
    (h : (Store.play (step :: steps) store).Yields visits) :
    ∃ visit rest, visits = visit :: rest ∧ (store.take step).Yields visit ∧
      (Store.play steps visit.1).Yields rest := by
  obtain ⟨visit, htake, h⟩ := h.of_bind
  obtain ⟨rest, hrest, h⟩ := h.of_bind
  exact ⟨visit, rest, h.of_pure, htake, hrest⟩

theorem Store.Reachable.of_take (h : Reachable spec options store) {step : Step}
    {visit : Store σ × Option SettingsError} (htake : (store.take step).Yields visit) :
    Reachable spec options visit.1 := by
  rcases Store.take_cases htake with ⟨store', rfl, hattempt⟩ | ⟨e, s, rfl, -⟩
  · exact h.of_attempt hattempt
  · exact h

/-- Every step of a run leads from one visit to the next. -/
private theorem Store.Reachable.play_visit (h : Reachable spec options store) {steps : List Step}
    {visits : List (Store σ × Option SettingsError)}
    (hplay : (Store.play steps store).Yields visits) (error : Option SettingsError) :
    visits.length = steps.length ∧
    ∀ (i : Nat) before after, ((store, error) :: visits)[i]? = some before →
      visits[i]? = some after → Reachable spec options before.1 ∧
        ∃ step, steps[i]? = some step ∧ (before.1.take step).Yields after := by
  induction steps generalizing store visits error with
  | nil =>
    rw [hplay.of_pure]
    exact ⟨rfl, fun i before after _ hafter => by cases hafter⟩
  | cons step steps ih =>
    obtain ⟨visit, rest, rfl, htake, hrest⟩ := Store.play_cons_yields hplay
    obtain ⟨hlength, hvisits⟩ := ih (h.of_take htake) hrest visit.2
    refine ⟨congrArg (· + 1) hlength, fun i before after hbefore hafter => ?_⟩
    cases i with
    | zero =>
      cases hbefore
      cases hafter
      exact ⟨h, step, rfl, htake⟩
    | succ i => exact hvisits i before after hbefore hafter

/-- A run visits the store that it builds and, step by step, where each step leads. -/
theorem Namespace.play_visits {steps : List Step} {visits : List (Store σ × Option SettingsError)}
    (h : (spec.play options steps).Yields visits) :
    (∃ store rest, visits = (store, none) :: rest ∧ (Store.create spec options).Yields store ∧
      (Store.play steps store).Yields rest ∧ rest.length = steps.length) ∧
    ∀ (i : Nat) before after, visits[i]? = some before → visits[i + 1]? = some after →
      Store.Reachable spec options before.1 ∧
        ∃ step, steps[i]? = some step ∧ (before.1.take step).Yields after := by
  obtain ⟨store, hcreate, h⟩ := h.of_bind
  obtain ⟨rest, hplay, h⟩ := h.of_bind
  obtain rfl := h.of_pure
  obtain ⟨hlength, hvisits⟩ := (Store.Reachable.create hcreate).play_visit hplay none
  exact ⟨⟨store, rest, rfl, hcreate, hplay, hlength⟩, hvisits⟩

end Visits

/-! ## In lockstep -/

/-- With nothing exempt, edits that run alike on the same level end with the same. -/
theorem Link.Edits.same {α : Type} {link : Link σ₁ σ₂} {s : Specifier σ} {place : Place}
    {r₁ : Edit σ₁ Level α} {r₂ : Edit σ₂ Level α}
    (h : link.Keeps (Level.SameBut (fun _ _ => False) (fun _ => False) s place) r₁ r₂)
    (level : Level) : link.Same (r₁.on level) (r₂.on level) :=
  (h level level).imp (fun _ => .refl level) fun _ _ _ hpq => Prod.ext hpq.1 hpq.2.eq

variable {link : Link σ₁ σ₂} {exempt : Place → String → Prop} {t₁ : Translation σ σ₁}
  {t₂ : Translation σ σ₂} {o₁ : Options σ₁} {o₂ : Options σ₂} {n : Namespace σ}

/-- Two lists of visits go through levels that are the same but for exempt names, and the same steps
failed with the same errors. -/
def SameVisits (exempt : Place → String → Prop) (s : Specifier σ)
    (as : List (Store σ₁ × Option SettingsError)) (bs : List (Store σ₂ × Option SettingsError)) :
    Prop :=
  ∀ i : Nat, Option.Rel
    (fun v w => v.1.level.SameBut exempt (exempt []) s [] w.1.level ∧ v.2 = w.2) as[i]? bs[i]?

theorem SameVisits.nil {s : Specifier σ} :
    SameVisits exempt s ([] : List (Store σ₁ × _)) ([] : List (Store σ₂ × _)) := by
  intro i
  rw [List.getElem?_nil, List.getElem?_nil]
  exact .none

theorem SameVisits.cons {s : Specifier σ} {a : Store σ₁} {b : Store σ₂}
    {error : Option SettingsError} {as : List (Store σ₁ × Option SettingsError)}
    {bs : List (Store σ₂ × Option SettingsError)}
    (level : a.level.SameBut exempt (exempt []) s [] b.level) (rest : SameVisits exempt s as bs) :
    SameVisits exempt s ((a, error) :: as) ((b, error) :: bs) := by
  intro i
  cases i with
  | zero => exact .some ⟨level, rfl⟩
  | succ i =>
    rw [List.getElem?_cons_succ, List.getElem?_cons_succ]
    exact rest i

/-- Visits of the same levels, with nothing exempt, can stand for each other. -/
theorem SameVisits.congr {σ₃ σ₄ : Type} {s s' : Specifier σ}
    {as : List (Store σ₁ × Option SettingsError)} {bs : List (Store σ₂ × Option SettingsError)}
    {cs : List (Store σ₃ × Option SettingsError)} {ds : List (Store σ₄ × Option SettingsError)}
    (h : SameVisits exempt s as bs) (ha : SameVisits (fun _ _ => False) s as cs)
    (hb : SameVisits (fun _ _ => False) s' bs ds) : SameVisits exempt s cs ds := by
  intro i
  obtain ⟨hv, hw⟩ | ⟨v, w, hv, hw, hlevel, herror⟩ := rel_cases (h i)
  · have hac := ha i
    have hbd := hb i
    rw [hv] at hac
    rw [hw] at hbd
    cases hc : cs[i]? <;> rw [hc] at hac <;> cases hac
    cases hd : ds[i]? <;> rw [hd] at hbd <;> cases hbd
    exact .none
  · have hac := ha i
    have hbd := hb i
    rw [hv] at hac
    rw [hw] at hbd
    cases hc : cs[i]? <;> rw [hc] at hac <;> cases hac
    cases hd : ds[i]? <;> rw [hd] at hbd <;> cases hbd
    next c hac d hbd =>
    rw [hac.1.eq, hbd.1.eq] at hlevel
    exact .some ⟨hlevel, hac.2.symm.trans (herror.trans hbd.2)⟩

/-- The check before first use does not depend on callbacks. -/
theorem Namespace.inspect_alike (hmode : o₁.mode = o₂.mode) :
    link.Same ((n.translate t₁).inspect o₁) ((n.translate t₂).inspect o₂) := by
  unfold Namespace.inspect
  rw [hmode, Namespace.offence?_translate, Namespace.offence?_translate]
  split
  · cases n.offence? .root with
    | some offence => exact Link.alike_fail offence
    | none => exact Link.alike_pure fun _ => rfl
  · exact Link.alike_pure fun _ => rfl

section Lockstep

variable (h : n.toSpecifier.Agree link exempt t₁ t₂ [])
  (hreport : ∀ notice, link.Same (o₁.report notice) (o₂.report notice))
include h hreport

theorem Step.edit_keeps (step : Step) :
    link.Keeps (Level.SameBut exempt (exempt []) n.toSpecifier [])
      (step.edit (n.translate t₁) o₁) (step.edit (n.translate t₂) o₂) := by
  cases step with
  | change input => exact applyInput_keeps h hreport input
  | layers inputs => exact applyInput_keeps h hreport _
  | reset =>
    intro l₁ l₂
    unfold Step.edit
    rw [Run.on_bind, Run.on_bind, Run.on_beside, Run.on_beside, bind_map_left, bind_map_left]
    refine ((Namespace.defaults_alike h .root false).when fun _ => trivial).bind fun l₁ l₂ => ?_
    exact Link.alike_pure fun hl => ⟨rfl, hl.2⟩

theorem Store.play_alike (steps : List Step) (l₁ l₂ : Level) :
    link.Alike (l₁.SameBut exempt (exempt []) n.toSpecifier [] l₂)
      (SameVisits exempt n.toSpecifier)
      (Store.play steps ⟨n.translate t₁, o₁, l₁⟩) (Store.play steps ⟨n.translate t₂, o₂, l₂⟩) := by
  induction steps generalizing l₁ l₂ with
  | nil => exact Link.alike_pure fun _ => .nil
  | cons step steps ih =>
    unfold Store.play
    rw [Store.take_eq_edit, Store.take_eq_edit, bind_map_left, bind_map_left]
    refine ((Step.edit_keeps h hreport step).orUndo l₁ l₂).bind fun p q => ?_
    refine ((ih p.1 q.1).when fun hp => hp.2.1).bind fun as bs => Link.alike_pure fun hp => ?_
    rw [hp.1.2.2]
    exact .cons hp.1.2.1 hp.2

theorem Namespace.play_alike (hmode : o₁.mode = o₂.mode) (steps : List Step) :
    link.Alike True (SameVisits exempt n.toSpecifier) ((n.translate t₁).play o₁ steps)
      ((n.translate t₂).play o₂ steps) := by
  unfold Namespace.play
  rw [Store.create_eq, Store.create_eq, bind_assoc, bind_assoc]
  refine (Namespace.inspect_alike hmode).bind_same fun _ => ?_
  rw [bind_map_left, bind_map_left]
  refine (Namespace.defaults_alike h .root false).bind fun l₁ l₂ => ?_
  refine ((Store.play_alike h hreport steps l₁ l₂).when And.right).bind fun as bs => ?_
  exact Link.alike_pure fun hp => .cons hp.1.2 hp.2

end Lockstep

end Settings
