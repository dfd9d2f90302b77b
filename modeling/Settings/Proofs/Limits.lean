import Settings.Proofs.Play

/-!
# Limits on runs

`Limits` says which errors a run may fail with and how it may leave the state of its host, on every
way out. The engine has errors of its own, but moves the host through callbacks alone: where the
callbacks keep to limits, so do initialization, resolving (`Specifier.Uses.resolve`) and committing
(`Specifier.Uses.commit`). Only the error about the entries of a record asks something of the
specification itself.
-/

set_option autoImplicit false

namespace Settings

variable {σ τ ρ α β : Type}

/-- Which errors a run may fail with, and how it may move its host. Plain errors are never ruled
out. -/
structure Limits (σ : Type) where
  errors : SettingsError → Prop
  moves : σ → σ → Prop
  error : ∀ e, e.kind.isPlain → errors e
  refl : ∀ s, moves s s
  trans : ∀ {s t u}, moves s t → moves t u → moves s u

namespace Limits

/-- The same limits where the host is beside another state, which may change in any way. -/
def beside (limits : Limits σ) : Limits (τ × σ) where
  errors := limits.errors
  moves p q := limits.moves p.2 q.2
  error := limits.error
  refl p := limits.refl p.2
  trans := limits.trans

/-- However the run ends, it moves the host within the limits. -/
def Moved {ε : Type} (limits : Limits σ) (r : Run ε σ α) : Prop := ∀ s, limits.moves s (r s).2

/-- However the run ends, it keeps to the limits. -/
def Heeded (limits : Limits σ) (r : Attempt σ α) : Prop :=
  ∀ s, limits.moves s (r s).2 ∧ ∀ e, (r s).1 = .error e → limits.errors e

variable {limits : Limits σ}

theorem heeded_fail {e : SettingsError} (h : limits.errors e) :
    limits.Heeded (Run.fail e : Attempt σ α) := by
  refine fun s => ⟨limits.refl s, ?_⟩
  rintro _ ⟨⟩
  exact h

theorem Moved.mapError {r : CallM σ α} (h : limits.Moved r) {f : String → SettingsError}
    (hf : ∀ text, limits.errors (f text)) : limits.Heeded (r.mapError f) := by
  intro s
  have hs := h s
  unfold Run.mapError
  rcases hr : r s with ⟨text | a, t⟩ <;> rw [hr] at hs
  · refine ⟨hs, ?_⟩
    rintro _ ⟨⟩
    exact hf text
  · refine ⟨hs, ?_⟩
    rintro _ ⟨⟩

theorem closed (limits : Limits σ) : Run.Closed limits.Moved limits.Heeded where
  pure a s := by
    refine ⟨limits.refl s, ?_⟩
    rintro e ⟨⟩
  fail h := heeded_fail (limits.error _ h)
  call h hf := h.mapError fun text => limits.error _ (hf text)
  bind {α β r f} hr hf s := by
    have hs := hr s
    rw [Run.bind_apply]
    rcases h : r s with ⟨e | a, t⟩ <;> rw [h] at hs
    · exact ⟨hs.1, fun e' he => hs.2 e' (congrArg Except.error (Except.error.inj he))⟩
    · exact ⟨limits.trans hs.1 (hf a t).1, (hf a t).2⟩

/-- Mapping the result changes neither errors nor the host. -/
theorem Heeded.of_map {r : Attempt σ α} {f : α → β} (h : limits.Heeded (f <$> r)) :
    limits.Heeded r := by
  intro s
  have hs := h s
  rw [Run.map_apply] at hs
  refine ⟨hs.1, fun e he => hs.2 e ?_⟩
  rw [he]
  rfl

/-! ## Edits -/

theorem Heeded.besides {r : Attempt σ α} (h : limits.Heeded r) :
    limits.beside.Heeded (r.beside : Edit σ τ α) :=
  fun p => h p.2

theorem heeded_state : limits.Heeded Run.state := by
  refine fun s => ⟨limits.refl s, ?_⟩
  rintro e ⟨⟩

theorem heeded_update (f : τ → τ) :
    limits.beside.Heeded (Run.update fun p : τ × σ => (f p.1, p.2)) := by
  refine fun p => ⟨limits.refl p.2, ?_⟩
  rintro e ⟨⟩

theorem Heeded.zoom {r : Edit σ ρ α} (h : limits.beside.Heeded r) (part : τ → ρ)
    (leave : Bool → ρ → τ → τ) : limits.beside.Heeded (Run.zoom part leave r : Edit σ τ α) := by
  intro p
  have hp := h (part p.1, p.2)
  unfold Run.zoom
  dsimp only
  rcases hr : r (part p.1, p.2) with ⟨e | a, q⟩ <;> rw [hr] at hp
  · exact ⟨hp.1, fun e' he => hp.2 e' (congrArg Except.error (Except.error.inj he))⟩
  · refine ⟨hp.1, ?_⟩
    rintro _ ⟨⟩

theorem Heeded.on {r : Edit σ τ α} (h : limits.beside.Heeded r) (t : τ) :
    limits.Heeded (r.on t) := by
  intro s
  have hs := h (t, s)
  unfold Run.on
  rcases hr : r (t, s) with ⟨e | a, u, s'⟩ <;> rw [hr] at hs
  · exact ⟨hs.1, fun e' he => hs.2 e' (congrArg Except.error (Except.error.inj he))⟩
  · refine ⟨hs.1, ?_⟩
    rintro _ ⟨⟩

theorem Heeded.orUndo {r : Edit σ τ Unit} (h : limits.beside.Heeded r) (t : τ) :
    limits.Heeded (r.orUndo t) := by
  intro s
  have hs := h.on t s
  unfold Run.orUndo
  rcases hr : r.on t s with ⟨e | ⟨⟨⟩, u⟩, s'⟩ <;> rw [hr] at hs <;> refine ⟨hs.1, ?_⟩ <;>
    rintro _ ⟨⟩

theorem sweepEdit_heeded {step : String → α → Edit σ Level Unit} {lo : Option String}
    {m : SortedMap α lo}
    (h : ∀ name a, m.get? name = some a → limits.beside.Heeded (step name a)) :
    limits.beside.Heeded (sweepEdit step m) := by
  induction m with
  | nil => exact limits.beside.closed.pure ()
  | cons name above a rest ih =>
    exact limits.beside.closed.bind (h name a (if_pos rfl)) fun _ =>
      ih fun k b hk => h k b (SortedMap.get?_cons_of_get? hk)

theorem resolveEach_heeded {field : String → Value → Edit σ τ Value}
    (h : ∀ name v, limits.beside.Heeded (field name v)) {lo : Option String}
    (m : SortedMap Value lo) (c : Fields Value) :
    limits.beside.Heeded (resolveEach field m c) := by
  induction m generalizing c with
  | nil => exact limits.beside.closed.pure c
  | cons name above v rest ih =>
    exact limits.beside.closed.bind (h name v) fun w => ih (c.insert name w)

end Limits

open Limits

variable {limits : Limits σ}

/-! ## Initialization -/

theorem Namespace.defaults_heeded {n : Namespace σ}
    (h : n.toSpecifier.Uses limits.Moved limits.Heeded) (pos : Position) (isEntry : Bool) :
    limits.Heeded (n.defaults pos isEntry) := by
  have hspec : limits.Heeded (Specifier.defaults (.ns n.rules n.fields) pos isEntry) :=
    h.defaults limits.closed pos isEntry
  rw [Specifier.defaults] at hspec
  exact hspec.of_map

/-! ## Committing -/

theorem NamespaceRules.Uses.remap {rules : NamespaceRules σ} (h : rules.Uses limits.Moved)
    (pos : Position) (isEntry : Bool) : limits.beside.Heeded (rules.remap pos isEntry) :=
  limits.beside.closed.bind heeded_state fun p =>
    limits.beside.closed.bind (h.runMapper limits.closed p.1.data pos isEntry).besides
      fun mapped => heeded_update fun level : Level =>
        { level with data := level.data.assign mapped }

/-- The commit of a namespace's fields is made of those of its fields. -/
private theorem commitFields_heeded {specs : Fields (Specifier σ)} {provenance : Provenance}
    (h : ∀ k s, specs.get? k = some s → ∀ v key pos,
      limits.beside.Heeded (commit (some s) provenance v key pos))
    (fields : Fields Value) (pos : Position) :
    limits.beside.Heeded (commitFields specs provenance fields pos) := by
  rw [commitFields_eq_sweepEdit]
  refine sweepEdit_heeded fun name v _ => Heeded.zoom ?_ _ _
  cases hs : specs.get? name with
  | none =>
    rw [commit.eq_def]
    exact heeded_update fun cell : Cell => cell.putLeaf name provenance v
  | some s => exact h name s hs v name (pos.child name)

/-- A commit keeps to the limits, whatever it finds. -/
theorem Specifier.Uses.commit {s : Specifier σ} (h : s.Uses limits.Moved limits.Heeded)
    (provenance : Provenance) :
    (∀ v key pos, limits.beside.Heeded (Settings.commit (some s) provenance v key pos)) ∧
    ∀ n : Namespace σ, s = n.toSpecifier → ∀ fields pos isEntry,
      limits.beside.Heeded (n.commit provenance fields pos isEntry) := by
  have closed {τ : Type} := (limits.beside (τ := τ)).closed
  -- An entry of a record is committed without a cell of its own, so both forms go together.
  induction h with
  | @leaf rules here =>
    refine ⟨fun v key pos => ?_, fun n hn => by cases hn⟩
    rw [Settings.commit.eq_def]
    exact heeded_update fun cell : Cell => cell.putLeaf key provenance v
  | @ns rules specs here _ ih =>
    have hcommit (fields : Fields Value) (pos : Position) (isEntry : Bool) :
        limits.beside.Heeded ((Namespace.mk rules specs).commit provenance fields pos isEntry) :=
      closed.bind (commitFields_heeded (fun k s hs => (ih k s hs).1) fields pos)
        fun _ => here.remap pos isEntry
    refine ⟨fun v key pos => ?_, ?_⟩
    · cases v with
      | obj fields => exact (hcommit fields pos false).zoom _ _
      | _ => exact heeded_update fun cell : Cell => cell.putLeaf key provenance _
    · rintro n hn
      cases hn
      exact hcommit
  | @record starters entry here kind _ ih =>
    refine ⟨fun v key pos => ?_, fun n hn => by cases hn⟩
    cases v with
    | obj entries =>
      cases entry with
      | ns rules specs =>
        refine Heeded.zoom ?_ _ _
        rw [commitEntries_eq_sweepEdit]
        refine sweepEdit_heeded fun name w _ => ?_
        cases w with
        | obj fields => exact (ih.2 ⟨rules, specs⟩ rfl fields (pos.child name) true).zoom _ _
        | _ => exact closed.fail rfl
      | leaf rules =>
        exact closed.bind (heeded_update fun cell : Cell => cell.ensureRecord key) fun _ =>
          (kind (by rintro ⟨⟩) _).besides
      | record starters' entry =>
        exact closed.bind (heeded_update fun cell : Cell => cell.ensureRecord key) fun _ =>
          (kind (by rintro ⟨⟩) _).besides
    | _ => exact heeded_update fun cell : Cell => cell.putLeaf key provenance _

/-! ## Resolving -/

/-- Making sure of an entry at most initializes it. -/
theorem Namespace.ensureEntry_heeded {entry : Namespace σ}
    (h : entry.toSpecifier.Uses limits.Moved limits.Heeded) (name : String) (pos : Position) :
    limits.beside.Heeded (entry.ensureEntry name pos) := by
  have hbuild : limits.beside.Heeded (do
      let inner ← (entry.defaults pos true).beside
      Run.update fun p => (p.1.put name .ns inner, p.2) : Edit σ Level Unit) :=
    limits.beside.closed.bind (Namespace.defaults_heeded h pos true).besides fun inner =>
      heeded_update fun level : Level => level.put name .ns inner
  refine limits.beside.closed.bind heeded_state fun p => ?_
  dsimp only
  split
  · exact hbuild
  · exact hbuild
  · exact limits.beside.closed.pure ()

private theorem resolveFields_heeded {options : Options σ} {rules : NamespaceRules σ}
    {specs : Fields (Specifier σ)} (hrules : rules.Uses limits.Moved)
    (h : ∀ k s, specs.get? k = some s → ∀ pos name v,
      limits.beside.Heeded (s.resolve options pos name v)) (v : Value) (pos : Position) :
    limits.beside.Heeded ((Namespace.mk rules specs).resolve options v pos) := by
  refine limits.beside.closed.bind (hrules.longhand limits.closed v pos).besides fun fields =>
    resolveEach_heeded (fun name w => ?_) fields ∅
  rw [resolveField_eq]
  split
  · next s hs => exact h name s hs _ _ _
  · exact limits.beside.closed.pure w

section Resolving

variable {options : Options σ}
  (hleaf : ∀ (rules : LeafRules σ) v pos, limits.Heeded (rules.resolve options v pos))
include hleaf

/-- Resolving keeps to the limits if that of leaves does. -/
theorem Specifier.Uses.resolve {s : Specifier σ} (h : s.Uses limits.Moved limits.Heeded) :
    (∀ pos name v, limits.beside.Heeded (s.resolve options pos name v)) ∧
    ((s.kind ≠ .ns → ∀ path,
        limits.Heeded (Run.fail (.recordEntry path s.kind) : Attempt σ (Fields Value))) →
      ∀ pos v, limits.beside.Heeded (s.resolveEntries options pos v)) := by
  have closed {τ : Type} := (limits.beside (τ := τ)).closed
  have hwrong (kind : Kind) (pos : Position) (v : Value)
      (hkind : ∀ path, limits.Heeded
        (Run.fail (.recordEntry path kind) : Attempt σ (Fields Value))) :
      limits.beside.Heeded (Run.fail (wrongEntries pos v kind) : Edit σ Level (Fields Value)) := by
    unfold wrongEntries
    split
    · exact (hkind _).besides
    · exact closed.fail rfl
  induction h with
  | @leaf rules here =>
    refine ⟨fun pos name v => ?_, fun hkind pos v => ?_⟩
    · rw [Specifier.resolve]
      exact (hleaf rules v pos).besides
    · rw [Specifier.resolveEntries]
      exact hwrong .leaf pos v (hkind (by rintro ⟨⟩))
  | @ns rules specs here hspecs ih =>
    have hfields := resolveFields_heeded here fun k s hs => (ih k s hs).1
    refine ⟨fun pos name v => ?_, fun _ pos v => ?_⟩
    · rw [Specifier.resolve]
      exact closed.map ((hfields v pos).zoom _ _) _
    · rw [Specifier.resolveEntries.eq_def]
      dsimp only
      split
      · next entries =>
        refine resolveEach_heeded (fun name w => ?_) entries ∅
        have hentry : (Namespace.mk rules specs).toSpecifier.Uses limits.Moved limits.Heeded :=
          .ns here hspecs
        exact closed.bind (Namespace.ensureEntry_heeded hentry name _) fun _ =>
          closed.map ((hfields w _).zoom _ _) _
      · exact closed.fail rfl
  | @record starters entry here kind _ ih =>
    refine ⟨fun pos name v => ?_, fun hkind pos v => ?_⟩
    · rw [Specifier.resolve]
      exact closed.map ((ih.2 (fun hkind path => kind hkind path) pos v).zoom _ _) _
    · rw [Specifier.resolveEntries]
      exact hwrong .record pos v (hkind (by rintro ⟨⟩))

/-- Every step of a store keeps to the limits. -/
theorem Step.edit_heeded {n : Namespace σ} (h : n.toSpecifier.Uses limits.Moved limits.Heeded)
    (step : Step) : limits.beside.Heeded (step.edit n options) := by
  have hinput (input : Value) : limits.beside.Heeded (Store.applyInput n options input) := by
    obtain ⟨rules, specs⟩ := n
    have hresolve : limits.beside.Heeded
        ((Namespace.mk rules specs).resolve options input .root) := by
      cases h with
      | ns here fields =>
        exact resolveFields_heeded here (fun k s hs => ((fields k s hs).resolve hleaf).1) input _
    exact limits.beside.closed.bind hresolve fun c => (h.commit .change).2 _ rfl c .root false
  cases step with
  | change input => exact hinput input
  | layers inputs => exact hinput _
  | reset =>
    exact limits.beside.closed.bind (Namespace.defaults_heeded h .root false).besides fun level =>
      heeded_update fun _ : Level => level

theorem Store.play_heeded {n : Namespace σ} (h : n.toSpecifier.Uses limits.Moved limits.Heeded)
    (steps : List Step) (level : Level) :
    limits.Heeded (Store.play steps ⟨n, options, level⟩) := by
  induction steps generalizing level with
  | nil => exact limits.closed.pure []
  | cons step steps ih =>
    unfold Store.play
    rw [Store.take_eq_edit, bind_map_left]
    exact limits.closed.bind ((Step.edit_heeded hleaf h step).orUndo level) fun visit =>
      limits.closed.bind (ih visit.1) fun rest => limits.closed.pure _

/-- A run keeps to the limits as a whole, and no step of it fails beyond them. -/
theorem Namespace.play_heeded {spec : Namespace σ}
    (h : spec.toSpecifier.Uses limits.Moved limits.Heeded)
    (hoffence : ∀ e, spec.offence? .root = some e → limits.errors e) (steps : List Step) :
    limits.Heeded (spec.play options steps) ∧
    ∀ visits, (spec.play options steps).Yields visits →
      ∀ visit ∈ visits, ∀ e, visit.2 = some e → limits.errors e := by
  refine ⟨?_, fun visits hvisits visit hvisit e he => ?_⟩
  · have hinspect : limits.Heeded (spec.inspect options) := by
      unfold Namespace.inspect
      split
      · cases hspec : spec.offence? .root with
        | none => exact limits.closed.pure ()
        | some offence => exact heeded_fail (hoffence offence hspec)
      · exact limits.closed.pure ()
    unfold Namespace.play
    rw [Store.create_eq, bind_assoc]
    refine limits.closed.bind hinspect fun _ => ?_
    rw [bind_map_left]
    exact limits.closed.bind (Namespace.defaults_heeded h .root false) fun level =>
      limits.closed.bind (Store.play_heeded hleaf h steps level) fun rest => limits.closed.pure _
  · obtain ⟨⟨store, rest, rfl, -⟩, hsteps⟩ := Namespace.play_visits hvisits
    obtain ⟨i, hi⟩ := List.mem_iff_getElem?.1 hvisit
    cases i with
    | zero =>
      cases hi
      cases he
    | succ i =>
      have hbefore : i < ((store, none) :: rest).length := by
        have := (List.getElem?_eq_some_iff.1 hi).1
        omega
      obtain ⟨hreachable, step, -, htake⟩ :=
        hsteps i _ visit (List.getElem?_eq_getElem hbefore) hi
      rcases Store.take_cases htake with ⟨next, rfl, -⟩ | ⟨e', s, rfl, hattempt⟩
      · cases he
      · obtain rfl := Option.some.inj he
        generalize ((store, none) :: rest)[i].1 = before at hreachable hattempt
        obtain ⟨spec', options', level⟩ := before
        obtain ⟨rfl, rfl⟩ := hreachable.fixed
        rw [Step.attempt_eq_edit] at hattempt
        have hedit := limits.closed.map ((Step.edit_heeded hleaf h step).on level)
          (fun p => (⟨spec', options', p.2⟩ : Store σ))
        exact (hedit s).2 _ hattempt

end Resolving

end Settings
