import Settings.Store
import Settings.Proofs.Candidate
import Settings.Proofs.Commit

/-!
# Stores and their histories

`Store.Reachable` is every store that a specification and options lead to: built once, and then
taken through any steps, failing ones included. `Store.Reachable.level_induction` reduces a property
of all of them to two facts, about what initialization builds and about one resolution followed by
one commit.
-/

set_option autoImplicit false

namespace Settings

variable {σ : Type} {spec : Namespace σ} {options : Options σ} {store store' : Store σ}

/-- What a store has at a position. -/
def Store.slotAt (store : Store σ) (path : List String) : Slot :=
  (Slot.of .ns store.level).follow path

/-- The stores that a specification and options lead to. -/
inductive Store.Reachable (spec : Namespace σ) (options : Options σ) : Store σ → Prop
  | create {store : Store σ} (built : (Store.create spec options).Yields store) :
      Reachable spec options store
  | step {store : Store σ} (before : Reachable spec options store) (step : Step) (s : σ) :
      Reachable spec options (store.step step s).1

/-! ## One step -/

theorem Namespace.defaults_toSpecifier {n : Namespace σ} {pos : Position} {isEntry : Bool}
    {level : Level} (h : (n.defaults pos isEntry).Yields level) :
    (n.toSpecifier.defaults pos isEntry).Yields (.ofNamespace level) := by
  show (Specifier.defaults (.ns n.rules n.fields) pos isEntry).Yields _
  rw [Specifier.defaults]
  exact h.map _

theorem Store.create_yields (h : (Store.create spec options).Yields store) :
    ∃ level, store = ⟨spec, options, level⟩ ∧ (spec.defaults .root false).Yields level := by
  have hbuild (h : (do
      let level ← spec.defaults .root false
      pure ⟨spec, options, level⟩ : Attempt σ (Store σ)).Yields store) :
      ∃ level, store = ⟨spec, options, level⟩ ∧ (spec.defaults .root false).Yields level := by
    obtain ⟨level, hlevel, h⟩ := h.of_bind
    exact ⟨level, h.of_pure, hlevel⟩
  unfold create at h
  split at h
  · split at h
    · obtain ⟨u, hfail, -⟩ := h.of_bind
      exact absurd hfail Run.not_yields_fail
    · exact hbuild h
  · exact hbuild h

theorem Store.reset_yields (h : store.reset.Yields store') :
    ∃ level, store' = { store with level } ∧ (store.spec.defaults .root false).Yields level := by
  obtain ⟨level, hlevel, h⟩ := h.of_bind
  exact ⟨level, h.of_pure, hlevel⟩

/-- A change resolves its input and commits the candidate to what resolving leaves. -/
theorem Store.change_resolved {input : Value} {s s' : σ}
    (h : store.change input s = (.ok store', s')) : ∃ c mid t level,
      store.spec.resolve store.options input .root (store.level, s) = (.ok c, (mid, t)) ∧
      store' = { store with level } ∧
      Commits .change false (some store.spec.toSpecifier) .root (.obj c) (.of .ns mid)
        (.of .ns level) := by
  unfold change at h
  split at h
  · next level t hrun =>
    cases h
    -- What resolving has added stays in the level that the commit starts from.
    obtain ⟨c, ⟨mid, t⟩, hresolve, hcommit⟩ := Run.bind_eq_ok.1 hrun
    exact ⟨c, mid, t, level, hresolve, rfl, Namespace.commit_takes ⟨t, s', hcommit⟩⟩
  · cases h

/-- A successful change makes a candidate of its input and commits it. -/
theorem Store.change_eq_ok {input : Value} {s s' : σ}
    (h : store.change input s = (.ok store', s')) :
    ∃ c mid level, store' = { store with level } ∧
      (store.spec.resolve store.options input .root (store.level, s)).1 = .ok c ∧
      Resolves store.options (some store.spec.toSpecifier) .root input (.of .ns store.level)
        (.obj c) (.of .ns mid) ∧
      Commits .change false (some store.spec.toSpecifier) .root (.obj c) (.of .ns mid)
        (.of .ns level) := by
  obtain ⟨c, mid, t, level, hresolve, rfl, hcommits⟩ := change_resolved h
  exact ⟨c, mid, level, rfl, congrArg Prod.fst hresolve,
    Namespace.resolve_takes ⟨s, t, hresolve⟩, hcommits⟩

/-- The candidate that a successful change commits is the one that resolving returns. -/
theorem Store.change_of_candidate {input : Value} {s s' : σ}
    (h : store.change input s = (.ok store', s')) {c : Fields Value}
    (hc : (store.spec.resolve store.options input .root (store.level, s)).1 = .ok c) :
    ∃ mid level, store' = { store with level } ∧
      Resolves store.options (some store.spec.toSpecifier) .root input (.of .ns store.level)
        (.obj c) (.of .ns mid) ∧
      Commits .change false (some store.spec.toSpecifier) .root (.obj c) (.of .ns mid)
        (.of .ns level) := by
  obtain ⟨c', mid, level, hstore, hc', hresolves, hcommits⟩ := change_eq_ok h
  have hsame : c' = c := Except.ok.inj (hc'.symm.trans hc)
  rw [hsame] at hresolves hcommits
  exact ⟨mid, level, hstore, hresolves, hcommits⟩

/-- A step either leaves the store as it is or ends as its attempt does. -/
theorem Store.step_cases (store : Store σ) (step : Step) (s : σ) :
    (store.step step s).1 = store ∨ (step.attempt store).Yields (store.step step s).1 := by
  unfold Store.step
  split
  · next store' s' h => exact .inr ⟨s, s', h⟩
  · exact .inl rfl

theorem Step.attempt_cases {step : Step} (h : (step.attempt store).Yields store') :
    (∃ input, (store.change input).Yields store') ∨ store.reset.Yields store' := by
  cases step with
  | change input => exact .inl ⟨input, h⟩
  | layers inputs => exact .inl ⟨Layer.mergeAll inputs, h⟩
  | reset => exact .inr h

/-! ## All stores -/

namespace Store.Reachable

/-- A step that succeeds leads from one store to the next. -/
theorem of_attempt (h : Reachable spec options store) {step : Step}
    (hattempt : (step.attempt store).Yields store') : Reachable spec options store' := by
  obtain ⟨s, s', hattempt⟩ := hattempt
  have hstep : (store.step step s).1 = store' := by simp only [Store.step, hattempt]
  exact hstep ▸ h.step step s

theorem of_change (h : Reachable spec options store) {input : Value}
    (hchange : (store.change input).Yields store') : Reachable spec options store' :=
  @of_attempt _ _ _ _ _ h (.change input) hchange

/-- The specification and the options are those of the start. -/
theorem fixed (h : Reachable spec options store) : store.spec = spec ∧ store.options = options := by
  induction h with
  | create built =>
    obtain ⟨level, rfl, -⟩ := create_yields built
    exact ⟨rfl, rfl⟩
  | @step store before step s ih =>
    rcases store.step_cases step s with hsame | hattempt
    · rw [hsame]
      exact ih
    · rcases Step.attempt_cases hattempt with ⟨input, hchange⟩ | hreset
      · obtain ⟨s, s', hchange⟩ := hchange
        obtain ⟨c, mid, level, hstore, -⟩ := change_eq_ok hchange
        rw [hstore]
        exact ih
      · obtain ⟨level, hstore, -⟩ := reset_yields hreset
        rw [hstore]
        exact ih

/-- What holds of every level that initialization builds, and is preserved by a resolution with the
commit that follows it, holds of the level of every store. -/
theorem level_induction {P : Level → Prop}
    (built : ∀ level, (spec.toSpecifier.defaults .root false).Yields (.ofNamespace level) → P level)
    (changed : ∀ input c level mid level', P level →
      Resolves options (some spec.toSpecifier) .root input (.of .ns level) (.obj c) (.of .ns mid) →
      Commits .change false (some spec.toSpecifier) .root (.obj c) (.of .ns mid) (.of .ns level') →
      P level')
    (h : Reachable spec options store) : P store.level := by
  induction h with
  | create hbuilt =>
    obtain ⟨level, rfl, hlevel⟩ := create_yields hbuilt
    exact built level (Namespace.defaults_toSpecifier hlevel)
  | @step store before step s ih =>
    obtain ⟨hspec, hoptions⟩ := before.fixed
    -- A failed step changes nothing, a reset builds anew, and what is left is a change.
    rcases store.step_cases step s with hsame | hattempt
    · rw [hsame]
      exact ih
    · rcases Step.attempt_cases hattempt with ⟨input, hchange⟩ | hreset
      · obtain ⟨s, s', hchange⟩ := hchange
        obtain ⟨c, mid, level, hstore, -, hresolves, hcommits⟩ := change_eq_ok hchange
        rw [hspec, hoptions] at hresolves
        rw [hspec] at hcommits
        rw [hstore]
        exact changed input c _ mid level ih hresolves hcommits
      · obtain ⟨level, hstore, hlevel⟩ := reset_yields hreset
        rw [hspec] at hlevel
        rw [hstore]
        exact built level (Namespace.defaults_toSpecifier hlevel)

end Store.Reachable

/-! ## A store of hosts -/

namespace Hosts

/-- A leaf that repairs `null` to a name, accepts nothing but strings and keeps them in a list. -/
def mode : LeafRules Unit where
  initial := none
  validate := some fun v => pure (match v with
    | .str _ => none
    | _ => some ⟨["not a string"]⟩)
  fixup := some fun v => pure (if v.isNull then some ⟨.str "auto", []⟩ else none)
  mapType := some fun v => pure (.arr [v])
  shadow := false

def port : LeafRules Unit := ⟨some (pure (.str "80")), none, none, none, false⟩

def root : Namespace Unit :=
  ⟨⟨none, none, none⟩, .ofList [("hosts", .record none
    (.ns ⟨none, none, none⟩ (.ofList [("mode", .leaf mode), ("port", .leaf port)])))]⟩

def quiet : Options Unit := ⟨.development, none, fun _ s => s⟩

/-- The store before any change, without hosts. -/
def built : Store Unit :=
  ⟨root, quiet, ⟨.ofList [("hosts", .obj ∅)], .ofList [("hosts", .freshRecord ∅)]⟩⟩

/-- An input with one host, its mode `null`. -/
def input : Value :=
  .obj (.ofList [("hosts", .obj (.ofList [("x", .obj (.ofList [("mode", .null)]))]))])

def candidate : Fields Value :=
  .ofList [("hosts", .obj (.ofList [("x", .obj (.ofList [("mode", .arr [.str "auto"])]))]))]

def changed : Store Unit := (built.step (.change input) ()).1

theorem built_reachable : Store.Reachable root quiet built := .create ⟨(), (), rfl⟩

theorem changed_reachable : Store.Reachable root quiet changed :=
  .step built_reachable (.change input) ()

theorem withoutMappers : root.toSpecifier.WithoutMappers := by
  have hport : (Specifier.leaf port).WithoutMappers := .leaf trivial
  have hmode : (Specifier.leaf mode).WithoutMappers := .leaf trivial
  have hempty : ∀ k s, (∅ : Fields (Specifier Unit)).get? k = some s → s.WithoutMappers :=
    fun _ _ h => nomatch h
  have hhost : (Specifier.ns ⟨none, none, none⟩
      (.ofList [("mode", .leaf mode), ("port", .leaf port)])).WithoutMappers :=
    .ns rfl (SortedMap.forall_insert hport (SortedMap.forall_insert hmode hempty))
  exact .ns rfl (SortedMap.forall_insert (.record trivial hhost) hempty)

end Hosts

end Settings
