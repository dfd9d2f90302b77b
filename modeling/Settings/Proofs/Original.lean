import Settings.Proofs.Change
import Settings.Proofs.Spares

/-!
# What becomes of the initial data

`Store.initialData` reads the initial data back from metadata. A step keeps it exactly if the
candidate of its input spares it (`Store.Reachable.initialData_step_iff`), and so does a run of
steps (`Store.Reachable.trail_iff`). Every candidate does when mappers keep away from the keys of
declared containers (`Store.Reachable.spares`). A mapper that writes a list over a record shows that
a change can lose initial data.
-/

set_option autoImplicit false

namespace Settings

variable {σ : Type}

/-! ## Stores -/

/-- The input that a step applies; a reset applies none. -/
def Step.input? : Step → Option Value
  | change input => some input
  | layers inputs => some (Layer.mergeAll inputs)
  | reset => none

/-- A step that has an input is a change. -/
theorem Step.attempt_of_input? {step : Step} {input : Value} (h : step.input? = some input)
    (store : Store σ) : step.attempt store = store.change input := by
  cases step <;> cases h <;> rfl

/-- Such a step leads to where the change leads, and one that fails leaves the store as it is. -/
theorem Store.step_of_input? {step : Step} {input : Value} (h : step.input? = some input)
    (store : Store σ) (s : σ) :
    (∃ s', store.change input s = (.ok (store.step step s).1, s')) ∨
      (store.step step s).1 = store ∧ ∀ store' s', store.change input s ≠ (.ok store', s') := by
  unfold Store.step
  rw [Step.attempt_of_input? h]
  cases hrun : store.change input s with
  | mk result s' =>
    cases result with
    | ok store' => exact .inl ⟨s', rfl⟩
    | error e => exact .inr ⟨rfl, by rintro _ _ ⟨⟩⟩

/-- If the step succeeds, the candidate made of its input spares the initial data. -/
def Step.Spares (step : Step) (store : Store σ) (s : σ) : Prop :=
  ∀ input c store' s', step.input? = some input → store.change input s = (.ok store', s') →
    (store.spec.resolve store.options input .root (store.level, s)).1 = .ok c →
    Settings.Spares (some store.spec.toSpecifier) (.of .ns store.level) (.obj c)

/-- The stores that steps lead through, each step taken in a given state of the host. -/
def Store.trail (store : Store σ) : List (Step × σ) → List (Store σ)
  | [] => []
  | (step, s) :: steps => (store.step step s).1 :: (store.step step s).1.trail steps

/-- Every step on the way has the property, in the store and the state of the host in which it is
taken. -/
def Store.Throughout (Q : Step → Store σ → σ → Prop) (store : Store σ) : List (Step × σ) → Prop
  | [] => True
  | (step, s) :: steps => Q step store s ∧ (store.step step s).1.Throughout Q steps

/-- Every step on the way spares the initial data. -/
def Store.SparesAll (store : Store σ) (steps : List (Step × σ)) : Prop :=
  store.Throughout Step.Spares steps

theorem Store.initialData_eq (store : Store σ) :
    store.initialData = Metadata.initialFields store.level.nodes := by
  apply SortedMap.ext
  intro k
  show ((∅ : Fields Value).assign _).get? k = _
  rw [SortedMap.get?_assign, SortedMap.get?_empty, Option.or_none]

section Reachable

variable {spec : Namespace σ} {options : Options σ} {store store' : Store σ}

theorem Store.Reachable.of_mem_trail (h : Store.Reachable spec options store)
    {steps : List (Step × σ)} {visited : Store σ} (hvisited : visited ∈ store.trail steps) :
    Store.Reachable spec options visited := by
  induction steps generalizing store with
  | nil => cases hvisited
  | cons p steps ih =>
    obtain ⟨step, s⟩ := p
    rcases List.mem_cons.1 hvisited with rfl | hrest
    · exact h.step step s
    · exact ih (h.step step s) hrest

/-- If a step keeps `P` exactly when it has the property `Q`, then all stores on the way have `P`
exactly if all steps have `Q`. -/
theorem Store.Reachable.trail_iff (h : Store.Reachable spec options store) {P : Store σ → Prop}
    {Q : Step → Store σ → σ → Prop} {steps : List (Step × σ)} (hstore : P store)
    (hsteps : ∀ reached, Store.Reachable spec options reached → P reached → ∀ p ∈ steps,
      (P (reached.step p.1 p.2).1 ↔ Q p.1 reached p.2)) :
    (∀ visited ∈ store.trail steps, P visited) ↔ store.Throughout Q steps := by
  induction steps generalizing store with
  | nil => exact iff_of_true nofun trivial
  | cons p steps ih =>
    obtain ⟨step, s⟩ := p
    have hfirst : P (store.step step s).1 ↔ Q step store s :=
      hsteps store h hstore _ List.mem_cons_self
    unfold Store.trail Store.Throughout
    rw [List.forall_mem_cons, hfirst]
    -- The rest starts from a store that has `P`, because the first step has `Q`.
    exact and_congr_right fun hq => ih (h.step step s) (hfirst.2 hq)
      fun reached hreached hP p hp => hsteps reached hreached hP p (List.mem_cons_of_mem _ hp)

/-- What steps from reachable stores have, they have all the way. -/
theorem Store.Reachable.throughout (h : Store.Reachable spec options store)
    {Q : Step → Store σ → σ → Prop}
    (hsteps : ∀ reached, Store.Reachable spec options reached → ∀ step s, Q step reached s)
    (steps : List (Step × σ)) : store.Throughout Q steps := by
  induction steps generalizing store with
  | nil => trivial
  | cons p steps ih => exact ⟨hsteps store h p.1 p.2, ih (h.step p.1 p.2)⟩

theorem Specifier.keeps_true (s : Specifier σ) : s.Keeps options (fun _ _ => True) := by
  induction s with
  | leaf rules =>
    exact .leaf ⟨fun _ _ _ _ => trivial, fun _ _ => trivial, fun _ _ _ _ _ _ => trivial⟩
  | ns rules specs ih =>
    exact .ns ⟨fun _ _ _ _ _ _ _ => trivial, fun _ _ _ _ _ _ _ _ => trivial⟩ ih
  | record starters entry ih => exact .record trivial ih

/-- A change of a store keeps the initial data exactly if the candidate spares it. -/
theorem Store.Reachable.initialData_change_iff (h : Store.Reachable spec options store)
    {input : Value} {s s' : σ} (hchange : store.change input s = (.ok store', s'))
    {c : Fields Value}
    (hc : (store.spec.resolve store.options input .root (store.level, s)).1 = .ok c) :
    store'.initialData = store.initialData ↔
      Settings.Spares (some store.spec.toSpecifier) (.of .ns store.level) (.obj c) := by
  obtain ⟨hspec, hoptions⟩ := h.fixed
  obtain ⟨mid, level, rfl, hresolves, hcommits⟩ := change_of_candidate hchange hc
  have hfits : (Slot.of .ns store.level).Fits (fun _ _ => True) (some store.spec.toSpecifier) := by
    intro m hm
    cases hm
    rw [hspec]
    exact h.fits (fun _ _ _ => trivial) (Specifier.keeps_true _)
  have hiff := hresolves.initial?_iff hcommits hfits
  rw [← hiff, initialData_eq, initialData_eq]
  show _ ↔ some (Value.obj (Metadata.initialFields level.nodes)) =
    some (.obj (Metadata.initialFields store.level.nodes))
  rw [Option.some.injEq, Value.obj.injEq]

/-- A step other than a reset keeps the initial data exactly if it spares it. -/
theorem Store.Reachable.initialData_step_iff (h : Store.Reachable spec options store)
    {initial : Fields Value} (hinitial : store.initialData = initial) {step : Step}
    (hstep : step ≠ .reset) (s : σ) :
    (store.step step s).1.initialData = initial ↔ step.Spares store s := by
  subst hinitial
  obtain ⟨input, hinput⟩ : ∃ input, step.input? = some input := by
    cases step with
    | change input => exact ⟨input, rfl⟩
    | layers inputs => exact ⟨Layer.mergeAll inputs, rfl⟩
    | reset => exact absurd rfl hstep
  unfold Step.Spares
  rw [hinput]
  rcases store.step_of_input? hinput s with ⟨s', hrun⟩ | ⟨hsame, hfails⟩
  · obtain ⟨c, -, -, -, hc, -⟩ := change_eq_ok hrun
    refine (h.initialData_change_iff hrun hc).trans ⟨fun hspares input' c' _ _ hi _ hc' => ?_,
      fun hall => hall input c _ s' rfl hrun hc⟩
    cases hi
    obtain rfl : c = c' := Except.ok.inj (hc.symm.trans hc')
    exact hspares
  · rw [hsame]
    refine iff_of_true rfl fun input' c store' t hi hok => ?_
    cases hi
    exact absurd hok (hfails store' t)

/-- Whatever has happened to a store, changes keep its initial data at every step exactly if each of
them spares it. -/
theorem Store.Reachable.initialData_survives_iff (h : Store.Reachable spec options store)
    {steps : List (Step × σ)} (hsteps : ∀ p ∈ steps, p.1 ≠ .reset) :
    (∀ visited ∈ store.trail steps, visited.initialData = store.initialData) ↔
      store.SparesAll steps :=
  h.trail_iff rfl fun _ hreached hsame p hp =>
    hreached.initialData_step_iff hsame (hsteps p hp) p.2

/-- Where data and metadata are coherent, every candidate spares the initial data. -/
theorem Coherent.spares {R : Option Value → Option LeafNode → Prop} {spec : Option (Specifier σ)}
    {pos : Position} {slot : Slot} {c : Value} (h : Coherent R spec slot)
    (hc : IsCandidate options spec pos c) : Spares spec slot c := by
  induction hc generalizing slot with
  | free => exact .value rfl
  | leaf => exact .value rfl
  | ns fields ih =>
    obtain ⟨inner, rfl, hinner⟩ := h.of_ns
    exact .ns rfl (.inl ⟨_, rfl⟩) fun k v hv => ih k v hv (hinner k)
  | record entries ih =>
    obtain ⟨provenance, initial, inner, rfl, -⟩ := h.of_record
    exact .record rfl (.inl ⟨_, rfl⟩)

/-- If no mapper ever gives anything for the key of a declared container, every step spares the
initial data. -/
theorem Store.Reachable.spares (h : Store.Reachable spec options store)
    (hmild : spec.toSpecifier.Mild fun _ _ => True) (step : Step) (s : σ) :
    step.Spares store s := by
  intro input c store' s' _ hrun hc
  have hroot : Coherent (fun _ _ => True) (some spec.toSpecifier) (.of .ns store.level) :=
    h.coherent (fun _ => trivial) hmild
  obtain ⟨mid, level, -, hresolves, -⟩ := change_of_candidate hrun hc
  rw [← h.fixed.1] at hroot
  exact hroot.spares hresolves.isCandidate

/-- So the initial data survives every run of steps other than resets. -/
theorem Store.Reachable.initialData_survives (h : Store.Reachable spec options store)
    (hmild : spec.toSpecifier.Mild fun _ _ => True) {steps : List (Step × σ)}
    (hsteps : ∀ p ∈ steps, p.1 ≠ .reset) :
    ∀ visited ∈ store.trail steps, visited.initialData = store.initialData := by
  have hspares : store.SparesAll steps :=
    h.throughout (fun _ hreached => hreached.spares hmild) steps
  refine (h.trail_iff (P := fun visited => visited.initialData = store.initialData) rfl
    fun _ hreached hsame p hp => ?_).2 hspares
  exact hreached.initialData_step_iff hsame (hsteps p hp) p.2

end Reachable

/-! ## A mapper that writes over a record -/

namespace Listed

/-- A leaf that starts with a text. -/
def text (initial : String) : LeafRules Unit :=
  ⟨some (pure (.str initial)), none, none, none, false⟩

/-- A record with one starter, which the mapper gives out as a list. -/
def root : Namespace Unit :=
  ⟨⟨none, none, some fun _ _ => pure (.obj (.ofList [("r", .arr [])]))⟩,
    .ofList [("r", .record (some (pure (.obj (.ofList [("x", .obj (.ofList [("b", .str "1")]))]))))
      (.ns ⟨none, none, none⟩ (.ofList [("b", .leaf (text "0"))])))]⟩

def starter : Fields Metadata :=
  .ofList [("x", .ns (.ofList [("b", .leaf (.fresh (some (.str "1")) .initial))]))]

def built : Store Unit :=
  ⟨root, Hosts.quiet, ⟨.ofList [("r", .arr [])], .ofList [("r", .freshRecord starter)]⟩⟩

/-- An input that introduces a second entry. -/
def input : Value := .obj (.ofList [("r", .obj (.ofList [("y", .obj ∅)]))])

theorem built_reachable : Store.Reachable root Hosts.quiet built := .create ⟨(), (), rfl⟩

end Listed

/-- The change that introduces the second entry takes the initial values of the first away. -/
theorem Store.initialData_lost :
    Store.Reachable Listed.root Hosts.quiet Listed.built ∧
      Listed.root.toSpecifier.Determined ∧
      Listed.built.initialData =
        .ofList [("r", .obj (.ofList [("x", .obj (.ofList [("b", .str "1")]))]))] ∧
      (Listed.built.step (.change Listed.input) ()).1.initialData = .ofList [("r", .obj ∅)] ∧
      (Listed.built.step (.change Listed.input) ()).1.initialData ≠ Listed.built.initialData := by
  have hlost : (Listed.built.step (.change Listed.input) ()).1.initialData =
      .ofList [("r", .obj ∅)] := rfl
  have hbuilt : Listed.built.initialData =
      .ofList [("r", .obj (.ofList [("x", .obj (.ofList [("b", .str "1")]))]))] := rfl
  refine ⟨Listed.built_reachable, Specifier.determined_of_subsingleton _, hbuilt, hlost, ?_⟩
  rw [hlost, hbuilt]
  intro h
  cases congrArg (·.get? "r") h

theorem Store.Reachable.initialData_survives_iff_listed :
    ¬ Listed.built.SparesAll [(.change Listed.input, ())] := by
  have hsteps : ∀ p ∈ [(Step.change Listed.input, ())], p.1 ≠ .reset := by
    intro p hp
    rw [List.mem_singleton] at hp
    rw [hp]
    exact nofun
  rw [← Store.Reachable.initialData_survives_iff Listed.built_reachable hsteps]
  intro hsame
  have hafter := hsame (Listed.built.step (.change Listed.input) ()).1 List.mem_cons_self
  cases congrArg (·.get? "r") hafter

end Settings
