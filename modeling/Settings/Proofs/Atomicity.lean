import Settings.Proofs.Completeness
import Settings.Proofs.Play

/-!
# Failed steps leave no trace

The passes of a change edit their level in place, so a change that fails may have created entries
and committed fields by then. The store keeps the level that it had. With determined callbacks the
host has no say in what succeeds, so a run and the same run without the steps that failed in it go
through the same stores (`Namespace.play_without_failures`), although the host has seen more calls
in the one than in the other.
-/

set_option autoImplicit false

namespace Settings

variable {σ : Type} {spec : Namespace σ} {options : Options σ} {store store' : Store σ}

/-- The steps that did not fail, by the visits that the steps led to. -/
def Step.successful (steps : List Step) (visits : List (Store σ × Option SettingsError)) :
    List Step :=
  ((steps.zip visits).filter fun p => p.2.2.isNone).map Prod.fst

/-! ## One step -/

theorem Store.take_gives {step : Step} (h : (step.attempt store).Gives store') :
    (store.take step).Gives (store', none) := by
  intro s
  unfold take Store.step
  rw [(Prod.ext (h s) rfl : step.attempt store s = (.ok store', (step.attempt store s).2))]

/-- With determined callbacks a step that can succeed always does, and with the same result. -/
theorem Step.attempt_gives {step : Step} (hspec : store.spec.toSpecifier.Determined)
    (hoptions : store.options.Determined) (h : (step.attempt store).Yields store') :
    (step.attempt store).Gives store' := by
  have hchange {input : Value} (h : (store.change input).Yields store') :
      (store.change input).Gives store' := by
    obtain ⟨s, s', h⟩ := h
    obtain ⟨c, mid, level, rfl, -, hresolves, hcommits⟩ := Store.change_eq_ok h
    exact Store.change_of_rules hspec hoptions hresolves hcommits
  cases step with
  | change input => exact hchange h
  | layers inputs => exact hchange h
  | reset =>
    have hdetermined : store.reset.Determined :=
      (Namespace.defaults_determined hspec .root false).bind fun level => Run.determined_pure _
    exact hdetermined.gives h

/-! ## Whole runs -/

namespace Store.Reachable

/-- Without the steps that failed in it, a run goes through the same stores, and no step fails. -/
theorem play_successful (h : Reachable spec options store) (hspec : spec.toSpecifier.Determined)
    (hoptions : options.Determined) {steps : List Step}
    {visits : List (Store σ × Option SettingsError)}
    (hplay : (Store.play steps store).Yields visits) :
    (Store.play (Step.successful steps visits) store).Gives
      (visits.filter fun visit => visit.2.isNone) := by
  induction steps generalizing store visits with
  | nil =>
    rw [hplay.of_pure]
    exact Run.gives_pure []
  | cons step steps ih =>
    obtain ⟨visit, rest, rfl, htake, hrest⟩ := Store.play_cons_yields hplay
    have hafter := ih (h.of_take htake) hrest
    rcases Store.take_cases htake with ⟨next, rfl, hattempt⟩ | ⟨e, s, rfl, -⟩
    · obtain ⟨rfl, rfl⟩ := h.fixed
      exact (Store.take_gives (Step.attempt_gives hspec hoptions hattempt)).bind
        (hafter.bind (Run.gives_pure _))
    · -- The step is left out of both, and the store is where it was.
      exact hafter

/-- A specification that a store was built from passes the check. -/
theorem inspected (h : Reachable spec options store) : (spec.inspect options).Gives () := by
  induction h with
  | create built =>
    rw [Store.create_eq] at built
    obtain ⟨_, hinspect, -⟩ := built.of_bind
    have hdetermined : (spec.inspect options).Determined := by
      unfold Namespace.inspect
      split
      · cases spec.offence? .root with
        | none => exact Run.determined_pure ()
        | some offence => exact Run.determined_fail offence
      · exact Run.determined_pure ()
    exact hdetermined.gives hinspect
  | step _ _ _ ih => exact ih

/-- What initialization gives once is what building gives. -/
theorem created (h : Reachable spec options store) (hspec : spec.toSpecifier.Determined)
    {level : Level} (hlevel : (spec.defaults .root false).Yields level) :
    (Store.create spec options).Gives ⟨spec, options, level⟩ := by
  rw [Store.create_eq, map_eq_pure_bind]
  exact h.inspected.bind (((Namespace.defaults_determined hspec .root false).gives hlevel).bind
    (Run.gives_pure _))

end Store.Reachable

/-- A run has a visit for its start and for every step. The steps that fail leave the store of the
visit before; without them the run goes through the same stores, and no step fails. A reset leaves
the store that building gives. -/
theorem Namespace.play_without_failures (hspec : spec.toSpecifier.Determined)
    (hoptions : options.Determined) {steps : List Step}
    {visits : List (Store σ × Option SettingsError)}
    (h : (spec.play options steps).Yields visits) :
    visits.length = steps.length + 1 ∧
    (spec.play options (Step.successful steps visits.tail)).Gives
      (visits.filter fun visit => visit.2.isNone) ∧
    ∀ (i : Nat) before after, visits[i]? = some before → visits[i + 1]? = some after →
      (after.2.isSome → after.1 = before.1) ∧
      (steps[i]? = some .reset → after.2 = none → (Store.create spec options).Gives after.1) := by
  obtain ⟨⟨store, rest, rfl, hcreate, hplay, hlength⟩, hvisits⟩ := Namespace.play_visits h
  have hstore : Store.Reachable spec options store := .create hcreate
  refine ⟨congrArg (· + 1) hlength, ?_, fun i before after hbefore hafter => ?_⟩
  · obtain ⟨level, rfl, hlevel⟩ := Store.create_yields hcreate
    exact (hstore.created hspec hlevel).bind
      ((hstore.play_successful hspec hoptions hplay).bind (Run.gives_pure _))
  · obtain ⟨hreachable, step, hstep, htake⟩ := hvisits i before after hbefore hafter
    rcases Store.take_cases htake with ⟨next, rfl, hattempt⟩ | ⟨e, s, rfl, -⟩
    · refine ⟨fun hsome => (by cases hsome), fun hreset _ => ?_⟩
      obtain rfl : step = .reset := Option.some.inj (hstep.symm.trans hreset)
      obtain ⟨level, rfl, hdefaults⟩ := Store.reset_yields hattempt
      obtain ⟨hfixed, hfixedOptions⟩ := hreachable.fixed
      rw [hfixed] at hdefaults
      rw [hfixed, hfixedOptions]
      exact hreachable.created hspec hdefaults
    · exact ⟨fun _ => rfl, fun _ hnone => by cases hnone⟩

namespace Rooms

/-- A size has to be given. The host counts the checks. -/
def size : LeafRules Nat where
  initial := none
  validate := some fun v checks => (.ok (if v.isNull then some ⟨["no size"]⟩ else none), checks + 1)
  fixup := none
  mapType := none
  shadow := false

/-- No room can be vast. -/
def furnish (room : Value) : CallM Nat Value :=
  match room.field? "size" with
  | some (.str "vast") => Run.fail "not furnished"
  | _ => pure .null

def root : Namespace Nat :=
  ⟨⟨none, none, none⟩, .ofList [("rooms", .record none (.ns ⟨none, none, some fun v _ => furnish v⟩
    (.ofList [("size", .leaf size)])))]⟩

def quiet : Options Nat := ⟨.development, none, fun _ checks => checks⟩

def room (key : String) (size : Value) : Value :=
  .obj (.ofList [("rooms", .obj (.ofList [(key, .obj (.ofList [("size", size)]))]))])

/-- The second step fails in a check, and the third in a mapper. -/
def steps : List Step :=
  [.change (room "a" (.str "small")), .change (room "b" .null),
    .layers [room "b" (.str "small"), room "c" (.str "vast")], .reset,
    .change (room "c" (.str "small"))]

def visits : List (Store Nat × Option SettingsError) :=
  (root.play quiet steps 0).1.toOption.getD []

/-- The data of a visit, after the passes of a change have run over it, failed or not. -/
def edited (visit : Store Nat × Option SettingsError) (input : Value) : Value :=
  .obj (Store.applyInput root quiet input (visit.1.level, 0)).2.1.data

theorem root_determined : root.toSpecifier.Determined := by
  have hsize : (Specifier.leaf size).Determined := by
    refine .leaf ⟨nofun, ?_, nofun, nofun⟩
    rintro _ ⟨⟩ v s t
    rfl
  have hroom : (⟨none, none, some fun v _ => furnish v⟩ : NamespaceRules Nat).Determined := by
    refine ⟨nofun, nofun, ?_⟩
    rintro _ ⟨⟩ v pos
    show (furnish v).Determined
    unfold furnish
    split
    · exact Run.determined_fail _
    · exact Run.determined_pure _
  exact .ns ⟨nofun, nofun, nofun⟩ (SortedMap.forall_insert
    (.record nofun (.ns hroom (SortedMap.forall_insert hsize nofun))) nofun)

end Rooms

/-- The passes of one failing step have made a room before the check, and those of the other have
committed one before the mapper. -/
theorem Namespace.play_without_failures_rooms :
    Rooms.visits.map (fun visit => visit.2.map SettingsError.kind) =
      [none, none, some .validation, some .mapper, none, none] ∧
    (∀ visit ∈ Rooms.visits[1]?, (Value.obj visit.1.data).at? ["rooms", "b"] = none ∧
      ((Rooms.edited visit (Rooms.room "b" .null)).at? ["rooms", "b"]).isSome ∧
      ((Rooms.edited visit (Layer.mergeAll [Rooms.room "b" (.str "small"),
        Rooms.room "c" (.str "vast")])).at? ["rooms", "b", "size"]).isSome) ∧
    (Rooms.root.play Rooms.quiet (Step.successful Rooms.steps Rooms.visits.tail)).Gives
      (Rooms.visits.filter fun visit => visit.2.isNone) := by
  have hplay : (Rooms.root.play Rooms.quiet Rooms.steps).Yields Rooms.visits :=
    Run.yields_getD (by decide +kernel)
  have hquiet : Rooms.quiet.Determined := by rintro _ ⟨⟩
  obtain ⟨-, hgives, -⟩ := Namespace.play_without_failures Rooms.root_determined hquiet hplay
  exact ⟨by decide +kernel, by decide +kernel, hgives⟩

end Settings
