import Settings.Defaults
import Settings.Candidate
import Settings.Commit
import Settings.Proofs.Outcome

/-!
# One name of a level

A `Slot` is what a level has at one name: data, metadata, both or neither. Every operation on a
level is described by what it does to the slot of each name, as a map is described by its look-ups,
and `Level.ext_slot` says that the slots determine the level. All loops over names handle one name
after the other and touch the slot of that name alone, so a loop as a whole does to every slot what
its step does (`sweep_yields`, `sweepEdit_takes`).
-/

set_option autoImplicit false

namespace Settings

variable {σ α : Type}

/-! ## Positions of a specification -/

/-- The kind of container that a specifier declares; a leaf, or no specifier, declares none. -/
def containerKind? : Option (Specifier σ) → Option ContainerKind
  | some (.ns _ _) => some .ns
  | some (.record _ _) => some .record
  | _ => none

@[simp] theorem containerKind?_none : containerKind? (none : Option (Specifier σ)) = none := rfl

@[simp] theorem containerKind?_leaf (rules : LeafRules σ) :
    containerKind? (some (.leaf rules)) = none := rfl

@[simp] theorem containerKind?_ns (rules : NamespaceRules σ) (specs : Fields (Specifier σ)) :
    containerKind? (some (.ns rules specs)) = some .ns := rfl

@[simp] theorem containerKind?_record (starters : Option (CallM σ Value)) (entry : Specifier σ) :
    containerKind? (some (.record starters entry)) = some .record := rfl

/-- The specifier of a name below a specifier. -/
def Specifier.below? : Specifier σ → String → Option (Specifier σ)
  | .leaf _, _ => none
  | .ns _ specs, name => specs.get? name
  | .record _ entry, _ => some entry

/-- A path of names leads from a specifier to the one at its end: through the fields of namespaces,
of which the last may not be declared, and through any entries of records. -/
inductive Leads : Option (Specifier σ) → List String → Option (Specifier σ) → Prop
  | here {spec : Option (Specifier σ)} : Leads spec [] spec
  | field {rules : NamespaceRules σ} {specs : Fields (Specifier σ)} {name : String}
      {path : List String} {target : Option (Specifier σ)}
      (rest : Leads (specs.get? name) path target) :
      Leads (some (.ns rules specs)) (name :: path) target
  | entry {starters : Option (CallM σ Value)} {entry : Specifier σ} {name : String}
      {path : List String} {target : Option (Specifier σ)}
      (rest : Leads (some entry) path target) :
      Leads (some (.record starters entry)) (name :: path) target

/-- The first name of a path leads from a container to what is below it there. -/
theorem leads_cons {s : Specifier σ} {name : String} {path : List String}
    {target : Option (Specifier σ)} :
    Leads (some s) (name :: path) target ↔
      containerKind? (some s) ≠ none ∧ Leads (s.below? name) path target := by
  constructor
  · intro h
    cases h with
    | field rest => exact ⟨Option.some_ne_none _, rest⟩
    | entry rest => exact ⟨Option.some_ne_none _, rest⟩
  · rintro ⟨container, rest⟩
    cases s with
    | leaf => exact absurd rfl container
    | ns => exact .field rest
    | record => exact .entry rest

/-! ## Slots -/

/-- What a level has at one name. -/
@[ext]
structure Slot where
  data : Option Value
  node : Option Metadata
  deriving Inhabited

/-- The node inside: the field of a namespace, or the present entry of a record. -/
def Metadata.child? : Metadata → String → Option Metadata
  | leaf _, _ => none
  | ns fields, name => fields.get? name
  | record _ value _, name => value.get? name

namespace Slot

/-- A container with its data and metadata. -/
def of (container : Container) (inner : Level) : Slot :=
  ⟨some (.obj inner.data), some (container.node inner.nodes)⟩

/-- The slot inside that a name leads to. -/
def child (slot : Slot) (name : String) : Slot :=
  ⟨slot.data.bind (·.field? name), slot.node.bind (·.child? name)⟩

/-- The slot that a path of names leads to. -/
def follow : Slot → List String → Slot
  | slot, [] => slot
  | slot, name :: path => (slot.child name).follow path

/-- The container in the slot, if data and metadata agree that there is one of the kind. -/
def enter? (kind : ContainerKind) (slot : Slot) : Option (Container × Level) :=
  match slot.data, slot.node.bind (·.open? kind) with
  | some (.obj data), some (container, nodes) => some (container, ⟨data, nodes⟩)
  | _, _ => none

/-- The level that resolving works on: the container's own, or else an empty scratch level. -/
def inside (kind : ContainerKind) (slot : Slot) : Level :=
  ((slot.enter? kind).map Prod.snd).getD ∅

/-- The slot once resolving is done with the level inside: a scratch level without data is
dropped. -/
def leave (kind : ContainerKind) (inner : Level) (slot : Slot) : Slot :=
  match slot.enter? kind with
  | some (container, _) => .of container inner
  | none => if inner.data.isEmpty then slot else .of (.fresh kind) inner

/-- The level that a commit works on. Data or metadata of another kind count as empty, each for
itself. -/
def opened (kind : ContainerKind) (slot : Slot) : Level :=
  ⟨(slot.data.bind Value.fields?).getD ∅, ((slot.node.bind (·.open? kind)).map Prod.snd).getD ∅⟩

/-- What an initialized field leaves in a slot: without data of its own the slot's stays, and only
the metadata is laid over. -/
def overlay (slot : Slot) (field : Initialized) : Slot :=
  match field.data with
  | some v => ⟨some v, some field.node⟩
  | none => ⟨slot.data, some (match slot.node with
    | some node => node.merge field.node
    | none => field.node)⟩

@[simp] theorem follow_nil (slot : Slot) : slot.follow [] = slot := rfl

@[simp] theorem follow_cons (slot : Slot) (name : String) (path : List String) :
    slot.follow (name :: path) = (slot.child name).follow path := rfl

/-- Nothing lies below an empty slot. -/
theorem follow_none (path : List String) : (⟨none, none⟩ : Slot).follow path = ⟨none, none⟩ := by
  induction path with
  | nil => rfl
  | cons name path ih => exact ih

/-- Following a path reads the data that the path leads to. -/
theorem data_follow (slot : Slot) (path : List String) :
    (slot.follow path).data = slot.data.bind (·.at? path) := by
  induction path generalizing slot with
  | nil => exact (Option.bind_fun_some slot.data).symm
  | cons name path ih =>
    rw [follow_cons, ih, child]
    cases slot.data <;> rfl

/-- The metadata that a path leads to does not depend on data. -/
theorem node_follow_congr {a b : Slot} (h : a.node = b.node) (path : List String) :
    (a.follow path).node = (b.follow path).node := by
  induction path generalizing a b with
  | nil => exact h
  | cons name path ih => exact ih (by rw [child, child, h])

theorem of_inj {a b : Container} {inner inner' : Level} :
    of a inner = of b inner' ↔ a = b ∧ inner = inner' := by
  constructor
  · intro h
    have hdata : inner.data = inner'.data :=
      Value.obj.inj (Option.some.inj (congrArg Slot.data h))
    have hnode : a.node inner.nodes = b.node inner'.nodes :=
      Option.some.inj (congrArg Slot.node h)
    obtain ⟨data, nodes⟩ := inner
    obtain ⟨data', nodes'⟩ := inner'
    cases hdata
    -- The node tells the kind of container, and for a record all that it says.
    cases a <;> cases b <;> cases hnode <;> exact ⟨rfl, rfl⟩
  · rintro ⟨rfl, rfl⟩
    rfl

/-- A container that can be entered is what the slot holds. -/
theorem of_enter? {kind : ContainerKind} {slot : Slot} {container : Container} {inner : Level}
    (h : slot.enter? kind = some (container, inner)) : slot = .of container inner := by
  obtain ⟨data, node⟩ := slot
  unfold enter? at h
  dsimp only at h
  split at h
  · next data' container' nodes hnode =>
    cases h
    obtain ⟨m, rfl, hm⟩ := Option.bind_eq_some_iff.1 hnode
    cases kind <;> cases m <;> cases hm <;> rfl
  · cases h

/-- Where there is a container to enter, both ways of looking inside agree. -/
theorem inside_eq_opened {kind : ContainerKind} {slot : Slot} {container : Container}
    {inner : Level} (h : slot.enter? kind = some (container, inner)) :
    slot.inside kind = inner ∧ slot.opened kind = inner := by
  refine ⟨by rw [inside, h]; rfl, ?_⟩
  obtain ⟨data, node⟩ := slot
  unfold enter? at h
  dsimp only at h
  split at h
  · next data' container' nodes hnode =>
    cases h
    rw [opened, hnode]
    rfl
  · cases h

/-- The kind that is asked for is the kind of the container that is entered. -/
theorem of_enter?_ns {slot : Slot} {container : Container} {inner : Level}
    (h : slot.enter? .ns = some (container, inner)) : container = .ns := by
  rw [of_enter? h] at h
  cases container with
  | ns => rfl
  | record => cases h

theorem of_enter?_record {slot : Slot} {container : Container} {inner : Level}
    (h : slot.enter? .record = some (container, inner)) :
    ∃ provenance initial, container = .record provenance initial := by
  rw [of_enter? h] at h
  cases container with
  | ns => cases h
  | record provenance initial => exact ⟨provenance, initial, rfl⟩

theorem leave_of_enter? {kind : ContainerKind} {slot : Slot} {container : Container}
    {inner : Level} (h : slot.enter? kind = some (container, inner)) (inner' : Level) :
    slot.leave kind inner' = .of container inner' := by
  rw [leave, h]

theorem leave_of_not_enter? {kind : ContainerKind} {slot : Slot} (h : slot.enter? kind = none)
    (inner : Level) :
    slot.leave kind inner = if inner.data.isEmpty then slot else .of (.fresh kind) inner := by
  rw [leave, h]

end Slot

namespace Level

/-- What the level has at a name. -/
def slot (level : Level) (name : String) : Slot := ⟨level.data.get? name, level.nodes.get? name⟩

/-- A level is determined by its slots. -/
theorem ext_slot {a b : Level} (h : ∀ name, a.slot name = b.slot name) : a = b := by
  obtain ⟨data, nodes⟩ := a
  obtain ⟨data', nodes'⟩ := b
  have hdata : data = data' := SortedMap.ext fun name => congrArg Slot.data (h name)
  have hnodes : nodes = nodes' := SortedMap.ext fun name => congrArg Slot.node (h name)
  rw [hdata, hnodes]

@[simp] theorem slot_empty (name : String) : (∅ : Level).slot name = ⟨none, none⟩ := rfl

@[simp] theorem child_of_ns (level : Level) (name : String) :
    (Slot.of .ns level).child name = level.slot name := rfl

@[simp] theorem child_of_record (provenance : Provenance) (initial : Fields Metadata)
    (level : Level) (name : String) :
    (Slot.of (.record provenance initial) level).child name = level.slot name := rfl

theorem slot_set (level : Level) (name : String) (v : Value) (node : Metadata) (k : String) :
    (level.set name v node).slot k = if k = name then ⟨some v, some node⟩ else level.slot k := by
  simp only [set, slot, SortedMap.get?_insert]
  split <;> rfl

theorem slot_put (level : Level) (name : String) (container : Container) (inner : Level)
    (k : String) :
    (level.put name container inner).slot k =
      if k = name then .of container inner else level.slot k :=
  slot_set level name _ _ k

/-- Keys that are assigned to the data leave the metadata as it is. -/
theorem slot_assign (level : Level) (mapped : Fields Value) (k : String) :
    (⟨level.data.assign mapped, level.nodes⟩ : Level).slot k =
      ⟨(mapped.get? k).or (level.slot k).data, (level.slot k).node⟩ := by
  unfold slot
  rw [SortedMap.get?_assign]

theorem slot_overlay (level : Level) (name : String) (field : Initialized) (k : String) :
    (level.overlay name field).slot k =
      if k = name then (level.slot name).overlay field else level.slot k := by
  obtain ⟨data, node⟩ := field
  cases data with
  | some v => exact slot_set level name v node k
  | none =>
    show (⟨level.data, Metadata.mergeField level.nodes name node⟩ : Level).slot k = _
    simp only [slot, Metadata.mergeField, SortedMap.get?_insert]
    split
    · next e =>
      subst e
      rfl
    · rfl

theorem slot_add (level : Level) (name : String) (field : Initialized) (k : String) :
    (level.add name field).slot k =
      if k = name then ⟨field.data.or (level.slot name).data, some field.node⟩
      else level.slot k := by
  obtain ⟨data, node⟩ := field
  cases data with
  | some v => exact slot_set level name v node k
  | none =>
    show (⟨level.data, level.nodes.insert name node⟩ : Level).slot k = _
    simp only [slot, SortedMap.get?_insert]
    split
    · next e =>
      subst e
      rfl
    · rfl

/-- The data of a level over which a field is laid. -/
theorem get?_data_overlay (level : Level) (name : String) (field : Initialized) (k : String) :
    (level.overlay name field).data.get? k =
      if k = name then field.data.or (level.data.get? k) else level.data.get? k := by
  obtain ⟨data, node⟩ := field
  cases data with
  | some v => exact SortedMap.get?_insert _ _ _ _
  | none => exact (ite_self _).symm

theorem get?_data_add (level : Level) (name : String) (field : Initialized) (k : String) :
    (level.add name field).data.get? k =
      if k = name then field.data.or (level.data.get? k) else level.data.get? k := by
  obtain ⟨data, node⟩ := field
  cases data with
  | some v => exact SortedMap.get?_insert _ _ _ _
  | none => exact (ite_self _).symm

theorem namespaceAt_eq (level : Level) (name : String) :
    level.namespaceAt name = (level.slot name).opened .ns := by
  unfold namespaceAt Slot.opened objectAt slot
  dsimp only
  cases level.nodes.get? name with
  | none => rfl
  | some node => cases node <;> rfl

/-- The data in an opened level is the data inside. -/
theorem data_opened (slot : Slot) (kind : ContainerKind) (k : String) :
    ((slot.opened kind).slot k).data = (slot.child k).data := by
  obtain ⟨data, node⟩ := slot
  cases data with
  | none => rfl
  | some v => cases v <;> rfl

/-- Metadata in an opened level stands inside metadata of that kind. -/
theorem node_opened {slot : Slot} {kind : ContainerKind} {name : String} {m : Metadata}
    (h : ((slot.opened kind).slot name).node = some m) :
    ∃ outer container nodes, slot.node = some outer ∧
      outer.open? kind = some (container, nodes) ∧ nodes.get? name = some m := by
  change (((slot.node.bind (·.open? kind)).map Prod.snd).getD ∅).get? name = some m at h
  cases hopen : slot.node.bind (·.open? kind) with
  | none =>
    rw [hopen] at h
    cases h
  | some opened =>
    rw [hopen] at h
    obtain ⟨outer, houter, hopen⟩ := Option.bind_eq_some_iff.1 hopen
    exact ⟨outer, opened.1, opened.2, houter, hopen, h⟩

/-- What resolving finds at a name is what a commit would open there. -/
theorem node_inside {slot : Slot} {kind : ContainerKind} {name : String} {m : Metadata}
    (h : ((slot.inside kind).slot name).node = some m) :
    ((slot.opened kind).slot name).node = some m := by
  cases henter : slot.enter? kind with
  | none =>
    rw [Slot.inside, henter] at h
    cases h
  | some entered =>
    obtain ⟨hinside, hopened⟩ := Slot.inside_eq_opened henter
    rw [hinside] at h
    rw [hopened]
    exact h

/-- Leaving a container touches the container's slot alone. -/
private theorem slot_leave (level : Level) (kind : ContainerKind) (name : String) (inner : Level)
    (k : String) :
    Level.slot (match level.enter? kind name with
      | some (container, _) => level.put name container inner
      | none =>
        if true && !inner.data.isEmpty then level.put name (.fresh kind) inner else level) k =
      if k = name then (level.slot name).leave kind inner else level.slot k := by
  show Level.slot (match (level.slot name).enter? kind with
    | some (container, _) => level.put name container inner
    | none =>
      if true && !inner.data.isEmpty then level.put name (.fresh kind) inner else level) k = _
  rw [Slot.leave]
  cases (level.slot name).enter? kind with
  | some entered => exact slot_put level name entered.1 inner k
  | none =>
    -- There was nothing to enter, so a scratch level stays only with data in it.
    cases inner.data.isEmpty with
    | false => exact slot_put level name _ inner k
    | true =>
      show level.slot k = _
      split
      · next e => rw [e]; rfl
      · rfl

theorem within_takes {kind : ContainerKind} {name : String} {edit : Edit σ Level α}
    {level level' : Level} {a : α} (h : (Level.within kind name edit).Takes level a level') :
    ∃ inner, edit.Takes ((level.slot name).inside kind) a inner ∧
      ∀ k, level'.slot k =
        if k = name then (level.slot name).leave kind inner else level.slot k := by
  obtain ⟨inner, hedit, rfl⟩ := h.of_zoom
  exact ⟨inner, hedit, slot_leave level kind name inner⟩

theorem within_does {kind : ContainerKind} {name : String} {edit : Edit σ Level α}
    {level inner : Level} {a : α} (h : edit.Does ((level.slot name).inside kind) a inner) :
    ∃ level', (Level.within kind name edit).Does level a level' ∧
      ∀ k, level'.slot k =
        if k = name then (level.slot name).leave kind inner else level.slot k := by
  refine ⟨_, ?_, slot_leave level kind name inner⟩
  unfold within
  exact Run.does_zoom _ _ h

end Level

/-! ## Loops over names -/

/-- Takes a level through one step for every name of a map, in order. -/
def sweep (step : String → α → Level → Attempt σ Level) {lo : Option String} :
    SortedMap α lo → Level → Attempt σ Level
  | .nil, level => pure level
  | .cons name _ a rest, level => step name a level >>= sweep step rest

/-- Edits a level for every name of a map, in order. -/
def sweepEdit (step : String → α → Edit σ Level Unit) {lo : Option String} :
    SortedMap α lo → Edit σ Level Unit
  | .nil => pure ()
  | .cons name _ a rest => step name a >>= fun _ => sweepEdit step rest

/-- Steps that keep to their own names leave the other slots alone, and each finds its slot as it
was at the start and leaves it as it is at the end. -/
theorem sweep_yields {step : String → α → Level → Attempt σ Level}
    (hlocal : ∀ name a level level', (step name a level).Yields level' →
      ∀ k, k ≠ name → level'.slot k = level.slot k)
    {lo : Option String} {m : SortedMap α lo} {level level' : Level}
    (h : (sweep step m level).Yields level') (k : String) :
    (m.get? k = none → level'.slot k = level.slot k) ∧
    ∀ a, m.get? k = some a → ∃ before after, (step k a before).Yields after ∧
      before.slot k = level.slot k ∧ after.slot k = level'.slot k := by
  -- By induction on the map; the level is what the names before have left.
  induction m generalizing level with
  | nil =>
    obtain rfl := h.of_pure
    exact ⟨fun _ => rfl, fun a ha => nomatch ha⟩
  | cons name above a rest ih =>
    obtain ⟨mid, hstep, hrest⟩ := h.of_bind
    obtain ⟨hnone, hsome⟩ := ih hrest
    rw [SortedMap.get?_cons]
    by_cases e : k = name
    · -- The rest of the map lies above the name, so its steps leave this slot alone.
      subst e
      rw [if_pos rfl]
      refine ⟨fun hn => (by cases hn), fun b hb => ?_⟩
      cases hb
      exact ⟨level, mid, hstep, rfl, (hnone (SortedMap.get?_self_bound rest)).symm⟩
    · rw [if_neg e]
      have hmid := hlocal name a level mid hstep k e
      rw [← hmid]
      exact ⟨hnone, hsome⟩

theorem sweepEdit_takes {step : String → α → Edit σ Level Unit}
    (hlocal : ∀ name a level level', (step name a).Takes level () level' →
      ∀ k, k ≠ name → level'.slot k = level.slot k)
    {lo : Option String} {m : SortedMap α lo} {level level' : Level}
    (h : (sweepEdit step m).Takes level () level') (k : String) :
    (m.get? k = none → level'.slot k = level.slot k) ∧
    ∀ a, m.get? k = some a → ∃ before after, (step k a).Takes before () after ∧
      before.slot k = level.slot k ∧ after.slot k = level'.slot k := by
  induction m generalizing level with
  | nil =>
    obtain ⟨-, rfl⟩ := h.of_pure
    exact ⟨fun _ => rfl, fun a ha => nomatch ha⟩
  | cons name above a rest ih =>
    obtain ⟨⟨⟩, mid, hstep, hrest⟩ := h.of_bind
    obtain ⟨hnone, hsome⟩ := ih hrest
    rw [SortedMap.get?_cons]
    by_cases e : k = name
    · subst e
      rw [if_pos rfl]
      refine ⟨fun hn => (by cases hn), fun b hb => ?_⟩
      cases hb
      exact ⟨level, mid, hstep, rfl, (hnone (SortedMap.get?_self_bound rest)).symm⟩
    · rw [if_neg e]
      have hmid := hlocal name a level mid hstep k e
      rw [← hmid]
      exact ⟨hnone, hsome⟩

/-- A loop fails as one of its steps does. -/
theorem sweepEdit_failsWith {errors : SettingsError → Prop} {step : String → α → Edit σ Level Unit}
    {lo : Option String} {m : SortedMap α lo}
    (h : ∀ k a, m.get? k = some a → (step k a).FailsWith errors) :
    (sweepEdit step m).FailsWith errors := by
  induction m with
  | nil => exact Run.failsWith_pure errors ()
  | cons name above a rest ih =>
    exact (h name a (if_pos rfl)).bind fun _ =>
      ih fun k b hk => h k b (SortedMap.get?_cons_of_get? hk)

/-- A loop takes one level to another if each step, whatever level it finds, takes the slot of its
name from the one to the other and keeps to the name. -/
theorem sweepEdit_does {step : String → α → Edit σ Level Unit} {lo : Option String}
    {m : SortedMap α lo} {level level' : Level}
    (others : ∀ k, m.get? k = none → level'.slot k = level.slot k)
    (each : ∀ k a, m.get? k = some a → ∀ before : Level, before.slot k = level.slot k →
      ∃ after, (step k a).Does before () after ∧ after.slot k = level'.slot k ∧
        ∀ j, j ≠ k → after.slot j = before.slot j) :
    (sweepEdit step m).Does level () level' := by
  induction m generalizing level with
  | nil =>
    obtain rfl : level' = level := Level.ext_slot fun k => others k rfl
    exact Run.does_pure () level'
  | cons name above a rest ih =>
    obtain ⟨mid, hstep, hname, hmid⟩ := each name a (if_pos rfl) level rfl
    -- The rest has no step for this name.
    have hrest {k : String} (e : k ≠ name) :
        (SortedMap.cons name above a rest).get? k = rest.get? k := if_neg e
    refine hstep.bind (ih (fun k hk => ?_) fun k b hk before hbefore => ?_)
    · by_cases e : k = name
      · rw [e, hname]
      · rw [hmid k e]
        exact others k ((hrest e).trans hk)
    · exact each k b (SortedMap.get?_cons_of_get? hk) before
        (hbefore.trans (hmid k (SortedMap.ne_of_get? hk)))

end Settings
