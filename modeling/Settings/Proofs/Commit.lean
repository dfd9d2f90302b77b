import Settings.Proofs.Candidate

/-!
# What a commit does

`Commits` says what a successful commit of an input value does to one slot. It forgets the order of
the names and the state of the host. Metadata is read and written without a look at data, and a
mapper's result goes to data alone; both can be seen from the rules.
-/

set_option autoImplicit false

namespace Settings

variable {σ : Type}

namespace Slot

/-- The leaf that a value is written to. A slot without metadata starts as a leaf without value,
and metadata of another kind is replaced by one. -/
def leafNode (slot : Slot) (declared : Bool) (provenance : Provenance) : LeafNode :=
  match slot.node with
  | none => if declared then .fresh none provenance else .passthrough provenance
  | some node => node.leaf?.getD (.fresh none provenance)

/-- The slot with a value written to it. -/
def write (slot : Slot) (declared : Bool) (provenance : Provenance) (v : Value) : Slot :=
  ⟨some v, some (.leaf ((slot.leafNode declared provenance).write provenance v))⟩

/-- The snapshot of the record in the slot. -/
def snapshot (slot : Slot) : Fields Metadata :=
  match slot.node with
  | some (.record _ _ initial) => initial
  | _ => ∅

end Slot

/-- A change that writes a leaf keeps the initial value, if there is one. -/
theorem Slot.write_change (slot : Slot) (declared : Bool) (v : Value) :
    ∃ leaf, slot.write declared .change v = ⟨some v, some (.leaf leaf)⟩ ∧
      leaf.value = some v ∧ leaf.provenance = .change ∧
      leaf.initial = (slot.node.bind Metadata.leaf?).bind (·.initial) := by
  refine ⟨_, rfl, rfl, rfl, ?_⟩
  show (slot.leafNode declared .change).initial = _
  unfold leafNode
  -- Metadata that is no leaf has no initial value to keep.
  cases slot.node with
  | none => cases declared <;> rfl
  | some m => cases m <;> rfl

theorem Slot.write_write (slot : Slot) (declared : Bool) (v w : Value) :
    (slot.write declared .change v).write declared .change w = slot.write declared .change w := rfl

/-- A successful commit of an input value under a specifier, or under none: the slot before and the
slot after. The flag says whether the value is an entry of a record. -/
inductive Commits (provenance : Provenance) :
    Bool → Option (Specifier σ) → Position → Value → Slot → Slot → Prop
  | value {isEntry : Bool} {spec : Option (Specifier σ)} {pos : Position} {v : Value} {slot : Slot}
      (closed : containerKind? spec = none ∨ v.isObject = false) :
      Commits provenance isEntry spec pos v slot (slot.write spec.isSome provenance v)
  | ns {isEntry : Bool} {rules : NamespaceRules σ} {specs : Fields (Specifier σ)} {pos : Position}
      {fields : Fields Value} {slot : Slot} {inner : Level} {mapped : Fields Value}
      (others : ∀ k, fields.get? k = none → inner.slot k = (slot.opened .ns).slot k)
      (each : ∀ k v, fields.get? k = some v →
        Commits provenance false (specs.get? k) (pos.child k) v ((slot.opened .ns).slot k)
          (inner.slot k))
      (mapper : (rules.runMapper inner.data pos isEntry).Yields mapped) :
      Commits provenance isEntry (some (.ns rules specs)) pos (.obj fields) slot
        (.of .ns ⟨inner.data.assign mapped, inner.nodes⟩)
  | record {isEntry : Bool} {starters : Option (CallM σ Value)} {rules : NamespaceRules σ}
      {specs : Fields (Specifier σ)} {pos : Position} {entries : Fields Value} {slot : Slot}
      {inner : Level}
      (objects : ∀ k v, entries.get? k = some v → v.isObject = true)
      (others : ∀ k, entries.get? k = none → inner.slot k = (slot.opened .record).slot k)
      (each : ∀ k v, entries.get? k = some v →
        Commits provenance true (some (.ns rules specs)) (pos.child k) v
          ((slot.opened .record).slot k) (inner.slot k)) :
      Commits provenance isEntry (some (.record starters (.ns rules specs))) pos (.obj entries) slot
        (.of (.record provenance (if provenance = .initial then inner.nodes else slot.snapshot))
          inner)

/-- Where a namespace is declared, an object is committed field by field. -/
theorem Commits.of_ns {provenance : Provenance} {isEntry : Bool} {rules : NamespaceRules σ}
    {specs : Fields (Specifier σ)} {pos : Position} {c : Fields Value} {slot slot' : Slot}
    (h : Commits provenance isEntry (some (.ns rules specs)) pos (.obj c) slot slot') :
    ∃ (inner : Level) (mapped : Fields Value),
      slot' = .of .ns ⟨inner.data.assign mapped, inner.nodes⟩ ∧
      (∀ k, c.get? k = none → inner.slot k = (slot.opened .ns).slot k) ∧
      (∀ k v, c.get? k = some v →
        Commits provenance false (specs.get? k) (pos.child k) v ((slot.opened .ns).slot k)
          (inner.slot k)) ∧
      (rules.runMapper inner.data pos isEntry).Yields mapped := by
  cases h with
  | value closed => rcases closed with hkind | hobject <;> contradiction
  | ns others each mapper => exact ⟨_, _, rfl, others, each, mapper⟩

/-- Where a record is declared, a change of an object goes entry by entry and keeps the snapshot. -/
theorem Commits.of_record {isEntry : Bool} {starters : Option (CallM σ Value)}
    {rules : NamespaceRules σ} {specs : Fields (Specifier σ)} {pos : Position} {c : Fields Value}
    {slot slot' : Slot}
    (h : Commits .change isEntry (some (.record starters (.ns rules specs))) pos (.obj c) slot
      slot') :
    ∃ inner : Level, slot' = .of (.record .change slot.snapshot) inner ∧
      (∀ k, c.get? k = none → inner.slot k = (slot.opened .record).slot k) ∧
      ∀ k v, c.get? k = some v →
        Commits .change true (some (.ns rules specs)) (pos.child k) v
          ((slot.opened .record).slot k) (inner.slot k) := by
  cases h with
  | value closed => rcases closed with hkind | hobject <;> contradiction
  | record _ others each => exact ⟨_, rfl, others, each⟩

/-! ## The loops of a commit -/

theorem commitFields_eq_sweepEdit (specs : Fields (Specifier σ)) (provenance : Provenance)
    {lo : Option String} (fields : SortedMap Value lo) (pos : Position) :
    commitFields specs provenance fields pos = sweepEdit (fun name v =>
      Level.onCell name (specs.get? name).isSome provenance
        (commit (specs.get? name) provenance v name (pos.child name))) fields := by
  induction fields with
  | nil => rfl
  | cons name above v rest ih =>
    rw [commitFields, sweepEdit, ih]

theorem commitEntries_eq_sweepEdit (entry : Namespace σ) (provenance : Provenance) (whole : Value)
    {lo : Option String} (entries : SortedMap Value lo) (pos : Position) :
    commitEntries entry provenance whole entries pos = sweepEdit (fun name v =>
      match v with
      | .obj fields => Level.onEntry name do
          commitFields entry.fields provenance fields (pos.child name)
          entry.rules.remap (pos.child name) true
      | _ => Run.fail (.recordInput pos.render whole)) entries := by
  induction entries with
  | nil => rfl
  | cons name above v rest ih =>
    rw [commitEntries.eq_def, sweepEdit, ← ih]
    cases v <;> rfl

theorem NamespaceRules.remap_takes {rules : NamespaceRules σ} {pos : Position} {isEntry : Bool}
    {level level' : Level} {u : Unit} (h : (rules.remap pos isEntry).Takes level u level') :
    ∃ mapped, (rules.runMapper level.data pos isEntry).Yields mapped ∧
      level' = ⟨level.data.assign mapped, level.nodes⟩ := by
  -- The mapper sees the data of the level, and its result is assigned to it.
  have h := Run.Takes.of_state (f := fun level : Level => (do
    let mapped ← (rules.runMapper level.data pos isEntry).beside
    Run.update fun p => ({ p.1 with data := p.1.data.assign mapped }, p.2) :
      Edit σ Level Unit)) h
  obtain ⟨mapped, mid, hmapped, hassign⟩ := h.of_bind
  obtain ⟨hyields, rfl⟩ := hmapped.of_beside
  exact ⟨mapped, hyields,
    Run.Takes.of_update (f := fun level : Level => ⟨level.data.assign mapped, level.nodes⟩) hassign⟩

theorem NamespaceRules.remap_does {rules : NamespaceRules σ} {pos : Position} {isEntry : Bool}
    {level : Level} {mapped : Fields Value}
    (h : (rules.runMapper level.data pos isEntry).Gives mapped) :
    (rules.remap pos isEntry).Does level () ⟨level.data.assign mapped, level.nodes⟩ := by
  have hassign := Run.does_update (ε := SettingsError) (σ := σ)
    (fun level : Level => ⟨level.data.assign mapped, level.nodes⟩) level
  exact Run.does_state (f := fun level : Level => (do
    let mapped ← (rules.runMapper level.data pos isEntry).beside
    Run.update fun p => ({ p.1 with data := p.1.data.assign mapped }, p.2) :
      Edit σ Level Unit)) ((h.beside level).bind hassign)

/-- The level that the commit of an entry works on is what is opened in the entry's slot. -/
private theorem Level.opened_entry (level : Level) (name : String) :
    (⟨objectAt level.data name, (((level.nodes.get? name).getD (.ns ∅)).opened .ns).2⟩ : Level) =
      (level.slot name).opened .ns := by
  unfold Slot.opened slot
  dsimp only
  cases level.nodes.get? name with
  | none => rfl
  | some node => cases node <;> rfl

theorem Level.onEntry_takes {name : String} {edit : Edit σ Level Unit} {level level' : Level}
    (h : (Level.onEntry name edit).Takes level () level') :
    ∃ inner, edit.Takes ((level.slot name).opened .ns) () inner ∧
      ∀ k, level'.slot k = if k = name then .of .ns inner else level.slot k := by
  obtain ⟨inner, hedit, rfl⟩ := h.of_zoom
  rw [opened_entry] at hedit
  exact ⟨inner, hedit, Level.slot_put level name .ns inner⟩

theorem Level.onEntry_does {name : String} {edit : Edit σ Level Unit} {level inner : Level}
    (h : edit.Does ((level.slot name).opened .ns) () inner) :
    ∃ level', (Level.onEntry name edit).Does level () level' ∧
      ∀ k, level'.slot k = if k = name then .of .ns inner else level.slot k := by
  rw [← opened_entry] at h
  refine ⟨level.put name .ns inner, ?_, Level.slot_put level name .ns inner⟩
  unfold onEntry
  exact Run.does_zoom _ _ h

/-! ## Committing, by induction on the input -/

/-- The cell of a name shows what the level has there, or else a leaf without value. -/
structure Cell.Shows (cell : Cell) (key : String) (declared : Bool) (provenance : Provenance)
    (slot : Slot) : Prop where
  data : cell.data.get? key = slot.data
  node : cell.node = slot.node.getD
    (.leaf (if declared then .fresh none provenance else .passthrough provenance))

/-- What there is at the key of a cell. -/
def Cell.slot (cell : Cell) (key : String) : Slot := ⟨cell.data.get? key, some cell.node⟩

theorem Cell.shows_slot (cell : Cell) (key : String) {declared : Bool} {provenance : Provenance} :
    cell.Shows key declared provenance (cell.slot key) := ⟨rfl, rfl⟩

section Shows

variable {cell : Cell} {key : String} {declared : Bool} {provenance : Provenance} {slot : Slot}

theorem Cell.Shows.level (h : cell.Shows key declared provenance slot) (kind : ContainerKind) :
    cell.level kind key = slot.opened kind := by
  unfold Cell.level Slot.opened objectAt
  rw [h.data, h.node]
  cases slot.node with
  | none => cases kind <;> rfl
  | some node => cases kind <;> cases node <;> rfl

theorem Cell.Shows.putLeaf (h : cell.Shows key declared provenance slot) (v : Value) :
    (cell.putLeaf key provenance v).data = cell.data.insert key v ∧
      (cell.putLeaf key provenance v).node =
        .leaf ((slot.leafNode declared provenance).write provenance v) := by
  refine ⟨rfl, ?_⟩
  show Metadata.leaf ((cell.node.leaf?.getD (.fresh none provenance)).write provenance v) = _
  unfold Slot.leafNode
  rw [h.node]
  cases slot.node with
  | none => cases declared <;> rfl
  | some node => rfl

theorem Cell.Shows.snapshot (h : cell.Shows key declared provenance slot) :
    (match (cell.node.opened .record).1 with
      | .record _ initial => initial
      | .ns => ∅) = slot.snapshot := by
  unfold Slot.snapshot
  rw [h.node]
  cases slot.node with
  | none => rfl
  | some node => cases node <;> rfl

end Shows

/-- A commit to the cell of a key leaves the data at the other keys alone. -/
theorem commit_local {spec : Option (Specifier σ)} {provenance : Provenance} {v : Value}
    {key : String} {pos : Position} {cell cell' : Cell}
    (h : (commit spec provenance v key pos).Takes cell () cell') {k : String} (hk : k ≠ key) :
    cell'.data.get? k = cell.data.get? k := by
  rw [commit.eq_def] at h
  -- Whichever way a commit goes, it inserts data at its own key.
  split at h
  · obtain ⟨inner, -, rfl⟩ := h.of_zoom
    exact (SortedMap.get?_insert _ _ _ _).trans (if_neg hk)
  · split at h
    · obtain ⟨inner, -, rfl⟩ := h.of_zoom
      exact (SortedMap.get?_insert _ _ _ _).trans (if_neg hk)
    · obtain ⟨u, mid, -, hfail⟩ := h.of_bind
      exact absurd hfail Run.not_takes_fail
  · rw [Run.Takes.of_update (f := fun cell : Cell => cell.putLeaf key provenance v) h]
    exact (SortedMap.get?_insert _ _ _ _).trans (if_neg hk)

/-- Committing the field of a name shows the field's slot to the commit and keeps to it. -/
theorem Level.onCell_takes {spec : Option (Specifier σ)} {provenance : Provenance} {v : Value}
    {name : String} {pos : Position} {level level' : Level}
    (h : (Level.onCell name spec.isSome provenance (commit spec provenance v name pos)).Takes
      level () level') :
    (∃ cell cell' : Cell, cell.Shows name spec.isSome provenance (level.slot name) ∧
      (commit spec provenance v name pos).Takes cell () cell' ∧
      level'.slot name = ⟨cell'.data.get? name, some cell'.node⟩) ∧
    ∀ k, k ≠ name → level'.slot k = level.slot k := by
  obtain ⟨cell', hcommit, rfl⟩ := h.of_zoom
  refine ⟨⟨_, cell', ⟨rfl, rfl⟩, hcommit, ?_⟩, fun k hk => ?_⟩
  · simp only [Level.putCell, Level.slot, SortedMap.get?_insert, if_pos]
  · simp only [Level.putCell, Level.slot, SortedMap.get?_insert, if_neg hk,
      commit_local hcommit hk]
    rfl

/-- What a commit of a value under any specifier is to do to the slot of its key. -/
private def CommitsValue (σ : Type) (v : Value) : Prop :=
  ∀ {spec : Option (Specifier σ)} {provenance : Provenance} {key : String} {pos : Position}
    {cell cell' : Cell} {slot : Slot}, cell.Shows key spec.isSome provenance slot →
    (commit spec provenance v key pos).Takes cell () cell' →
    Commits provenance false spec pos v slot ⟨cell'.data.get? key, some cell'.node⟩

/-- What a commit of the fields of an object is to do to their slots. -/
private def CommitsFields (σ : Type) (fields : Fields Value) : Prop :=
  ∀ {specs : Fields (Specifier σ)} {provenance : Provenance} {pos : Position}
    {level level' : Level}, (commitFields specs provenance fields pos).Takes level () level' →
    ∀ k, (fields.get? k = none → level'.slot k = level.slot k) ∧
      ∀ v, fields.get? k = some v →
        Commits provenance false (specs.get? k) (pos.child k) v (level.slot k) (level'.slot k)

private theorem commitsFields_of_values {fields : Fields Value}
    (ih : ∀ k v, fields.get? k = some v → CommitsValue σ v) : CommitsFields σ fields := by
  intro specs provenance pos level level' h k
  rw [commitFields_eq_sweepEdit] at h
  have hslots := sweepEdit_takes
    (fun name v level level' hstep => (Level.onCell_takes hstep).2) h k
  refine ⟨hslots.1, fun v hv => ?_⟩
  obtain ⟨before, after, hstep, hbefore, hafter⟩ := hslots.2 v hv
  obtain ⟨⟨cell, cell', hshows, hcommit, hslot⟩, -⟩ := Level.onCell_takes hstep
  rw [← hbefore, ← hafter, hslot]
  exact ih k v hv hshows hcommit

/-- The namespace in a slot, once its fields are committed and its mapper has run. -/
private theorem commits_ns {fields : Fields Value} (hfields : CommitsFields σ fields)
    {rules : NamespaceRules σ} {specs : Fields (Specifier σ)} {provenance : Provenance}
    {pos : Position} {isEntry : Bool} {slot : Slot} {inner : Level}
    (h : (do
      commitFields specs provenance fields pos
      rules.remap pos isEntry : Edit σ Level Unit).Takes (slot.opened .ns) () inner) :
    Commits provenance isEntry (some (.ns rules specs)) pos (.obj fields) slot (.of .ns inner) := by
  obtain ⟨⟨⟩, mid, hmid, hremap⟩ := h.of_bind
  obtain ⟨mapped, hmapped, rfl⟩ := NamespaceRules.remap_takes hremap
  exact .ns (fun k hk => (hfields hmid k).1 hk) (fun k v hv => (hfields hmid k).2 v hv) hmapped

private theorem commits_record {entries : Fields Value}
    (ih : ∀ k fields, entries.get? k = some (.obj fields) → CommitsFields σ fields)
    {starters : Option (CallM σ Value)} {rules : NamespaceRules σ} {specs : Fields (Specifier σ)}
    {provenance : Provenance} {pos : Position} {isEntry : Bool} {slot : Slot} {inner : Level}
    (h : (commitEntries ⟨rules, specs⟩ provenance (.obj entries) entries pos).Takes
      (slot.opened .record) () inner) :
    Commits provenance isEntry (some (.record starters (.ns rules specs))) pos (.obj entries) slot
      (.of (.record provenance (if provenance = .initial then inner.nodes else slot.snapshot))
        inner) := by
  rw [commitEntries_eq_sweepEdit] at h
  have hslots := sweepEdit_takes (fun name v level level' hstep => by
    split at hstep
    · obtain ⟨inner, -, hslots⟩ := Level.onEntry_takes hstep
      intro k hk
      rw [hslots k, if_neg hk]
    · exact absurd hstep Run.not_takes_fail) h
  have hentry (k : String) (v : Value) (hv : entries.get? k = some v) : ∃ fields inner',
      v = .obj fields ∧ inner.slot k = .of .ns inner' ∧ (do
        commitFields specs provenance fields (pos.child k)
        rules.remap (pos.child k) true : Edit σ Level Unit).Takes
          (((slot.opened .record).slot k).opened .ns) () inner' := by
    obtain ⟨before, after, hstep, hbefore, hafter⟩ := (hslots k).2 v hv
    split at hstep
    · next fields =>
      obtain ⟨inner', hedit, hput⟩ := Level.onEntry_takes hstep
      rw [hbefore] at hedit
      exact ⟨fields, inner', rfl, hafter.symm.trans ((hput k).trans (if_pos rfl)), hedit⟩
    · exact absurd hstep Run.not_takes_fail
  refine .record (fun k v hv => ?_) (fun k hk => (hslots k).1 hk) (fun k v hv => ?_)
  · obtain ⟨fields, inner', rfl, -, -⟩ := hentry k v hv
    rfl
  · obtain ⟨fields, inner', rfl, hslot, hedit⟩ := hentry k v hv
    rw [hslot]
    exact commits_ns (ih k fields hv) hedit

/-- A value that is no object, or that stands where no container is declared, is written. -/
private theorem commits_leaf {spec : Option (Specifier σ)} {provenance : Provenance} {v : Value}
    {key : String} {pos : Position} {cell cell' : Cell} {slot : Slot}
    (hshows : cell.Shows key spec.isSome provenance slot)
    (closed : containerKind? spec = none ∨ v.isObject = false)
    (h : (Run.update fun (p : Cell × σ) => (p.1.putLeaf key provenance v, p.2) :
      Edit σ Cell Unit).Takes cell () cell') :
    Commits provenance false spec pos v slot ⟨cell'.data.get? key, some cell'.node⟩ := by
  obtain rfl := Run.Takes.of_update (f := fun cell : Cell => cell.putLeaf key provenance v) h
  obtain ⟨hdata, hnode⟩ := hshows.putLeaf v
  rw [hdata, hnode, SortedMap.get?_insert, if_pos rfl]
  exact .value closed

private theorem commits_value_and_fields (v : Value) :
    CommitsValue σ v ∧ ∀ fields, v = .obj fields → CommitsFields σ fields := by
  -- By induction on the value. An entry of a record is committed field by field without a cell of
  -- its own, so the fields of an object are carried along.
  induction v with
  | obj fields ih =>
    have hfields : CommitsFields σ fields := commitsFields_of_values fun k v hv => (ih k v hv).1
    refine ⟨?_, fun _ e => Value.obj.inj e ▸ hfields⟩
    intro spec provenance key pos cell cell' slot hshows h
    rw [commit.eq_def] at h
    cases spec with
    | none => exact commits_leaf hshows (.inl rfl) h
    | some s =>
      cases s with
      | leaf rules => exact commits_leaf hshows (.inl rfl) h
      | ns rules specs =>
        obtain ⟨inner, hinner, rfl⟩ := h.of_zoom
        rw [hshows.level] at hinner
        have hdata : (cell.put key .ns inner).data.get? key = some (.obj inner.data) :=
          (SortedMap.get?_insert _ _ _ _).trans (if_pos rfl)
        rw [hdata]
        exact commits_ns hfields hinner
      | record starters entry =>
        cases entry with
        | ns rules specs =>
          obtain ⟨inner, hinner, rfl⟩ := h.of_zoom
          rw [hshows.level] at hinner
          -- The record keeps its snapshot, unless the commit is the initial one.
          have hcommits : Commits provenance false (some (.record starters (.ns rules specs))) pos
              (.obj fields) slot _ :=
            commits_record (fun k fields hk => (ih k _ hk).2 fields rfl) hinner
          rw [← hshows.snapshot] at hcommits
          have hdata : (cell.data.insert key (.obj inner.data)).get? key = some (.obj inner.data) :=
            (SortedMap.get?_insert _ _ _ _).trans (if_pos rfl)
          simp only [Bool.true_and, decide_eq_true_eq, Cell.put, hdata]
          exact hcommits
        | _ =>
          obtain ⟨u, mid, -, hfail⟩ := h.of_bind
          exact absurd hfail Run.not_takes_fail
  | _ =>
    refine ⟨?_, fun _ e => nomatch e⟩
    intro spec provenance key pos cell cell' slot hshows h
    rw [commit.eq_def] at h
    cases spec with
    | none => exact commits_leaf hshows (.inl rfl) h
    | some s => cases s <;> exact commits_leaf hshows (.inr rfl) h

/-- Committing a value to the cell of a key does what `Commits` says to what the cell shows. -/
theorem commit_takes {spec : Option (Specifier σ)} {provenance : Provenance} {v : Value}
    {key : String} {pos : Position} {cell cell' : Cell} {slot : Slot}
    (hshows : cell.Shows key spec.isSome provenance slot)
    (h : (commit spec provenance v key pos).Takes cell () cell') :
    Commits provenance false spec pos v slot ⟨cell'.data.get? key, some cell'.node⟩ :=
  (commits_value_and_fields v).1 hshows h

/-- Committing an input to a namespace does what `Commits` says to the namespace's slot. -/
theorem Namespace.commit_takes {n : Namespace σ} {provenance : Provenance} {input : Fields Value}
    {pos : Position} {isEntry : Bool} {level level' : Level}
    (h : (n.commit provenance input pos isEntry).Takes level () level') :
    Commits provenance isEntry (some n.toSpecifier) pos (.obj input) (.of .ns level)
      (.of .ns level') :=
  @commits_ns σ input ((commits_value_and_fields (.obj input)).2 input rfl) n.rules n.fields _ _ _
    (.of .ns level) level' h

end Settings
