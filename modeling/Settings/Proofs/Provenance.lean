import Settings.Proofs.Shape

/-!
# Where values come from

Metadata that initialization builds is pristine: nothing in it differs from its initial state. In
every store what metadata says about where values came from is true (`Metadata.TellsOrigin`): only a
leaf with its initial value, and only a record with the entries of its snapshot, counts as initial,
and snapshots stay pristine.

Between the two passes of a change this fails, because resolving adds entries to records that still
count as initial. It does so only where the candidate names the record, and there the commit writes
the record anew. `Metadata.Awaits` is the state in between: truthful but for the records that the
candidate names.
-/

set_option autoImplicit false

namespace Settings

variable {σ : Type}

/-- Nothing in the metadata differs from its initial state. -/
inductive Metadata.Pristine : Metadata → Prop
  | leaf {v : Option Value} {isShadow isPassthrough : Bool} :
      Pristine (.leaf ⟨v, v, .initial, isShadow, isPassthrough⟩)
  | ns {nodes : Fields Metadata} (fields : ∀ k m, nodes.get? k = some m → m.Pristine) :
      Pristine (.ns nodes)
  | record {entries : Fields Metadata} (inside : ∀ k m, entries.get? k = some m → m.Pristine) :
      Pristine (.record .initial entries entries)

/-- What the node says about where its values came from is true. -/
structure Metadata.TellsOrigin (m : Metadata) : Prop where
  leaf : ∀ node, m = .leaf node → node.provenance = .initial → node.value = node.initial
  record : ∀ nodes initial, m = .record .initial nodes initial → nodes = initial
  snapshot : ∀ provenance nodes initial, m = .record provenance nodes initial →
    ∀ name inside, initial.get? name = some inside → inside.Pristine

/-- Truthful metadata, but for the records that a pending value names: they may have entries that
are not in their snapshot and still count as initial. -/
inductive Metadata.Awaits : Option Value → Metadata → Prop
  | leaf {pending : Option Value} {node : LeafNode}
      (value : node.provenance = .initial → node.value = node.initial) : Awaits pending (.leaf node)
  | ns {pending : Option Value} {nodes : Fields Metadata}
      (fields : ∀ k m, nodes.get? k = some m → Awaits (pending.bind (·.field? k)) m) :
      Awaits pending (.ns nodes)
  | record {pending : Option Value} {provenance : Provenance} {nodes initial : Fields Metadata}
      (entries : ∀ k m, nodes.get? k = some m → Awaits (pending.bind (·.field? k)) m)
      (snapshot : ∀ k m, initial.get? k = some m → m.Pristine)
      (settled : pending = none → provenance = .initial → nodes = initial) :
      Awaits pending (.record provenance nodes initial)

def Slot.Pristine (slot : Slot) : Prop := ∀ m, slot.node = some m → m.Pristine

def Slot.Awaits (pending : Option Value) (slot : Slot) : Prop :=
  ∀ m, slot.node = some m → m.Awaits pending

/-! ## Pristine and truthful metadata -/

theorem Metadata.Pristine.awaits {m : Metadata} (h : m.Pristine) (pending : Option Value) :
    m.Awaits pending := by
  induction h generalizing pending with
  | leaf => exact .leaf fun _ => rfl
  | ns fields ih => exact .ns fun k m hk => ih k m hk _
  | record inside ih => exact .record (fun k m hk => ih k m hk _) inside fun _ _ => rfl

/-- Truthful metadata may await any value. -/
theorem Metadata.Awaits.of_none {m : Metadata} (h : m.Awaits none) (pending : Option Value) :
    m.Awaits pending := by
  induction m generalizing pending with
  | leaf node =>
    cases h with
    | leaf value => exact .leaf value
  | ns nodes ih =>
    cases h with
    | ns fields => exact .ns fun k m hk => ih k m hk (fields k m hk) _
  | record provenance nodes initial ih _ =>
    cases h with
    | record entries snapshot settled =>
      exact .record (fun k m hk => ih k m hk (entries k m hk) _) snapshot
        fun _ => settled rfl

theorem Metadata.Awaits.tellsOrigin {m : Metadata} (h : m.Awaits none) : m.TellsOrigin := by
  refine ⟨?leaf, ?record, ?snapshot⟩
  case leaf =>
    rintro node rfl hinitial
    cases h with
    | leaf value => exact value hinitial
  case record =>
    rintro nodes initial rfl
    cases h with
    | record entries snapshot settled => exact settled rfl rfl
  case snapshot =>
    rintro provenance nodes initial rfl
    cases h with
    | record entries snapshot settled => exact snapshot

/-- Every node inside truthful metadata is truthful, also in snapshots. -/
theorem Metadata.Awaits.of_reaches {m m' : Metadata} {path : List String} (h : m.Awaits none)
    (hreach : m.Reaches path m') : m'.Awaits none := by
  induction hreach with
  | here => exact h
  | field at_name rest ih =>
    cases h with
    | ns fields => exact ih (fields _ _ at_name)
  | entry at_name rest ih =>
    cases h with
    | record entries snapshot settled => exact ih (entries _ _ at_name)
  | snapshot at_name rest ih =>
    cases h with
    | record entries snapshot settled => exact ih ((snapshot _ _ at_name).awaits none)

/-- Everything inside pristine metadata is pristine. -/
theorem Metadata.Pristine.of_reaches {m m' : Metadata} {path : List String} (h : m.Pristine)
    (hreach : m.Reaches path m') : m'.Pristine := by
  induction hreach with
  | here => exact h
  | field at_name _ ih =>
    cases h with
    | ns fields => exact ih (fields _ _ at_name)
  | entry at_name _ ih =>
    cases h with
    | record inside => exact ih (inside _ _ at_name)
  | snapshot at_name _ ih =>
    cases h with
    | record inside => exact ih (inside _ _ at_name)

/-- What a path reaches in truthful metadata is what is present there, or pristine in a snapshot. -/
theorem Metadata.Awaits.present_or_pristine {m m' : Metadata} {path : List String}
    (h : m.Awaits none) (hreach : m.Reaches path m') {slot : Slot} (hslot : slot.node = some m) :
    (slot.follow path).node = some m' ∨ m'.Pristine := by
  have hchild {m inside : Metadata} {slot : Slot} {name : String} (hslot : slot.node = some m)
      (hname : m.child? name = some inside) : (slot.child name).node = some inside := by
    rw [Slot.child, hslot]
    exact hname
  induction hreach generalizing slot with
  | here => exact .inl hslot
  | field at_name _ ih =>
    cases h with
    | ns fields => exact ih (fields _ _ at_name) (hchild hslot at_name)
  | entry at_name _ ih =>
    cases h with
    | record entries => exact ih (entries _ _ at_name) (hchild hslot at_name)
  | snapshot at_name rest =>
    cases h with
    | record _ snapshot => exact .inr ((snapshot _ _ at_name).of_reaches rest)

/-! ## Initialization -/

/-- Entries made from starters are pristine if fields are built so and given values keep it. -/
private theorem pristine_stitched {entry : Specifier σ} {given : Fields Value} {pos : Position}
    {level : Level}
    (h : IsStitched (fun s _ _ field => field.node.Pristine ∧ field.WithData s)
      (fun _ _ _ _ before after => before.Pristine → after.Pristine) entry given pos level)
    (k : String) : (level.slot k).Pristine := by
  cases h with
  | none => exact nofun
  | @some rules specs _ _ canonical _ hcanonical others entries =>
    have hempty : (Slot.of .ns canonical).Pristine := by
      intro m hm
      cases hm
      refine .ns fun k m hk => ?_
      change (canonical.slot k).node = some m at hk
      obtain ⟨s, field, -, hfield, rfl⟩ := hcanonical.exists_field hk
      exact hfield.1
    cases hk : given.get? k with
    | none =>
      rw [others k hk]
      exact nofun
    | some starter =>
      obtain ⟨inner, hslot, hgiven⟩ := entries k starter hk
      rw [hslot]
      exact hgiven hempty

/-- Initialization builds pristine metadata. -/
theorem Specifier.defaults_pristine {s : Specifier σ} {pos : Position} {isEntry : Bool}
    {field : Initialized} (h : (s.defaults pos isEntry).Yields field) : field.node.Pristine := by
  refine (Specifier.defaults_induction
    (D := fun s _ _ field => field.node.Pristine ∧ field.WithData s)
    (G := fun _ _ _ _ before after => before.Pristine → after.Pristine)
    ?leaf ?ns ?record ?givenLeaf ?givenNs ?givenRecord h).1
  case leaf =>
    intro rules pos isEntry field h
    refine ⟨?_, LeafRules.withData_of_defaults h⟩
    rw [LeafRules.node_of_defaults h]
    exact .leaf
  case ns =>
    intro rules specs pos isEntry seed level mapped _ hothers hfields _
    refine ⟨.ns fun k m hk => ?_, nofun⟩
    change (level.slot k).node = some m at hk
    cases hs : specs.get? k with
    | none =>
      rw [hothers k hs, Level.slot_ofSeed hs] at hk
      obtain ⟨v, -, rfl⟩ := Option.map_eq_some_iff.1 hk
      exact .leaf
    | some s =>
      obtain ⟨field, ⟨hfield, hdata⟩, hslot⟩ := hfields k s hs
      rw [hslot] at hk
      obtain hbuilt | ⟨rules, v, rfl, -, hgiven⟩ := Level.overlay_ofSeed hs hdata seed
      · rw [hbuilt] at hk
        cases hk
        exact hfield
      · rw [hgiven] at hk
        cases hk
        exact .leaf
  case record =>
    intro starters entry pos isEntry given level _ hstitched
    exact ⟨.record fun k m hk => pristine_stitched hstitched k m hk, nofun⟩
  case givenLeaf =>
    intro rules pos given before _ _ m hm
    cases hm
    exact .leaf
  case givenNs =>
    intro rules specs pos isEntry given before fields inner mapped _ hothers hgiven _ hbefore m hm
    cases hm
    -- What a commit would open is metadata from before, or nothing.
    have hopened (k : String) : ((before.opened .ns).slot k).Pristine := by
      intro m hm
      obtain ⟨outer, container, nodes, houter, hopen, hk⟩ := Level.node_opened hm
      have hbefore := hbefore outer houter
      cases hbefore with
      | ns fields =>
        cases hopen
        exact fields k m hk
      | _ => cases hopen
    refine .ns fun k m hk => ?_
    change (inner.slot k).node = some m at hk
    cases hgivenFor : givenFor? specs fields k with
    | none => exact hopened k m (hothers k hgivenFor ▸ hk)
    | some p => exact hgiven k p.1 p.2 hgivenFor (hopened k) m hk
  case givenRecord =>
    intro starters entry pos given before level hstitched _ m hm
    cases hm
    exact .record fun k m hk => pristine_stitched hstitched k m hk

/-! ## A change -/

section Change

variable {pending : Option Value} {w : Value} {slot slot' : Slot}

theorem Slot.Awaits.opened (h : slot.Awaits pending) (kind : ContainerKind) (k : String) :
    ((slot.opened kind).slot k).Awaits (pending.bind (·.field? k)) := by
  intro m hm
  obtain ⟨outer, container, nodes, houter, hopen, hk⟩ := Level.node_opened hm
  have houter := h outer houter
  cases houter with
  | leaf => cases kind <;> cases hopen
  | ns fields =>
    cases kind <;> cases hopen
    exact fields k m hk
  | record entries snapshot settled =>
    cases kind <;> cases hopen
    exact entries k m hk

/-- Resolving finds truthful metadata inside truthful metadata. -/
theorem Slot.Awaits.inside (h : slot.Awaits none) (kind : ContainerKind) (k : String) :
    ((slot.inside kind).slot k).Awaits none :=
  fun m hm => h.opened kind k m (Level.node_inside hm)

theorem Slot.Awaits.snapshot (h : slot.Awaits pending) {k : String} {m : Metadata}
    (hk : slot.snapshot.get? k = some m) : m.Pristine := by
  unfold Slot.snapshot at hk
  split at hk
  · next provenance nodes initial hnode =>
    cases h _ hnode with
    | record entries snapshot settled => exact snapshot k m hk
  · cases hk

/-- A container that resolving has worked in awaits the candidate if the slots inside await the
parts of it that they are named for. -/
theorem Slot.Awaits.leave {kind : ContainerKind} (h : slot.Awaits none) {inner : Level}
    (hinner : ∀ k, (inner.slot k).Awaits (w.field? k)) :
    (slot.leave kind inner).Awaits (some w) := by
  cases henter : slot.enter? kind with
  | none =>
    rw [leave_of_not_enter? henter]
    split
    · exact fun m hm => (h m hm).of_none _
    · intro m hm
      cases hm
      cases kind with
      | ns => exact .ns fun k m hk => hinner k m hk
      | record => exact .record (fun k m hk => hinner k m hk) nofun nofun
  | some entered =>
    obtain ⟨container, level⟩ := entered
    rw [leave_of_enter? henter]
    have hnode := h _ (congrArg Slot.node (of_enter? henter))
    intro m hm
    cases hm
    cases container with
    | ns => exact .ns fun k m hk => hinner k m hk
    | record provenance initial =>
      -- The record still counts as what it was, and the snapshot is its own.
      cases hnode with
      | record entries snapshot settled =>
        exact .record (fun k m hk => hinner k m hk) snapshot nofun

theorem Namespace.Ensures.awaits {entry : Namespace σ} {pos : Position}
    (h : entry.Ensures pos slot slot') (hslot : slot.Awaits none) : slot'.Awaits none := by
  cases h with
  | created missing build =>
    intro m hm
    cases hm
    exact (Specifier.defaults_pristine (Namespace.defaults_toSpecifier build)).awaits none
  | kept => exact hslot

/-- Resolving leaves metadata that awaits the candidate. -/
theorem Resolves.awaits {options : Options σ} {spec : Option (Specifier σ)} {pos : Position}
    {v : Value} (h : Resolves options spec pos v slot w slot') (hslot : slot.Awaits none) :
    slot'.Awaits (some w) := by
  induction h with
  | free => exact fun m hm => (hslot m hm).of_none _
  | leaf => exact fun m hm => (hslot m hm).of_none _
  | @ns rules specs pos v slot fields c inner longhand names others each ih =>
    apply hslot.leave
    intro k
    have hinside := hslot.inside .ns k
    show (inner.slot k).Awaits (c.get? k)
    cases hx : fields.get? k with
    | none =>
      rw [others k hx, (names k).2 hx]
      exact hinside
    | some x =>
      obtain ⟨y, hy⟩ := exists_of_names (fun k => (names k).symm) hx
      rw [hy]
      exact ih k x y hx hy hinside
  | @record starters rules specs pos slot entries c inner mid names others ensured each ih =>
    apply hslot.leave
    intro k
    have hinside := hslot.inside .record k
    show (inner.slot k).Awaits (c.get? k)
    cases hx : entries.get? k with
    | none =>
      rw [others k hx, (names k).2 hx]
      exact hinside
    | some x =>
      obtain ⟨y, hy⟩ := exists_of_names (fun k => (names k).symm) hx
      rw [hy]
      exact ih k x y hx hy ((ensured k x hx).awaits hinside)

/-- Committing the value that metadata awaits makes it truthful: whatever the value names is marked
as changed, and where it names nothing nothing was awaited. -/
theorem Commits.awaits_none {isEntry : Bool} {spec : Option (Specifier σ)} {pos : Position}
    (h : Commits .change isEntry spec pos w slot slot') (hslot : slot.Awaits (some w)) :
    slot'.Awaits none := by
  induction h with
  | value closed =>
    intro m hm
    cases hm
    exact .leaf nofun
  | @ns isEntry rules specs pos fields slot inner mapped others each mapper ih =>
    intro m hm
    cases hm
    refine .ns fun k m hk => ?_
    change (inner.slot k).node = some m at hk
    have hopened : ((slot.opened .ns).slot k).Awaits (fields.get? k) := hslot.opened .ns k
    cases hv : fields.get? k with
    | none =>
      rw [others k hv] at hk
      exact (hv ▸ hopened) m hk
    | some v => exact ih k v hv (hv ▸ hopened) m hk
  | @record isEntry starters rules specs pos entries slot inner objects others each ih =>
    intro m hm
    cases hm
    refine .record (fun k m hk => ?_) (fun k m hk => hslot.snapshot hk) nofun
    change (inner.slot k).node = some m at hk
    have hopened : ((slot.opened .record).slot k).Awaits (entries.get? k) := hslot.opened .record k
    cases hv : entries.get? k with
    | none =>
      rw [others k hv] at hk
      exact (hv ▸ hopened) m hk
    | some v => exact ih k v hv (hv ▸ hopened) m hk

end Change

/-! ## Stores -/

section Reachable

variable {spec : Namespace σ} {options : Options σ} {store store' : Store σ}

theorem Store.create_pristine (h : (Store.create spec options).Yields store) :
    store.metadata.Pristine := by
  obtain ⟨level, rfl, hlevel⟩ := create_yields h
  exact Specifier.defaults_pristine (Namespace.defaults_toSpecifier hlevel)

theorem Store.reset_pristine (h : store.reset.Yields store') : store'.metadata.Pristine := by
  obtain ⟨level, rfl, hlevel⟩ := reset_yields h
  exact Specifier.defaults_pristine (Namespace.defaults_toSpecifier hlevel)

/-- In every store metadata is truthful. -/
theorem Store.Reachable.metadata_awaits (h : Store.Reachable spec options store) :
    store.metadata.Awaits none := by
  have hslot : (Slot.of .ns store.level).Awaits none := by
    refine h.level_induction (P := fun level => (Slot.of .ns level).Awaits none)
      (fun level hbuilt m hm => ?_) (fun input c level mid level' hlevel hresolves hcommits => ?_)
    · cases hm
      exact (Specifier.defaults_pristine hbuilt).awaits none
    · exact hcommits.awaits_none (hresolves.awaits hlevel)
  exact hslot _ rfl

/-- Whatever the history of a store, every node of its metadata tells where its values came from;
and the metadata of a store that was just built or reset is pristine. -/
theorem Store.Reachable.origin_told (h : Store.Reachable spec options store) :
    (∀ path m, store.metadata.Reaches path m → m.TellsOrigin) ∧
      (∀ built, (Store.create spec options).Yields built → built.metadata.Pristine) ∧
      ∀ renewed, store.reset.Yields renewed → renewed.metadata.Pristine := by
  refine ⟨fun path m hreach => ?_, fun built hbuilt => ?_, fun renewed hrenewed => ?_⟩
  · exact (h.metadata_awaits.of_reaches hreach).tellsOrigin
  · exact create_pristine hbuilt
  · exact reset_pristine hrenewed

end Reachable

/-- A host that was added by a change: its record counts as changed and the port it was initialized
with as initial. A reset takes the host away. -/
theorem Store.Reachable.origin_told_hosts :
    (Metadata.leaf (.fresh (some (.str "80")) .initial)).TellsOrigin ∧
      Hosts.built.metadata.Pristine := by
  obtain ⟨htold, -, hrenewed⟩ := Store.Reachable.origin_told Hosts.changed_reachable
  exact ⟨htold ["hosts", "x", "port"] _ (.field rfl (.entry rfl (.field rfl .here))),
    hrenewed Hosts.built ⟨(), (), rfl⟩⟩

end Settings
