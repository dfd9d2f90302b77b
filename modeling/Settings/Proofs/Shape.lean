import Settings.Proofs.History

/-!
# The shape of metadata

`Metadata.Fits` says that metadata has the kind that its position demands and that every leaf in it,
those in the snapshots of records included, meets a condition that may depend on how the leaf is
declared. `Store.Reachable.fits` proves it of every store from facts about single leaves: what
initialization builds, what a seed or a starter gives, and what a change writes.
-/

set_option autoImplicit false

namespace Settings

variable {σ : Type} {L : Option (LeafRules σ) → LeafNode → Prop}

/-- The metadata has the kind that its position demands, and its leaves meet the condition. Only
records of namespaces have entries. -/
inductive Metadata.Fits (L : Option (LeafRules σ) → LeafNode → Prop) :
    Option (Specifier σ) → Metadata → Prop
  | free {node : LeafNode} (here : L none node) : Fits L none (.leaf node)
  | leaf {rules : LeafRules σ} {node : LeafNode} (here : L (some rules) node) :
      Fits L (some (.leaf rules)) (.leaf node)
  | ns {rules : NamespaceRules σ} {specs : Fields (Specifier σ)} {nodes : Fields Metadata}
      (fields : ∀ k m, nodes.get? k = some m → Fits L (specs.get? k) m) :
      Fits L (some (.ns rules specs)) (.ns nodes)
  | record {starters : Option (CallM σ Value)} {entry : Specifier σ} {provenance : Provenance}
      {nodes initial : Fields Metadata}
      (entries : ∀ k m, nodes.get? k = some m → Fits L (some entry) m)
      (snapshot : ∀ k m, initial.get? k = some m → Fits L (some entry) m)
      (kind : containerKind? (some entry) = some .ns ∨ nodes = ∅ ∧ initial = ∅) :
      Fits L (some (.record starters entry)) (.record provenance nodes initial)

def Slot.Fits (L : Option (LeafRules σ) → LeafNode → Prop) (spec : Option (Specifier σ))
    (slot : Slot) : Prop := ∀ m, slot.node = some m → m.Fits L spec

/-- A path of names leads from metadata to metadata inside: through the fields of namespaces, and
through the present entries of records or those of the snapshot. -/
inductive Metadata.Reaches : Metadata → List String → Metadata → Prop
  | here {m : Metadata} : Reaches m [] m
  | field {nodes : Fields Metadata} {name : String} {path : List String} {inside m : Metadata}
      (at_name : nodes.get? name = some inside) (rest : inside.Reaches path m) :
      Reaches (.ns nodes) (name :: path) m
  | entry {provenance : Provenance} {nodes initial : Fields Metadata} {name : String}
      {path : List String} {inside m : Metadata} (at_name : nodes.get? name = some inside)
      (rest : inside.Reaches path m) :
      Reaches (.record provenance nodes initial) (name :: path) m
  | snapshot {provenance : Provenance} {nodes initial : Fields Metadata} {name : String}
      {path : List String} {inside m : Metadata} (at_name : initial.get? name = some inside)
      (rest : inside.Reaches path m) :
      Reaches (.record provenance nodes initial) (name :: path) m

/-- What fits at a position fits at every position below. -/
theorem Metadata.Fits.of_reaches {spec target : Option (Specifier σ)} {path : List String}
    {m m' : Metadata} (h : m.Fits L spec) (hpath : Leads spec path target)
    (hreach : m.Reaches path m') : m'.Fits L target := by
  -- The two paths have the same names, and the kinds of the nodes agree with the specifiers.
  induction hpath generalizing m with
  | here =>
    cases hreach
    exact h
  | field _ ih =>
    cases h with
    | ns fields =>
      cases hreach with
      | field hname hrest => exact ih (fields _ _ hname) hrest
  | entry _ ih =>
    cases h with
    | record entries snapshot =>
      cases hreach with
      | entry hname hrest => exact ih (entries _ _ hname) hrest
      | snapshot hname hrest => exact ih (snapshot _ _ hname) hrest

/-- What fits is what has the right shape and the right leaves. -/
theorem Metadata.Fits.of_leaves {L' : Option (LeafRules σ) → LeafNode → Prop}
    {spec : Option (Specifier σ)} {m : Metadata} (h : m.Fits L' spec)
    (free : ∀ path node, Leads spec path none → m.Reaches path (.leaf node) → L none node)
    (leaf : ∀ path rules node, Leads spec path (some (.leaf rules)) →
      m.Reaches path (.leaf node) → L (some rules) node) : m.Fits L spec := by
  induction h with
  | free => exact .free (free [] _ .here .here)
  | leaf => exact .leaf (leaf [] _ _ .here .here)
  | ns fields ih =>
    exact .ns fun k m hk => ih k m hk
      (fun path node hpath hreach => free (k :: path) node (.field hpath) (.field hk hreach))
      fun path rules node hpath hreach =>
        leaf (k :: path) rules node (.field hpath) (.field hk hreach)
  | record entries snapshot kind ihEntries ihSnapshot =>
    refine .record (fun k m hk => ?_) (fun k m hk => ?_) kind
    · exact ihEntries k m hk
        (fun path node hpath hreach => free (k :: path) node (.entry hpath) (.entry hk hreach))
        fun path rules node hpath hreach =>
          leaf (k :: path) rules node (.entry hpath) (.entry hk hreach)
    · exact ihSnapshot k m hk
        (fun path node hpath hreach => free (k :: path) node (.entry hpath) (.snapshot hk hreach))
        fun path rules node hpath hreach =>
          leaf (k :: path) rules node (.entry hpath) (.snapshot hk hreach)

/-! ## Slots that fit -/

theorem Slot.fits_empty {spec : Option (Specifier σ)} {data : Option Value} :
    (⟨data, none⟩ : Slot).Fits L spec := fun _ h => nomatch h

theorem Slot.fits_ns {rules : NamespaceRules σ} {specs : Fields (Specifier σ)} {inner : Level}
    (h : ∀ k, (inner.slot k).Fits L (specs.get? k)) :
    (of .ns inner).Fits L (some (.ns rules specs)) := by
  intro m hm
  cases hm
  exact .ns fun k m hk => h k m hk

theorem Slot.fits_record {starters : Option (CallM σ Value)} {entry : Specifier σ}
    {provenance : Provenance} {initial : Fields Metadata} {inner : Level}
    (h : ∀ k, (inner.slot k).Fits L (some entry))
    (hinitial : ∀ k m, initial.get? k = some m → m.Fits L (some entry))
    (hkind : containerKind? (some entry) = some .ns) :
    (of (.record provenance initial) inner).Fits L (some (.record starters entry)) := by
  intro m hm
  cases hm
  exact .record (fun k m hk => h k m hk) hinitial (.inl hkind)

theorem Metadata.Fits.leaf_of {spec : Option (Specifier σ)} {m : Metadata} (h : m.Fits L spec)
    (hspec : containerKind? spec = none) : ∃ node, m = .leaf node := by
  cases h with
  | free => exact ⟨_, rfl⟩
  | leaf => exact ⟨_, rfl⟩
  | ns => cases hspec
  | record => cases hspec

/-- Inside a container that fits, every slot fits. -/
theorem Metadata.Fits.opened {s : Specifier σ} {m : Metadata} (h : m.Fits L (some s))
    {kind : ContainerKind} {container : Container} {nodes : Fields Metadata}
    (hopen : m.open? kind = some (container, nodes)) {k : String} {node : Metadata}
    (hk : nodes.get? k = some node) : node.Fits L (s.below? k) := by
  cases h with
  | leaf => cases kind <;> cases hopen
  | ns fields =>
    cases kind <;> cases hopen
    exact fields k node hk
  | record entries snapshot =>
    cases kind <;> cases hopen
    exact entries k node hk

theorem Slot.Fits.opened {s : Specifier σ} {slot : Slot} (h : slot.Fits L (some s))
    (kind : ContainerKind) (k : String) : ((slot.opened kind).slot k).Fits L (s.below? k) := by
  intro node hnode
  obtain ⟨outer, container, nodes, houter, hopen, hk⟩ := Level.node_opened hnode
  exact (h outer houter).opened hopen hk

theorem Slot.Fits.inside {s : Specifier σ} {slot : Slot} (h : slot.Fits L (some s))
    (kind : ContainerKind) (k : String) : ((slot.inside kind).slot k).Fits L (s.below? k) :=
  fun node hnode => h.opened kind k node (Level.node_inside hnode)

/-- A namespace that resolving has worked in fits if the slots inside do. -/
theorem Slot.Fits.leave_ns {rules : NamespaceRules σ} {specs : Fields (Specifier σ)} {slot : Slot}
    (h : slot.Fits L (some (.ns rules specs))) {inner : Level}
    (hinner : ∀ k, (inner.slot k).Fits L (specs.get? k)) :
    (slot.leave .ns inner).Fits L (some (.ns rules specs)) := by
  cases henter : slot.enter? .ns with
  | none =>
    rw [leave_of_not_enter? henter]
    split
    · exact h
    · exact Slot.fits_ns hinner
  | some entered =>
    obtain ⟨container, level⟩ := entered
    rw [leave_of_enter? henter, of_enter?_ns henter]
    exact Slot.fits_ns hinner

theorem Slot.Fits.leave_record {starters : Option (CallM σ Value)} {entry : Specifier σ}
    {slot : Slot} (h : slot.Fits L (some (.record starters entry))) {inner : Level}
    (hinner : ∀ k, (inner.slot k).Fits L (some entry))
    (hkind : containerKind? (some entry) = some .ns) :
    (slot.leave .record inner).Fits L (some (.record starters entry)) := by
  cases henter : slot.enter? .record with
  | none =>
    rw [leave_of_not_enter? henter]
    split
    · exact h
    · exact Slot.fits_record hinner (fun _ _ hk => nomatch hk) hkind
  | some entered =>
    obtain ⟨container, level⟩ := entered
    rw [leave_of_enter? henter]
    have hnode := h _ (congrArg Slot.node (of_enter? henter))
    obtain ⟨provenance, initial, rfl⟩ := of_enter?_record henter
    -- The record keeps its snapshot, which fitted before.
    cases hnode with
    | record entries snapshot => exact Slot.fits_record hinner snapshot hkind

/-- The snapshot of a record that fits holds metadata that fits. -/
theorem Slot.Fits.snapshot {starters : Option (CallM σ Value)} {entry : Specifier σ} {slot : Slot}
    (h : slot.Fits L (some (.record starters entry))) {k : String} {m : Metadata}
    (hk : slot.snapshot.get? k = some m) : m.Fits L (some entry) := by
  unfold Slot.snapshot at hk
  split at hk
  · next provenance nodes initial hnode =>
    cases h _ hnode with
    | record entries snapshot => exact snapshot k m hk
  · cases hk

/-! ## The leaves that are written -/

/-- A condition on leaves holds wherever the leaf itself is written. -/
structure LeafRules.Keeps (options : Options σ) (L : Option (LeafRules σ) → LeafNode → Prop)
    (rules : LeafRules σ) : Prop where
  built : ∀ pos v node, (rules.defaults pos).Yields ⟨v, .leaf node⟩ → L (some rules) node
  given : rules.shadow = false → ∀ v, L (some rules) (.fresh (some v) .initial)
  changed : ∀ pos v w, (rules.resolve options v pos).Yields w → ∀ node,
    node = .fresh none .change ∨ L (some rules) node → L (some rules) (node.write .change w)

/-- A condition on leaves holds of those that a namespace makes of its seed. -/
structure NamespaceRules.Keeps (L : Option (LeafRules σ) → LeafNode → Prop)
    (rules : NamespaceRules σ) (specs : Fields (Specifier σ)) : Prop where
  undeclared : ∀ pos seed k v, (runSeed rules.seed pos).Yields seed → seed.get? k = some v →
    specs.get? k = none → L none (.fresh (some v) .initial)
  declared : ∀ pos seed k v leafRules, (runSeed rules.seed pos).Yields seed →
    seed.get? k = some v → specs.get? k = some (.leaf leafRules) →
    L (some leafRules) (leafRules.initialNode (some v))

def Specifier.Keeps (options : Options σ) (L : Option (LeafRules σ) → LeafNode → Prop) :
    Specifier σ → Prop :=
  Specifier.Everywhere (LeafRules.Keeps options L) (NamespaceRules.Keeps L) fun _ => True

/-- A condition on leaves holds of those that initialization builds. -/
structure LeafRules.Builds (L : Option (LeafRules σ) → LeafNode → Prop) (rules : LeafRules σ) :
    Prop where
  built : ∀ pos v node, (rules.defaults pos).Yields ⟨v, .leaf node⟩ → L (some rules) node
  given : rules.shadow = false → ∀ v, L (some rules) (.fresh (some v) .initial)

/-- The condition may fail for what a change writes. -/
def Specifier.Builds (L : Option (LeafRules σ) → LeafNode → Prop) : Specifier σ → Prop :=
  Specifier.Everywhere (LeafRules.Builds L) (NamespaceRules.Keeps L) fun _ => True

theorem Specifier.Keeps.builds {options : Options σ} {s : Specifier σ} (h : s.Keeps options L) :
    s.Builds L :=
  h.imp (fun _ hleaf => ⟨hleaf.built, hleaf.given⟩) (fun _ _ => id) fun _ => id

/-- A condition on leaves survives a change of an undeclared key. -/
def KeptUndeclared (L : Option (LeafRules σ) → LeafNode → Prop) : Prop :=
  ∀ v node, node = .passthrough .change ∨ L none node → L none (node.write .change v)

/-! ## Initialization -/

/-- What initialization leaves at a name of a namespace fits, whatever the seed had there. -/
private theorem fits_overlay {rules : NamespaceRules σ} {specs : Fields (Specifier σ)}
    (hrules : rules.Keeps L specs) {pos : Position} {seed : Fields Value}
    (hseed : (runSeed rules.seed pos).Yields seed) {k : String} {s : Specifier σ}
    (hs : specs.get? k = some s) {field : Initialized} (hfield : field.node.Fits L (some s))
    (hdata : field.WithData s) :
    (((Level.ofSeed specs seed).slot k).overlay field).Fits L (some s) := by
  intro m hm
  obtain hbuilt | ⟨leafRules, v, rfl, hv, hgiven⟩ := Level.overlay_ofSeed hs hdata seed
  · rw [hbuilt] at hm
    cases hm
    exact hfield
  · rw [hgiven] at hm
    cases hm
    exact .leaf (hrules.declared pos seed k v leafRules hseed hv hs)

/-- The metadata of a seed at an undeclared name fits. -/
private theorem fits_undeclared {rules : NamespaceRules σ} {specs : Fields (Specifier σ)}
    (hrules : rules.Keeps L specs) {pos : Position} {seed : Fields Value}
    (hseed : (runSeed rules.seed pos).Yields seed) {k : String} (hs : specs.get? k = none) :
    ((Level.ofSeed specs seed).slot k).Fits L none := by
  intro m hm
  rw [Level.slot_ofSeed hs] at hm
  obtain ⟨v, hv, rfl⟩ := Option.map_eq_some_iff.1 hm
  exact .free (hrules.undeclared pos seed k v hseed hv hs)

/-- Entries made from starters fit if fields that are built fit and values laid over them keep
it. -/
private theorem fits_stitched {entry : Specifier σ} {given : Fields Value} {pos : Position}
    {level : Level}
    (h : IsStitched
      (fun s _ _ field => s.Builds L → field.node.Fits L (some s) ∧ field.WithData s)
      (fun s _ _ _ before after => s.Builds L → before.Fits L (some s) → after.Fits L (some s))
      entry given pos level)
    (hentry : entry.Builds L) (k : String) : (level.slot k).Fits L (some entry) := by
  cases h with
  | none => exact Slot.fits_empty
  | @some rules specs _ _ canonical _ hcanonical others entries =>
    obtain ⟨-, hspecs⟩ := Specifier.everywhere_ns.1 hentry
    have hfits : (Slot.of .ns canonical).Fits L (some (.ns rules specs)) := by
      apply Slot.fits_ns
      intro k m hm
      obtain ⟨s, field, hs, hfield, rfl⟩ := hcanonical.exists_field hm
      rw [hs]
      exact (hfield (hspecs k s hs)).1
    cases hk : given.get? k with
    | none =>
      rw [others k hk]
      exact Slot.fits_empty
    | some starter =>
      obtain ⟨inner, hslot, hgiven⟩ := entries k starter hk
      rw [hslot]
      exact hgiven hentry hfits

/-- Entries are made from starters alone, and only where they are namespaces. -/
private theorem stitched_kind {D : Specifier σ → Position → Bool → Initialized → Prop}
    {G : Specifier σ → Position → Bool → Value → Slot → Slot → Prop} {entry : Specifier σ}
    {given : Fields Value} {pos : Position} {level : Level}
    (h : IsStitched D G entry given pos level) :
    containerKind? (some entry) = some .ns ∨ level.nodes = ∅ ∧ level.nodes = ∅ := by
  cases h with
  | none => exact .inr ⟨rfl, rfl⟩
  | some => exact .inl rfl

/-- Initialization builds metadata that fits. -/
theorem Specifier.Builds.fits {s : Specifier σ} (hs : s.Builds L) {pos : Position} {isEntry : Bool}
    {field : Initialized} (h : (s.defaults pos isEntry).Yields field) :
    field.node.Fits L (some s) := by
  refine (Specifier.defaults_induction
    (D := fun s _ _ field => s.Builds L → field.node.Fits L (some s) ∧ field.WithData s)
    (G := fun s _ _ _ before after => s.Builds L → before.Fits L (some s) → after.Fits L (some s))
    ?leaf ?ns ?record ?givenLeaf ?givenNs ?givenRecord h hs).1
  case leaf =>
    intro rules pos isEntry field h hs
    have hbuilds := Specifier.everywhere_leaf.1 hs
    refine ⟨?_, LeafRules.withData_of_defaults h⟩
    rw [LeafRules.node_of_defaults h]
    rw [LeafRules.defaults_yields h] at h
    exact .leaf (hbuilds.built pos _ _ h)
  case ns =>
    intro rules specs pos isEntry seed level mapped hseed hothers hfields _ hs
    obtain ⟨hrules, hspecs⟩ := Specifier.everywhere_ns.1 hs
    refine ⟨.ns fun k m hk => ?_, nofun⟩
    -- Declared fields lie over the seed; the rest is the seed's.
    cases hk' : specs.get? k with
    | none => exact fits_undeclared hrules hseed hk' m ((congrArg Slot.node (hothers k hk')) ▸ hk)
    | some s =>
      obtain ⟨field, hfield, hslot⟩ := hfields k s hk'
      obtain ⟨hfits, hdata⟩ := hfield (hspecs k s hk')
      exact fits_overlay hrules hseed hk' hfits hdata m ((congrArg Slot.node hslot) ▸ hk)
  case record =>
    intro starters entry pos isEntry given level _ hstitched hs
    obtain ⟨-, hentry⟩ := Specifier.everywhere_record.1 hs
    have hslots := fits_stitched hstitched hentry
    -- Entries and snapshot are the same at the start.
    exact ⟨.record (fun k m hk => hslots k m hk) (fun k m hk => hslots k m hk)
      (stitched_kind hstitched), nofun⟩
  case givenLeaf =>
    intro rules pos given before hshadow hs _ m hm
    cases hm
    exact .leaf ((Specifier.everywhere_leaf.1 hs).given hshadow given)
  case givenNs =>
    intro rules specs pos isEntry given before fields inner mapped _ hothers hgiven _ hs hbefore
    obtain ⟨-, hspecs⟩ := Specifier.everywhere_ns.1 hs
    apply Slot.fits_ns
    intro k
    cases hk : givenFor? specs fields k with
    | none => exact fun m hm => hbefore.opened .ns k m ((congrArg Slot.node (hothers k hk)) ▸ hm)
    | some p =>
      obtain ⟨s, v⟩ := p
      have hdeclared := (specs_of_givenFor? hk).1
      have hslot := hbefore.opened .ns k
      change Slot.Fits L (specs.get? k) _ at hslot
      show Slot.Fits L (specs.get? k) (inner.slot k)
      rw [hdeclared] at hslot ⊢
      exact hgiven k s v hk (hspecs k s hdeclared) hslot
  case givenRecord =>
    intro starters entry pos given before level hstitched hs _ m hm
    obtain ⟨-, hentry⟩ := Specifier.everywhere_record.1 hs
    have hslots := fits_stitched hstitched hentry
    cases hm
    exact .record (fun k m hk => hslots k m hk) (fun k m hk => hslots k m hk)
      (stitched_kind hstitched)

theorem Specifier.defaults_fits {options : Options σ} {s : Specifier σ} (hs : s.Keeps options L)
    {pos : Position} {isEntry : Bool} {field : Initialized}
    (h : (s.defaults pos isEntry).Yields field) : field.node.Fits L (some s) :=
  hs.builds.fits h

/-! ## A change -/

section Change

variable {options : Options σ} {spec : Option (Specifier σ)} {pos : Position} {v w : Value}
  {slot slot' : Slot}

/-- Making sure of an entry leaves metadata that fits. -/
theorem Namespace.Ensures.fits {rules : NamespaceRules σ} {specs : Fields (Specifier σ)}
    (h : (Namespace.mk rules specs).Ensures pos slot slot')
    (hentry : (Specifier.ns rules specs).Builds L)
    (hslot : slot.Fits L (some (.ns rules specs))) : slot'.Fits L (some (.ns rules specs)) := by
  cases h with
  | created missing build =>
    intro m hm
    cases hm
    exact hentry.fits (Namespace.defaults_toSpecifier build)
  | kept => exact hslot

/-- Resolving adds record entries that fit. -/
theorem Resolves.fits (h : Resolves options spec pos v slot w slot')
    (hspec : ∀ s, spec = some s → s.Builds L) (hslot : slot.Fits L spec) :
    slot'.Fits L spec := by
  induction h with
  | free => exact hslot
  | leaf => exact hslot
  | @ns rules specs pos v slot fields c inner longhand names others each ih =>
    obtain ⟨-, hspecs⟩ := Specifier.everywhere_ns.1 (hspec _ rfl)
    apply hslot.leave_ns
    intro k
    have hinside := hslot.inside .ns k
    cases hx : fields.get? k with
    | none =>
      rw [others k hx]
      exact hinside
    | some x =>
      obtain ⟨y, hy⟩ := exists_of_names (fun k => (names k).symm) hx
      exact ih k x y hx hy (fun s hs => hspecs k s hs) hinside
  | @record starters rules specs pos slot entries c inner mid names others ensured each ih =>
    obtain ⟨-, hentry⟩ := Specifier.everywhere_record.1 (hspec _ rfl)
    refine hslot.leave_record (fun k => ?_) rfl
    have hinside := hslot.inside .record k
    cases hx : entries.get? k with
    | none =>
      rw [others k hx]
      exact hinside
    | some x =>
      obtain ⟨y, hy⟩ := exists_of_names (fun k => (names k).symm) hx
      have hmid := (ensured k x hx).fits hentry hinside
      exact ih k x y hx hy (Specifier.forall_of_some hentry) hmid

/-- The leaf that a change writes to is the one in the slot, or a new one. -/
private theorem leafNode_or (spec : Option (Specifier σ)) (hslot : slot.Fits L spec)
    (hleaf : containerKind? spec = none) :
    slot.node = none ∨ slot.node = some (.leaf (slot.leafNode spec.isSome .change)) := by
  unfold Slot.leafNode
  cases hnode : slot.node with
  | none => exact .inl rfl
  | some m =>
    obtain ⟨node, rfl⟩ := (hslot m hnode).leaf_of hleaf
    exact .inr rfl

/-- Committing a candidate writes leaves that fit. -/
theorem Commits.fits {isEntry : Bool} (h : Commits .change isEntry spec pos v slot slot')
    (hfree : KeptUndeclared L) (hspec : ∀ s, spec = some s → s.Keeps options L)
    (hcandidate : IsCandidate options spec pos v) (hslot : slot.Fits L spec) :
    slot'.Fits L spec := by
  induction h with
  | @value isEntry spec pos v slot closed =>
    have hleaf := hcandidate.terminal closed
    intro m hm
    cases hm
    -- What is written to is a leaf of the slot, which fits, or one that the change makes.
    have hor := leafNode_or spec hslot hleaf
    cases hcandidate with
    | free =>
      refine .free (hfree v _ ?_)
      rcases hor with hnone | hsome
      · exact .inl (by rw [Slot.leafNode, hnone]; rfl)
      · cases hslot _ hsome with
        | free here => exact .inr here
    | leaf value =>
      refine .leaf ((Specifier.everywhere_leaf.1 (hspec _ rfl)).changed _ _ v value _ ?_)
      rcases hor with hnone | hsome
      · exact .inl (by rw [Slot.leafNode, hnone]; rfl)
      · cases hslot _ hsome with
        | leaf here => exact .inr here
    | ns => cases hleaf
    | record => cases hleaf
  | @ns isEntry rules specs pos fields slot inner mapped others each mapper ih =>
    obtain ⟨-, hspecs⟩ := Specifier.everywhere_ns.1 (hspec _ rfl)
    cases hcandidate with
    | ns hfields =>
      apply Slot.fits_ns
      intro k
      have hopened := hslot.opened .ns k
      cases hk : fields.get? k with
      | none => exact fun m hm => hopened m ((congrArg Slot.node (others k hk)) ▸ hm)
      | some v => exact ih k v hk (fun s hs => hspecs k s hs) (hfields k v hk) hopened
  | @record isEntry starters rules specs pos entries slot inner objects others each ih =>
    obtain ⟨-, hentry⟩ := Specifier.everywhere_record.1 (hspec _ rfl)
    cases hcandidate with
    | record hentries =>
      -- The snapshot is the one from before.
      refine Slot.fits_record (fun k => ?_) (fun k m hk => hslot.snapshot hk) rfl
      have hopened := hslot.opened .record k
      cases hk : entries.get? k with
      | none =>
        rw [others k hk]
        exact hopened
      | some v =>
        exact ih k v hk (Specifier.forall_of_some hentry) (hentries k v hk) hopened

end Change

/-- In every store the metadata has the shape that the specification demands, and its leaves meet
any condition that each single write keeps. -/
theorem Store.Reachable.fits {spec : Namespace σ} {options : Options σ} {store : Store σ}
    (h : Store.Reachable spec options store) (hfree : KeptUndeclared L)
    (hspec : spec.toSpecifier.Keeps options L) :
    store.metadata.Fits L (some spec.toSpecifier) := by
  have hkeeps : ∀ s, some spec.toSpecifier = some s → s.Keeps options L :=
    Specifier.forall_of_some hspec
  have hslot : (Slot.of .ns store.level).Fits L (some spec.toSpecifier) := by
    refine h.level_induction (P := fun level => (Slot.of .ns level).Fits L (some spec.toSpecifier))
      (fun level hbuilt m hm => ?_) (fun input c level mid level' hlevel hresolves hcommits => ?_)
    · cases hm
      exact Specifier.defaults_fits hspec hbuilt
    · have hmid := hresolves.fits (fun s hs => (hkeeps s hs).builds) hlevel
      exact hcommits.fits hfree hkeeps hresolves.isCandidate hmid
  exact hslot _ rfl

end Settings
