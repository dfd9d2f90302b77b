import Settings.Proofs.Shape
import Settings.Proofs.Starters

/-!
# Where initial values come from

The initial value of a leaf is what its initializer returns, in its data representation, or what the
starters of a record on the way to it give: in a starter the value stands as it is, and it is
recorded just so (`Store.create_records`), even if it is nothing that the type mapper returns.
Without seeds there is nothing else (`Store.Reachable.initial_origin`): a change records no initial
values, apart from those that come with the entries that it introduces.
-/

set_option autoImplicit false

namespace Settings

variable {σ : Type}

/-! ## Origins of initial values -/

/-- What the initializer returns, in its data representation. -/
def LeafRules.Starts (rules : LeafRules σ) (v : Value) : Prop :=
  ∃ pos w, (rules.runInitial pos).Yields (some w) ∧ (rules.coerce w pos).Yields v

/-- A value that is laid over a node gives a leaf inside a value: the one that stands at the leaf's
path once shorthands are expanded. Shadow leaves are not given, nor are values that are `null`. -/
inductive GivesAt : Specifier σ → Value → List String → LeafRules σ → Value → Prop
  | leaf {rules : LeafRules σ} {v : Value} : GivesAt (.leaf rules) v [] rules v
  | ns {rules : NamespaceRules σ} {specs : Fields (Specifier σ)} {v x y : Value} {pos : Position}
      {fields : Fields Value} {name : String} {s : Specifier σ} {path : List String}
      {leaf : LeafRules σ} (longhand : (rules.longhand v pos).Yields fields)
      (given : givenFor? specs fields name = some (s, x)) (rest : GivesAt s x path leaf y) :
      GivesAt (.ns rules specs) v (name :: path) leaf y
  | record {starters : Option (CallM σ Value)} {entry : Specifier σ} {entries : Fields Value}
      {name : String} {x y : Value} {path : List String} {leaf : LeafRules σ}
      (given : entries.get? name = some x) (rest : GivesAt entry x path leaf y) :
      GivesAt (.record starters entry) (.obj entries) (name :: path) leaf y

/-- The starters of a record on the way to a leaf give the leaf a value. -/
inductive StartersGive : Specifier σ → List String → LeafRules σ → Value → Prop
  | here {starters : Option (CallM σ Value)} {entry : Specifier σ} {pos : Position}
      {given : Fields Value} {path : List String} {leaf : LeafRules σ} {v : Value}
      (run : (runSeed starters pos).Yields given)
      (gives : GivesAt (.record starters entry) (.obj given) path leaf v) :
      StartersGive (.record starters entry) path leaf v
  | inside {s child : Specifier σ} {name : String} {path : List String} {leaf : LeafRules σ}
      {v : Value} (at_name : s.below? name = some child)
      (rest : StartersGive child path leaf v) : StartersGive s (name :: path) leaf v

/-- Where the initial value of a leaf inside a node comes from. -/
def InitialFrom (s : Specifier σ) (path : List String) (leaf : LeafRules σ) (v : Value) : Prop :=
  leaf.Starts v ∨ StartersGive s path leaf v

theorem InitialFrom.below {s child : Specifier σ} {name : String} {path : List String}
    {leaf : LeafRules σ} {v : Value} (at_name : s.below? name = some child)
    (h : InitialFrom child path leaf v) : InitialFrom s (name :: path) leaf v := by
  rcases h with hstarts | hgive
  · exact .inl hstarts
  · exact .inr (.inside at_name hgive)

/-- No namespace of the specification starts from data of its own. -/
def Specifier.WithoutSeeds : Specifier σ → Prop :=
  Specifier.Everywhere (fun _ => True) (fun rules _ => rules.seed = none) fun _ => True

/-! ## Initial values in metadata -/

variable {P Q : List String → LeafRules σ → Value → Prop}

/-- The recorded initial values of all declared leaves meet a condition that may depend on where the
leaf is. -/
def Metadata.Initials (P : List String → LeafRules σ → Value → Prop) (spec : Option (Specifier σ))
    (m : Metadata) : Prop :=
  ∀ path rules node v, Leads spec path (some (.leaf rules)) → m.Reaches path (.leaf node) →
    node.initial = some v → P path rules v

def Slot.Initials (P : List String → LeafRules σ → Value → Prop) (spec : Option (Specifier σ))
    (slot : Slot) : Prop := ∀ m, slot.node = some m → m.Initials P spec

theorem Metadata.Initials.imp {spec : Option (Specifier σ)} {m : Metadata} (h : m.Initials P spec)
    (himp : ∀ path rules v, P path rules v → Q path rules v) : m.Initials Q spec :=
  fun path rules node v hleads hreaches hinitial =>
    himp path rules v (h path rules node v hleads hreaches hinitial)

theorem Slot.initials_empty {spec : Option (Specifier σ)} {data : Option Value} :
    (⟨data, none⟩ : Slot).Initials P spec := by
  rintro m ⟨⟩

theorem Metadata.initials_leaf {spec : Option (Specifier σ)} {node : LeafNode}
    (h : ∀ rules v, spec = some (.leaf rules) → node.initial = some v → P [] rules v) :
    (Metadata.leaf node).Initials P spec := by
  intro path rules node' v hleads hreaches hinitial
  cases hreaches
  cases hleads
  exact h rules v rfl hinitial

/-- Inside a container the condition is about the paths that go on from the name. -/
theorem Slot.initials_ns {rules : NamespaceRules σ} {specs : Fields (Specifier σ)} {inner : Level}
    (h : ∀ k, (inner.slot k).Initials (fun path => P (k :: path)) (specs.get? k)) :
    (of .ns inner).Initials P (some (.ns rules specs)) := by
  intro m hm path leaf node v hleads hreaches hinitial
  cases hm
  cases hleads with
  | field rest =>
    cases hreaches with
    | field at_name inside => exact h _ _ at_name _ _ _ _ rest inside hinitial

theorem Slot.initials_record {starters : Option (CallM σ Value)} {entry : Specifier σ}
    {provenance : Provenance} {initial : Fields Metadata} {inner : Level}
    (h : ∀ k, (inner.slot k).Initials (fun path => P (k :: path)) (some entry))
    (hinitial : ∀ k m, initial.get? k = some m → m.Initials (fun path => P (k :: path))
      (some entry)) :
    (of (.record provenance initial) inner).Initials P (some (.record starters entry)) := by
  intro m hm path leaf node v hleads hreaches hvalue
  cases hm
  cases hleads with
  | entry rest =>
    cases hreaches with
    | entry at_name inside => exact h _ _ at_name _ _ _ _ rest inside hvalue
    | snapshot at_name inside => exact hinitial _ _ at_name _ _ _ _ rest inside hvalue

theorem Metadata.Initials.opened {s : Specifier σ} {m : Metadata} (h : m.Initials P (some s))
    {kind : ContainerKind} {container : Container} {nodes : Fields Metadata}
    (hopen : m.open? kind = some (container, nodes)) {k : String} {node : Metadata}
    (hk : nodes.get? k = some node) : node.Initials (fun path => P (k :: path)) (s.below? k) := by
  intro path rules leaf v hleads hreaches hinitial
  have hcontainer : containerKind? (some s) ≠ none := by
    cases s with
    | leaf => cases hleads
    | ns => exact Option.some_ne_none _
    | record => exact Option.some_ne_none _
  refine h (k :: path) rules leaf v (leads_cons.2 ⟨hcontainer, hleads⟩) ?_ hinitial
  cases m with
  | leaf => cases kind <;> cases hopen
  | ns =>
    cases kind <;> cases hopen
    exact .field hk hreaches
  | record =>
    cases kind <;> cases hopen
    exact .entry hk hreaches

theorem Slot.Initials.opened {s : Specifier σ} {slot : Slot} (h : slot.Initials P (some s))
    (kind : ContainerKind) (k : String) :
    ((slot.opened kind).slot k).Initials (fun path => P (k :: path)) (s.below? k) := by
  intro node hnode
  obtain ⟨outer, container, nodes, houter, hopen, hk⟩ := Level.node_opened hnode
  exact (h outer houter).opened hopen hk

theorem Slot.Initials.inside {s : Specifier σ} {slot : Slot} (h : slot.Initials P (some s))
    (kind : ContainerKind) (k : String) :
    ((slot.inside kind).slot k).Initials (fun path => P (k :: path)) (s.below? k) :=
  fun node hnode => h.opened kind k node (Level.node_inside hnode)

theorem Slot.Initials.snapshot {starters : Option (CallM σ Value)} {entry : Specifier σ}
    {slot : Slot} (h : slot.Initials P (some (.record starters entry))) {k : String} {m : Metadata}
    (hk : slot.snapshot.get? k = some m) :
    m.Initials (fun path => P (k :: path)) (some entry) := by
  unfold Slot.snapshot at hk
  split at hk
  · next provenance nodes initial hnode =>
    intro path rules leaf v hleads hreaches hinitial
    exact h _ hnode (k :: path) rules leaf v (.entry hleads) (.snapshot hk hreaches) hinitial
  · cases hk

theorem Slot.Initials.leave_ns {rules : NamespaceRules σ} {specs : Fields (Specifier σ)}
    {slot : Slot} (h : slot.Initials P (some (.ns rules specs))) {inner : Level}
    (hinner : ∀ k, (inner.slot k).Initials (fun path => P (k :: path)) (specs.get? k)) :
    (slot.leave .ns inner).Initials P (some (.ns rules specs)) := by
  cases henter : slot.enter? .ns with
  | none =>
    rw [leave_of_not_enter? henter]
    split
    · exact h
    · exact Slot.initials_ns hinner
  | some entered =>
    obtain ⟨container, level⟩ := entered
    rw [leave_of_enter? henter, of_enter?_ns henter]
    exact Slot.initials_ns hinner

theorem Slot.Initials.leave_record {starters : Option (CallM σ Value)} {entry : Specifier σ}
    {slot : Slot} (h : slot.Initials P (some (.record starters entry))) {inner : Level}
    (hinner : ∀ k, (inner.slot k).Initials (fun path => P (k :: path)) (some entry)) :
    (slot.leave .record inner).Initials P (some (.record starters entry)) := by
  cases henter : slot.enter? .record with
  | none =>
    rw [leave_of_not_enter? henter]
    split
    · exact h
    · exact Slot.initials_record hinner (by rintro k m ⟨⟩)
  | some entered =>
    obtain ⟨container, level⟩ := entered
    rw [leave_of_enter? henter]
    obtain ⟨provenance, initial, rfl⟩ := of_enter?_record henter
    -- The record keeps its snapshot.
    refine Slot.initials_record hinner fun k m hk => h.snapshot ?_
    rw [of_enter? henter]
    exact hk

/-! ## Initialization -/

theorem LeafRules.starts_of_defaults {rules : LeafRules σ} {pos : Position} {field : Initialized}
    (h : (rules.defaults pos).Yields field) {v : Value} (hv : field.data = some v) :
    rules.Starts v := by
  obtain ⟨initial, hinitial, h⟩ := h.of_bind
  cases initial with
  | none =>
    obtain ⟨x, hx, h⟩ := h.of_bind
    rw [h.of_pure, hx.of_pure] at hv
    cases hv
  | some w =>
    obtain ⟨x, hx, h⟩ := h.of_bind
    obtain ⟨y, hy, rfl⟩ := hx.of_map
    rw [h.of_pure] at hv
    cases hv
    exact ⟨pos, w, hinitial, hy⟩

/-- What is built records initial values that come from somewhere. -/
private def BuiltFrom (s : Specifier σ) (_pos : Position) (_isEntry : Bool) (field : Initialized) :
    Prop :=
  s.WithoutSeeds → field.node.Initials (InitialFrom s) (some s) ∧ field.WithData s

/-- Laying a value over a node records what the value gives, beside what was there before and what
comes with the entries that it makes. -/
private def LaidFrom (s : Specifier σ) (_pos : Position) (_isEntry : Bool) (v : Value)
    (before after : Slot) : Prop :=
  s.WithoutSeeds → ∀ P : List String → LeafRules σ → Value → Prop,
    (∀ path rules x, InitialFrom s path rules x → P path rules x) →
    (∀ path rules x, GivesAt s v path rules x → P path rules x) →
    before.Initials P (some s) → after.Initials P (some s)

/-- Entries that are made from starters record what the starters give them, and what their fields
come with. -/
private theorem initials_stitched {entry : Specifier σ} {given : Fields Value} {pos : Position}
    {level : Level} (h : IsStitched BuiltFrom LaidFrom entry given pos level)
    (hentry : entry.WithoutSeeds) {k : String}
    (hfrom : ∀ path rules x, InitialFrom entry path rules x → P path rules x)
    (hgives : ∀ v, given.get? k = some v → ∀ path rules x, GivesAt entry v path rules x →
      P path rules x) :
    (level.slot k).Initials P (some entry) := by
  cases h with
  | none => exact Slot.initials_empty
  | @some rules specs _ _ canonical _ hcanonical others entries =>
    obtain ⟨-, hspecs⟩ := Specifier.everywhere_ns.1 hentry
    have hinitials : (Slot.of .ns canonical).Initials P (some (.ns rules specs)) := by
      apply Slot.initials_ns
      intro name m hm
      obtain ⟨s, field, hs, hfield, rfl⟩ := hcanonical.exists_field hm
      rw [hs]
      exact (hfield (hspecs name s hs)).1.imp fun path leaf x h => hfrom _ _ _ (h.below hs)
    cases hk : given.get? k with
    | none =>
      rw [others k hk]
      exact Slot.initials_empty
    | some starter =>
      obtain ⟨inner, hslot, hlaid⟩ := entries k starter hk
      rw [hslot]
      exact hlaid hentry P hfrom (hgives starter hk) hinitials

/-- A namespace without seed records what was built for its fields. -/
private theorem initials_fields {rules : NamespaceRules σ} {specs : Fields (Specifier σ)}
    {pos : Position} {level : Level}
    (hspecs : ∀ k s, specs.get? k = some s → s.WithoutSeeds)
    (hfields : ∀ k s, specs.get? k = some s → ∃ field, BuiltFrom s (pos.child k) false field ∧
      level.slot k = ((Level.ofSeed specs ∅).slot k).overlay field) (data : Fields Value) :
    (Slot.of .ns ⟨data, level.nodes⟩).Initials (InitialFrom (.ns rules specs))
      (some (.ns rules specs)) := by
  apply Slot.initials_ns
  intro k m hm
  cases hk : specs.get? k with
  | none =>
    intro path leaf node v hleads
    cases hleads
  | some s =>
    obtain ⟨field, hfield, hslot⟩ := hfields k s hk
    obtain ⟨hinitials, hdata⟩ := hfield (hspecs k s hk)
    -- There is no seed, so what lies at the name is what was built for it.
    obtain hbuilt | ⟨_, _, -, hseed, -⟩ := Level.overlay_ofSeed hk hdata ∅
    · have hnode : (level.slot k).node = some field.node := by rw [hslot, hbuilt]
      obtain rfl : m = field.node := Option.some.inj (hm.symm.trans hnode)
      exact hinitials.imp fun path leaf x h => h.below hk
    · cases hseed

/-- What is laid over a namespace records what it gives to the fields, and leaves the others as they
are. -/
private theorem laidFrom_ns {rules : NamespaceRules σ} {specs : Fields (Specifier σ)}
    {pos : Position} {isEntry : Bool} {v : Value} {before : Slot} {fields : Fields Value}
    {inner : Level} (hlonghand : (rules.longhand v pos).Yields fields)
    (hothers : ∀ k, givenFor? specs fields k = none →
      inner.slot k = (before.opened .ns).slot k)
    (hgiven : ∀ k s x, givenFor? specs fields k = some (s, x) →
      LaidFrom s (pos.child k) false x ((before.opened .ns).slot k) (inner.slot k))
    (data : Fields Value) :
    LaidFrom (.ns rules specs) pos isEntry v before (.of .ns ⟨data, inner.nodes⟩) := by
  intro hs P hfrom hgives hbefore
  obtain ⟨-, hspecs⟩ := Specifier.everywhere_ns.1 hs
  apply Slot.initials_ns
  intro k
  have hopened := hbefore.opened .ns k
  change Slot.Initials _ (specs.get? k) _ at hopened
  cases hk : givenFor? specs fields k with
  | none => exact fun m hm => hopened m ((congrArg Slot.node (hothers k hk)) ▸ hm)
  | some p =>
    obtain ⟨s, x⟩ := p
    have hdeclared := (specs_of_givenFor? hk).1
    rw [hdeclared] at hopened ⊢
    refine hgiven k s x hk (hspecs k s hdeclared) _ (fun path leaf y hy => ?_)
      (fun path leaf y hy => ?_) hopened
    · exact hfrom _ _ _ (hy.below hdeclared)
    · exact hgives _ _ _ (.ns hlonghand hk hy)

theorem Specifier.defaults_initials {s : Specifier σ} (hs : s.WithoutSeeds) {pos : Position}
    {isEntry : Bool} {field : Initialized} (h : (s.defaults pos isEntry).Yields field) :
    field.node.Initials (InitialFrom s) (some s) := by
  refine (Specifier.defaults_induction (D := BuiltFrom) (G := LaidFrom) ?leaf ?ns ?record ?givenLeaf
    ?givenNs ?givenRecord h hs).1
  case leaf =>
    intro rules pos isEntry field h _
    refine ⟨?_, LeafRules.withData_of_defaults h⟩
    rw [LeafRules.node_of_defaults h]
    apply Metadata.initials_leaf
    rintro _ v ⟨⟩ hv
    exact .inl (LeafRules.starts_of_defaults h hv)
  case ns =>
    intro rules specs pos isEntry seed level mapped hseed _ hfields _ hs
    obtain ⟨hrules, hspecs⟩ := Specifier.everywhere_ns.1 hs
    rw [hrules] at hseed
    obtain rfl : seed = ∅ := hseed.of_pure
    exact ⟨initials_fields hspecs hfields (level.data.assign mapped) _ rfl, by rintro ⟨⟩⟩
  case record =>
    intro starters entry pos isEntry given level hgiven hstitched hs
    obtain ⟨-, hentry⟩ := Specifier.everywhere_record.1 hs
    have hslots (k : String) : (level.slot k).Initials
        (fun path => InitialFrom (.record starters entry) (k :: path)) (some entry) := by
      refine initials_stitched hstitched hentry (fun path leaf x hfrom => ?_)
        (fun v hv path leaf x hgives => ?_)
      · exact hfrom.below rfl
      · exact .inr (.here hgiven (.record hv hgives))
    have hslot : (Slot.of (.record .initial level.nodes) level).Initials
        (InitialFrom (.record starters entry)) (some (.record starters entry)) :=
      Slot.initials_record hslots fun k m hk => hslots k m hk
    exact ⟨hslot _ rfl, by rintro ⟨⟩⟩
  case givenLeaf =>
    intro rules pos v before _ _ P _ hgives _ m hm
    cases hm
    apply Metadata.initials_leaf
    rintro _ x ⟨⟩ ⟨⟩
    exact hgives [] rules v .leaf
  case givenNs =>
    intro rules specs pos isEntry v before fields inner mapped hlonghand hothers hgiven _
    exact laidFrom_ns hlonghand hothers hgiven _
  case givenRecord =>
    intro starters entry pos given before level hstitched hs P hfrom hgives _
    obtain ⟨-, hentry⟩ := Specifier.everywhere_record.1 hs
    have hslots (k : String) :
        (level.slot k).Initials (fun path => P (k :: path)) (some entry) := by
      refine initials_stitched hstitched hentry (fun path leaf x hx => ?_)
        (fun v hv path leaf x hx => ?_)
      · exact hfrom _ _ _ (hx.below rfl)
      · exact hgives _ _ _ (.record hv hx)
    exact Slot.initials_record hslots fun k m hk => hslots k m hk

/-! ## What starters give is recorded -/

/-- The starters of a record that namespaces alone lead to give a leaf a value. -/
inductive OutermostGive : Specifier σ → List String → LeafRules σ → Value → Prop
  | here {starters : Option (CallM σ Value)} {entry : Specifier σ} {pos : Position}
      {given : Fields Value} {path : List String} {leaf : LeafRules σ} {v : Value}
      (run : (runSeed starters pos).Yields given)
      (gives : GivesAt (.record starters entry) (.obj given) path leaf v) :
      OutermostGive (.record starters entry) path leaf v
  | field {rules : NamespaceRules σ} {specs : Fields (Specifier σ)} {name : String}
      {s : Specifier σ} {path : List String} {leaf : LeafRules σ} {v : Value}
      (declared : specs.get? name = some s) (rest : OutermostGive s path leaf v) :
      OutermostGive (.ns rules specs) (name :: path) leaf v

/-- What the outermost starters give inside a node is recorded there. -/
private def Recorded (s : Specifier σ) (_pos : Position) (_isEntry : Bool) (field : Initialized) :
    Prop :=
  s.Determined → field.WithData s ∧ ∀ path leaf v, OutermostGive s path leaf v →
    field.node.Reaches path (.leaf (.fresh (some v) .initial))

/-- What a value gives that is laid over a node is recorded there. -/
private def RecordedGiven (s : Specifier σ) (_pos : Position) (_isEntry : Bool) (v : Value)
    (_before after : Slot) : Prop :=
  s.Determined → ∀ path leaf x, GivesAt s v path leaf x →
    ∃ m, after.node = some m ∧ m.Reaches path (.leaf (.fresh (some x) .initial))

private theorem recorded_stitched {starters : Option (CallM σ Value)} {entry : Specifier σ}
    {given : Fields Value} {pos : Position} {level : Level}
    (h : IsStitched Recorded RecordedGiven entry given pos level) (hentry : entry.Determined)
    {path : List String} {leaf : LeafRules σ} {v : Value}
    (hgives : GivesAt (.record starters entry) (.obj given) path leaf v) :
    (Metadata.freshRecord level.nodes).Reaches path (.leaf (.fresh (some v) .initial)) := by
  cases hgives with
  | record hk rest =>
    cases h with
    | none => cases hk
    | some _ _ entries =>
      obtain ⟨inner, hslot, hlaid⟩ := entries _ _ hk
      obtain ⟨m, hm, hreaches⟩ := hlaid hentry _ _ _ rest
      exact .entry ((congrArg Slot.node hslot).trans hm) hreaches

theorem Specifier.defaults_records {s : Specifier σ} (hs : s.Determined) {pos : Position}
    {isEntry : Bool} {field : Initialized} (h : (s.defaults pos isEntry).Yields field)
    {path : List String} {leaf : LeafRules σ} {v : Value} (hgive : OutermostGive s path leaf v) :
    field.node.Reaches path (.leaf (.fresh (some v) .initial)) := by
  refine (Specifier.defaults_induction (D := Recorded) (G := RecordedGiven) ?leaf ?ns ?record
    ?givenLeaf ?givenNs ?givenRecord h hs).2 path leaf v hgive
  case leaf =>
    intro rules pos isEntry field h _
    exact ⟨LeafRules.withData_of_defaults h, by rintro _ _ _ ⟨⟩⟩
  case ns =>
    intro rules specs pos isEntry seed level mapped _ _ hfields _ hs
    obtain ⟨-, hspecs⟩ := Specifier.everywhere_ns.1 hs
    refine ⟨by rintro ⟨⟩, fun path leaf v hgive => ?_⟩
    cases hgive with
    | @field _ _ name s path _ _ declared rest =>
      obtain ⟨field, hfield, hslot⟩ := hfields name s declared
      obtain ⟨hdata, hrecorded⟩ := hfield (hspecs name s declared)
      -- The way leads on into a container, which replaces whatever the seed had at the name.
      obtain hbuilt | ⟨_, _, rfl, -⟩ := Level.overlay_ofSeed declared hdata seed
      · have hnode : (level.slot name).node = some field.node := by rw [hslot, hbuilt]
        exact .field hnode (hrecorded path leaf v rest)
      · cases rest
  case record =>
    intro starters entry pos isEntry given level hgiven hstitched hs
    obtain ⟨hstarters, hentry⟩ := Specifier.everywhere_record.1 hs
    refine ⟨by rintro ⟨⟩, fun path leaf v hgive => ?_⟩
    cases hgive with
    | here run gives =>
      obtain rfl := runSeed_unique hstarters hgiven run
      exact recorded_stitched hstitched hentry gives
  case givenLeaf =>
    intro rules pos v before _ _ path leaf x hgives
    cases hgives
    exact ⟨_, rfl, .here⟩
  case givenNs =>
    intro rules specs pos isEntry v before fields inner mapped hfields _ hlaid _ hs path leaf x
      hgives
    obtain ⟨hrules, hspecs⟩ := Specifier.everywhere_ns.1 hs
    cases hgives with
    | @ns _ _ _ _ _ _ _ name s _ _ longhand given rest =>
      obtain rfl := hrules.longhand_unique hfields longhand
      obtain ⟨m, hm, hreaches⟩ :=
        hlaid name s _ given (hspecs name s (specs_of_givenFor? given).1) _ _ _ rest
      exact ⟨_, rfl, .field hm hreaches⟩
  case givenRecord =>
    intro starters entry pos given before level hstitched hs path leaf x hgives
    obtain ⟨-, hentry⟩ := Specifier.everywhere_record.1 hs
    exact ⟨_, rfl, recorded_stitched hstitched hentry hgives⟩

/-! ## A change -/

section Change

variable {options : Options σ} {spec : Option (Specifier σ)} {pos : Position} {v w : Value}
  {slot slot' : Slot}

theorem Namespace.Ensures.initials {rules : NamespaceRules σ} {specs : Fields (Specifier σ)}
    (h : (Namespace.mk rules specs).Ensures pos slot slot')
    (hentry : (Specifier.ns rules specs).WithoutSeeds)
    (hfrom : ∀ path leaf x, InitialFrom (.ns rules specs) path leaf x → P path leaf x)
    (hslot : slot.Initials P (some (.ns rules specs))) :
    slot'.Initials P (some (.ns rules specs)) := by
  cases h with
  | created missing build =>
    intro m hm
    cases hm
    exact (Specifier.defaults_initials hentry (Namespace.defaults_toSpecifier build)).imp hfrom
  | kept => exact hslot

/-- Resolving records initial values only with the entries that it adds. -/
theorem Resolves.initials (h : Resolves options spec pos v slot w slot')
    (hspec : ∀ s, spec = some s → s.WithoutSeeds)
    (hfrom : ∀ s, spec = some s → ∀ path leaf x, InitialFrom s path leaf x → P path leaf x)
    (hslot : slot.Initials P spec) : slot'.Initials P spec := by
  induction h generalizing P with
  | free => exact hslot
  | leaf => exact hslot
  | @ns rules specs pos v slot fields c inner longhand names others each ih =>
    obtain ⟨-, hspecs⟩ := Specifier.everywhere_ns.1 (hspec _ rfl)
    apply hslot.leave_ns
    intro k
    have hinside := hslot.inside .ns k
    cases hx : fields.get? k with
    | none =>
      rw [others k hx]
      exact hinside
    | some x =>
      obtain ⟨y, hy⟩ := exists_of_names (fun k => (names k).symm) hx
      refine ih k x y hx hy (fun s hs => hspecs k s hs) (fun s hs path leaf x h => ?_) hinside
      exact hfrom _ rfl _ _ _ (h.below hs)
  | @record starters rules specs pos slot entries c inner mid names others ensured each ih =>
    obtain ⟨-, hentry⟩ := Specifier.everywhere_record.1 (hspec _ rfl)
    apply hslot.leave_record
    intro k
    have hinside := hslot.inside .record k
    cases hx : entries.get? k with
    | none =>
      rw [others k hx]
      exact hinside
    | some x =>
      obtain ⟨y, hy⟩ := exists_of_names (fun k => (names k).symm) hx
      have hbelow (path : List String) (leaf : LeafRules σ) (x : Value)
          (h : InitialFrom (.ns rules specs) path leaf x) : P (k :: path) leaf x :=
        hfrom _ rfl _ _ _ (h.below rfl)
      have hmid := (ensured k x hx).initials hentry hbelow hinside
      exact ih k x y hx hy (Specifier.forall_of_some hentry) (Specifier.forall_of_some hbelow) hmid

/-- A change to a candidate records no initial values. -/
theorem Commits.initials {isEntry : Bool} (h : Commits .change isEntry spec pos v slot slot')
    (hslot : slot.Initials P spec) : slot'.Initials P spec := by
  induction h generalizing P with
  | @value isEntry spec pos v slot closed =>
    intro m hm
    obtain ⟨leaf, hwrite, -, -, hleaf⟩ := slot.write_change spec.isSome v
    rw [hwrite] at hm
    cases hm
    apply Metadata.initials_leaf
    rintro rules x rfl hx
    rw [hleaf] at hx
    -- The initial value was recorded before, in the leaf that is written to.
    obtain ⟨node, hnode, hinitial⟩ := Option.bind_eq_some_iff.1 hx
    obtain ⟨m, hm, hnode⟩ := Option.bind_eq_some_iff.1 hnode
    cases m with
    | leaf =>
      cases hnode
      exact hslot _ hm [] rules node x .here .here hinitial
    | ns => cases hnode
    | record => cases hnode
  | @ns isEntry rules specs pos fields slot inner mapped others each mapper ih =>
    apply Slot.initials_ns
    intro k
    have hopened := hslot.opened .ns k
    cases hk : fields.get? k with
    | none => exact fun m hm => hopened m ((congrArg Slot.node (others k hk)) ▸ hm)
    | some x => exact ih k x hk hopened
  | @record isEntry starters rules specs pos entries slot inner objects others each ih =>
    refine Slot.initials_record (fun k => ?_) fun k m hk => hslot.snapshot hk
    have hopened := hslot.opened .record k
    cases hk : entries.get? k with
    | none =>
      rw [others k hk]
      exact hopened
    | some x => exact ih k x hk hopened

end Change

/-! ## Stores -/

theorem Store.Reachable.initials {root : Namespace σ} {options : Options σ} {store : Store σ}
    (h : Store.Reachable root options store) (hseeds : root.toSpecifier.WithoutSeeds) :
    store.metadata.Initials (InitialFrom root.toSpecifier) (some root.toSpecifier) := by
  have hslot : (Slot.of .ns store.level).Initials (InitialFrom root.toSpecifier)
      (some root.toSpecifier) := by
    refine h.level_induction (P := fun level => (Slot.of .ns level).Initials
      (InitialFrom root.toSpecifier) (some root.toSpecifier)) (fun level hbuilt m hm => ?_)
      (fun input c level mid level' hlevel hresolves hcommits => ?_)
    · cases hm
      exact Specifier.defaults_initials hseeds hbuilt
    · have hmid := hresolves.initials (Specifier.forall_of_some hseeds)
        (Specifier.forall_of_some fun _ _ _ h => h) hlevel
      exact hcommits.initials hmid
  exact hslot _ rfl

/-- With determined callbacks, what the outermost starters give is recorded when the store is built,
without a look at the type mapper. -/
theorem Store.create_records {root : Namespace σ} {options : Options σ} {store : Store σ}
    (hroot : root.toSpecifier.Determined) (h : (Store.create root options).Yields store)
    {path : List String} {leaf : LeafRules σ} {v : Value}
    (hgive : OutermostGive root.toSpecifier path leaf v) :
    store.metadata.Reaches path (.leaf (.fresh (some v) .initial)) := by
  obtain ⟨level, rfl, hlevel⟩ := Store.create_yields h
  exact Specifier.defaults_records hroot (Namespace.defaults_toSpecifier hlevel) hgive

/-- Where no namespace has a seed, the initial value of a leaf that has a type mapper was returned
by the mapper for what the initializer returns, or it is what the starters of a record on the way
give for the leaf. -/
theorem Store.Reachable.initial_origin {root : Namespace σ} {options : Options σ} {store : Store σ}
    (h : Store.Reachable root options store) (hseeds : root.toSpecifier.WithoutSeeds)
    {path : List String} {rules : LeafRules σ} {mapType : Value → CallM σ Value}
    (hleads : Leads (some root.toSpecifier) path (some (.leaf rules)))
    (hmap : rules.mapType = some mapType) {node : LeafNode} {v : Value}
    (hreaches : store.metadata.Reaches path (.leaf node)) (hinitial : node.initial = some v) :
    (∃ initial w, rules.initial = some initial ∧ initial.Yields w ∧ (mapType w).Yields v) ∨
      StartersGive root.toSpecifier path rules v := by
  rcases h.initials hseeds path rules node v hleads hreaches hinitial with hstarts | hgive
  · obtain ⟨pos, w, hw, hv⟩ := hstarts
    unfold LeafRules.runInitial at hw
    unfold LeafRules.coerce at hv
    rw [hmap] at hv
    cases hrules : rules.initial with
    | none =>
      rw [hrules] at hw
      cases hw.of_pure
    | some initial =>
      rw [hrules] at hw
      obtain ⟨x, hx, hw⟩ := hw.of_bind
      obtain rfl : w = x := Option.some.inj hw.of_pure
      exact .inl ⟨initial, w, rfl, hx.of_mapError, hv.of_mapError⟩
  · exact .inr hgive

namespace Wrapped

def wrap (v : Value) : CallM Unit Value := pure (.arr [v])

/-- A text that is put into a list. -/
def text : LeafRules Unit := ⟨some (pure (.str "0")), none, none, some wrap, false⟩

/-- A record with two starters, of which one says nothing about the text. -/
def root : Namespace Unit :=
  ⟨⟨none, none, none⟩,
    .ofList [("r", .record (some (pure (.obj (.ofList [("x", .obj (.ofList [("b", .str "1")])),
      ("y", .obj ∅)])))) (.ns ⟨none, none, none⟩ (.ofList [("b", .leaf text)])))]⟩

def built : Store Unit :=
  ((Store.create root Hosts.quiet ()).1.toOption).getD ⟨root, Hosts.quiet, ∅⟩

theorem built_reachable : Store.Reachable root Hosts.quiet built := .create ⟨(), (), rfl⟩

theorem root_withoutSeeds : root.toSpecifier.WithoutSeeds := by
  have hentry : (Specifier.ns ⟨none, none, none⟩ (.ofList [("b", .leaf text)])).WithoutSeeds :=
    .ns rfl (SortedMap.forall_insert (.leaf trivial) fun _ _ h => nomatch h)
  exact .ns rfl (SortedMap.forall_insert (.record trivial hentry) fun _ _ h => nomatch h)

theorem text_leads (name : String) :
    Leads (some root.toSpecifier) ["r", name, "b"] (some (.leaf text)) :=
  .field (.entry (.field .here))

/-- The text of the second entry is the initial one, put into a list; that of the first is not. -/
theorem text_reaches :
    built.metadata.Reaches ["r", "y", "b"] (.leaf (.fresh (some (.arr [.str "0"])) .initial)) ∧
      built.metadata.Reaches ["r", "x", "b"] (.leaf (.fresh (some (.str "1")) .initial)) :=
  ⟨.field rfl (.entry rfl (.field rfl .here)), .field rfl (.entry rfl (.field rfl .here))⟩

end Wrapped

/-- The text that a starter gives is recorded as it is, though the mapper returns lists alone. -/
theorem Store.initial_unmapped :
    Store.Reachable Wrapped.root Hosts.quiet Wrapped.built ∧
      Wrapped.root.toSpecifier.WithoutSeeds ∧ Wrapped.root.toSpecifier.Determined ∧
      Leads (some Wrapped.root.toSpecifier) ["r", "x", "b"] (some (.leaf Wrapped.text)) ∧
      Wrapped.text.mapType = some Wrapped.wrap ∧
      Wrapped.built.metadata.Reaches ["r", "x", "b"]
        (.leaf (.fresh (some (.str "1")) .initial)) ∧
      ∀ w, ¬ (Wrapped.wrap w).Yields (.str "1") := by
  refine ⟨Wrapped.built_reachable, Wrapped.root_withoutSeeds,
    Specifier.determined_of_subsingleton _, Wrapped.text_leads "x", rfl, Wrapped.text_reaches.2, ?_⟩
  intro w hw
  cases hw.of_pure

theorem Store.Reachable.initial_origin_wrapped :
    (∃ initial w, Wrapped.text.initial = some initial ∧ initial.Yields w ∧
      (Wrapped.wrap w).Yields (.str "1")) ∨
      StartersGive Wrapped.root.toSpecifier ["r", "x", "b"] Wrapped.text (.str "1") :=
  Store.Reachable.initial_origin Wrapped.built_reachable Wrapped.root_withoutSeeds
    (Wrapped.text_leads "x") rfl Wrapped.text_reaches.2 rfl

end Settings
