import Settings.Proofs.Change

/-!
# The effect of a change at every position

`Origin` says what a change starts from at a position: what is there, or inside an entry that the
candidate introduces, what initialization builds for the entry. Without mappers, and with determined
callbacks, a successful change leaves exactly that wherever the candidate names nothing, and at a
leaf or undeclared key that it names it writes the candidate's value over it.
-/

set_option autoImplicit false

namespace Settings

variable {σ : Type}

/-- What a change to a candidate starts from at a position below a slot. Where the candidate names
nothing, it is `none`. -/
inductive Origin : Option (Specifier σ) → Position → Slot → Option Value → List String → Slot → Prop
  | here {spec : Option (Specifier σ)} {pos : Position} {slot : Slot} {c : Option Value} :
      Origin spec pos slot c [] slot
  | field {rules : NamespaceRules σ} {specs : Fields (Specifier σ)} {pos : Position} {slot : Slot}
      {c : Option Value} {name : String} {path : List String} {base : Slot}
      (rest : Origin (specs.get? name) (pos.child name) (slot.child name)
        (c.bind (·.field? name)) path base) :
      Origin (some (.ns rules specs)) pos slot c (name :: path) base
  | entry {starters : Option (CallM σ Value)} {entry : Specifier σ} {pos : Position} {slot : Slot}
      {c : Option Value} {name : String} {path : List String} {base : Slot}
      (known : (slot.child name).data ≠ none ∨ c.bind (·.field? name) = none)
      (rest : Origin (some entry) (pos.child name) (slot.child name)
        (c.bind (·.field? name)) path base) :
      Origin (some (.record starters entry)) pos slot c (name :: path) base
  | newEntry {starters : Option (CallM σ Value)} {rules : NamespaceRules σ}
      {specs : Fields (Specifier σ)} {pos : Position} {slot : Slot} {c : Option Value}
      {name : String} {path : List String} {v : Value} {fresh : Level} {base : Slot}
      (missing : (slot.child name).data = none) (named : c.bind (·.field? name) = some v)
      (build : ((Namespace.mk rules specs).defaults (pos.child name) true).Gives fresh)
      (rest : Origin (some (.ns rules specs)) (pos.child name) (.of .ns fresh) (some v) path base) :
      Origin (some (.record starters (.ns rules specs))) pos slot c (name :: path) base

/-- Where nothing is named, a change starts from what is there. -/
theorem Leads.origin {spec target : Option (Specifier σ)} {path : List String}
    (h : Leads spec path target) (pos : Position) (slot : Slot) :
    Origin spec pos slot none path (slot.follow path) := by
  induction h generalizing pos slot with
  | here => exact .here
  | field _ ih => exact .field (ih _ _)
  | entry _ ih => exact .entry (.inr rfl) (ih _ _)

/-- What a change to a candidate does at a position that starts from a base: a base that was there
is what was there, it stays where the candidate names nothing, and a leaf or undeclared key that the
candidate names is written over it. -/
private structure EffectAt (target : Option (Specifier σ)) (path : List String) (slot slot' : Slot)
    (v : Value) (base : Slot) : Prop where
  present : slot.follow path ≠ ⟨none, none⟩ → base = slot.follow path
  unnamed : v.at? path = none → slot'.follow path = base
  named : containerKind? target = none → ∀ w, v.at? path = some w →
    slot'.follow path = base.write target.isSome .change w

/-- An effect on what is inside a container is an effect on the container. -/
private theorem EffectAt.cons {target : Option (Specifier σ)} {name : String} {path : List String}
    {slot slot' base : Slot} {c : Fields Value} {v : Value} (hc : c.get? name = some v)
    (h : EffectAt target path (slot.child name) (slot'.child name) v base) :
    EffectAt target (name :: path) slot slot' (.obj c) base where
  present := h.present
  unnamed hnone := by
    rw [Value.at?_cons, hc] at hnone
    exact h.unnamed hnone
  named terminal w hw := by
    rw [Value.at?_cons, hc] at hw
    exact h.named terminal w hw

/-- An effect inside an entry that initialization has put where there was nothing. -/
private theorem EffectAt.cons_new {target : Option (Specifier σ)} {name : String}
    {path : List String} {slot slot' fresh base : Slot} {c : Fields Value} {v : Value}
    (hc : c.get? name = some v) (hempty : slot.child name = ⟨none, none⟩)
    (h : EffectAt target path fresh (slot'.child name) v base) :
    EffectAt target (name :: path) slot slot' (.obj c) base := by
  have hinside : EffectAt target path (slot.child name) (slot'.child name) v base := by
    refine ⟨fun hne => ?_, h.unnamed, h.named⟩
    rw [hempty, Slot.follow_none] at hne
    exact absurd rfl hne
  exact hinside.cons hc

/-- What the candidate does not name is left alone. -/
private theorem EffectAt.of_unnamed {target : Option (Specifier σ)} {name : String}
    {path : List String} {slot slot' : Slot} {c : Fields Value} (hc : c.get? name = none)
    (hsame : slot'.child name = slot.child name) :
    EffectAt target (name :: path) slot slot' (.obj c) ((slot.child name).follow path) where
  present _ := rfl
  unnamed _ := by rw [Slot.follow_cons, hsame]
  named _ w hw := by
    rw [Value.at?_cons, hc] at hw
    cases hw

private theorem Namespace.Ensures.cases_of_coherent {rules : NamespaceRules σ}
    {specs : Fields (Specifier σ)} {pos : Position} {slot base : Slot}
    (h : (Namespace.mk rules specs).Ensures pos slot base)
    (hslot : slot ≠ ⟨none, none⟩ → Coherent Tied (some (.ns rules specs)) slot) :
    (slot = ⟨none, none⟩ ∧ ∃ fresh, ((Namespace.mk rules specs).defaults pos true).Yields fresh ∧
      base = .of .ns fresh) ∨ slot.data ≠ none ∧ base = slot := by
  cases h with
  | created missing build =>
    by_cases hempty : slot = ⟨none, none⟩
    · exact .inl ⟨hempty, _, build, rfl⟩
    · -- A coherent entry is an object, so nothing of it is missing.
      obtain ⟨inner, rfl, -⟩ := (hslot hempty).of_ns
      rcases missing with hnone | hnull
      · cases hnone
      · cases hnull
  | kept present notNull => exact .inr ⟨present, rfl⟩

/-- What a change does at a position below a slot. -/
private theorem Changes.effectAt {isEntry : Bool} {spec target : Option (Specifier σ)}
    {pos : Position} {slot slot' : Slot} {v : Value} {path : List String}
    (hpath : Leads spec path target) (h : Changes isEntry spec pos slot v slot')
    (hspec : ∀ s, spec = some s → s.WithoutMappers ∧ s.Determined)
    (hslot : Coherent Tied spec slot) :
    ∃ base, Origin spec pos slot (some v) path base ∧ EffectAt target path slot slot' v base := by
  -- The path says where to look, and the change says what has happened there.
  induction hpath generalizing isEntry pos slot slot' v with
  | here =>
    refine ⟨slot, .here, fun _ => rfl, nofun, fun terminal w hw => ?_⟩
    cases hw
    cases h with
    | value => rfl
    | ns => cases terminal
    | record => cases terminal
  | @field rules specs name path target hrest ih =>
    obtain ⟨hmappers, hdetermined⟩ := hspec _ rfl
    obtain ⟨hmapper, hmappers⟩ := Specifier.everywhere_ns.1 hmappers
    obtain ⟨-, hdetermined⟩ := Specifier.everywhere_ns.1 hdetermined
    cases h with
    | value terminal => cases terminal
    | @ns _ _ _ _ c inner inner' mapped others each mapper =>
      obtain ⟨level, hlevel, hinner⟩ := hslot.of_ns
      obtain ⟨-, rfl⟩ := Slot.of_inj.1 hlevel
      obtain rfl := NamespaceRules.mapped_eq_empty hmapper mapper
      cases hc : c.get? name with
      | none =>
        have horigin : Origin (specs.get? name) (pos.child name) (inner.slot name) (c.get? name)
            path ((inner.slot name).follow path) := hc ▸ hrest.origin _ _
        exact ⟨_, .field horigin, .of_unnamed hc (others name hc)⟩
      | some y =>
        obtain ⟨base, horigin, heffect⟩ := ih (each name y hc)
          (fun s hs => ⟨hmappers name s hs, hdetermined name s hs⟩) (hinner name)
        rw [← hc] at horigin
        exact ⟨base, .field horigin, heffect.cons hc⟩
  | @entry starters entry name path target hrest ih =>
    obtain ⟨hmappers, hdetermined⟩ := hspec _ rfl
    have hentry : entry.WithoutMappers ∧ entry.Determined :=
      ⟨(Specifier.everywhere_record.1 hmappers).2, (Specifier.everywhere_record.1 hdetermined).2⟩
    cases h with
    | value terminal => cases terminal
    | @record _ _ rules specs _ provenance initial c inner inner' bases others ensured each =>
      obtain ⟨_, _, level, hlevel, hinner⟩ := hslot.of_record
      obtain ⟨-, rfl⟩ := Slot.of_inj.1 hlevel
      cases hc : c.get? name with
      | none =>
        have horigin : Origin (some (.ns rules specs)) (pos.child name) (inner.slot name)
            (c.get? name) path ((inner.slot name).follow path) := hc ▸ hrest.origin _ _
        exact ⟨_, .entry (.inr hc) horigin, .of_unnamed hc (others name hc)⟩
      | some y =>
        have hspec' : ∀ s, some (Specifier.ns rules specs) = some s →
            s.WithoutMappers ∧ s.Determined := Specifier.forall_of_some hentry
        have hcoherent := fun hk => (hinner name hk).1
        have hbase : Coherent Tied (some (.ns rules specs)) (bases name) :=
          (ensured name y hc).coherent (fun _ => rfl) hentry.1.mild hcoherent
        obtain ⟨base, horigin, heffect⟩ := ih (each name y hc) hspec' hbase
        -- Below the entry the change starts from what making sure of the entry has left.
        rcases (ensured name y hc).cases_of_coherent hcoherent with
          ⟨hempty, fresh, hbuild, hfresh⟩ | ⟨hpresent, hsame⟩
        · have hdefaults : ((Namespace.mk rules specs).defaults (pos.child name) true).Determined :=
            Namespace.defaults_determined (n := ⟨rules, specs⟩) hentry.2 _ _
          have hmissing : (inner.slot name).data = none := congrArg Slot.data hempty
          rw [hfresh] at horigin
          exact ⟨base, .newEntry hmissing hc (hdefaults.gives hbuild) horigin,
            heffect.cons_new hc hempty⟩
        · rw [hsame] at horigin heffect
          rw [← hc] at horigin
          exact ⟨base, .entry (.inl hpresent) horigin, heffect.cons hc⟩

/-- A position has one origin. -/
theorem Origin.unique [Nonempty σ] {spec : Option (Specifier σ)} {pos : Position} {slot : Slot}
    {c : Option Value} {path : List String} {base base' : Slot}
    (h : Origin spec pos slot c path base) (h' : Origin spec pos slot c path base') :
    base = base' := by
  induction h with
  | here =>
    cases h'
    rfl
  | field rest ih =>
    cases h' with
    | field rest' => exact ih rest'
  | entry known rest ih =>
    cases h' with
    | entry known' rest' => exact ih rest'
    | newEntry missing named build rest' =>
      rcases known with hpresent | hunnamed
      · exact absurd missing hpresent
      · rw [hunnamed] at named
        cases named
  | newEntry missing named build rest ih =>
    cases h' with
    | entry known rest' =>
      rcases known with hpresent | hunnamed
      · exact absurd missing hpresent
      · rw [hunnamed] at named
        cases named
    | newEntry missing' named' build' rest' =>
      obtain rfl := build.unique build'
      obtain rfl := Option.some.inj (named.symm.trans named')
      exact ih rest'

/-- The exact effect of a successful change at every position of the specification. A position
starts from what the store has there, or inside an entry that the candidate introduces, from what
initialization builds for the entry. Where the candidate names nothing it stays so. A leaf or
undeclared key that the candidate names has the candidate's value in data and metadata, marked as
changed, and keeps the initial value that it starts with. -/
theorem Store.Reachable.change_effect {spec : Namespace σ} {options : Options σ}
    {store store' : Store σ} (h : Store.Reachable spec options store)
    (hmappers : spec.toSpecifier.WithoutMappers) (hdetermined : spec.toSpecifier.Determined)
    {input : Value} {s s' : σ} (hchange : store.change input s = (.ok store', s'))
    {c : Fields Value} (hc : (spec.resolve options input .root (store.level, s)).1 = .ok c)
    {path : List String} {target : Option (Specifier σ)}
    (hpath : Leads (some spec.toSpecifier) path target) :
    ∃ base, Origin (some spec.toSpecifier) .root (store.slotAt []) (some (.obj c)) path base ∧
      (store.slotAt path ≠ ⟨none, none⟩ → base = store.slotAt path) ∧
      ((Value.obj c).at? path = none → store'.slotAt path = base) ∧
      (containerKind? target = none → ∀ v, (Value.obj c).at? path = some v →
        ∃ leaf, store'.slotAt path = ⟨some v, some (.leaf leaf)⟩ ∧ leaf.value = some v ∧
          leaf.provenance = .change ∧
          leaf.initial = (base.node.bind Metadata.leaf?).bind (·.initial)) := by
  obtain ⟨hspec, hoptions⟩ := h.fixed
  have hroot : Coherent Tied (some spec.toSpecifier) (.of .ns store.level) :=
    h.coherent (fun _ => rfl) hmappers.mild
  rw [← hspec, ← hoptions] at hc
  obtain ⟨mid, level, rfl, hresolves, hcommits⟩ := Store.change_of_candidate hchange hc
  rw [hspec] at hresolves hcommits
  have hplain : ∀ s, some spec.toSpecifier = some s → s.WithoutMappers ∧ s.Determined :=
    Specifier.forall_of_some ⟨hmappers, hdetermined⟩
  have hchanges : Changes false (some spec.toSpecifier) .root (.of .ns store.level) (.obj c)
      (.of .ns level) :=
    hresolves.changes (fun _ => rfl) hcommits (fun s hs => (hplain s hs).1.mild) hroot
  obtain ⟨base, horigin, heffect⟩ := hchanges.effectAt hpath hplain hroot
  refine ⟨base, horigin, heffect.present, heffect.unnamed, fun terminal v hv => ?_⟩
  obtain ⟨leaf, hwrite, hleaf⟩ := base.write_change target.isSome v
  exact ⟨leaf, (heffect.named terminal v hv).trans hwrite, hleaf⟩

/-- The port of a new host is the initial one, and its mode the one that the candidate gives. -/
theorem Store.Reachable.change_effect_hosts :
    (∃ base, Origin (some Hosts.root.toSpecifier) .root (Hosts.built.slotAt [])
        (some (.obj Hosts.candidate)) ["hosts", "x", "port"] base ∧
      Hosts.changed.slotAt ["hosts", "x", "port"] = base) ∧
    ∃ leaf, Hosts.changed.slotAt ["hosts", "x", "mode"] =
        ⟨some (.arr [.str "auto"]), some (.leaf leaf)⟩ ∧ leaf.provenance = .change := by
  have hchange : Hosts.built.change Hosts.input () = (.ok Hosts.changed, ()) := rfl
  have hc : (Hosts.root.resolve Hosts.quiet Hosts.input .root (Hosts.built.level, ())).1 =
      .ok Hosts.candidate := rfl
  have hport : Leads (some Hosts.root.toSpecifier) ["hosts", "x", "port"]
      (some (.leaf Hosts.port)) := .field (.entry (.field .here))
  have hmode : Leads (some Hosts.root.toSpecifier) ["hosts", "x", "mode"]
      (some (.leaf Hosts.mode)) := .field (.entry (.field .here))
  have hdetermined := Hosts.root.toSpecifier.determined_of_subsingleton
  obtain ⟨base, horigin, -, hunnamed, -⟩ := Store.Reachable.change_effect Hosts.built_reachable
    Hosts.withoutMappers hdetermined hchange hc hport
  obtain ⟨_, -, -, -, hnamed⟩ := Store.Reachable.change_effect Hosts.built_reachable
    Hosts.withoutMappers hdetermined hchange hc hmode
  obtain ⟨leaf, hslot, -, hfrom, -⟩ := hnamed rfl (.arr [.str "auto"]) rfl
  exact ⟨⟨base, horigin, hunnamed rfl⟩, leaf, hslot, hfrom⟩

end Settings
