import Settings.Proofs.Callbacks
import Settings.Proofs.Slot

/-!
# What initialization builds

`Specifier.defaults` and the two functions it calls itself through, `Specifier.stitch` and
`Specifier.reconcile`, are loops over names around calls of each other. Here each loop is read slot
by slot, and `Specifier.defaults_induction` then packages the recursion once: a property of what
initialization builds needs one case for each kind of node, and one more for each kind over which a
value is laid. With determined callbacks initialization is determined
(`Specifier.Determined.defaults`).
-/

set_option autoImplicit false

namespace Settings

variable {σ : Type} {lo : Option String}

/-! ## The loops are sweeps -/

theorem defaultFields_eq_sweep (specs : SortedMap (Specifier σ) lo) (pos : Position)
    (level : Level) :
    defaultFields specs pos level = sweep (fun name spec level =>
      level.overlay name <$> spec.defaults (pos.child name) false) specs level := by
  induction specs generalizing level with
  | nil => rfl
  | cons name above spec rest ih =>
    rw [defaultFields, sweep, map_eq_pure_bind, bind_assoc]
    simp only [pure_bind, ih]

theorem canonicalFields_eq_sweep (specs : SortedMap (Specifier σ) lo) (pos : Position)
    (level : Level) :
    canonicalFields specs pos level = sweep (fun name spec level =>
      if spec.isShadow then pure level
      else level.add name <$> spec.defaults (pos.child name) false) specs level := by
  induction specs generalizing level with
  | nil => rfl
  | cons name above spec rest ih =>
    rw [canonicalFields, sweep]
    split
    · rw [pure_bind, ih]
    · rw [map_eq_pure_bind, bind_assoc]
      simp only [pure_bind, ih]

theorem reconcileFields_eq_sweep (specs : SortedMap (Specifier σ) lo) (given : Fields Value)
    (pos : Position) (level : Level) :
    reconcileFields specs given pos level = sweep (fun name spec level =>
      match given.get? name with
      | none | some .null => pure level
      | some v =>
        if spec.isShadow then pure level else spec.reconcile name v (pos.child name) level)
      specs level := by
  induction specs generalizing level with
  | nil => rfl
  | cons name above spec rest ih =>
    rw [reconcileFields, sweep]
    simp only [ih]
    cases given.get? name with
    | none => rfl
    | some v =>
      cases v with
      | null => rfl
      | _ =>
        dsimp only
        split <;> rfl

theorem stitchEntries_eq_sweep (entry : String → Value → Attempt σ Level)
    (starters : SortedMap Value lo) (level : Level) :
    stitchEntries entry starters level = sweep (fun name starter level =>
      level.put name .ns <$> entry name starter) starters level := by
  induction starters generalizing level with
  | nil => rfl
  | cons name above starter rest ih =>
    rw [stitchEntries, sweep, map_eq_pure_bind, bind_assoc]
    simp only [pure_bind, ih]

/-! ## The loops, slot by slot -/

theorem defaultFields_yields {specs : SortedMap (Specifier σ) lo} {pos : Position}
    {level level' : Level} (h : (defaultFields specs pos level).Yields level') (k : String) :
    (specs.get? k = none → level'.slot k = level.slot k) ∧
    ∀ s, specs.get? k = some s → ∃ field, (s.defaults (pos.child k) false).Yields field ∧
      level'.slot k = (level.slot k).overlay field := by
  rw [defaultFields_eq_sweep] at h
  have hslots := sweep_yields (fun name s level level' hstep k hk => by
    obtain ⟨field, -, rfl⟩ := hstep.of_map
    rw [Level.slot_overlay, if_neg hk]) h k
  refine ⟨hslots.1, fun s hs => ?_⟩
  obtain ⟨before, after, hstep, hbefore, hafter⟩ := hslots.2 s hs
  obtain ⟨field, hfield, rfl⟩ := hstep.of_map
  rw [← hafter, ← hbefore, Level.slot_overlay, if_pos rfl]
  exact ⟨field, hfield, rfl⟩

theorem canonicalFields_yields {specs : SortedMap (Specifier σ) lo} {pos : Position}
    {level level' : Level} (h : (canonicalFields specs pos level).Yields level') (k : String) :
    ((∀ s, specs.get? k = some s → s.isShadow = true) → level'.slot k = level.slot k) ∧
    ∀ s, specs.get? k = some s → s.isShadow = false →
      ∃ field, (s.defaults (pos.child k) false).Yields field ∧
        level'.slot k = ⟨field.data.or (level.slot k).data, some field.node⟩ := by
  rw [canonicalFields_eq_sweep] at h
  have hslots := sweep_yields (fun name s level level' hstep k hk => by
    split at hstep
    · rw [hstep.of_pure]
    · obtain ⟨field, -, rfl⟩ := hstep.of_map
      rw [Level.slot_add, if_neg hk]) h k
  constructor
  · intro hshadow
    cases hs : specs.get? k with
    | none => exact hslots.1 hs
    | some s =>
      obtain ⟨before, after, hstep, hbefore, hafter⟩ := hslots.2 s hs
      rw [if_pos (hshadow s hs)] at hstep
      rw [← hafter, ← hbefore, hstep.of_pure]
  · intro s hs hshadow
    obtain ⟨before, after, hstep, hbefore, hafter⟩ := hslots.2 s hs
    rw [if_neg (by simp [hshadow])] at hstep
    obtain ⟨field, hfield, rfl⟩ := hstep.of_map
    rw [← hafter, ← hbefore, Level.slot_add, if_pos rfl]
    exact ⟨field, hfield, rfl⟩

theorem stitchEntries_yields {entry : String → Value → Attempt σ Level}
    {starters : SortedMap Value lo} {level level' : Level}
    (h : (stitchEntries entry starters level).Yields level') (k : String) :
    (starters.get? k = none → level'.slot k = level.slot k) ∧
    ∀ starter, starters.get? k = some starter →
      ∃ inner, (entry k starter).Yields inner ∧ level'.slot k = .of .ns inner := by
  rw [stitchEntries_eq_sweep] at h
  have hslots := sweep_yields (fun name s level level' hstep k hk => by
    obtain ⟨inner, -, rfl⟩ := hstep.of_map
    rw [Level.slot_put, if_neg hk]) h k
  refine ⟨hslots.1, fun starter hstarter => ?_⟩
  obtain ⟨before, after, hstep, -, hafter⟩ := hslots.2 starter hstarter
  obtain ⟨inner, hinner, rfl⟩ := hstep.of_map
  rw [← hafter, Level.slot_put, if_pos rfl]
  exact ⟨inner, hinner, rfl⟩

/-- A value given for a field touches the field's slot alone. -/
theorem Specifier.reconcile_local {s : Specifier σ} {name : String} {given : Value} {pos : Position}
    {level level' : Level} (h : (s.reconcile name given pos level).Yields level') {k : String}
    (hk : k ≠ name) : level'.slot k = level.slot k := by
  cases s with
  | leaf rules =>
    rw [Specifier.reconcile] at h
    rw [h.of_pure, Level.slot_set, if_neg hk]
  | ns rules specs =>
    rw [Specifier.reconcile] at h
    obtain ⟨inner, -, h⟩ := h.of_bind
    rw [h.of_pure, Level.slot_put, if_neg hk]
  | record starters entry =>
    rw [Specifier.reconcile.eq_def] at h
    dsimp only at h
    split at h
    · obtain ⟨inner, -, h⟩ := h.of_bind
      rw [h.of_pure, Level.slot_set, if_neg hk]
    · exact absurd h Run.not_yields_fail

/-- The value that is given for a field: none for a name that is not declared, for a shadow leaf,
and where the given value is `null`. -/
def givenFor? (specs : SortedMap (Specifier σ) lo) (given : Fields Value) (name : String) :
    Option (Specifier σ × Value) :=
  match specs.get? name, given.get? name with
  | some s, some v => if s.isShadow || v.isNull then none else some (s, v)
  | _, _ => none

/-- A value is given for declared fields alone, and for none that is a shadow leaf. -/
theorem specs_of_givenFor? {specs : SortedMap (Specifier σ) lo} {given : Fields Value} {k : String}
    {s : Specifier σ} {v : Value} (h : givenFor? specs given k = some (s, v)) :
    specs.get? k = some s ∧ s.isShadow = false := by
  unfold givenFor? at h
  split at h
  · next hs _ =>
    split at h
    · cases h
    · next hnot =>
      cases h
      rw [Bool.not_eq_true, Bool.or_eq_false_iff] at hnot
      exact ⟨hs, hnot.1⟩
  · cases h

theorem givenFor?_eq_none {specs : SortedMap (Specifier σ) lo} {given : Fields Value} {k : String}
    (h : given.get? k = none) : givenFor? specs given k = none := by
  unfold givenFor?
  rw [h]
  cases specs.get? k <;> rfl

theorem givenFor?_eq_some {specs : SortedMap (Specifier σ) lo} {given : Fields Value} {k : String}
    {s : Specifier σ} {v : Value} (hs : specs.get? k = some s) (hv : given.get? k = some v)
    (hshadow : s.isShadow = false) (hnull : v ≠ .null) :
    givenFor? specs given k = some (s, v) := by
  unfold givenFor?
  rw [hs, hv]
  dsimp only
  rw [hshadow]
  cases v with
  | null => exact absurd rfl hnull
  | _ => rfl

theorem reconcileFields_yields {specs : SortedMap (Specifier σ) lo} {given : Fields Value}
    {pos : Position} {level level' : Level}
    (h : (reconcileFields specs given pos level).Yields level') (k : String) :
    (givenFor? specs given k = none → level'.slot k = level.slot k) ∧
    ∀ s v, givenFor? specs given k = some (s, v) → ∃ before after,
      (s.reconcile k v (pos.child k) before).Yields after ∧
        before.slot k = level.slot k ∧ after.slot k = level'.slot k := by
  rw [reconcileFields_eq_sweep] at h
  -- Every step keeps to its own name, whether it lays a value over the field or skips it.
  have hslots := sweep_yields (fun name s level level' hstep k hk => by
    split at hstep
    · rw [hstep.of_pure]
    · rw [hstep.of_pure]
    · split at hstep
      · rw [hstep.of_pure]
      · exact Specifier.reconcile_local hstep hk) h k
  unfold givenFor?
  cases hs : specs.get? k with
  | none => exact ⟨fun _ => hslots.1 hs, fun _ _ hn => nomatch hn⟩
  | some s =>
    obtain ⟨before, after, hstep, hbefore, hafter⟩ := hslots.2 s hs
    cases hv : given.get? k with
    | none =>
      rw [hv] at hstep
      refine ⟨fun _ => ?_, fun _ _ hn => nomatch hn⟩
      rw [← hafter, ← hbefore, hstep.of_pure]
    | some v =>
      rw [hv] at hstep
      dsimp only
      cases hshadow : s.isShadow with
      | true =>
        refine ⟨fun _ => ?_, fun _ _ hn => nomatch hn⟩
        have hsame : after = before := by
          split at hstep
          · exact hstep.of_pure
          · exact hstep.of_pure
          · rw [if_pos hshadow] at hstep
            exact hstep.of_pure
        rw [← hafter, ← hbefore, hsame]
      | false =>
        cases v with
        | null =>
          refine ⟨fun _ => ?_, fun _ _ hn => nomatch hn⟩
          rw [← hafter, ← hbefore, hstep.of_pure]
        | _ =>
          refine ⟨fun hn => (nomatch hn), fun s' v' hn => ?_⟩
          cases hn
          dsimp only at hstep
          rw [if_neg (by simp [hshadow])] at hstep
          exact ⟨before, after, hstep, hbefore, hafter⟩

/-- Laying a value over a namespace handles the fields of its longhand, and then the mapper runs. -/
theorem NamespaceRules.reconcileWith_yields {rules : NamespaceRules σ}
    {specs : Fields (Specifier σ)} {given : Value} {pos : Position} {isEntry : Bool}
    {level level' : Level}
    (h : (rules.reconcileWith (fun given level => reconcileFields specs given pos level) given pos
      isEntry level).Yields level') :
    ∃ (fields : Fields Value) (mid : Level) (mapped : Fields Value),
      (rules.longhand given pos).Yields fields ∧
      (reconcileFields specs fields pos level).Yields mid ∧
      (rules.runMapper mid.data pos isEntry).Yields mapped ∧
      level' = ⟨mid.data.assign mapped, mid.nodes⟩ := by
  obtain ⟨fields, hfields, hrest⟩ := h.of_bind
  obtain ⟨mid, hmid, hmap⟩ := hrest.of_bind
  obtain ⟨mapped, hmapped, hlevel⟩ := Level.withMapper_yields hmap
  exact ⟨fields, mid, mapped, hfields, hmid, hmapped, hlevel⟩

/-- Initializing a namespace builds its fields over the seed, and then the mapper runs. -/
theorem NamespaceRules.defaultsWith_yields {rules : NamespaceRules σ}
    {specs : Fields (Specifier σ)} {pos : Position} {isEntry : Bool} {level : Level}
    (h : (rules.defaultsWith specs (fun level => defaultFields specs pos level) pos isEntry).Yields
      level) :
    ∃ (seed : Fields Value) (mid : Level) (mapped : Fields Value),
      (runSeed rules.seed pos).Yields seed ∧
      (defaultFields specs pos (Level.ofSeed specs seed)).Yields mid ∧
      (rules.runMapper mid.data pos isEntry).Yields mapped ∧
      level = ⟨mid.data.assign mapped, mid.nodes⟩ := by
  obtain ⟨seed, hseed, hrest⟩ := h.of_bind
  obtain ⟨mid, hmid, hmap⟩ := hrest.of_bind
  obtain ⟨mapped, hmapped, hlevel⟩ := Level.withMapper_yields hmap
  exact ⟨seed, mid, mapped, hseed, hmid, hmapped, hlevel⟩

/-- Entries that are no namespaces are made from no starters. -/
theorem Specifier.stitch_of_not_ns {s : Specifier σ} (hs : containerKind? (some s) ≠ some .ns)
    {starters : Fields Value} {pos : Position} {level : Level}
    (h : (s.stitch starters pos).Yields level) : starters = ∅ ∧ level = ∅ := by
  have hcheck {e : SettingsError}
      (h : (if starters.isEmpty then pure ∅ else Run.fail e : Attempt σ Level).Yields level) :
      starters = ∅ ∧ level = ∅ := by
    split at h
    · next hempty => exact ⟨SortedMap.isEmpty_iff.1 hempty, h.of_pure⟩
    · exact absurd h Run.not_yields_fail
  cases s with
  | leaf =>
    rw [Specifier.stitch] at h
    exact hcheck h
  | ns => exact absurd rfl hs
  | record =>
    rw [Specifier.stitch] at h
    exact hcheck h

theorem Metadata.ofValue_leaf {spec : Option (Specifier σ)} (h : containerKind? spec = none)
    (v : Value) : ofValue spec v = leaf (.fresh (some v) .initial) := by
  cases spec with
  | none => cases v <;> rfl
  | some s =>
    cases s with
    | leaf => cases v <;> rfl
    | _ => cases h

/-- A value that is no object, or that stands where no container is declared, gives a leaf. -/
theorem Metadata.ofValue_closed {spec : Option (Specifier σ)} {v : Value}
    (closed : containerKind? spec = none ∨ v.isObject = false) :
    ofValue spec v = leaf (.fresh (some v) .initial) := by
  rcases closed with hkind | hobject
  · exact ofValue_leaf hkind v
  · cases v with
    | obj fields => cases hobject
    | _ =>
      cases spec with
      | none => rfl
      | some s => cases s <;> rfl

/-- The node of a declared leaf with a value that is also the initial one; or neither. -/
def LeafRules.initialNode (rules : LeafRules σ) (v : Option Value) : LeafNode :=
  ⟨v, v, .initial, rules.shadow, false⟩

theorem LeafRules.defaults_yields {rules : LeafRules σ} {pos : Position} {field : Initialized}
    (h : (rules.defaults pos).Yields field) :
    field = ⟨field.data, .leaf (rules.initialNode field.data)⟩ := by
  obtain ⟨initial, -, h⟩ := h.of_bind
  -- Without an initial value there is nothing to map to its data representation.
  cases initial with
  | none =>
    obtain ⟨v, -, h⟩ := h.of_bind
    rw [h.of_pure]
    rfl
  | some v =>
    obtain ⟨w, -, h⟩ := h.of_bind
    rw [h.of_pure]
    rfl

theorem LeafRules.node_of_defaults {rules : LeafRules σ} {pos : Position} {field : Initialized}
    (h : (rules.defaults pos).Yields field) : field.node = .leaf (rules.initialNode field.data) :=
  congrArg Initialized.node (defaults_yields h)

theorem LeafRules.eq_initialNode {rules : LeafRules σ} {pos : Position} {v : Option Value}
    {node : LeafNode} (h : (rules.defaults pos).Yields ⟨v, .leaf node⟩) :
    node = rules.initialNode v :=
  Metadata.leaf.inj (node_of_defaults h)

/-- Only a leaf can be initialized without data. -/
def Initialized.WithData (field : Initialized) (s : Specifier σ) : Prop :=
  field.data = none → ∃ rules, s = .leaf rules ∧ field.node = .leaf (rules.initialNode none)

theorem LeafRules.withData_of_defaults {rules : LeafRules σ} {pos : Position} {field : Initialized}
    (h : (rules.defaults pos).Yields field) : field.WithData (.leaf rules) := by
  intro hnone
  refine ⟨rules, rfl, ?_⟩
  rw [node_of_defaults h, hnone]

/-- What lies over the seed of a namespace at a declared name: the field that was built, or, at a
leaf without initial value for which the seed has one, a leaf with the seed's. -/
theorem Level.overlay_ofSeed {specs : Fields (Specifier σ)} {k : String} {s : Specifier σ}
    (hs : specs.get? k = some s) {field : Initialized} (hdata : field.WithData s)
    (seed : Fields Value) :
    ((ofSeed specs seed).slot k).overlay field = ⟨field.data, some field.node⟩ ∨
      ∃ rules v, s = .leaf rules ∧ seed.get? k = some v ∧
        ((ofSeed specs seed).slot k).overlay field =
          ⟨some v, some (.leaf (rules.initialNode (some v)))⟩ := by
  obtain ⟨data, node⟩ := field
  cases data with
  | some v => exact .inl rfl
  | none =>
    obtain ⟨rules, rfl, hnode⟩ := hdata rfl
    have hslot : (ofSeed specs seed).slot k =
        ⟨seed.get? k, (seed.get? k).map (Metadata.ofValue (some (.leaf rules)))⟩ := by
      rw [← hs]
      exact congrArg (Slot.mk (seed.get? k)) (Metadata.get?_ofFields specs seed k)
    rw [hslot]
    cases seed.get? k with
    | none => exact .inl rfl
    | some v =>
      -- What is absent in the field stays as the seed gave it.
      refine .inr ⟨rules, v, rfl, rfl, ?_⟩
      rw [Option.map_some, Metadata.ofValue_leaf rfl, show node = _ from hnode]
      rfl

/-- At a name that is not declared the seed gives a leaf. -/
theorem Level.slot_ofSeed {specs : Fields (Specifier σ)} {k : String} (hs : specs.get? k = none)
    (seed : Fields Value) : (ofSeed specs seed).slot k =
      ⟨seed.get? k, (seed.get? k).map fun v => .leaf (.fresh (some v) .initial)⟩ := by
  show (⟨seed.get? k, (Metadata.ofFields specs seed).get? k⟩ : Slot) = _
  rw [Metadata.get?_ofFields, hs]
  exact congrArg _ (congrArg (Option.map · _) (funext (Metadata.ofValue_leaf rfl)))

/-! ## Induction on initialization -/

/-- The level of an entry about which nothing is given: its fields as initialization builds them,
those of shadow leaves left out. -/
def IsCanonical (D : Specifier σ → Position → Bool → Initialized → Prop)
    (specs : Fields (Specifier σ)) (pos : Position) (level : Level) : Prop :=
  ∀ k, ((∀ s, specs.get? k = some s → s.isShadow = true) → level.slot k = ⟨none, none⟩) ∧
    ∀ s, specs.get? k = some s → s.isShadow = false →
      ∃ field, D s (pos.child k) false field ∧ level.slot k = ⟨field.data, some field.node⟩

/-- The nodes of a canonical entry are those of declared fields. -/
theorem IsCanonical.exists_field {D : Specifier σ → Position → Bool → Initialized → Prop}
    {specs : Fields (Specifier σ)} {pos : Position} {level : Level}
    (h : IsCanonical D specs pos level) {k : String} {m : Metadata}
    (hm : (level.slot k).node = some m) :
    ∃ s field, specs.get? k = some s ∧ D s (pos.child k) false field ∧ m = field.node := by
  obtain ⟨hskip, hbuild⟩ := h k
  by_cases hshadow : ∀ s, specs.get? k = some s → s.isShadow = true
  · rw [hskip hshadow] at hm
    cases hm
  · obtain ⟨s, hs, hs'⟩ : ∃ s, specs.get? k = some s ∧ s.isShadow = false := by
      simpa using hshadow
    obtain ⟨field, hfield, hslot⟩ := hbuild s hs hs'
    rw [hslot] at hm
    exact ⟨s, field, hs, hfield, (Option.some.inj hm).symm⟩

/-- The entries of a record made from starters: each starter is laid over the canonical entry. -/
inductive IsStitched (D : Specifier σ → Position → Bool → Initialized → Prop)
    (G : Specifier σ → Position → Bool → Value → Slot → Slot → Prop) :
    Specifier σ → Fields Value → Position → Level → Prop
  | none {entry : Specifier σ} {pos : Position} : IsStitched D G entry ∅ pos ∅
  | some {rules : NamespaceRules σ} {specs : Fields (Specifier σ)} {starters : Fields Value}
      {pos : Position} {canonical level : Level}
      (hcanonical : IsCanonical D specs (pos.child "*") canonical)
      (others : ∀ k, starters.get? k = .none → level.slot k = ⟨.none, .none⟩)
      (entries : ∀ k starter, starters.get? k = .some starter → ∃ inner,
        level.slot k = .of .ns inner ∧
          G (.ns rules specs) (pos.child k) true starter (.of .ns canonical) (.of .ns inner)) :
      IsStitched D G (.ns rules specs) starters pos level

section Induction

variable {D : Specifier σ → Position → Bool → Initialized → Prop}
  {G : Specifier σ → Position → Bool → Value → Slot → Slot → Prop}

private theorem stitch_isStitched_of_not_ns {s : Specifier σ}
    (hs : containerKind? (some s) ≠ some .ns) {starters : Fields Value} {pos : Position}
    {level : Level} (h : (s.stitch starters pos).Yields level) :
    IsStitched D G s starters pos level := by
  obtain ⟨rfl, rfl⟩ := Specifier.stitch_of_not_ns hs h
  exact .none

private theorem stitch_isStitched_of_ns {rules : NamespaceRules σ} {specs : Fields (Specifier σ)}
    (fields : ∀ k s, specs.get? k = some s → ∀ pos isEntry field,
      (s.defaults pos isEntry).Yields field → D s pos isEntry field)
    (given : ∀ v pos isEntry before inner,
      (rules.reconcileWith (fun given level => reconcileFields specs given pos level) v pos isEntry
        (before.opened .ns)).Yields inner →
      G (.ns rules specs) pos isEntry v before (.of .ns inner))
    {starters : Fields Value} {pos : Position} {level : Level}
    (h : ((Specifier.ns rules specs).stitch starters pos).Yields level) :
    IsStitched D G (.ns rules specs) starters pos level := by
  rw [Specifier.stitch] at h
  split at h
  · next hempty =>
    rw [h.of_pure, SortedMap.isEmpty_iff.1 hempty]
    exact .none
  · obtain ⟨canonical, hcanonical, h⟩ := h.of_bind
    refine @IsStitched.some σ D G rules specs starters pos canonical level (fun k => ?_)
      (fun k hk => ?_) (fun k starter hk => ?_)
    · obtain ⟨hskip, hbuild⟩ := canonicalFields_yields hcanonical k
      refine ⟨hskip, fun s hs hshadow => ?_⟩
      obtain ⟨field, hfield, hslot⟩ := hbuild s hs hshadow
      refine ⟨field, fields k s hs _ _ _ hfield, ?_⟩
      rw [hslot, Level.slot_empty, Option.or_none]
    · exact (stitchEntries_yields h k).1 hk
    · obtain ⟨inner, hinner, hslot⟩ := (stitchEntries_yields h k).2 starter hk
      exact ⟨inner, hslot, given starter _ true (.of .ns canonical) inner hinner⟩

/-- A property of everything that initialization builds. `D` is about a node built from its
specifier, `G` about the slot of a node before and after a given value is laid over it. -/
theorem Specifier.defaults_induction
    (leaf : ∀ rules pos isEntry field, (rules.defaults pos).Yields field →
      D (.leaf rules) pos isEntry field)
    (ns : ∀ (rules : NamespaceRules σ) (specs : Fields (Specifier σ)) pos isEntry seed
      (level : Level) mapped,
      (runSeed rules.seed pos).Yields seed →
      (∀ k, specs.get? k = none → level.slot k = (Level.ofSeed specs seed).slot k) →
      (∀ k s, specs.get? k = some s → ∃ field, D s (pos.child k) false field ∧
        level.slot k = ((Level.ofSeed specs seed).slot k).overlay field) →
      (rules.runMapper level.data pos isEntry).Yields mapped →
      D (.ns rules specs) pos isEntry (.ofNamespace ⟨level.data.assign mapped, level.nodes⟩))
    (record : ∀ starters entry pos isEntry given (level : Level),
      (runSeed starters pos).Yields given →
      IsStitched D G entry given pos level →
      D (.record starters entry) pos isEntry (.ofRecord level))
    (givenLeaf : ∀ (rules : LeafRules σ) pos given before, rules.shadow = false →
      G (.leaf rules) pos false given before
        ⟨some given, some (.leaf (.fresh (some given) .initial))⟩)
    (givenNs : ∀ (rules : NamespaceRules σ) (specs : Fields (Specifier σ)) pos isEntry given
      (before : Slot) fields (inner : Level) mapped, (rules.longhand given pos).Yields fields →
      (∀ k, givenFor? specs fields k = none → inner.slot k = (before.opened .ns).slot k) →
      (∀ k s v, givenFor? specs fields k = some (s, v) →
        G s (pos.child k) false v ((before.opened .ns).slot k) (inner.slot k)) →
      (rules.runMapper inner.data pos isEntry).Yields mapped →
      G (.ns rules specs) pos isEntry given before
        (.of .ns ⟨inner.data.assign mapped, inner.nodes⟩))
    (givenRecord : ∀ starters entry pos given before (level : Level),
      IsStitched D G entry given pos level →
      G (.record starters entry) pos false (.obj given) before
        ⟨some (.obj level.data), some (.freshRecord level.nodes)⟩)
    {s : Specifier σ} {pos : Position} {isEntry : Bool} {field : Initialized}
    (h : (s.defaults pos isEntry).Yields field) : D s pos isEntry field := by
  -- The three functions call each other, so one induction carries a statement about each.
  suffices hall : (∀ pos isEntry field, (s.defaults pos isEntry).Yields field →
        D s pos isEntry field) ∧
      (∀ starters pos level, (s.stitch starters pos).Yields level →
        IsStitched D G s starters pos level) ∧
      (∀ name v pos before after, s.isShadow = false →
        (s.reconcile name v pos before).Yields after →
        G s pos false v (before.slot name) (after.slot name)) from hall.1 _ _ _ h
  clear h
  induction s with
  | leaf rules =>
    refine ⟨fun pos isEntry field h => ?_, fun starters pos level h => ?_,
      fun name v pos before after hshadow h => ?_⟩
    · rw [Specifier.defaults] at h
      exact leaf rules pos isEntry field h
    · exact stitch_isStitched_of_not_ns (by simp) h
    · rw [Specifier.reconcile] at h
      rw [h.of_pure, Level.slot_set, if_pos rfl]
      exact givenLeaf rules pos v _ hshadow
  | ns rules specs ih =>
    -- Starters and given values are laid over a namespace in the same way.
    have hgiven : ∀ v pos isEntry before inner,
        (rules.reconcileWith (fun given level => reconcileFields specs given pos level) v pos
          isEntry (before.opened .ns)).Yields inner →
        G (.ns rules specs) pos isEntry v before (.of .ns inner) := by
      intro v pos isEntry before inner h
      obtain ⟨fields, mid, mapped, hfields, hmid, hmapped, rfl⟩ :=
        NamespaceRules.reconcileWith_yields h
      refine givenNs rules specs pos isEntry v before fields mid mapped hfields (fun k hk => ?_)
        (fun k s w hk => ?_) hmapped
      · exact (reconcileFields_yields hmid k).1 hk
      · obtain ⟨l, l', hstep, hl, hl'⟩ := (reconcileFields_yields hmid k).2 s w hk
        obtain ⟨hs, hshadow⟩ := specs_of_givenFor? hk
        rw [← hl, ← hl']
        exact (ih k s hs).2.2 _ _ _ _ _ hshadow hstep
    refine ⟨fun pos isEntry field h => ?_, fun starters pos level h => ?_,
      fun name v pos before after hshadow h => ?_⟩
    · rw [Specifier.defaults] at h
      obtain ⟨level, hlevel, rfl⟩ := h.of_map
      obtain ⟨seed, mid, mapped, hseed, hmid, hmapped, rfl⟩ :=
        NamespaceRules.defaultsWith_yields hlevel
      refine ns rules specs pos isEntry seed mid mapped hseed (fun k hk => ?_) (fun k s hs => ?_)
        hmapped
      · exact (defaultFields_yields hmid k).1 hk
      · obtain ⟨field, hfield, hslot⟩ := (defaultFields_yields hmid k).2 s hs
        exact ⟨field, (ih k s hs).1 _ _ _ hfield, hslot⟩
    · exact stitch_isStitched_of_ns (fun k s hs => (ih k s hs).1) hgiven h
    · rw [Specifier.reconcile] at h
      obtain ⟨inner, hinner, h⟩ := h.of_bind
      rw [h.of_pure, Level.slot_put, if_pos rfl]
      rw [Level.namespaceAt_eq] at hinner
      exact hgiven v pos false _ inner hinner
  | record starters entry ih =>
    refine ⟨fun pos isEntry field h => ?_, fun starters' pos level h => ?_,
      fun name v pos before after hshadow h => ?_⟩
    · rw [Specifier.defaults] at h
      obtain ⟨given, hgiven, h⟩ := h.of_bind
      obtain ⟨level, hlevel, rfl⟩ := h.of_map
      exact record starters entry pos isEntry given level hgiven (ih.2.1 _ _ _ hlevel)
    · exact stitch_isStitched_of_not_ns (by simp) h
    · rw [Specifier.reconcile.eq_def] at h
      dsimp only at h
      split at h
      · next given =>
        obtain ⟨inner, hinner, h⟩ := h.of_bind
        rw [h.of_pure, Level.slot_set, if_pos rfl]
        exact givenRecord starters entry pos given _ inner (ih.2.1 _ _ _ hinner)
      · exact absurd h Run.not_yields_fail

end Induction

/-! ## Initialization is made of calls -/

section Closed

variable {calls : {α : Type} → CallM σ α → Prop} {attempts : {α : Type} → Attempt σ α → Prop}
  (closed : Run.Closed calls attempts)
include closed

theorem Run.Closed.sweep {α : Type} {step : String → α → Level → Attempt σ Level}
    {m : SortedMap α lo}
    (h : ∀ name a, m.get? name = some a → ∀ level, attempts (step name a level)) (level : Level) :
    attempts (sweep step m level) := by
  induction m generalizing level with
  | nil => exact closed.pure level
  | cons name above a rest ih =>
    exact closed.bind (h name a (if_pos rfl) level)
      (ih fun k b hk => h k b (SortedMap.get?_cons_of_get? hk))

theorem LeafRules.Uses.defaults {rules : LeafRules σ} (h : rules.Uses calls) (pos : Position) :
    attempts (rules.defaults pos) := by
  refine closed.bind (h.runInitial closed pos) fun v => ?_
  cases v with
  | none => exact closed.pure _
  | some v => exact closed.bind (closed.map (h.coerce closed v pos) some) fun _ => closed.pure _

/-- Initialization belongs to a class if the callbacks do. -/
theorem Specifier.Uses.defaults {s : Specifier σ} (h : s.Uses calls attempts) (pos : Position)
    (isEntry : Bool) : attempts (s.defaults pos isEntry) := by
  suffices hall : (∀ pos isEntry, attempts (s.defaults pos isEntry)) ∧
      ((s.kind ≠ .ns → ∀ path, attempts (Run.fail (.recordEntry path s.kind) : Attempt σ Level)) →
        ∀ starters pos, attempts (s.stitch starters pos)) ∧
      (∀ name v pos level, attempts (s.reconcile name v pos level)) from hall.1 pos isEntry
  -- Again one induction for the three functions. What is stitched has to be a namespace.
  induction h with
  | @leaf rules here =>
    refine ⟨fun pos isEntry => ?_, fun hkind starters pos => ?_, fun name v pos level => ?_⟩
    · rw [Specifier.defaults]
      exact here.defaults closed pos
    · rw [Specifier.stitch]
      split
      · exact closed.pure _
      · exact hkind (by rintro ⟨⟩) _
    · rw [Specifier.reconcile]
      exact closed.pure _
  | @ns rules specs here _ ih =>
    have hreconcile (given : Fields Value) (pos : Position) (level : Level) :
        attempts (reconcileFields specs given pos level) := by
      rw [reconcileFields_eq_sweep]
      refine closed.sweep (fun name s hs level => ?_) level
      split
      · exact closed.pure _
      · exact closed.pure _
      · split
        · exact closed.pure _
        · exact (ih name s hs).2.2 _ _ _ _
    have hgiven (v : Value) (pos : Position) (isEntry : Bool) (level : Level) :
        attempts (rules.reconcileWith (fun given level => reconcileFields specs given pos level) v
          pos isEntry level) :=
      closed.bind (here.longhand closed v pos) fun given =>
        closed.bind (hreconcile given pos level) fun mid => here.withMapper closed pos isEntry mid
    refine ⟨fun pos isEntry => ?_, fun _ starters pos => ?_, fun name v pos level => ?_⟩
    · rw [Specifier.defaults]
      refine closed.map (closed.bind (closed.runSeed here.seed pos) fun seed =>
        closed.bind ?_ fun mid => here.withMapper closed pos isEntry mid) _
      show attempts (defaultFields specs pos (Level.ofSeed specs seed))
      rw [defaultFields_eq_sweep]
      exact closed.sweep (fun name s hs level => closed.map ((ih name s hs).1 _ _) _) _
    · rw [Specifier.stitch]
      split
      · exact closed.pure _
      · refine closed.bind ?_ fun canonical => ?_
        · rw [canonicalFields_eq_sweep]
          refine closed.sweep (fun name s hs level => ?_) _
          split
          · exact closed.pure _
          · exact closed.map ((ih name s hs).1 _ _) _
        · rw [stitchEntries_eq_sweep]
          exact closed.sweep (fun name v _ level => closed.map (hgiven v _ true canonical) _) _
    · rw [Specifier.reconcile]
      exact closed.bind (hgiven v pos false _) fun _ => closed.pure _
  | @record starters entry here kind _ ih =>
    have hstitch := ih.2.1 fun hkind path => kind hkind path
    refine ⟨fun pos isEntry => ?_, fun hkind starters' pos => ?_, fun name v pos level => ?_⟩
    · rw [Specifier.defaults]
      exact closed.bind (closed.runSeed here pos) fun given => closed.map (hstitch given pos) _
    · rw [Specifier.stitch]
      split
      · exact closed.pure _
      · exact hkind (by rintro ⟨⟩) _
    · rw [Specifier.reconcile.eq_def]
      dsimp only
      split
      · exact closed.bind (hstitch _ pos) fun _ => closed.pure _
      · exact closed.fail rfl

end Closed

/-- With determined callbacks the host has no say in what initialization builds. -/
theorem Specifier.Determined.defaults {s : Specifier σ} (h : s.Determined) (pos : Position)
    (isEntry : Bool) : (s.defaults pos isEntry).Determined :=
  h.uses.defaults Run.determined_closed pos isEntry

theorem Namespace.defaults_determined {n : Namespace σ} (h : n.toSpecifier.Determined)
    (pos : Position) (isEntry : Bool) : (n.defaults pos isEntry).Determined := by
  have hfields : (Specifier.defaults (.ns n.rules n.fields) pos isEntry).Determined :=
    h.defaults pos isEntry
  rw [Specifier.defaults] at hfields
  -- What is built for the specifier has the level inside, so the level is determined as well.
  apply hfields.of_map
  intro a b hab
  have hdata : a.data = b.data :=
    Value.obj.inj (Option.some.inj (congrArg Initialized.data hab))
  have hnodes : a.nodes = b.nodes := Metadata.ns.inj (congrArg Initialized.node hab)
  obtain ⟨data, nodes⟩ := a
  cases hdata
  cases hnodes
  rfl

end Settings
