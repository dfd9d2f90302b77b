import Settings.Proofs.Applies

/-!
# Entries from starters and entries from changes

The entries of a record can be made in two ways: from its starters when the store is built, or by a
change of the record later on. The first lays each starter over the canonical entry, the second
initializes each entry and applies the input to it. Where leaves take values as they are and every
record starts empty (`Specifier.Plain`) and every given key is declared (`Explicit`), the two give
the same data.
-/

set_option autoImplicit false

namespace Settings

variable {σ : Type}

/-! ## Plain specifications and explicit values -/

/-- The leaf takes values as they are, and can be given one. -/
structure LeafRules.Verbatim (rules : LeafRules σ) : Prop where
  validate : rules.validate = none
  fixup : rules.fixup = none
  mapType : rules.mapType = none
  shadow : rules.shadow = false

/-- A namespace that starts from no data of its own. -/
def Specifier.Seedless (s : Specifier σ) : Prop :=
  ∀ rules specs, s = .ns rules specs → rules.seed = none

/-- Leaves are verbatim, there are no mappers, and records start empty, their entries without
seed. -/
inductive Specifier.Plain : Specifier σ → Prop
  | leaf {rules : LeafRules σ} (verbatim : rules.Verbatim) : Plain (.leaf rules)
  | ns {rules : NamespaceRules σ} {specs : Fields (Specifier σ)} (mapper : rules.mapper = none)
      (fields : ∀ k s, specs.get? k = some s → Plain s) : Plain (.ns rules specs)
  | record {entry : Specifier σ} (inside : Plain entry) (seedless : entry.Seedless) :
      Plain (.record none entry)

/-- Once shorthands are expanded, a value that gives declared fields alone, and none as `null`. -/
inductive Explicit : Specifier σ → Value → Prop
  | leaf {rules : LeafRules σ} {v : Value} : Explicit (.leaf rules) v
  | ns {rules : NamespaceRules σ} {specs : Fields (Specifier σ)} {v : Value}
      (given : ∀ pos fields, (rules.longhand v pos).Yields fields → ∀ k x, fields.get? k = some x →
        specs.get? k ≠ none ∧ x ≠ .null)
      (fields : ∀ pos fields, (rules.longhand v pos).Yields fields → ∀ k x s,
        fields.get? k = some x → specs.get? k = some s → Explicit s x) :
      Explicit (.ns rules specs) v
  | record {starters : Option (CallM σ Value)} {entry : Specifier σ} {v : Value}
      (entries : ∀ given, v = .obj given → ∀ k x, given.get? k = some x → Explicit entry x) :
      Explicit (.record starters entry) v

theorem Specifier.Plain.isShadow {s : Specifier σ} (h : s.Plain) : s.isShadow = false := by
  cases h with
  | leaf verbatim => exact verbatim.shadow
  | ns => rfl
  | record => rfl

theorem Specifier.Plain.withoutMappers {s : Specifier σ} (h : s.Plain) : s.WithoutMappers := by
  induction h with
  | leaf => exact .leaf trivial
  | ns mapper fields ih => exact .ns mapper ih
  | record inside seedless ih => exact .record trivial ih

theorem LeafRules.Verbatim.resolve {rules : LeafRules σ} (h : rules.Verbatim) {options : Options σ}
    {v w : Value} {pos : Position} (hw : (rules.resolve options v pos).Yields w) : w = v := by
  rw [resolve_eq, repair, h.fixup] at hw
  obtain ⟨_, hrepair, hw⟩ := hw.of_bind
  obtain ⟨_, -, hw⟩ := hw.of_bind
  rw [coerce, h.mapType] at hw
  exact hw.of_pure.trans hrepair.of_pure

/-! ## Calls without a say of the position -/

theorem runSeed_unique {seed : Option (CallM σ Value)} (h : ∀ f, seed = some f → f.Determined)
    {pos pos' : Position} {a b : Fields Value} (ha : (runSeed seed pos).Yields a)
    (hb : (runSeed seed pos').Yields b) : b = a := by
  unfold runSeed at ha hb
  cases seed with
  | none => exact hb.of_pure.trans ha.of_pure.symm
  | some f =>
    obtain ⟨v, hv, ha⟩ := ha.of_bind
    obtain ⟨w, hw, hb⟩ := hb.of_bind
    obtain rfl := (h f rfl).unique hv.of_mapError hw.of_mapError
    exact Option.some.inj (hb.of_ofOption.symm.trans ha.of_ofOption)

theorem NamespaceRules.Determined.longhand_unique {rules : NamespaceRules σ}
    (h : rules.Determined) {v : Value} {pos pos' : Position} {a b : Fields Value}
    (ha : (rules.longhand v pos).Yields a) (hb : (rules.longhand v pos').Yields b) : b = a := by
  unfold NamespaceRules.longhand at ha hb
  cases v with
  | obj fields => exact hb.of_pure.trans ha.of_pure.symm
  | _ =>
    dsimp only at ha hb
    cases hshorthand : rules.shorthand with
    | none =>
      rw [hshorthand] at ha
      exact absurd ha Run.not_yields_fail
    | some shorthand =>
      rw [hshorthand] at ha hb
      obtain ⟨v, hv, ha⟩ := ha.of_bind
      obtain ⟨w, hw, hb⟩ := hb.of_bind
      obtain rfl := (h.shorthand shorthand hshorthand _).unique hv.of_mapError hw.of_mapError
      exact Option.some.inj (hb.of_ofOption.symm.trans ha.of_ofOption)

theorem LeafRules.Determined.runInitial_unique {rules : LeafRules σ} (h : rules.Determined)
    {pos pos' : Position} {a b : Option Value} (ha : (rules.runInitial pos).Yields a)
    (hb : (rules.runInitial pos').Yields b) : b = a := by
  unfold LeafRules.runInitial at ha hb
  cases hinitial : rules.initial with
  | none =>
    rw [hinitial] at ha hb
    exact hb.of_pure.trans ha.of_pure.symm
  | some f =>
    rw [hinitial] at ha hb
    obtain ⟨v, hv, ha⟩ := ha.of_bind
    obtain ⟨w, hw, hb⟩ := hb.of_bind
    obtain rfl := (h.initial f hinitial).unique hv.of_mapError hw.of_mapError
    exact hb.of_pure.trans ha.of_pure.symm

theorem LeafRules.Verbatim.data_of_defaults {rules : LeafRules σ} (h : rules.Verbatim)
    {pos : Position} {field : Initialized} (hf : (rules.defaults pos).Yields field) :
    (rules.runInitial pos).Yields field.data := by
  obtain ⟨initial, hinitial, hrest⟩ := hf.of_bind
  cases initial with
  | none =>
    obtain ⟨v, hv, hfield⟩ := hrest.of_bind
    obtain rfl := hv.of_pure
    rw [hfield.of_pure]
    exact hinitial
  | some initial =>
    obtain ⟨v, hv, hfield⟩ := hrest.of_bind
    obtain ⟨w, hw, rfl⟩ := hv.of_map
    unfold coerce at hw
    rw [h.mapType] at hw
    rw [hfield.of_pure, hw.of_pure]
    exact hinitial

/-! ## What a plain node starts from -/

/-- Data of a plain node in which all records are empty. -/
inductive Blank : Specifier σ → Option Value → Prop
  | leaf {rules : LeafRules σ} {v : Option Value} : Blank (.leaf rules) v
  | ns {rules : NamespaceRules σ} {specs : Fields (Specifier σ)} {data : Fields Value}
      (fields : ∀ k s, specs.get? k = some s → Blank s (data.get? k)) :
      Blank (.ns rules specs) (some (.obj data))
  | record {starters : Option (CallM σ Value)} {entry : Specifier σ} :
      Blank (.record starters entry) (some (.obj ∅))

theorem Blank.or {s : Specifier σ} {v : Option Value} (h : Blank s v) (w : Option Value) :
    Blank s (v.or w) := by
  cases h with
  | leaf => exact .leaf
  | ns fields => exact .ns fields
  | record => exact .record

theorem Blank.of_ns {rules : NamespaceRules σ} {specs : Fields (Specifier σ)} {v : Option Value}
    (h : Blank (.ns rules specs) v) :
    ∃ data, v = some (.obj data) ∧ ∀ k s, specs.get? k = some s → Blank s (data.get? k) := by
  cases h with
  | ns fields => exact ⟨_, rfl, fields⟩

theorem Blank.of_record {starters : Option (CallM σ Value)} {entry : Specifier σ}
    {v : Option Value} (h : Blank (.record starters entry) v) : v = some (.obj ∅) := by
  cases h
  rfl

/-- Wherever the node is initialized it has the data, and all records in it are empty. -/
structure StartsFrom (s : Specifier σ) (v : Option Value) : Prop where
  blank : Blank s v
  unique : ∀ pos isEntry field, (s.defaults pos isEntry).Yields field → field.data = v

theorem LeafRules.Verbatim.startsFrom {rules : LeafRules σ} (h : rules.Verbatim)
    (hdetermined : rules.Determined) {pos : Position} {field : Initialized}
    (hf : (rules.defaults pos).Yields field) : StartsFrom (.leaf rules) field.data := by
  refine ⟨.leaf, fun pos' isEntry field' hf' => ?_⟩
  rw [Specifier.defaults] at hf'
  exact hdetermined.runInitial_unique (h.data_of_defaults hf) (h.data_of_defaults hf')

@[simp] theorem Slot.data_overlay (slot : Slot) (field : Initialized) :
    (slot.overlay field).data = field.data.or slot.data := by
  unfold overlay
  cases field.data <;> rfl

/-- A namespace without mapper has the seed's data, with the data of the fields laid over it. -/
theorem NamespaceRules.defaultsWith_data {rules : NamespaceRules σ} {specs : Fields (Specifier σ)}
    (hmapper : rules.mapper = none) {pos : Position} {isEntry : Bool} {level : Level}
    (h : (rules.defaultsWith specs (fun level => defaultFields specs pos level) pos isEntry).Yields
      level) :
    ∃ seed, (runSeed rules.seed pos).Yields seed ∧
      ∀ k, (specs.get? k = none → level.data.get? k = seed.get? k) ∧
        ∀ s v, specs.get? k = some s → StartsFrom s v →
          level.data.get? k = v.or (seed.get? k) := by
  obtain ⟨seed, mid, mapped, hseed, hmid, hmapped, rfl⟩ := NamespaceRules.defaultsWith_yields h
  obtain rfl := NamespaceRules.mapped_eq_empty hmapper hmapped
  refine ⟨seed, hseed, fun k => ?_⟩
  obtain ⟨hnone, hsome⟩ := defaultFields_yields hmid k
  refine ⟨fun hk => congrArg Slot.data (hnone hk), fun s v hk hs => ?_⟩
  obtain ⟨field, hfield, hslot⟩ := hsome s hk
  have hdata := congrArg Slot.data hslot
  rw [Slot.data_overlay, hs.unique _ _ _ hfield] at hdata
  exact hdata

/-- So it starts from what its fields start from, laid over the data of its seed. -/
theorem startsFrom_ns {rules : NamespaceRules σ} {specs : Fields (Specifier σ)}
    (hmapper : rules.mapper = none) {seed data : Fields Value}
    (hseed : ∀ pos seed', (runSeed rules.seed pos).Yields seed' → seed' = seed)
    (hothers : ∀ k, specs.get? k = none → data.get? k = seed.get? k)
    (hfields : ∀ k s, specs.get? k = some s →
      ∃ v, StartsFrom s v ∧ data.get? k = v.or (seed.get? k)) :
    StartsFrom (.ns rules specs) (some (.obj data)) := by
  refine ⟨.ns fun k s hs => ?_, fun pos isEntry field h => ?_⟩
  · obtain ⟨v, hv, hdata⟩ := hfields k s hs
    rw [hdata]
    exact hv.blank.or _
  · rw [Specifier.defaults] at h
    obtain ⟨level, hlevel, rfl⟩ := h.of_map
    obtain ⟨seed', hseed', hslots⟩ := NamespaceRules.defaultsWith_data hmapper hlevel
    obtain rfl := hseed pos seed' hseed'
    show some (Value.obj level.data) = some (.obj data)
    congr 2
    apply SortedMap.ext
    intro k
    cases hs : specs.get? k with
    | none => exact ((hslots k).1 hs).trans (hothers k hs).symm
    | some s =>
      obtain ⟨v, hv, hdata⟩ := hfields k s hs
      exact ((hslots k).2 s v hs hv).trans hdata.symm

theorem Specifier.stitch_empty (s : Specifier σ) (pos : Position) : s.stitch ∅ pos = pure ∅ := by
  cases s <;> rw [Specifier.stitch] <;> rfl

theorem IsStitched.eq_empty {D : Specifier σ → Position → Bool → Initialized → Prop}
    {G : Specifier σ → Position → Bool → Value → Slot → Slot → Prop} {entry : Specifier σ}
    {pos : Position} {level : Level} (h : IsStitched D G entry ∅ pos level) : level = ∅ := by
  cases h with
  | none => rfl
  | some hcanonical others => exact Level.ext_slot fun k => others k rfl

/-- A record without starters is built without entries. -/
theorem Specifier.data_of_record_none {entry : Specifier σ} {pos : Position} {isEntry : Bool}
    {field : Initialized} (h : ((Specifier.record none entry).defaults pos isEntry).Yields field) :
    field.data = some (.obj ∅) := by
  rw [Specifier.defaults] at h
  obtain ⟨given, hgiven, h⟩ := h.of_bind
  obtain rfl : given = ∅ := hgiven.of_pure
  obtain ⟨level, hlevel, rfl⟩ := h.of_map
  rw [Specifier.stitch_empty] at hlevel
  rw [hlevel.of_pure]
  rfl

/-! ## Entries made either way -/

/-- An input of the record with exactly these entries makes the same data of an empty record. -/
def MadeByInput (entry : Specifier σ) (given data : Fields Value) : Prop :=
  entry.Plain → entry.Seedless → entry.Determined →
    (∀ k x, given.get? k = some x → Explicit entry x) →
    ∀ options isEntry pos starters slot slot', slot.data = some (.obj ∅) →
      Applies options isEntry (some (.record starters entry)) pos (.obj given) slot slot' →
      slot'.data = some (.obj data)

/-- What an initialized node starts from; for a record also that its entries are those that an
input would make. -/
private def Built (s : Specifier σ) (pos : Position) (_isEntry : Bool) (field : Initialized) :
    Prop :=
  (s.Plain → s.Determined → StartsFrom s field.data) ∧
    ∀ starters entry, s = .record starters entry → ∃ given data,
      (runSeed starters pos).Yields given ∧ field.data = some (.obj data) ∧
      MadeByInput entry given data

/-- Laying a value over a node has the same effect on its data as applying the value to it. -/
private def LaidOver (s : Specifier σ) (_pos : Position) (_isEntry : Bool) (v : Value)
    (before after : Slot) : Prop :=
  s.Plain → s.Determined → Explicit s v → Blank s before.data →
    ∀ options isEntry pos slot slot', slot.data = before.data →
      Applies options isEntry (some s) pos v slot slot' → slot'.data = after.data

/-- An entry that an input introduces starts from the data of the canonical entry. -/
private theorem canonical_data {rules : NamespaceRules σ} {specs : Fields (Specifier σ)}
    (hplain : (Specifier.ns rules specs).Plain) (hseedless : (Specifier.ns rules specs).Seedless)
    (hdetermined : (Specifier.ns rules specs).Determined) {pos : Position} {canonical : Level}
    (hcanonical : IsCanonical Built specs pos canonical) :
    StartsFrom (.ns rules specs) (some (.obj canonical.data)) := by
  obtain ⟨-, hspecs⟩ := Specifier.everywhere_ns.1 hdetermined
  cases hplain with
  | ns mapper fields =>
    have hseed : ∀ pos seed, (runSeed rules.seed pos).Yields seed → seed = ∅ := by
      intro pos seed h
      rw [hseedless rules specs rfl] at h
      exact h.of_pure
    refine startsFrom_ns mapper hseed (fun k hs => ?_) fun k s hs => ?_
    · have hnone : canonical.slot k = ⟨none, none⟩ := (hcanonical k).1 fun s h => by
        rw [hs] at h
        cases h
      exact congrArg Slot.data hnone
    · obtain ⟨field, hbuilt, hslot⟩ := (hcanonical k).2 s hs (fields k s hs).isShadow
      have hdata : canonical.data.get? k = field.data := congrArg Slot.data hslot
      exact ⟨field.data, hbuilt.1 (fields k s hs) (hspecs k s hs), hdata.trans Option.or_none.symm⟩

private theorem madeByInput_of_stitched {entry : Specifier σ} {given : Fields Value}
    {pos : Position} {level : Level} (h : IsStitched Built LaidOver entry given pos level) :
    MadeByInput entry given level.data := by
  intro hplain hseedless hdetermined hexplicit options isEntry pos' starters slot slot' hslot
    happlies
  obtain ⟨rules, specs, rfl⟩ := happlies.entry_eq_ns
  obtain ⟨_, provenance, initial, inner, inner', ⟨⟩, rfl, rfl, hentries⟩ :=
    applies_record.1 happlies
  have hempty : inner.data = ∅ := Value.obj.inj (Option.some.inj hslot)
  have hnone (k : String) : (inner.slot k).data = none := by
    show inner.data.get? k = none
    rw [hempty]
    rfl
  have hothers {k : String} (hk : given.get? k = none) : inner'.data.get? k = none :=
    (congrArg Slot.data ((hentries k).of_none hk)).trans (hnone k)
  show some (Value.obj inner'.data) = some (.obj level.data)
  congr 2
  apply SortedMap.ext
  intro k
  cases h with
  | none => exact hothers rfl
  | @some _ _ _ _ canonical _ hcanonical others entries =>
    have hstarts := canonical_data hplain hseedless hdetermined hcanonical
    cases hk : given.get? k with
    | none => exact (hothers hk).trans (congrArg Slot.data (others k hk)).symm
    | some starter =>
      obtain ⟨made, hmade, hlaid⟩ := entries k starter hk
      obtain ⟨base, hensures, hentry⟩ := (hentries k).of_some hk
      -- The record was empty, so the input introduces the entry.
      cases hensures with
      | kept present => exact absurd (hnone k) present
      | @created fresh missing build =>
        have hfresh := hstarts.unique _ _ _ (Namespace.defaults_toSpecifier build)
        have hdata := hlaid hplain hdetermined (hexplicit k starter hk) hstarts.blank _ _ _ _ _
          hfresh hentry
        exact hdata.trans (congrArg Slot.data hmade).symm

/-- What is laid over a plain namespace has the effect of applying it if this is so for every field
that it gives. -/
private theorem laidOver_ns {rules : NamespaceRules σ} {specs : Fields (Specifier σ)}
    {pos : Position} {isEntry : Bool} {v : Value} {before : Slot} {fields mapped : Fields Value}
    {inner : Level} (hlonghand : (rules.longhand v pos).Yields fields)
    (hothers : ∀ k, givenFor? specs fields k = none →
      inner.slot k = (before.opened .ns).slot k)
    (hgiven : ∀ k s x, givenFor? specs fields k = some (s, x) →
      LaidOver s (pos.child k) false x ((before.opened .ns).slot k) (inner.slot k))
    (hmapped : (rules.runMapper inner.data pos isEntry).Yields mapped) :
    LaidOver (.ns rules specs) pos isEntry v before
      (.of .ns ⟨inner.data.assign mapped, inner.nodes⟩) := by
  intro hplain hdetermined hexplicit hblank options isEntry' pos' slot slot' hslot happlies
  obtain ⟨hrules, hspecs⟩ := Specifier.everywhere_ns.1 hdetermined
  obtain ⟨fields', mapped', level, level', hlonghand', rfl, rfl, hfields, hmapped'⟩ :=
    applies_ns.1 happlies
  obtain rfl := hrules.longhand_unique hlonghand hlonghand'
  obtain ⟨data, hdata, hblank⟩ := hblank.of_ns
  have hopened (k : String) : ((before.opened .ns).slot k).data = data.get? k := by
    rw [Level.data_opened, Slot.child, hdata]
    rfl
  obtain rfl : level.data = data := Value.obj.inj (Option.some.inj (hslot.trans hdata))
  cases hplain with
  | ns mapper plain =>
    obtain rfl := NamespaceRules.mapped_eq_empty mapper hmapped
    obtain rfl := NamespaceRules.mapped_eq_empty mapper hmapped'
    show some (Value.obj level'.data) = some (.obj inner.data)
    congr 2
    apply SortedMap.ext
    intro k
    cases hk : fields'.get? k with
    | none =>
      -- Neither way touches a field that is not given.
      have hlaid : inner.data.get? k = level.data.get? k :=
        (congrArg Slot.data (hothers k (givenFor?_eq_none hk))).trans (hopened k)
      have happlied : level'.data.get? k = level.data.get? k :=
        congrArg Slot.data ((hfields k).of_none hk)
      rw [hlaid, happlied]
    | some x =>
      cases hexplicit with
      | ns declared explicit =>
        obtain ⟨hdeclared, hnull⟩ := declared _ _ hlonghand k x hk
        obtain ⟨s, hs⟩ := Option.ne_none_iff_exists'.1 hdeclared
        have hfor : givenFor? specs fields' k = some (s, x) :=
          givenFor?_eq_some hs hk (plain k s hs).isShadow hnull
        have hbefore : Blank s ((before.opened .ns).slot k).data := by
          rw [hopened]
          exact hblank k s hs
        have hfield := (hfields k).of_some hk
        rw [hs] at hfield
        exact hgiven k s x hfor (plain k s hs) (hspecs k s hs)
          (explicit _ _ hlonghand k x s hk hs) hbefore _ _ _ _ _ (hopened k).symm hfield

private theorem Specifier.defaults_built {s : Specifier σ} {pos : Position} {isEntry : Bool}
    {field : Initialized} (h : (s.defaults pos isEntry).Yields field) :
    Built s pos isEntry field := by
  refine Specifier.defaults_induction (D := Built) (G := LaidOver) ?leaf ?ns ?record ?givenLeaf
    ?givenNs ?givenRecord h
  case leaf =>
    intro rules pos isEntry field h
    refine ⟨fun hplain hdetermined => ?_, by rintro _ _ ⟨⟩⟩
    cases hplain with
    | leaf verbatim => exact verbatim.startsFrom (Specifier.everywhere_leaf.1 hdetermined) h
  case ns =>
    intro rules specs pos isEntry seed level mapped hseed hothers hfields hmapped
    refine ⟨fun hplain hdetermined => ?_, by rintro _ _ ⟨⟩⟩
    obtain ⟨hrules, hspecs⟩ := Specifier.everywhere_ns.1 hdetermined
    cases hplain with
    | ns mapper fields =>
      obtain rfl := NamespaceRules.mapped_eq_empty mapper hmapped
      refine startsFrom_ns mapper (fun _ _ => runSeed_unique hrules.seed hseed)
        (fun k hs => congrArg Slot.data (hothers k hs)) fun k s hs => ?_
      obtain ⟨field, hbuilt, hslot⟩ := hfields k s hs
      exact ⟨field.data, hbuilt.1 (fields k s hs) (hspecs k s hs),
        (congrArg Slot.data hslot).trans (Slot.data_overlay _ _)⟩
  case record =>
    intro starters entry pos isEntry given level hgiven hstitched
    refine ⟨fun hplain hdetermined => ?_, ?_⟩
    · cases hplain with
      | record inside seedless =>
        obtain rfl : given = ∅ := hgiven.of_pure
        obtain rfl := hstitched.eq_empty
        exact ⟨.record, fun _ _ _ => Specifier.data_of_record_none⟩
    · rintro _ _ ⟨⟩
      exact ⟨given, level.data, hgiven, rfl, madeByInput_of_stitched hstitched⟩
  case givenLeaf =>
    intro rules pos v before hshadow hplain hdetermined _ _ options isEntry pos' slot slot' _
      happlies
    cases hplain with
    | leaf verbatim =>
      obtain ⟨w, hrenders, rfl⟩ := (applies_terminal rfl).1 happlies
      cases hrenders with
      | leaf value =>
        rw [verbatim.resolve value]
        rfl
  case givenNs =>
    intro rules specs pos isEntry v before fields inner mapped hlonghand hothers hgiven hmapped
    exact laidOver_ns hlonghand hothers hgiven hmapped
  case givenRecord =>
    intro starters entry pos given before level hstitched hplain hdetermined hexplicit hblank
      options isEntry pos' slot slot' hslot happlies
    obtain ⟨-, hentry⟩ := Specifier.everywhere_record.1 hdetermined
    cases hplain with
    | record inside seedless =>
      cases hexplicit with
      | record entries =>
        have hempty : before.data = some (.obj ∅) := hblank.of_record
        exact madeByInput_of_stitched hstitched inside seedless hentry (entries given rfl) _ _ _ _
          _ _ (hslot.trans hempty) happlies

/-- The entries that a record has from its starters are those that an input would make. -/
theorem Specifier.defaults_madeByInput {starters : Option (CallM σ Value)} {entry : Specifier σ}
    {pos : Position} {isEntry : Bool} {field : Initialized}
    (h : ((Specifier.record starters entry).defaults pos isEntry).Yields field) :
    ∃ given data, (runSeed starters pos).Yields given ∧ field.data = some (.obj data) ∧
      MadeByInput entry given data :=
  (Specifier.defaults_built h).2 starters entry rfl

/-! ## A record inside namespaces -/

/-- A path of declared fields leads from a namespace to a node, and no mapper on the way gives
anything for a name of the path. -/
inductive Holds : Specifier σ → List String → Specifier σ → Prop
  | here {s : Specifier σ} : Holds s [] s
  | field {rules : NamespaceRules σ} {specs : Fields (Specifier σ)} {name : String}
      {s target : Specifier σ} {path : List String} (declared : specs.get? name = some s)
      (unmapped : ∀ data pos isEntry mapped, (rules.runMapper data pos isEntry).Yields mapped →
        mapped.get? name = none)
      (rest : Holds s path target) : Holds (.ns rules specs) (name :: path) target

/-- An object of one key, of one key, and so on along a path, with a value at the end. -/
def Value.nest (path : List String) (v : Value) : Value :=
  path.foldr (fun name v => .obj (.ofList [(name, v)])) v

theorem Holds.containerKind?_ne_none {s target : Specifier σ} {path : List String}
    (h : Holds s path target) (htarget : containerKind? (some target) ≠ none) :
    containerKind? (some s) ≠ none := by
  cases h with
  | here => exact htarget
  | field => exact nofun

theorem Specifier.data_of_defaults {s : Specifier σ} (hs : containerKind? (some s) ≠ none)
    {pos : Position} {isEntry : Bool} {field : Initialized}
    (h : (s.defaults pos isEntry).Yields field) : ∃ v, field.data = some v := by
  cases s with
  | leaf => exact absurd rfl hs
  | ns =>
    rw [Specifier.defaults] at h
    obtain ⟨level, -, rfl⟩ := h.of_map
    exact ⟨_, rfl⟩
  | record =>
    rw [Specifier.defaults] at h
    obtain ⟨given, -, h⟩ := h.of_bind
    obtain ⟨level, -, rfl⟩ := h.of_map
    exact ⟨_, rfl⟩

/-- A container that the namespace's mapper leaves alone is found there as it was initialized. -/
private theorem slot_of_defaults {rules : NamespaceRules σ} {specs : Fields (Specifier σ)}
    {name : String} {s : Specifier σ} (declared : specs.get? name = some s)
    (unmapped : ∀ data pos isEntry mapped, (rules.runMapper data pos isEntry).Yields mapped →
      mapped.get? name = none)
    (hs : containerKind? (some s) ≠ none) {pos : Position} {isEntry : Bool} {field : Initialized}
    (h : ((Specifier.ns rules specs).defaults pos isEntry).Yields field) :
    ∃ level field', field = .ofNamespace level ∧
      (s.defaults (pos.child name) false).Yields field' ∧
      level.slot name = ⟨field'.data, some field'.node⟩ := by
  rw [Specifier.defaults] at h
  obtain ⟨level, hlevel, rfl⟩ := h.of_map
  obtain ⟨seed, mid, mapped, hseed, hmid, hmapped, rfl⟩ := NamespaceRules.defaultsWith_yields hlevel
  obtain ⟨field', hfield', hslot⟩ := (defaultFields_yields hmid name).2 s declared
  refine ⟨_, field', rfl, hfield', ?_⟩
  obtain ⟨v, hv⟩ := Specifier.data_of_defaults hs hfield'
  have hassigned : (⟨mid.data.assign mapped, mid.nodes⟩ : Level).slot name = mid.slot name := by
    unfold Level.slot
    rw [SortedMap.get?_assign, unmapped _ _ _ _ hmapped, Option.none_or]
  rw [hassigned, hslot, Slot.overlay, hv]

theorem Holds.follow_of_defaults {s target : Specifier σ} {path : List String}
    (h : Holds s path target) (htarget : containerKind? (some target) ≠ none) {pos : Position}
    {isEntry : Bool} {field : Initialized} (hbuilt : (s.defaults pos isEntry).Yields field) :
    ∃ pos' isEntry' field', (target.defaults pos' isEntry').Yields field' ∧
      (⟨field.data, some field.node⟩ : Slot).follow path = ⟨field'.data, some field'.node⟩ := by
  induction h generalizing pos isEntry field with
  | here => exact ⟨pos, isEntry, field, hbuilt, rfl⟩
  | field declared unmapped rest ih =>
    obtain ⟨level, field', rfl, hfield', hslot⟩ :=
      slot_of_defaults declared unmapped (rest.containerKind?_ne_none htarget) hbuilt
    obtain ⟨pos', isEntry', field'', hfield'', hfollow⟩ := ih htarget hfield'
    refine ⟨pos', isEntry', field'', hfield'', ?_⟩
    rw [Slot.follow_cons, ← hfollow, ← hslot]
    rfl

/-- A change along the path, made right after initialization, is a change of the node at its end. -/
theorem Holds.change_follow {options : Options σ} {s target : Specifier σ} {path : List String}
    (h : Holds s path target) (htarget : containerKind? (some target) ≠ none) {pos : Position}
    {isEntry : Bool} {field : Initialized} (hbuilt : (s.defaults pos isEntry).Yields field)
    {v w : Value} {pos' : Position} {isEntry' : Bool} {mid slot' : Slot}
    (hresolves : Resolves options (some s) pos' (.nest path v) ⟨field.data, some field.node⟩ w mid)
    (hcommits : Commits .change isEntry' (some s) pos' w mid slot') :
    ∃ pos isEntry field pos' isEntry' w mid, (target.defaults pos isEntry).Yields field ∧
      Resolves options (some target) pos' v ⟨field.data, some field.node⟩ w mid ∧
      Commits .change isEntry' (some target) pos' w mid (slot'.follow path) := by
  induction h generalizing pos isEntry field pos' isEntry' w mid slot' with
  | here => exact ⟨pos, isEntry, field, pos', isEntry', w, mid, hbuilt, hresolves, hcommits⟩
  | @field rules specs name s target path declared unmapped rest ih =>
    obtain ⟨level, field', rfl, hfield', hslot⟩ :=
      slot_of_defaults declared unmapped (rest.containerKind?_ne_none htarget) hbuilt
    generalize hbefore : (⟨(Initialized.ofNamespace level).data,
      some (Initialized.ofNamespace level).node⟩ : Slot) = before at hresolves
    cases hresolves with
    | @ns _ _ _ _ _ fields c inner longhand names others each =>
      obtain rfl : before = .of .ns level := hbefore.symm
      obtain rfl : fields = .ofList [(name, .nest path v)] := longhand.of_pure
      have hgiven : (SortedMap.ofList [(name, Value.nest path v)] : Fields Value).get? name =
          some (.nest path v) := by
        rw [SortedMap.ofList, SortedMap.insertMany_cons, SortedMap.insertMany_nil,
          SortedMap.get?_insert, if_pos rfl]
      obtain ⟨y, hy⟩ := exists_of_names (fun k => (names k).symm) hgiven
      obtain ⟨inner', mapped, rfl, -, each', hmapped⟩ := hcommits.of_ns
      have hresolves := each name _ y hgiven hy
      have hcommits := each' name y hy
      rw [declared] at hresolves hcommits
      have hassigned : (Slot.of .ns ⟨inner'.data.assign mapped, inner'.nodes⟩).child name =
          inner'.slot name := by
        rw [Level.child_of_ns]
        unfold Level.slot
        rw [SortedMap.get?_assign, unmapped _ _ _ _ hmapped, Option.none_or]
      rw [Slot.follow_cons, hassigned]
      refine ih htarget hfield' (hslot ▸ hresolves) hcommits

/-! ## The two ways compared -/

/-- A record of plain entries has the same data if its entries come from starters when the store is
built, and if it is built without starters and then changed with the same object. -/
theorem Store.starters_eq_change {root root' : Namespace σ} {options : Options σ}
    {path : List String} {starters : CallM σ Value} {entry : Namespace σ} {given : Fields Value}
    (hroot : Holds root.toSpecifier path (.record (some starters) entry.toSpecifier))
    (hroot' : Holds root'.toSpecifier path (.record none entry.toSpecifier))
    (hplain : entry.toSpecifier.Plain) (hseedless : entry.rules.seed = none)
    (hdetermined : entry.toSpecifier.Determined) (hstarters : starters.Gives (.obj given))
    (hexplicit : ∀ k x, given.get? k = some x → Explicit entry.toSpecifier x)
    {started built changed : Store σ} (hstarted : (Store.create root options).Yields started)
    (hbuilt : (Store.create root' options).Yields built)
    (hchanged : (built.change (.nest path (.obj given))).Yields changed) :
    ∃ data, (Value.obj started.data).at? path = some (.obj data) ∧
      (Value.obj changed.data).at? path = some (.obj data) := by
  have hentry : entry.toSpecifier.Seedless := by
    rintro _ _ ⟨⟩
    exact hseedless
  have hrecord : (Specifier.record none entry.toSpecifier).Plain := .record hplain hentry
  -- From starters: the entries are what an input with the starters would make.
  obtain ⟨level, rfl, hlevel⟩ := Store.create_yields hstarted
  obtain ⟨pos, isEntry, field, hfield, hfollow⟩ :=
    hroot.follow_of_defaults nofun (Namespace.defaults_toSpecifier hlevel)
  obtain ⟨given', data, hgiven, hdata, hmade⟩ := Specifier.defaults_madeByInput hfield
  obtain rfl : given' = given := by
    obtain ⟨v, hv, hobject⟩ := hgiven.of_bind
    obtain rfl := hv.of_mapError.eq_of_gives hstarters
    exact (Option.some.inj hobject.of_ofOption).symm
  -- By a change: the input applies to the record as it was built, without entries.
  obtain ⟨level', rfl, hlevel'⟩ := Store.create_yields hbuilt
  obtain ⟨s, s', hchanged⟩ := hchanged
  obtain ⟨c, mid, changedLevel, rfl, -, hresolves, hcommits⟩ := Store.change_eq_ok hchanged
  obtain ⟨pos', isEntry', field', pos'', isEntry'', w, mid', hfield', hresolves', hcommits'⟩ :=
    hroot'.change_follow nofun (Namespace.defaults_toSpecifier hlevel') hresolves hcommits
  have hempty : field'.data = some (.obj ∅) := Specifier.data_of_record_none hfield'
  have hmild : (Specifier.record none entry.toSpecifier).Mild fun _ _ => True :=
    hrecord.withoutMappers.mild
  have happlies : Applies options isEntry'' (some (.record none entry.toSpecifier)) pos''
      (.obj given') ⟨field'.data, some field'.node⟩
      ((Slot.of .ns changedLevel).follow path) :=
    ⟨w, hresolves'.renders, hresolves'.changes (fun _ => trivial) hcommits'
      (Specifier.forall_of_some hmild)
      (Specifier.defaults_coherent (fun _ => trivial) hmild hfield')⟩
  have hchangedData := hmade hplain hentry hdetermined hexplicit _ _ _ _ _ _ hempty happlies
  rw [Slot.data_follow] at hchangedData
  refine ⟨data, ?_, hchangedData⟩
  have hstartedData := congrArg Slot.data hfollow
  rw [Slot.data_follow, hdata] at hstartedData
  exact hstartedData

namespace Members

/-- A namespace of one limit, for which the bare limit can stand. -/
def limits : Specifier Unit :=
  .ns ⟨some fun v => pure (.obj (.ofList [("most", v)])), none, none⟩
    (.ofList [("most", .leaf ⟨some (pure (.int 10)), none, none, none, false⟩)])

def member : Namespace Unit :=
  ⟨⟨none, none, none⟩, .ofList [("limits", limits),
    ("name", .leaf ⟨some (pure (.str "nobody")), none, none, none, false⟩)]⟩

def given : Fields Value := .ofList [("x", .obj (.ofList [("limits", .int 20)]))]

/-- A club whose members are in a namespace of their own. -/
def club (starters : Option (CallM Unit Value)) : Namespace Unit :=
  ⟨⟨none, none, none⟩, .ofList [("club", .ns ⟨none, none, none⟩
    (.ofList [("members", .record starters member.toSpecifier)]))]⟩

def started : Store Unit :=
  ((Store.create (club (some (pure (.obj given)))) Hosts.quiet ()).1.toOption).getD
    ⟨club none, Hosts.quiet, ∅⟩

def built : Store Unit :=
  ((Store.create (club none) Hosts.quiet ()).1.toOption).getD ⟨club none, Hosts.quiet, ∅⟩

def changed : Store Unit :=
  (built.step (.change (.nest ["club", "members"] (.obj given))) ()).1

theorem club_holds (starters : Option (CallM Unit Value)) :
    Holds (club starters).toSpecifier ["club", "members"]
      (.record starters member.toSpecifier) := by
  have hunmapped {name : String} : ∀ data pos isEntry mapped,
      ((⟨none, none, none⟩ : NamespaceRules Unit).runMapper data pos isEntry).Yields mapped →
      mapped.get? name = none := by
    intro data pos isEntry mapped h
    rw [NamespaceRules.mapped_eq_empty rfl h]
    rfl
  exact .field rfl hunmapped (.field rfl hunmapped .here)

theorem member_plain : member.toSpecifier.Plain := by
  have hnone : ∀ k s, (∅ : Fields (Specifier Unit)).get? k = some s → s.Plain :=
    fun _ _ h => nomatch h
  have hlimits : limits.Plain :=
    .ns rfl (SortedMap.forall_insert (.leaf ⟨rfl, rfl, rfl, rfl⟩) hnone)
  exact .ns rfl (SortedMap.forall_insert (.leaf ⟨rfl, rfl, rfl, rfl⟩)
    (SortedMap.forall_insert hlimits hnone))

theorem given_explicit : ∀ k x, given.get? k = some x → Explicit member.toSpecifier x := by
  intro k x hk
  obtain ⟨-, rfl⟩ := SortedMap.eq_of_get?_ofList hk
  -- The bare limit stands for an object with the one declared key.
  have hlimits : Explicit limits (.int 20) := by
    have hexpand : ∀ pos fields, ((⟨some fun v => pure (.obj (.ofList [("most", v)])), none,
        none⟩ : NamespaceRules Unit).longhand (.int 20) pos).Yields fields →
        fields = .ofList [("most", .int 20)] := by
      rintro pos fields ⟨s, s', h⟩
      cases h
      rfl
    refine .ns (fun pos fields h k x hk => ?_) (fun pos fields h k x s hk hs => ?_)
    · rw [hexpand pos fields h] at hk
      obtain ⟨rfl, rfl⟩ := SortedMap.eq_of_get?_ofList hk
      exact ⟨nofun, nofun⟩
    · rw [hexpand pos fields h] at hk
      obtain ⟨rfl, rfl⟩ := SortedMap.eq_of_get?_ofList hk
      cases hs
      exact .leaf
  refine .ns (fun pos fields h k x hk => ?_) (fun pos fields h k x s hk hs => ?_)
  · rw [h.of_pure] at hk
    obtain ⟨rfl, rfl⟩ := SortedMap.eq_of_get?_ofList hk
    exact ⟨nofun, nofun⟩
  · rw [h.of_pure] at hk
    obtain ⟨rfl, rfl⟩ := SortedMap.eq_of_get?_ofList hk
    cases hs
    exact hlimits

end Members

/-- The member with a bare limit, from starters and by a change. -/
theorem Store.starters_eq_change_members :
    (Value.obj Members.changed.data).at? ["club", "members", "x"] = some (.obj (.ofList
      [("limits", .obj (.ofList [("most", .int 20)])), ("name", .str "nobody")])) ∧
    ∃ data, (Value.obj Members.started.data).at? ["club", "members"] = some (.obj data) ∧
      (Value.obj Members.changed.data).at? ["club", "members"] = some (.obj data) :=
  ⟨rfl, Store.starters_eq_change
    (Members.club_holds (some (pure (.obj Members.given)))) (Members.club_holds none)
    Members.member_plain rfl (Specifier.determined_of_subsingleton _)
    (Run.gives_pure (Value.obj Members.given)) Members.given_explicit
    (⟨(), (), rfl⟩ : (Store.create _ Hosts.quiet).Yields Members.started)
    (⟨(), (), rfl⟩ : (Store.create _ Hosts.quiet).Yields Members.built)
    (⟨(), (), rfl⟩ : (Members.built.change _).Yields Members.changed)⟩

end Settings
