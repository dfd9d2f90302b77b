import Settings.Proofs.Starters

/-!
# Entries that are started empty

A starter that gives nothing leaves an entry as the canonical one, which initialization builds for
the record, and an input that gives nothing leaves an entry as its namespace is initialized. Without
mappers initialization does not depend on the position (`Specifier.defaults_anywhere`), so both
start from the same fields; but the canonical entry lacks the entry's own seed. The data that is
missing in an entry that was started is exactly that of the seed at names for which the fields have
nothing (`Store.empty_starter_eq_empty_change_iff`).
-/

set_option autoImplicit false

namespace Settings

/-! ## Runs but for their errors -/

namespace Run

variable {ε ε' σ α β : Type}

/-- The run with nothing said about why it fails. -/
def unexplained (r : Run ε σ α) : Run Unit σ α := r.mapError fun _ => ()

theorem unexplained_apply (r : Run ε σ α) (s : σ) :
    r.unexplained s = ((r s).1.mapError fun _ => (), (r s).2) := by
  unfold unexplained Run.mapError
  rcases r s with ⟨e | a, s'⟩ <;> rfl

theorem unexplained_bind (r : Run ε σ α) (f : α → Run ε σ β) :
    (r >>= f).unexplained = r.unexplained >>= fun a => (f a).unexplained := by
  funext s
  rw [unexplained_apply, bind_apply, bind_apply, unexplained_apply]
  rcases r s with ⟨e | a, s'⟩
  · rfl
  · exact (unexplained_apply (f a) s').symm

theorem unexplained_map (f : α → β) (r : Run ε σ α) :
    (f <$> r).unexplained = f <$> r.unexplained := by
  rw [map_eq_pure_bind, map_eq_pure_bind, unexplained_bind]
  rfl

theorem unexplained_mapError (f : ε → ε') (r : Run ε σ α) :
    (r.mapError f).unexplained = r.unexplained := by
  funext s
  unfold unexplained Run.mapError
  rcases r s with ⟨e | a, s'⟩ <;> rfl

theorem unexplained_ofOption (e : ε) (e' : ε') (o : Option α) :
    (ofOption e o : Run ε σ α).unexplained = (ofOption e' o : Run ε' σ α).unexplained := by
  cases o <;> rfl

/-- Runs that are the same but for their errors can end with the same values. -/
theorem Yields.of_unexplained_eq {r : Run ε σ α} {r' : Run ε' σ α} {a : α} (h : r.Yields a)
    (hsame : r.unexplained = r'.unexplained) : r'.Yields a := by
  obtain ⟨s, s', h⟩ := h
  have hr : r.unexplained s = (.ok a, s') := by
    unfold unexplained Run.mapError
    rw [h]
  rw [hsame] at hr
  exact Yields.of_mapError ⟨s, s', hr⟩

end Run

variable {σ : Type} {lo : Option String}

/-! ## Initialization does not depend on the position -/

theorem runSeed_unexplained (seed : Option (CallM σ Value)) (pos pos' : Position) :
    (runSeed seed pos).unexplained = (runSeed seed pos').unexplained := by
  unfold runSeed
  cases seed with
  | none => rfl
  | some f =>
    dsimp only
    rw [Run.unexplained_bind, Run.unexplained_bind, Run.unexplained_mapError,
      Run.unexplained_mapError]
    exact bind_congr fun v => Run.unexplained_ofOption _ _ _

theorem NamespaceRules.longhand_unexplained (rules : NamespaceRules σ) (v : Value)
    (pos pos' : Position) :
    (rules.longhand v pos).unexplained = (rules.longhand v pos').unexplained := by
  unfold NamespaceRules.longhand
  cases v with
  | obj fields => rfl
  | _ =>
    dsimp only
    cases rules.shorthand with
    | none => rfl
    | some shorthand =>
      dsimp only
      rw [Run.unexplained_bind, Run.unexplained_bind, Run.unexplained_mapError,
        Run.unexplained_mapError]
      exact bind_congr fun v => Run.unexplained_ofOption _ _ _

theorem LeafRules.defaults_unexplained (rules : LeafRules σ) (pos pos' : Position) :
    (rules.defaults pos).unexplained = (rules.defaults pos').unexplained := by
  have hinitial : (rules.runInitial pos).unexplained = (rules.runInitial pos').unexplained := by
    unfold LeafRules.runInitial
    cases rules.initial with
    | none => rfl
    | some f =>
      dsimp only
      rw [Run.unexplained_bind, Run.unexplained_bind, Run.unexplained_mapError,
        Run.unexplained_mapError]
  have hcoerce (v : Value) :
      (rules.coerce v pos).unexplained = (rules.coerce v pos').unexplained := by
    unfold LeafRules.coerce
    cases rules.mapType with
    | none => rfl
    | some f => exact (Run.unexplained_mapError _ _).trans (Run.unexplained_mapError _ _).symm
  unfold LeafRules.defaults
  rw [Run.unexplained_bind, Run.unexplained_bind, hinitial]
  refine bind_congr fun initial => ?_
  cases initial with
  | none => rfl
  | some v =>
    dsimp only
    rw [Run.unexplained_bind, Run.unexplained_bind, Run.unexplained_map, Run.unexplained_map,
      hcoerce]

/-- Without a mapper there is nothing to assign. -/
theorem Level.withMapper_of_mapperless {rules : NamespaceRules σ} (h : rules.mapper = none)
    (pos : Position) (isEntry : Bool) (level : Level) :
    level.withMapper rules pos isEntry = pure level := by
  unfold Level.withMapper NamespaceRules.runMapper
  rw [h]
  rfl

/-- Loops whose steps are the same but for their errors are the same but for their errors. -/
theorem sweep_unexplained {α : Type} {step step' : String → α → Level → Attempt σ Level}
    {m : SortedMap α lo}
    (h : ∀ name a, m.get? name = some a → ∀ level,
      (step name a level).unexplained = (step' name a level).unexplained) (level : Level) :
    (sweep step m level).unexplained = (sweep step' m level).unexplained := by
  induction m generalizing level with
  | nil => rfl
  | cons name above a rest ih =>
    rw [sweep, sweep, Run.unexplained_bind, Run.unexplained_bind, h name a (if_pos rfl)]
    exact bind_congr fun level =>
      ih (fun k b hk => h k b (SortedMap.get?_cons_of_get? hk)) level

/-- The position of the node has no say in what initialization builds, makes of starters or lays
over what is there, but for errors. -/
structure Specifier.Unplaced (s : Specifier σ) : Prop where
  defaults : ∀ pos pos' isEntry isEntry',
    (s.defaults pos isEntry).unexplained = (s.defaults pos' isEntry').unexplained
  stitch : ∀ starters pos pos',
    (s.stitch starters pos).unexplained = (s.stitch starters pos').unexplained
  reconcile : ∀ name v pos pos' level,
    (s.reconcile name v pos level).unexplained = (s.reconcile name v pos' level).unexplained

section Namespace

variable {rules : NamespaceRules σ} {specs : Fields (Specifier σ)}

theorem NamespaceRules.defaultsWith_unexplained (hmapper : rules.mapper = none)
    (hspecs : ∀ k s, specs.get? k = some s → s.Unplaced) (pos pos' : Position)
    (isEntry isEntry' : Bool) :
    (rules.defaultsWith specs (fun level => defaultFields specs pos level) pos
      isEntry).unexplained =
    (rules.defaultsWith specs (fun level => defaultFields specs pos' level) pos'
      isEntry').unexplained := by
  unfold NamespaceRules.defaultsWith
  simp only [Level.withMapper_of_mapperless hmapper, Run.unexplained_bind,
    runSeed_unexplained rules.seed pos pos']
  refine bind_congr fun seed => ?_
  rw [defaultFields_eq_sweep, defaultFields_eq_sweep,
    sweep_unexplained (fun name s hs level => ?_)]
  rw [Run.unexplained_map, Run.unexplained_map, (hspecs name s hs).defaults _ _ _ _]

theorem NamespaceRules.reconcileWith_unexplained (hmapper : rules.mapper = none)
    (hspecs : ∀ k s, specs.get? k = some s → s.Unplaced) (v : Value) (pos pos' : Position)
    (isEntry isEntry' : Bool) (level : Level) :
    (rules.reconcileWith (fun given level => reconcileFields specs given pos level) v pos
      isEntry level).unexplained =
    (rules.reconcileWith (fun given level => reconcileFields specs given pos' level) v pos'
      isEntry' level).unexplained := by
  unfold NamespaceRules.reconcileWith
  simp only [Level.withMapper_of_mapperless hmapper, Run.unexplained_bind,
    rules.longhand_unexplained v pos pos']
  refine bind_congr fun given => ?_
  rw [reconcileFields_eq_sweep, reconcileFields_eq_sweep,
    sweep_unexplained (fun name s hs level => ?_)]
  split
  · rfl
  · rfl
  · split
    · rfl
    · exact (hspecs name s hs).reconcile _ _ _ _ _

theorem canonicalFields_unexplained (hspecs : ∀ k s, specs.get? k = some s → s.Unplaced)
    (pos pos' : Position) (level : Level) :
    (canonicalFields specs pos level).unexplained =
      (canonicalFields specs pos' level).unexplained := by
  rw [canonicalFields_eq_sweep, canonicalFields_eq_sweep]
  refine sweep_unexplained (fun name s hs level => ?_) level
  split
  · rfl
  · rw [Run.unexplained_map, Run.unexplained_map, (hspecs name s hs).defaults _ _ _ _]

/-- The position of a namespace has no say if those of its fields have none. -/
theorem Specifier.unplaced_ns (hmapper : rules.mapper = none)
    (hspecs : ∀ k s, specs.get? k = some s → s.Unplaced) : (Specifier.ns rules specs).Unplaced := by
  refine ⟨fun pos pos' isEntry isEntry' => ?_, fun starters pos pos' => ?_,
    fun name v pos pos' level => ?_⟩
  · rw [Specifier.defaults, Specifier.defaults, Run.unexplained_map, Run.unexplained_map,
      NamespaceRules.defaultsWith_unexplained hmapper hspecs pos pos' isEntry isEntry']
  · rw [Specifier.stitch, Specifier.stitch]
    split
    · rfl
    · rw [Run.unexplained_bind, Run.unexplained_bind,
        canonicalFields_unexplained hspecs (pos.child "*") (pos'.child "*")]
      refine bind_congr fun canonical => ?_
      rw [stitchEntries_eq_sweep, stitchEntries_eq_sweep,
        sweep_unexplained (fun name v _ level => ?_)]
      rw [Run.unexplained_map, Run.unexplained_map,
        NamespaceRules.reconcileWith_unexplained hmapper hspecs]
  · rw [Specifier.reconcile, Specifier.reconcile, Run.unexplained_bind, Run.unexplained_bind,
      NamespaceRules.reconcileWith_unexplained hmapper hspecs v pos pos' false false]

end Namespace

/-- Without mappers positions have no say, and neither has whether a node is an entry. -/
theorem Specifier.unplaced {s : Specifier σ} (h : s.WithoutMappers) : s.Unplaced := by
  induction h with
  | @leaf rules =>
    refine ⟨fun pos pos' isEntry isEntry' => ?_, fun starters pos pos' => ?_,
      fun name v pos pos' level => ?_⟩
    · rw [Specifier.defaults, Specifier.defaults]
      exact rules.defaults_unexplained pos pos'
    · rw [Specifier.stitch, Specifier.stitch]
      split <;> rfl
    · rw [Specifier.reconcile, Specifier.reconcile]
  | ns mapperless _ ih => exact Specifier.unplaced_ns mapperless ih
  | @record starters entry _ _ ih =>
    refine ⟨fun pos pos' isEntry isEntry' => ?_, fun starters' pos pos' => ?_,
      fun name v pos pos' level => ?_⟩
    · rw [Specifier.defaults, Specifier.defaults, Run.unexplained_bind, Run.unexplained_bind,
        runSeed_unexplained starters pos pos']
      refine bind_congr fun given => ?_
      rw [Run.unexplained_map, Run.unexplained_map, ih.stitch]
    · rw [Specifier.stitch, Specifier.stitch]
      split <;> rfl
    · rw [Specifier.reconcile.eq_def, Specifier.reconcile.eq_def]
      dsimp only
      split
      · next given =>
        rw [Run.unexplained_bind, Run.unexplained_bind, ih.stitch given pos pos']
      · rfl

theorem Specifier.defaults_anywhere {s : Specifier σ} (h : s.WithoutMappers) {pos pos' : Position}
    {isEntry isEntry' : Bool} {field : Initialized}
    (hfield : (s.defaults pos isEntry).Yields field) : (s.defaults pos' isEntry').Yields field :=
  hfield.of_unexplained_eq ((Specifier.unplaced h).defaults pos pos' isEntry isEntry')

theorem Namespace.defaults_anywhere {n : Namespace σ} (h : n.toSpecifier.WithoutMappers)
    {pos pos' : Position} {isEntry isEntry' : Bool} {level : Level}
    (hlevel : (n.defaults pos isEntry).Yields level) : (n.defaults pos' isEntry').Yields level := by
  have hfield : ((Specifier.ns n.rules n.fields).defaults pos' isEntry').Yields
      (.ofNamespace level) := Specifier.defaults_anywhere h (Namespace.defaults_toSpecifier hlevel)
  rw [Specifier.defaults] at hfield
  obtain ⟨level', hlevel', heq⟩ := hfield.of_map
  obtain ⟨data, nodes⟩ := level
  obtain ⟨data', nodes'⟩ := level'
  cases heq
  exact hlevel'

/-! ## The canonical entry and the initialized one -/

/-- Initialization gives the node data: every container, and a leaf with an initial value. -/
def Specifier.HasDefault (s : Specifier σ) : Prop := ∀ rules, s = .leaf rules → rules.initial ≠ none

theorem Specifier.data_ne_none_iff {s : Specifier σ} {pos : Position} {isEntry : Bool}
    {field : Initialized} (h : (s.defaults pos isEntry).Yields field) :
    field.data ≠ none ↔ s.HasDefault := by
  cases s with
  | leaf rules =>
    rw [Specifier.defaults] at h
    obtain ⟨initial, hinitial, hrest⟩ := h.of_bind
    unfold LeafRules.runInitial at hinitial
    cases hrules : rules.initial with
    | none =>
      rw [hrules] at hinitial
      obtain rfl := hinitial.of_pure
      obtain ⟨v, hv, hfield⟩ := hrest.of_bind
      rw [hfield.of_pure, hv.of_pure]
      exact iff_of_false (fun hne => hne rfl) fun hdefault => hdefault rules rfl hrules
    | some f =>
      rw [hrules] at hinitial
      obtain ⟨x, -, hx⟩ := hinitial.of_bind
      obtain rfl := hx.of_pure
      obtain ⟨v, hv, hfield⟩ := hrest.of_bind
      obtain ⟨w, -, rfl⟩ := hv.of_map
      rw [hfield.of_pure]
      refine iff_of_true (Option.some_ne_none w) ?_
      rintro _ ⟨⟩
      rw [hrules]
      exact Option.some_ne_none f
  | _ =>
    obtain ⟨v, hv⟩ := Specifier.data_of_defaults (by rintro ⟨⟩) h
    rw [hv]
    refine iff_of_true (Option.some_ne_none v) ?_
    rintro _ ⟨⟩

section Entry

variable {rules : NamespaceRules σ} {specs : Fields (Specifier σ)}

/-- A starter that gives nothing leaves the canonical entry as it is. -/
theorem NamespaceRules.reconcileWith_empty (hmapper : rules.mapper = none) {pos : Position}
    {isEntry : Bool} {level level' : Level}
    (h : (rules.reconcileWith (fun given level => reconcileFields specs given pos level) (.obj ∅)
      pos isEntry level).Yields level') : level' = level := by
  obtain ⟨fields, mid, mapped, hfields, hmid, hmapped, rfl⟩ := NamespaceRules.reconcileWith_yields h
  obtain rfl := hfields.of_pure
  obtain rfl := NamespaceRules.mapped_eq_empty hmapper hmapped
  apply Level.ext_slot
  intro k
  rw [Level.slot_assign]
  exact (reconcileFields_yields hmid k).1 (givenFor?_eq_none rfl)

theorem Specifier.stitch_empty_starter (hmapper : rules.mapper = none) {starters : Fields Value}
    {name : String} (hname : starters.get? name = some (.obj ∅)) {pos : Position} {level : Level}
    (h : ((Specifier.ns rules specs).stitch starters pos).Yields level) :
    ∃ canonical, (canonicalFields specs (pos.child "*") ∅).Yields canonical ∧
      level.slot name = .of .ns canonical := by
  rw [Specifier.stitch] at h
  split at h
  · next hempty =>
    rw [SortedMap.isEmpty_iff.1 hempty] at hname
    cases hname
  · obtain ⟨canonical, hcanonical, h⟩ := h.of_bind
    obtain ⟨inner, hinner, hslot⟩ := (stitchEntries_yields h name).2 _ hname
    rw [NamespaceRules.reconcileWith_empty hmapper hinner] at hslot
    exact ⟨canonical, hcanonical, hslot⟩

/-- The initialized entry has the data of the canonical one, and where that has none the seed's. -/
theorem NamespaceRules.defaultsWith_eq_canonical
    (hmappers : (Specifier.ns rules specs).WithoutMappers)
    (hshadows : ∀ k s, specs.get? k = some s → s.isShadow = false)
    (hdetermined : (Specifier.ns rules specs).Determined) {pos pos' : Position} {isEntry : Bool}
    {canonical fresh : Level} (hcanonical : (canonicalFields specs pos ∅).Yields canonical)
    (hfresh : (rules.defaultsWith specs (fun level => defaultFields specs pos' level) pos'
      isEntry).Yields fresh) :
    ∃ seed, (runSeed rules.seed pos').Yields seed ∧ ∀ k,
      fresh.data.get? k = (canonical.data.get? k).or (seed.get? k) ∧
      (canonical.data.get? k ≠ none ↔ ∃ s, specs.get? k = some s ∧ s.HasDefault) := by
  obtain ⟨hmapper, hmappers⟩ := Specifier.everywhere_ns.1 hmappers
  obtain ⟨-, hdetermined⟩ := Specifier.everywhere_ns.1 hdetermined
  obtain ⟨seed, mid, mapped, hseed, hmid, hmapped, rfl⟩ := NamespaceRules.defaultsWith_yields hfresh
  obtain rfl := NamespaceRules.mapped_eq_empty hmapper hmapped
  refine ⟨seed, hseed, fun k => ?_⟩
  obtain ⟨hnone, hsome⟩ := defaultFields_yields hmid k
  obtain ⟨hskip, hbuild⟩ := canonicalFields_yields hcanonical k
  cases hk : specs.get? k with
  | none =>
    have hdata : canonical.data.get? k = none := congrArg Slot.data <| hskip fun s hs => by
      rw [hk] at hs
      cases hs
    rw [hdata]
    refine ⟨congrArg Slot.data (hnone hk), iff_of_false (fun hne => hne rfl) ?_⟩
    rintro ⟨s, ⟨⟩, -⟩
  | some s =>
    -- The field is built twice, at two positions, and comes out the same.
    obtain ⟨field, hfield, hslot⟩ := hbuild s hk (hshadows k s hk)
    obtain ⟨field', hfield', hslot'⟩ := hsome s hk
    have hunique := Specifier.Determined.defaults (hdetermined k s hk) (pos.child k) false
    obtain rfl : field' = field :=
      hunique.unique hfield (Specifier.defaults_anywhere (hmappers k s hk) hfield')
    have hdata : canonical.data.get? k = field'.data := by
      have h := congrArg Slot.data hslot
      rwa [Level.slot_empty, Option.or_none] at h
    have hdata' : mid.data.get? k = field'.data.or (seed.get? k) := by
      have h := congrArg Slot.data hslot'
      rwa [Slot.data_overlay] at h
    rw [hdata]
    refine ⟨hdata', (Specifier.data_ne_none_iff hfield).trans ?_⟩
    constructor
    · intro h
      exact ⟨s, rfl, h⟩
    · rintro ⟨_, ⟨⟩, h⟩
      exact h

end Entry

/-! ## The two ways compared -/

theorem Slot.follow_append (slot : Slot) (path rest : List String) :
    slot.follow (path ++ rest) = (slot.follow path).follow rest := by
  induction path generalizing slot with
  | nil => rfl
  | cons name path ih => exact ih (slot.child name)

/-- An entry that gets an empty starter is the canonical one. -/
theorem Specifier.defaults_empty_starter {entry : Namespace σ} (hmapper : entry.rules.mapper = none)
    {starters : CallM σ Value} {given : Fields Value} (hstarters : starters.Gives (.obj given))
    {name : String} (hname : given.get? name = some (.obj ∅)) {pos : Position} {isEntry : Bool}
    {field : Initialized}
    (h : ((Specifier.record (some starters) entry.toSpecifier).defaults pos isEntry).Yields field) :
    ∃ canonical, (canonicalFields entry.fields (pos.child "*") ∅).Yields canonical ∧
      (⟨field.data, some field.node⟩ : Slot).child name = .of .ns canonical := by
  rw [Specifier.defaults] at h
  obtain ⟨given', hgiven, h⟩ := h.of_bind
  obtain ⟨level, hlevel, rfl⟩ := h.of_map
  obtain rfl : given' = given := by
    obtain ⟨v, hv, hobject⟩ := hgiven.of_bind
    obtain rfl := hv.of_mapError.eq_of_gives hstarters
    exact (Option.some.inj hobject.of_ofOption).symm
  exact Specifier.stitch_empty_starter hmapper hname hlevel

/-- An input that introduces an entry and gives nothing for it leaves it as it is initialized. -/
theorem Applies.data_of_empty_entry {options : Options σ} {entry : Namespace σ}
    {starters : Option (CallM σ Value)} (hmapper : entry.rules.mapper = none)
    {input : Fields Value} {name : String} (hname : input.get? name = some (.obj ∅))
    {pos : Position} {isEntry : Bool} {slot slot' : Slot} (hslot : slot.data = some (.obj ∅))
    (h : Applies options isEntry (some (.record starters entry.toSpecifier)) pos (.obj input) slot
      slot') :
    ∃ fresh, (entry.defaults (pos.child name) true).Yields fresh ∧
      (slot'.child name).data = some (.obj fresh.data) := by
  obtain ⟨_, provenance, initial, inner, inner', ⟨⟩, rfl, rfl, hentries⟩ := applies_record.1 h
  have hempty : inner.data = ∅ := Value.obj.inj (Option.some.inj hslot)
  obtain ⟨base, hensures, hentry⟩ := (hentries name).of_some hname
  cases hensures with
  | kept present =>
    refine absurd ?_ present
    show inner.data.get? name = none
    rw [hempty]
    rfl
  | @created fresh missing build =>
    refine ⟨fresh, build, ?_⟩
    obtain ⟨fields, mapped, level, level', hfields, hbase, hslot', heach, hmapped⟩ :=
      applies_ns.1 hentry
    obtain rfl := hfields.of_pure
    obtain rfl := NamespaceRules.mapped_eq_empty hmapper hmapped
    obtain ⟨-, rfl⟩ := Slot.of_inj.1 hbase
    obtain rfl : level' = fresh := Level.ext_slot fun k => (heach k).of_none rfl
    exact congrArg Slot.data hslot'

/-- A path with one name more leads to the slot of that name. -/
theorem Level.at?_append (level : Level) (path : List String) (name : String) :
    (Value.obj level.data).at? (path ++ [name]) =
      (((Slot.of .ns level).follow path).child name).data := by
  have hslot := congrArg Slot.data (Slot.follow_append (.of .ns level) path [name])
  rwa [Slot.data_follow] at hslot

/-- A change along a path to a container, made right after the store is built, applies its value to
the container as it is initialized. -/
theorem Holds.change_applies {root : Namespace σ} {options : Options σ} {path : List String}
    {target : Specifier σ} (h : Holds root.toSpecifier path target)
    (htarget : containerKind? (some target) ≠ none) (hmild : target.Mild fun _ _ => True)
    {built changed : Store σ} {v : Value} (hbuilt : (Store.create root options).Yields built)
    (hchanged : (built.change (.nest path v)).Yields changed) :
    ∃ pos isEntry field pos' isEntry', (target.defaults pos isEntry).Yields field ∧
      Applies options isEntry' (some target) pos' v ⟨field.data, some field.node⟩
        ((Slot.of .ns changed.level).follow path) := by
  obtain ⟨level, rfl, hlevel⟩ := Store.create_yields hbuilt
  obtain ⟨s, s', hchanged⟩ := hchanged
  obtain ⟨c, mid, level', rfl, -, hresolves, hcommits⟩ := Store.change_eq_ok hchanged
  obtain ⟨pos, isEntry, field, pos', isEntry', w, mid', hfield, hresolves, hcommits⟩ :=
    h.change_follow htarget (Namespace.defaults_toSpecifier hlevel) hresolves hcommits
  have hcoherent := Specifier.defaults_coherent (fun _ => trivial) hmild hfield
  exact ⟨pos, isEntry, field, pos', isEntry', hfield, w, hresolves.renders,
    hresolves.changes (fun _ => trivial) hcommits (Specifier.forall_of_some hmild) hcoherent⟩

/-- Nothing is laid over exactly where everything below is covered. -/
private theorem eq_overlay_iff {bare fresh seed : Fields Value}
    (h : ∀ k, fresh.get? k = (bare.get? k).or (seed.get? k)) :
    bare = fresh ↔ ∀ k, seed.get? k ≠ none → bare.get? k ≠ none := by
  constructor
  · intro hsame k hk hnone
    have hdata := h k
    rw [← hsame, hnone, Option.none_or] at hdata
    exact hk hdata.symm
  · intro hcovered
    apply SortedMap.ext
    intro k
    rw [h k]
    cases hk : bare.get? k with
    | some v => rfl
    | none =>
      cases hseed : seed.get? k with
      | none => rfl
      | some v => exact absurd hk (hcovered k (by rw [hseed]; exact Option.some_ne_none v))

/-- An entry that is started empty has the data of an entry that a change introduces empty, but for
the entry's own seed. The latter has the data that its namespace is initialized to; the two are the
same exactly if initialization gives a value for every name of the seed. -/
theorem Store.empty_starter_eq_empty_change_iff {root root' : Namespace σ} {options : Options σ}
    {path : List String} {starters : CallM σ Value} {entry : Namespace σ} {name : String}
    {given input : Fields Value}
    (hroot : Holds root.toSpecifier path (.record (some starters) entry.toSpecifier))
    (hroot' : Holds root'.toSpecifier path (.record none entry.toSpecifier))
    (hmappers : entry.toSpecifier.WithoutMappers)
    (hshadows : ∀ k s, entry.fields.get? k = some s → s.isShadow = false)
    (hdetermined : entry.toSpecifier.Determined) (hstarters : starters.Gives (.obj given))
    (hgiven : given.get? name = some (.obj ∅)) (hinput : input.get? name = some (.obj ∅))
    {started built changed : Store σ} (hstarted : (Store.create root options).Yields started)
    (hbuilt : (Store.create root' options).Yields built)
    (hchanged : (built.change (.nest path (.obj input))).Yields changed) :
    ∃ (seed bare : Fields Value) (fresh : Level),
      (∀ pos, (runSeed entry.rules.seed pos).Gives seed) ∧
      (∀ pos isEntry, (entry.defaults pos isEntry).Gives fresh) ∧
      (Value.obj started.data).at? (path ++ [name]) = some (.obj bare) ∧
      (Value.obj changed.data).at? (path ++ [name]) = some (.obj fresh.data) ∧
      (∀ k, fresh.data.get? k = (bare.get? k).or (seed.get? k)) ∧
      (bare = fresh.data ↔
        ∀ k, seed.get? k ≠ none → ∃ s, entry.fields.get? k = some s ∧ s.HasDefault) := by
  have hmapper : entry.rules.mapper = none := (Specifier.everywhere_ns.1 hmappers).1
  have hrules := (Specifier.everywhere_ns.1 hdetermined).1
  -- From the starter: the canonical entry.
  obtain ⟨level, rfl, hlevel⟩ := Store.create_yields hstarted
  obtain ⟨pos, isEntry, field, hfield, hfollow⟩ :=
    hroot.follow_of_defaults (by rintro ⟨⟩) (Namespace.defaults_toSpecifier hlevel)
  obtain ⟨canonical, hcanonical, hchild⟩ :=
    Specifier.defaults_empty_starter hmapper hstarters hgiven hfield
  have hstartedData : (Value.obj level.data).at? (path ++ [name]) = some (.obj canonical.data) := by
    have hslot : ((Slot.of .ns level).follow path).child name = .of .ns canonical :=
      (congrArg (Slot.child · name) hfollow).trans hchild
    rw [Level.at?_append, hslot]
    rfl
  -- By a change: the entry as its namespace is initialized.
  obtain ⟨pos', isEntry', field', pos'', isEntry'', hfield', happlies⟩ :=
    hroot'.change_applies (by rintro ⟨⟩) (.record trivial hmappers.mild) hbuilt hchanged
  obtain ⟨fresh, hfresh, hfreshData⟩ :=
    happlies.data_of_empty_entry hmapper hinput (Specifier.data_of_record_none hfield')
  obtain ⟨seed, hseed, hfields⟩ := NamespaceRules.defaultsWith_eq_canonical hmappers hshadows
    hdetermined hcanonical hfresh
  refine ⟨seed, canonical.data, fresh, fun pos => ?_, fun pos isEntry => ?_, hstartedData,
    (Level.at?_append changed.level path name).trans hfreshData, fun k => (hfields k).1, ?_⟩
  · exact (Run.determined_closed.runSeed hrules.seed pos).gives
      (hseed.of_unexplained_eq (runSeed_unexplained entry.rules.seed _ pos))
  · exact (Namespace.defaults_determined hdetermined pos isEntry).gives
      (Namespace.defaults_anywhere hmappers hfresh)
  · refine (eq_overlay_iff fun k => (hfields k).1).trans ?_
    constructor
    · intro h k hk
      exact (hfields k).2.1 (h k hk)
    · intro h k hk
      exact (hfields k).2.2 (h k hk)

namespace Guests

/-- A guest, with a role that is not declared. -/
def guest : Namespace Unit :=
  ⟨⟨none, some (pure (.obj (.ofList [("role", .str "guest")]))), none⟩,
    .ofList [("name", .leaf ⟨some (pure (.str "nobody")), none, none, none, false⟩)]⟩

def house (starters : Option (CallM Unit Value)) : Namespace Unit :=
  ⟨⟨none, none, none⟩, .ofList [("guests", .record starters guest.toSpecifier)]⟩

/-- A guest about whom nothing is given. -/
def given : Fields Value := .ofList [("x", .obj ∅)]

def started : Store Unit :=
  ((Store.create (house (some (pure (.obj given)))) Hosts.quiet ()).1.toOption).getD
    ⟨house none, Hosts.quiet, ∅⟩

def built : Store Unit :=
  ((Store.create (house none) Hosts.quiet ()).1.toOption).getD ⟨house none, Hosts.quiet, ∅⟩

def changed : Store Unit := (built.step (.change (.nest ["guests"] (.obj given))) ()).1

theorem house_holds (starters : Option (CallM Unit Value)) :
    Holds (house starters).toSpecifier ["guests"] (.record starters guest.toSpecifier) := by
  refine .field rfl (fun data pos isEntry mapped h => ?_) .here
  rw [NamespaceRules.mapped_eq_empty rfl h]
  rfl

theorem guest_withoutMappers : guest.toSpecifier.WithoutMappers :=
  .ns rfl (SortedMap.forall_insert (.leaf trivial) fun _ _ h => nomatch h)

theorem guest_fields : ∀ k s, guest.fields.get? k = some s → s.isShadow = false :=
  SortedMap.forall_insert rfl fun _ _ h => nomatch h

theorem started_yields :
    (Store.create (house (some (pure (.obj given)))) Hosts.quiet).Yields started :=
  ⟨(), (), rfl⟩

theorem built_yields : (Store.create (house none) Hosts.quiet).Yields built := ⟨(), (), rfl⟩

theorem changed_yields : (built.change (.nest ["guests"] (.obj given))).Yields changed :=
  ⟨(), (), rfl⟩

end Guests

/-- A guest has the role if a change introduces them, and has not if they are there from the
start. -/
theorem Store.empty_starter_without_seed :
    Guests.guest.toSpecifier.WithoutMappers ∧ Guests.guest.toSpecifier.Determined ∧
      (∀ k s, Guests.guest.fields.get? k = some s → s.isShadow = false) ∧
      (Store.create (Guests.house (some (pure (.obj Guests.given)))) Hosts.quiet).Yields
        Guests.started ∧
      (Store.create (Guests.house none) Hosts.quiet).Yields Guests.built ∧
      (Guests.built.change (.nest ["guests"] (.obj Guests.given))).Yields Guests.changed ∧
      (Value.obj Guests.started.data).at? ["guests", "x"] =
        some (.obj (.ofList [("name", .str "nobody")])) ∧
      (Value.obj Guests.changed.data).at? ["guests", "x"] =
        some (.obj (.ofList [("name", .str "nobody"), ("role", .str "guest")])) ∧
      (Value.obj Guests.started.data).at? ["guests", "x"] ≠
        (Value.obj Guests.changed.data).at? ["guests", "x"] := by
  have hstarted : (Value.obj Guests.started.data).at? ["guests", "x"] =
      some (.obj (.ofList [("name", .str "nobody")])) := rfl
  have hchanged : (Value.obj Guests.changed.data).at? ["guests", "x"] =
      some (.obj (.ofList [("name", .str "nobody"), ("role", .str "guest")])) := rfl
  refine ⟨Guests.guest_withoutMappers, Specifier.determined_of_subsingleton _, Guests.guest_fields,
    Guests.started_yields, Guests.built_yields, Guests.changed_yields, hstarted, hchanged, ?_⟩
  rw [hstarted, hchanged]
  intro h
  cases congrArg (fun v => v.bind (·.at? ["role"])) h

theorem Store.empty_starter_eq_empty_change_iff_guests :
    ∃ (seed bare : Fields Value) (fresh : Level),
      (∀ pos, (runSeed Guests.guest.rules.seed pos).Gives seed) ∧
      (∀ pos isEntry, (Guests.guest.defaults pos isEntry).Gives fresh) ∧
      (Value.obj Guests.started.data).at? ["guests", "x"] = some (.obj bare) ∧
      (Value.obj Guests.changed.data).at? ["guests", "x"] = some (.obj fresh.data) ∧
      (∀ k, fresh.data.get? k = (bare.get? k).or (seed.get? k)) ∧
      (bare = fresh.data ↔
        ∀ k, seed.get? k ≠ none → ∃ s, Guests.guest.fields.get? k = some s ∧ s.HasDefault) :=
  Store.empty_starter_eq_empty_change_iff (Guests.house_holds (some (pure (.obj Guests.given))))
    (Guests.house_holds none) Guests.guest_withoutMappers Guests.guest_fields
    (Specifier.determined_of_subsingleton _) (Run.gives_pure (Value.obj Guests.given)) rfl rfl
    Guests.started_yields Guests.built_yields Guests.changed_yields

end Settings
