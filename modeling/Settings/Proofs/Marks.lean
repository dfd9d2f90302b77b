import Settings.Proofs.Original

/-!
# The marks of shadow leaves

Initialization marks every shadow leaf that it builds, also in the entries that resolving adds. A
commit that finds the leaf writes to it and keeps the mark; where it finds nothing, it makes a leaf
of its own without a look at the declaration, and that leaf has no mark. So the marks last exactly
as long as commits find what they write to (`Store.Reachable.marks_trail_iff`).
-/

set_option autoImplicit false

namespace Settings

variable {σ : Type}

/-- If the leaf is declared to be a shadow, it is marked. -/
def Marked : Option (LeafRules σ) → LeafNode → Prop
  | some rules, node => rules.shadow = true → node.isShadow = true
  | none, _ => True

/-- Whatever initialization builds is marked where it is declared to be. -/
theorem Specifier.builds_marked (s : Specifier σ) : s.Builds Marked := by
  have hleaf (rules : LeafRules σ) : rules.Builds Marked := by
    refine ⟨fun pos v node h hshadow => ?_, fun hplain v hshadow => ?_⟩
    · obtain rfl := LeafRules.eq_initialNode h
      exact hshadow
    · rw [hplain] at hshadow
      cases hshadow
  induction s with
  | leaf rules => exact .leaf (hleaf rules)
  | ns rules specs ih => exact .ns ⟨fun _ _ _ _ _ _ _ => trivial, fun _ _ _ _ _ _ _ _ => id⟩ ih
  | record starters entry ih => exact .record trivial ih

/-! ## What a commit finds -/

section Commit

variable {slot slot' : Slot}

/-- Wherever a value names a shadow leaf, there is metadata. -/
def FindsShadows (spec : Option (Specifier σ)) (slot : Slot) (v : Value) : Prop :=
  ∀ path rules, Leads spec path (some (.leaf rules)) → rules.shadow = true → v.at? path ≠ none →
    (slot.follow path).node ≠ none

theorem findsShadows_none {v : Value} : FindsShadows (none : Option (Specifier σ)) slot v := by
  intro path rules hpath
  cases hpath

theorem findsShadows_leaf {rules : LeafRules σ} {v : Value} :
    FindsShadows (some (.leaf rules)) slot v ↔ (rules.shadow = true → slot.node ≠ none) := by
  constructor
  · intro h hshadow
    exact h [] rules .here hshadow (Option.some_ne_none v)
  · intro h path rules' hpath hshadow _
    cases hpath
    exact h hshadow

/-- Shadow leaves below a container are those below its names. -/
theorem findsShadows_obj {s : Specifier σ} (container : containerKind? (some s) ≠ none)
    {fields : Fields Value} : FindsShadows (some s) slot (.obj fields) ↔
      ∀ k v, fields.get? k = some v → FindsShadows (s.below? k) (slot.child k) v := by
  constructor
  · intro h k v hv path rules hpath hshadow hat
    refine h (k :: path) rules (leads_cons.2 ⟨container, hpath⟩) hshadow ?_
    rw [Value.at?_cons, hv]
    exact hat
  · intro h path rules hpath hshadow hat
    cases path with
    | nil =>
      cases hpath
      exact absurd rfl container
    | cons k path =>
      rw [Value.at?_cons] at hat
      cases hv : fields.get? k with
      | none =>
        rw [hv] at hat
        exact absurd rfl hat
      | some v =>
        rw [hv] at hat
        exact h k v hv path rules (leads_cons.1 hpath).2 hshadow hat

/-- A leaf that is written to keeps its mark. One that is not there is made without a mark. -/
theorem Slot.Fits.marked_write_iff {rules : LeafRules σ}
    (h : slot.Fits Marked (some (.leaf rules))) (v : Value) :
    (slot.write true .change v).Fits Marked (some (.leaf rules)) ↔
      (rules.shadow = true → slot.node ≠ none) := by
  constructor
  · intro hfits hshadow hnone
    cases hfits _ rfl with
    | leaf here =>
      have hmark : (slot.leafNode true .change).isShadow = true := here hshadow
      rw [leafNode, hnone] at hmark
      cases hmark
  · rintro hfound _ ⟨⟩
    refine .leaf fun hshadow => ?_
    show (slot.leafNode true .change).isShadow = true
    unfold leafNode
    cases hnode : slot.node with
    | none => exact absurd hnode (hfound hshadow)
    | some m =>
      cases h m hnode with
      | leaf here => exact here hshadow

/-- Where metadata fits, a commit opens what paths of names lead to. -/
theorem Slot.Fits.opened_slot {L : Option (LeafRules σ) → LeafNode → Prop} {s : Specifier σ}
    {kind : ContainerKind} (h : slot.Fits L (some s)) (hkind : containerKind? (some s) = some kind)
    (k : String) : (slot.opened kind).slot k = slot.child k := by
  refine Slot.ext (Level.data_opened slot kind k) ?_
  obtain ⟨data, node⟩ := slot
  cases node with
  | none => rfl
  | some m =>
    cases h m rfl with
    | leaf => cases hkind
    | ns =>
      cases hkind
      rfl
    | record =>
      cases hkind
      rfl

/-- The slots that a commit leaves inside a container are marked exactly if those are that the value
names. -/
private theorem marked_inside_iff {s : Specifier σ} {kind : ContainerKind}
    (hkind : containerKind? (some s) = some kind) {fields : Fields Value} {inner : Level}
    (hslot : slot.Fits Marked (some s))
    (others : ∀ k, fields.get? k = none → inner.slot k = (slot.opened kind).slot k)
    (each : ∀ k v, fields.get? k = some v → ((inner.slot k).Fits Marked (s.below? k) ↔
      FindsShadows (s.below? k) ((slot.opened kind).slot k) v)) :
    (∀ k, (inner.slot k).Fits Marked (s.below? k)) ↔ FindsShadows (some s) slot (.obj fields) := by
  rw [findsShadows_obj (by rw [hkind]; exact Option.some_ne_none kind)]
  constructor
  · intro h k v hv
    rw [← hslot.opened_slot hkind]
    exact (each k v hv).1 (h k)
  · intro h k
    cases hv : fields.get? k with
    | none =>
      rw [others k hv]
      exact hslot.opened kind k
    | some v =>
      refine (each k v hv).2 ?_
      rw [hslot.opened_slot hkind]
      exact h k v hv

/-- A commit over marked metadata leaves it marked exactly if it finds the shadow leaves that it
writes to. -/
theorem Commits.marked_iff {options : Options σ} {isEntry : Bool} {spec : Option (Specifier σ)}
    {pos : Position} {v : Value} (h : Commits .change isEntry spec pos v slot slot')
    (hcandidate : IsCandidate options spec pos v) (hslot : slot.Fits Marked spec) :
    slot'.Fits Marked spec ↔ FindsShadows spec slot v := by
  induction h with
  | @value isEntry spec pos v slot closed =>
    have hleaf := hcandidate.terminal closed
    cases hcandidate with
    | free =>
      refine iff_of_true ?_ findsShadows_none
      rintro _ ⟨⟩
      exact .free trivial
    | leaf => exact (hslot.marked_write_iff v).trans findsShadows_leaf.symm
    | ns => cases hleaf
    | record => cases hleaf
  | @ns isEntry rules specs pos fields slot inner mapped others each mapper ih =>
    cases hcandidate with
    | ns hfields =>
      rw [← marked_inside_iff rfl hslot others fun k v hv =>
        ih k v hv (hfields k v hv) (hslot.opened .ns k)]
      constructor
      · intro h
        cases h _ rfl with
        | ns fields => exact fun k m hm => fields k m hm
      · intro h
        exact Slot.fits_ns fun k m hm => h k m hm
  | @record isEntry starters rules specs pos entries slot inner objects others each ih =>
    cases hcandidate with
    | record hentries =>
      rw [← marked_inside_iff rfl hslot others fun k v hv =>
        ih k v hv (hentries k v hv) (hslot.opened .record k)]
      constructor
      · intro h
        cases h _ rfl with
        | record entries => exact fun k m hm => entries k m hm
      · intro h
        -- The snapshot is the one from before.
        exact Slot.fits_record (fun k m hm => h k m hm) (fun k m hm => hslot.snapshot hm) rfl

end Commit

/-! ## Stores -/

/-- Every leaf in the metadata at the position of a shadow leaf is marked. -/
def Store.MarksShadows (store : Store σ) : Prop :=
  ∀ path rules node, Leads (some store.spec.toSpecifier) path (some (.leaf rules)) →
    rules.shadow = true → store.metadata.Reaches path (.leaf node) → node.isShadow = true

/-- If the step succeeds, the commit of its candidate finds the shadow leaves that it writes to,
once resolving has added the entries of the input. -/
def Step.FindsShadows (step : Step) (store : Store σ) (s : σ) : Prop :=
  ∀ input c mid t store' s', step.input? = some input → store.change input s = (.ok store', s') →
    store.spec.resolve store.options input .root (store.level, s) = (.ok c, (mid, t)) →
    Settings.FindsShadows (some store.spec.toSpecifier) (.of .ns mid) (.obj c)

/-- Every step on the way finds the shadow leaves that it writes to. -/
def Store.FindsShadowsAll (store : Store σ) (steps : List (Step × σ)) : Prop :=
  store.Throughout Step.FindsShadows steps

section Reachable

variable {spec : Namespace σ} {options : Options σ} {store store' : Store σ}

theorem Store.Reachable.marksShadows_iff (h : Store.Reachable spec options store) :
    store.MarksShadows ↔ (Slot.of .ns store.level).Fits Marked (some store.spec.toSpecifier) := by
  constructor
  · rintro hmarks _ ⟨⟩
    have hshape : store.metadata.Fits (fun _ _ => True) (some store.spec.toSpecifier) := by
      rw [h.fixed.1]
      exact h.fits (fun _ _ _ => trivial) (Specifier.keeps_true _)
    exact hshape.of_leaves (fun _ _ _ _ => trivial)
      fun path rules node hpath hreach hshadow => hmarks path rules node hpath hshadow hreach
  · intro hfits path rules node hpath hshadow hreach
    cases (hfits _ rfl).of_reaches hpath hreach with
    | leaf here => exact here hshadow

/-- A change of a store with all its marks keeps them exactly if it finds what it writes to. -/
theorem Store.Reachable.marks_change_iff (h : Store.Reachable spec options store)
    (hmarks : store.MarksShadows) {input : Value} {s s' : σ}
    (hchange : store.change input s = (.ok store', s')) {c : Fields Value} {mid : Level} {t : σ}
    (hresolve : store.spec.resolve store.options input .root (store.level, s) = (.ok c, (mid, t))) :
    store'.MarksShadows ↔
      FindsShadows (some store.spec.toSpecifier) (.of .ns mid) (.obj c) := by
  have hafter := (h.of_change ⟨s, s', hchange⟩).marksShadows_iff
  obtain ⟨c', mid', t', level, hresolve', rfl, hcommits⟩ := change_resolved hchange
  cases hresolve.symm.trans hresolve'
  have hresolves := Namespace.resolve_takes ⟨s, t, hresolve⟩
  have hmid : (Slot.of .ns mid).Fits Marked (some store.spec.toSpecifier) :=
    hresolves.fits (Specifier.forall_of_some (Specifier.builds_marked _))
      (h.marksShadows_iff.1 hmarks)
  exact hafter.trans (hcommits.marked_iff hresolves.isCandidate hmid)

/-- What initialization builds has all its marks. -/
theorem Namespace.defaults_marked {n : Namespace σ} {pos : Position} {isEntry : Bool}
    {level : Level} (h : (n.defaults pos isEntry).Yields level) :
    (Slot.of .ns level).Fits Marked (some n.toSpecifier) := by
  rintro _ ⟨⟩
  exact (Specifier.builds_marked _).fits (Namespace.defaults_toSpecifier h)

theorem Store.create_marks (hbuilt : (Store.create spec options).Yields store) :
    store.MarksShadows := by
  rw [(Store.Reachable.create hbuilt).marksShadows_iff]
  obtain ⟨level, rfl, hlevel⟩ := create_yields hbuilt
  exact Namespace.defaults_marked hlevel

/-- A step from a store with all its marks keeps them exactly if it finds what it writes to. -/
theorem Store.Reachable.marks_step_iff (h : Store.Reachable spec options store)
    (hmarks : store.MarksShadows) (step : Step) (s : σ) :
    (store.step step s).1.MarksShadows ↔ step.FindsShadows store s := by
  unfold Step.FindsShadows
  cases hinput : step.input? with
  | none =>
    refine iff_of_true ?_ (by rintro _ _ _ _ _ _ ⟨⟩)
    obtain rfl : step = .reset := by cases step <;> cases hinput; rfl
    rcases store.step_cases .reset s with hsame | hattempt
    · rwa [hsame]
    · have hmarked := (h.step .reset s).marksShadows_iff
      obtain ⟨level, hstore, hlevel⟩ := reset_yields hattempt
      rw [hstore] at hmarked ⊢
      exact hmarked.2 (Namespace.defaults_marked hlevel)
  | some input =>
    rcases store.step_of_input? hinput s with ⟨s', hrun⟩ | ⟨hsame, hfails⟩
    · obtain ⟨c, mid, t, -, hresolve, -⟩ := change_resolved hrun
      refine (h.marks_change_iff hmarks hrun hresolve).trans
        ⟨fun hfinds input' c' mid' t' _ _ hi _ hresolve' => ?_,
          fun hall => hall input c mid t _ s' rfl hrun hresolve⟩
      cases hi
      cases hresolve.symm.trans hresolve'
      exact hfinds
    · rw [hsame]
      refine iff_of_true hmarks fun input' c mid t store' t' hi hok => ?_
      cases hi
      exact absurd hok (hfails store' t')

/-- From a store with all its marks every store on the way has them exactly if every step finds what
it writes to. -/
theorem Store.Reachable.marks_trail_iff (h : Store.Reachable spec options store)
    (hmarks : store.MarksShadows) (steps : List (Step × σ)) :
    (∀ visited ∈ store.trail steps, visited.MarksShadows) ↔ store.FindsShadowsAll steps :=
  h.trail_iff hmarks fun _ hreached hmarked p _ => hreached.marks_step_iff hmarked p.1 p.2

end Reachable

end Settings
