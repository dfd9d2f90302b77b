import Settings.Proofs.Coherence

/-!
# A change in one pass

A change resolves the input, which adds the entries that the input introduces, and then commits the
candidate. Where data and metadata are coherent both passes work on the same containers, and
`Changes` says in one pass what they do together: the value of a leaf is written, an entry that was
missing is initialized first, and everything that the candidate does not name stays as it is.
-/

set_option autoImplicit false

namespace Settings

variable {σ : Type} {R : Option Value → Option LeafNode → Prop}

/-- A successful change of a slot to a candidate. The flag says whether the slot is an entry's. -/
inductive Changes : Bool → Option (Specifier σ) → Position → Slot → Value → Slot → Prop
  | value {isEntry : Bool} {spec : Option (Specifier σ)} {pos : Position} {slot : Slot} {v : Value}
      (terminal : containerKind? spec = none) :
      Changes isEntry spec pos slot v (slot.write spec.isSome .change v)
  | ns {isEntry : Bool} {rules : NamespaceRules σ} {specs : Fields (Specifier σ)} {pos : Position}
      {c : Fields Value} {inner inner' : Level} {mapped : Fields Value}
      (others : ∀ k, c.get? k = none → inner'.slot k = inner.slot k)
      (each : ∀ k v, c.get? k = some v →
        Changes false (specs.get? k) (pos.child k) (inner.slot k) v (inner'.slot k))
      (mapper : (rules.runMapper inner'.data pos isEntry).Yields mapped) :
      Changes isEntry (some (.ns rules specs)) pos (.of .ns inner) (.obj c)
        (.of .ns ⟨inner'.data.assign mapped, inner'.nodes⟩)
  | record {isEntry : Bool} {starters : Option (CallM σ Value)} {rules : NamespaceRules σ}
      {specs : Fields (Specifier σ)} {pos : Position} {provenance : Provenance}
      {initial : Fields Metadata} {c : Fields Value} {inner inner' : Level} (base : String → Slot)
      (others : ∀ k, c.get? k = none → inner'.slot k = inner.slot k)
      (ensured : ∀ k v, c.get? k = some v →
        (Namespace.mk rules specs).Ensures (pos.child k) (inner.slot k) (base k))
      (each : ∀ k v, c.get? k = some v →
        Changes true (some (.ns rules specs)) (pos.child k) (base k) v (inner'.slot k)) :
      Changes isEntry (some (.record starters (.ns rules specs))) pos
        (.of (.record provenance initial) inner) (.obj c) (.of (.record .change initial) inner')

section Coherent

variable (hR : ∀ node : Option LeafNode, R (node.bind (·.value)) node)
include hR

/-- An entry that has been made sure of is there, and coherent. -/
theorem Namespace.Ensures.coherent {rules : NamespaceRules σ} {specs : Fields (Specifier σ)}
    {pos : Position} {slot slot' : Slot} (h : (Namespace.mk rules specs).Ensures pos slot slot')
    (hentry : (Specifier.ns rules specs).Mild R)
    (hslot : slot ≠ ⟨none, none⟩ → Coherent R (some (.ns rules specs)) slot) :
    Coherent R (some (.ns rules specs)) slot' := by
  cases h with
  | created missing build =>
    exact Specifier.defaults_coherent hR hentry (Namespace.defaults_toSpecifier build)
  | kept present notNull =>
    apply hslot
    intro hempty
    rw [hempty] at present
    exact present rfl

/-- Over coherent data and metadata a resolution and the commit of its candidate are one pass. -/
theorem Resolves.changes {options : Options σ} {spec : Option (Specifier σ)} {pos : Position}
    {v w : Value} {slot mid slot' : Slot} {isEntry : Bool}
    (h : Resolves options spec pos v slot w mid)
    (hcommit : Commits .change isEntry spec pos w mid slot')
    (hspec : ∀ s, spec = some s → s.Mild R) (hslot : Coherent R spec slot) :
    Changes isEntry spec pos slot w slot' := by
  -- By induction on the resolution; the commit that follows is inverted beside it.
  induction h generalizing isEntry slot' with
  | free =>
    cases hcommit with
    | value closed => exact .value rfl
  | leaf value =>
    cases hcommit with
    | value closed => exact .value rfl
  | @ns rules specs pos v slot fields c inner longhand names others each ih =>
    obtain ⟨-, hspecs⟩ := Specifier.everywhere_ns.1 (hspec _ rfl)
    obtain ⟨level, rfl, hlevel⟩ := hslot.of_ns
    obtain ⟨inner', mapped, rfl, others', each', mapper⟩ := hcommit.of_ns
    -- The namespace is there, so the commit opens the level that resolving has left inside.
    refine .ns (fun k hk => ?_) (fun k y hy => ?_) mapper
    · exact (others' k hk).trans (others k ((names k).1 hk))
    · obtain ⟨x, hx⟩ := exists_of_names names hy
      exact ih k x y hx hy (each' k y hy) (fun s hs => hspecs k s hs) (hlevel k)
  | @record starters rules specs pos slot entries c inner mid names others ensured each ih =>
    obtain ⟨-, hentry⟩ := Specifier.everywhere_record.1 (hspec _ rfl)
    obtain ⟨provenance, initial, level, rfl, hlevel⟩ := hslot.of_record
    obtain ⟨inner', rfl, others', each'⟩ := hcommit.of_record
    refine .record mid (fun k hk => ?_) (fun k y hy => ?_) (fun k y hy => ?_)
    · exact (others' k hk).trans (others k ((names k).1 hk))
    · obtain ⟨x, hx⟩ := exists_of_names names hy
      exact ensured k x hx
    · obtain ⟨x, hx⟩ := exists_of_names names hy
      have hmid : Coherent R (some (.ns rules specs)) (mid k) :=
        (ensured k x hx).coherent hR hentry fun hk => (hlevel k hk).1
      exact ih k x y hx hy (each' k y hy) (Specifier.forall_of_some hentry) hmid

/-- A change keeps data and metadata coherent. -/
theorem Changes.coherent {isEntry : Bool} {spec : Option (Specifier σ)} {pos : Position}
    {slot slot' : Slot} {v : Value} (h : Changes isEntry spec pos slot v slot')
    (hspec : ∀ s, spec = some s → s.Mild R) (hslot : Coherent R spec slot) :
    Coherent R spec slot' := by
  induction h with
  | value terminal => exact .leaf hR terminal rfl
  | @ns isEntry rules specs pos c inner inner' mapped others each mapper ih =>
    obtain ⟨hrules, hspecs⟩ := Specifier.everywhere_ns.1 (hspec _ rfl)
    obtain ⟨level, hlevel, hinner⟩ := hslot.of_ns
    obtain ⟨-, rfl⟩ := Slot.of_inj.1 hlevel
    apply Coherent.mapped hrules mapper
    intro k
    cases hk : c.get? k with
    | none =>
      rw [others k hk]
      exact hinner k
    | some v => exact ih k v hk (fun s hs => hspecs k s hs) (hinner k)
  | @record isEntry starters rules specs pos provenance initial c inner inner' base others ensured
      each ih =>
    obtain ⟨-, hentry⟩ := Specifier.everywhere_record.1 (hspec _ rfl)
    obtain ⟨_, _, level, hlevel, hinner⟩ := hslot.of_record
    obtain ⟨-, rfl⟩ := Slot.of_inj.1 hlevel
    -- Entries that are not named stay; one that is named was made sure of first.
    apply Coherent.entries_of_ns
    intro k hk
    cases hv : c.get? k with
    | none =>
      rw [others k hv] at hk ⊢
      exact (hinner k hk).1
    | some v =>
      have hbase : Coherent R (some (.ns rules specs)) (base k) :=
        (ensured k v hv).coherent hR hentry fun hk => (hinner k hk).1
      exact ih k v hv (Specifier.forall_of_some hentry) hbase

/-- In every store of a specification with mild mappers, data and metadata are coherent. -/
theorem Store.Reachable.coherent {spec : Namespace σ} {options : Options σ} {store : Store σ}
    (h : Store.Reachable spec options store) (hspec : spec.toSpecifier.Mild R) :
    Coherent R (some spec.toSpecifier) (.of .ns store.level) := by
  have hmild : ∀ s, some spec.toSpecifier = some s → s.Mild R := Specifier.forall_of_some hspec
  refine h.level_induction (P := fun level => Coherent R (some spec.toSpecifier) (.of .ns level))
    (fun level hbuilt => ?_) (fun input c level mid level' hlevel hresolves hcommits => ?_)
  · exact Specifier.defaults_coherent hR hspec hbuilt
  · exact (hresolves.changes hR hcommits hmild hlevel).coherent hR hmild hlevel

end Coherent

end Settings
