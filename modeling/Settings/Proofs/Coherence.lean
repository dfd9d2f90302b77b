import Settings.Proofs.History

/-!
# Data and metadata side by side

`Coherent R` says that data and metadata have the same containers, of the kinds that the
specification demands and wherever it demands them, and that a leaf's data and node are related by
`R`. The weakest relation leaves the shape alone; `Tied` also makes the data of a leaf the value in
its node. Initialization builds coherent slots as long as mappers keep away from the keys of
declared containers and from what `R` relates (`Specifier.Mild`); without mappers there is nothing
to keep away from.
-/

set_option autoImplicit false

namespace Settings

variable {σ : Type} {R : Option Value → Option LeafNode → Prop}

/-- Data and metadata have the same containers, and their leaves are related. -/
inductive Coherent (R : Option Value → Option LeafNode → Prop) :
    Option (Specifier σ) → Slot → Prop
  | value {spec : Option (Specifier σ)} {data : Option Value} {node : Option LeafNode}
      (terminal : containerKind? spec = none) (here : R data node) :
      Coherent R spec ⟨data, node.map .leaf⟩
  | ns {rules : NamespaceRules σ} {specs : Fields (Specifier σ)} {inner : Level}
      (fields : ∀ k, Coherent R (specs.get? k) (inner.slot k)) :
      Coherent R (some (.ns rules specs)) (.of .ns inner)
  | record {starters : Option (CallM σ Value)} {entry : Specifier σ} {provenance : Provenance}
      {initial : Fields Metadata} {inner : Level}
      (entries : ∀ k, inner.slot k ≠ ⟨none, none⟩ → Coherent R (some entry) (inner.slot k))
      (kind : ∀ k, inner.slot k ≠ ⟨none, none⟩ → containerKind? (some entry) = some .ns) :
      Coherent R (some (.record starters entry)) (.of (.record provenance initial) inner)

/-- The data of a leaf is the value in its node. -/
def Tied (data : Option Value) (node : Option LeafNode) : Prop := data = node.bind (·.value)

/-- Mappers give nothing for the keys of declared containers, and nothing that the relation between
the data and the node of a leaf could mind. -/
def NamespaceRules.Mild (R : Option Value → Option LeafNode → Prop) (rules : NamespaceRules σ)
    (specs : Fields (Specifier σ)) : Prop :=
  ∀ data pos isEntry mapped, (rules.runMapper data pos isEntry).Yields mapped →
    ∀ k v, mapped.get? k = some v →
      containerKind? (specs.get? k) = none ∧ ∀ node, R (some v) node

def Specifier.Mild (R : Option Value → Option LeafNode → Prop) : Specifier σ → Prop :=
  Specifier.Everywhere (fun _ => True) (NamespaceRules.Mild R) fun _ => True

theorem Specifier.WithoutMappers.mild {s : Specifier σ} (h : s.WithoutMappers) : s.Mild R := by
  refine h.imp (fun _ _ => trivial) (fun rules specs hnone => ?_) (fun _ _ => trivial)
  intro data pos isEntry mapped hmapped k v hk
  rw [NamespaceRules.mapped_eq_empty hnone hmapped] at hk
  cases hk

/-! ## What is coherent -/

namespace Coherent

theorem of_value {spec : Option (Specifier σ)} {slot : Slot} (h : Coherent R spec slot)
    (terminal : containerKind? spec = none) :
    ∃ node : Option LeafNode, slot.node = node.map .leaf ∧ R slot.data node := by
  cases h with
  | value _ here => exact ⟨_, rfl, here⟩
  | ns => cases terminal
  | record => cases terminal

theorem of_ns {rules : NamespaceRules σ} {specs : Fields (Specifier σ)} {slot : Slot}
    (h : Coherent R (some (.ns rules specs)) slot) :
    ∃ inner, slot = .of .ns inner ∧ ∀ k, Coherent R (specs.get? k) (inner.slot k) := by
  cases h with
  | value terminal => cases terminal
  | ns fields => exact ⟨_, rfl, fields⟩

theorem of_record {starters : Option (CallM σ Value)} {entry : Specifier σ} {slot : Slot}
    (h : Coherent R (some (.record starters entry)) slot) :
    ∃ provenance initial inner, slot = .of (.record provenance initial) inner ∧
      ∀ k, inner.slot k ≠ ⟨none, none⟩ →
        Coherent R (some entry) (inner.slot k) ∧ containerKind? (some entry) = some .ns := by
  cases h with
  | value terminal => cases terminal
  | record entries kind => exact ⟨_, _, _, rfl, fun k hk => ⟨entries k hk, kind k hk⟩⟩

/-- Entries of a record of namespaces are absent or coherent. -/
theorem entries_of_ns {starters : Option (CallM σ Value)} {rules : NamespaceRules σ}
    {specs : Fields (Specifier σ)} {provenance : Provenance} {initial : Fields Metadata}
    {inner : Level}
    (h : ∀ k, inner.slot k ≠ ⟨none, none⟩ → Coherent R (some (.ns rules specs)) (inner.slot k)) :
    Coherent R (some (.record starters (.ns rules specs)))
      (.of (.record provenance initial) inner) :=
  .record h fun _ _ => rfl

/-- The result of a mild mapper leaves the fields of a namespace coherent. -/
theorem mapped {rules : NamespaceRules σ} {specs : Fields (Specifier σ)}
    (hmild : rules.Mild R specs) {inner : Level} {pos : Position} {isEntry : Bool}
    {mapped : Fields Value} (hmapped : (rules.runMapper inner.data pos isEntry).Yields mapped)
    (h : ∀ k, Coherent R (specs.get? k) (inner.slot k)) :
    Coherent R (some (.ns rules specs)) (.of .ns ⟨inner.data.assign mapped, inner.nodes⟩) := by
  apply Coherent.ns
  intro k
  rw [Level.slot_assign]
  cases hk : mapped.get? k with
  | none => exact h k
  | some v =>
    obtain ⟨terminal, hany⟩ := hmild _ _ _ _ hmapped k v hk
    obtain ⟨node, hnode, -⟩ := (h k).of_value terminal
    rw [hnode]
    exact .value terminal (hany node)

end Coherent

/-! ## Initialization -/

section Initialization

variable (hR : ∀ node : Option LeafNode, R (node.bind (·.value)) node)
include hR

theorem Coherent.leaf {spec : Option (Specifier σ)} (terminal : containerKind? spec = none)
    {data : Option Value} {node : LeafNode} (hvalue : node.value = data) :
    Coherent R spec ⟨data, some (.leaf node)⟩ := by
  subst hvalue
  exact @Coherent.value σ R spec node.value (some node) terminal (hR (some node))

theorem Coherent.absent {spec : Option (Specifier σ)} (terminal : containerKind? spec = none) :
    Coherent R spec ⟨none, none⟩ :=
  @Coherent.value σ R spec none none terminal (hR none)

/-- What initialization leaves at a name of a namespace is coherent, whatever the seed had there. -/
private theorem coherent_overlay {specs : Fields (Specifier σ)} {seed : Fields Value} {k : String}
    {s : Specifier σ} (hs : specs.get? k = some s) {field : Initialized}
    (hfield : Coherent R (some s) ⟨field.data, some field.node⟩) (hdata : field.WithData s) :
    Coherent R (some s) (((Level.ofSeed specs seed).slot k).overlay field) := by
  -- A leaf without initial value shows the value that the seed gave for it, if any.
  obtain hbuilt | ⟨rules, v, rfl, -, hgiven⟩ := Level.overlay_ofSeed hs hdata seed
  · rw [hbuilt]
    exact hfield
  · rw [hgiven]
    exact .leaf hR rfl rfl

private theorem coherent_seed {specs : Fields (Specifier σ)} {seed : Fields Value} {k : String}
    (hs : specs.get? k = none) : Coherent R (specs.get? k) ((Level.ofSeed specs seed).slot k) := by
  rw [hs, Level.slot_ofSeed hs]
  cases seed.get? k with
  | none => exact .absent hR rfl
  | some v => exact .leaf hR rfl rfl

/-- Entries made from starters are coherent if built fields are and values laid over them keep
it. -/
private theorem coherent_stitched {starters : Option (CallM σ Value)} {entry : Specifier σ}
    {given : Fields Value} {pos : Position} {provenance : Provenance} {initial : Fields Metadata}
    {level : Level}
    (h : IsStitched
      (fun s _ _ field => s.Mild R →
        Coherent R (some s) ⟨field.data, some field.node⟩ ∧ field.WithData s)
      (fun s _ _ _ before after => s.Mild R → Coherent R (some s) before →
        Coherent R (some s) after) entry given pos level)
    (hentry : entry.Mild R) :
    Coherent R (some (.record starters entry)) (.of (.record provenance initial) level) := by
  cases h with
  | none => exact .record (fun k hk => absurd rfl hk) (fun k hk => absurd rfl hk)
  | @some rules specs _ _ canonical _ hcanonical others entries =>
    obtain ⟨-, hspecs⟩ := Specifier.everywhere_ns.1 hentry
    have hbase : Coherent R (some (.ns rules specs)) (.of .ns canonical) := by
      apply Coherent.ns
      intro k
      obtain ⟨hskip, hbuild⟩ := hcanonical k
      cases hs : specs.get? k with
      | none =>
        rw [hskip (fun s h => by rw [hs] at h; cases h)]
        exact .absent hR rfl
      | some s =>
        cases hshadow : s.isShadow with
        | false =>
          obtain ⟨field, hfield, hslot⟩ := hbuild s hs hshadow
          rw [hslot]
          exact (hfield (hspecs k s hs)).1
        | true =>
          -- What is left out is a shadow leaf, and a leaf may be absent.
          rw [hskip (fun s' h => by rw [hs] at h; cases h; exact hshadow)]
          cases s with
          | leaf => exact .absent hR rfl
          | ns => cases hshadow
          | record => cases hshadow
    apply Coherent.entries_of_ns
    intro k hk
    cases hgiven : given.get? k with
    | none => exact absurd (others k hgiven) hk
    | some starter =>
      obtain ⟨inner, hslot, hlaid⟩ := entries k starter hgiven
      rw [hslot]
      exact hlaid hentry hbase

theorem Specifier.defaults_coherent {s : Specifier σ} (hs : s.Mild R) {pos : Position}
    {isEntry : Bool} {field : Initialized} (h : (s.defaults pos isEntry).Yields field) :
    Coherent R (some s) ⟨field.data, some field.node⟩ := by
  refine (Specifier.defaults_induction
    (D := fun s _ _ field => s.Mild R →
      Coherent R (some s) ⟨field.data, some field.node⟩ ∧ field.WithData s)
    (G := fun s _ _ _ before after => s.Mild R → Coherent R (some s) before →
      Coherent R (some s) after) ?leaf ?ns ?record ?givenLeaf ?givenNs ?givenRecord h hs).1
  -- The shape of a field without data is carried along, for the seed may have data there.
  case leaf =>
    intro rules pos isEntry field h _
    refine ⟨?_, LeafRules.withData_of_defaults h⟩
    rw [LeafRules.node_of_defaults h]
    exact .leaf hR rfl rfl
  case ns =>
    -- Declared fields lie over the seed; the rest is the seed's.
    intro rules specs pos isEntry seed level mapped _ hothers hfields hmapped hs
    obtain ⟨hrules, hspecs⟩ := Specifier.everywhere_ns.1 hs
    refine ⟨Coherent.mapped hrules hmapped fun k => ?_, nofun⟩
    cases hk : specs.get? k with
    | none =>
      rw [hothers k hk, ← hk]
      exact coherent_seed hR hk
    | some s =>
      obtain ⟨field, hfield, hslot⟩ := hfields k s hk
      obtain ⟨hcoherent, hdata⟩ := hfield (hspecs k s hk)
      rw [hslot]
      exact coherent_overlay hR hk hcoherent hdata
  case record =>
    intro starters entry pos isEntry given level _ hstitched hs
    obtain ⟨-, hentry⟩ := Specifier.everywhere_record.1 hs
    exact ⟨coherent_stitched hR hstitched hentry, nofun⟩
  case givenLeaf =>
    intro rules pos given before _ _ _
    exact .leaf hR rfl rfl
  case givenNs =>
    intro rules specs pos isEntry given before fields inner mapped _ hothers hgiven hmapped hs
      hbefore
    obtain ⟨hrules, hspecs⟩ := Specifier.everywhere_ns.1 hs
    -- The level before is there and coherent, and so is every field that a value is laid over.
    obtain ⟨level, rfl, hlevel⟩ := hbefore.of_ns
    apply Coherent.mapped hrules hmapped
    intro k
    cases hk : givenFor? specs fields k with
    | none =>
      rw [hothers k hk]
      exact hlevel k
    | some p =>
      obtain ⟨s, v⟩ := p
      have hdeclared := (specs_of_givenFor? hk).1
      have hslot := hlevel k
      rw [hdeclared] at hslot ⊢
      exact hgiven k s v hk (hspecs k s hdeclared) hslot
  case givenRecord =>
    intro starters entry pos given before level hstitched hs _
    obtain ⟨-, hentry⟩ := Specifier.everywhere_record.1 hs
    exact coherent_stitched hR hstitched hentry

end Initialization

end Settings
