import Settings.Proofs.Acceptance
import Settings.Proofs.Rebuilding

/-!
# Committing to an empty namespace

A commit writes data and metadata in place, with leaves without value to begin with and the snapshot
of a record taken once its entries are there. With initial provenance and nothing to begin with, it
records what `Metadata.ofFields` makes of the same input in one recursion, but for one mark: the
leaves at undeclared keys pass their values through (`Namespace.commit_initial`).
-/

set_option autoImplicit false

namespace Settings

variable {σ : Type}

/-- The leaf without the mark of an undeclared key. -/
def LeafNode.unmarked (leaf : LeafNode) : LeafNode := { leaf with isPassthrough := false }

/-- A slot in which a value is recorded: the value as data, and metadata that could be rebuilt from
it, but that the leaves at undeclared keys are marked, and no others. -/
structure Slot.Records (spec : Option (Specifier σ)) (v : Value) (slot : Slot) : Prop where
  data : slot.data = some v
  metadata : slot.Rebuilds (fun leaf => some leaf.unmarked) spec
  marks : ∀ m path leaf, slot.node = some m → m.Reaches path (.leaf leaf) →
    (leaf.isPassthrough = true ↔ Leads spec path none)

namespace Slot.Records

variable {spec : Option (Specifier σ)} {v : Value} {fields : Fields Value} {inner : Level}

/-- A value written to an empty slot. -/
theorem written (closed : containerKind? spec = none ∨ v.isObject = false) :
    ((⟨none, none⟩ : Slot).write spec.isSome .initial v).Records spec v where
  data := rfl
  metadata := by
    show _ = some (Metadata.ofValue spec v)
    rw [Metadata.ofValue_closed closed]
    cases spec <;> rfl
  marks m path leaf hm hreach := by
    cases hm
    cases hreach
    -- The leaf itself is marked if there is no specifier for it.
    cases spec with
    | none => exact ⟨fun _ => .here, fun _ => rfl⟩
    | some s =>
      constructor
      · intro hmark
        cases hmark
      · intro hpath
        cases hpath

/-- What is known of a level in whose slots the fields of an object are recorded. -/
private theorem inside {s : Specifier σ} (container : containerKind? (some s) ≠ none)
    (others : ∀ k, fields.get? k = none → inner.slot k = ⟨none, none⟩)
    (each : ∀ k v, fields.get? k = some v → (inner.slot k).Records (s.below? k) v) :
    inner.data = fields ∧
    (∀ k, (inner.slot k).Rebuilds (fun leaf => some leaf.unmarked) (s.below? k)) ∧
    ∀ k m path leaf, inner.nodes.get? k = some m → m.Reaches path (.leaf leaf) →
      (leaf.isPassthrough = true ↔ Leads (some s) (k :: path) none) := by
  refine ⟨SortedMap.ext fun k => ?_, fun k => ?_, fun k m path leaf hm hreach => ?_⟩
  · cases hk : fields.get? k with
    | none => exact congrArg Slot.data (others k hk)
    | some v => exact (each k v hk).data
  · cases hk : fields.get? k with
    | none =>
      rw [others k hk]
      rfl
    | some v => exact (each k v hk).metadata
  · cases hk : fields.get? k with
    | none =>
      have hnone : inner.nodes.get? k = none := congrArg Slot.node (others k hk)
      rw [hnone] at hm
      cases hm
    | some v =>
      rw [leads_cons, and_iff_right container]
      exact (each k v hk).marks m path leaf hm hreach

theorem ns {rules : NamespaceRules σ} {specs : Fields (Specifier σ)}
    (others : ∀ k, fields.get? k = none → inner.slot k = ⟨none, none⟩)
    (each : ∀ k v, fields.get? k = some v → (inner.slot k).Records (specs.get? k) v) :
    (of .ns inner).Records (some (.ns rules specs)) (.obj fields) := by
  obtain ⟨rfl, hmetadata, hmarks⟩ :=
    inside (s := .ns rules specs) (Option.some_ne_none _) others each
  refine ⟨rfl, .ns hmetadata, fun m path leaf hm hreach => ?_⟩
  cases hm
  cases hreach with
  | field at_name rest => exact hmarks _ _ _ _ at_name rest

/-- The snapshot of the record is its entries. -/
theorem record {starters : Option (CallM σ Value)} {entry : Specifier σ}
    (others : ∀ k, fields.get? k = none → inner.slot k = ⟨none, none⟩)
    (each : ∀ k v, fields.get? k = some v → (inner.slot k).Records (some entry) v) :
    (of (.record .initial inner.nodes) inner).Records (some (.record starters entry))
      (.obj fields) := by
  obtain ⟨rfl, hmetadata, hmarks⟩ :=
    inside (s := .record starters entry) (Option.some_ne_none _) others each
  refine ⟨rfl, .record hmetadata, fun m path leaf hm hreach => ?_⟩
  cases hm
  cases hreach with
  | entry at_name rest => exact hmarks _ _ _ _ at_name rest
  | snapshot at_name rest => exact hmarks _ _ _ _ at_name rest

end Slot.Records

/-- An initial commit without mappers records its input in a slot that was empty. -/
theorem Commits.records {isEntry : Bool} {spec : Option (Specifier σ)} {pos : Position} {v : Value}
    {slot slot' : Slot} (h : Commits .initial isEntry spec pos v slot slot')
    (hspec : ∀ s, spec = some s → s.WithoutMappers) (hslot : slot = ⟨none, none⟩) :
    slot'.Records spec v := by
  -- What is opened in an empty slot is an empty level, so the slots inside are empty as well.
  induction h with
  | value closed =>
    rw [hslot]
    exact .written closed
  | @ns isEntry rules specs pos fields slot inner mapped others each mapper ih =>
    subst hslot
    obtain ⟨hmapper, hfields⟩ := Specifier.everywhere_ns.1 (hspec _ rfl)
    rw [NamespaceRules.mapped_eq_empty hmapper mapper]
    exact .ns others fun k v hk => ih k v hk (hfields k) rfl
  | @record isEntry starters rules specs pos entries slot inner objects others each ih =>
    subst hslot
    obtain ⟨-, hentry⟩ := Specifier.everywhere_record.1 (hspec _ rfl)
    exact .record others fun k v hk => ih k v hk (Specifier.forall_of_some hentry) rfl

/-- An initial commit to an empty namespace without mappers succeeds exactly for a committable
input. Then the data is the input, and the metadata is what the input gives, except that the leaves
at undeclared keys are marked, also those in the snapshots of records. -/
theorem Namespace.commit_initial {n : Namespace σ} (hmappers : n.toSpecifier.WithoutMappers)
    (input : Fields Value) (pos : Position) (isEntry : Bool) (s : σ) :
    ((n.commit .initial input pos isEntry (∅, s)).1 = .ok () ↔
      Committable (some n.toSpecifier) (.obj input)) ∧
    ∀ level t, n.commit .initial input pos isEntry (∅, s) = (.ok (), (level, t)) →
      level.data = input ∧
      Metadata.filterFields (fun leaf => some leaf.unmarked) level.nodes =
        Metadata.ofFields n.fields input ∧
      ∀ path leaf, (Metadata.ns level.nodes).Reaches path (.leaf leaf) →
        (leaf.isPassthrough = true ↔ Leads (some n.toSpecifier) path none) := by
  refine ⟨Namespace.commit_ok_iff hmappers .initial input pos isEntry ∅ s, fun level t h => ?_⟩
  -- An empty namespace opens like an empty slot.
  obtain ⟨inner, mapped, hlevel, others, each, mapper⟩ := (Namespace.commit_takes ⟨s, t, h⟩).of_ns
  have hcommits : Commits .initial isEntry (some n.toSpecifier) pos (.obj input) ⟨none, none⟩
      (.of .ns level) := by
    rw [hlevel]
    exact .ns others each mapper
  obtain ⟨hdata, hmetadata, hmarks⟩ :=
    hcommits.records (Specifier.forall_of_some hmappers) rfl
  obtain rfl : level.data = input := Value.obj.inj (Option.some.inj hdata)
  exact ⟨rfl, Metadata.ns.inj (Option.some.inj hmetadata), fun path leaf => hmarks _ path leaf rfl⟩

namespace Hosts

/-- A host with one declared field and one that is not. -/
def annotated : Fields Value :=
  .ofList [("hosts", .obj (.ofList [("x",
    .obj (.ofList [("mode", .str "a"), ("extra", .int 1)]))]))]

/-- The metadata of such a host, with the leaf that is not declared. -/
def annotatedHost (extra : LeafNode) : Fields Metadata :=
  .ofList [("x", .ns (.ofList [("mode", .leaf (.fresh (some (.str "a")) .initial)),
    ("extra", .leaf extra)]))]

/-- The level after such a host is committed. -/
def recorded : Level :=
  ⟨annotated, .ofList [("hosts",
    .freshRecord (annotatedHost ⟨some (.int 1), some (.int 1), .initial, false, true⟩))]⟩

end Hosts

theorem Namespace.commit_initial_hosts :
    Hosts.root.commit .initial Hosts.annotated .root false (∅, ()) =
      (.ok (), (Hosts.recorded, ())) ∧
    Committable (some Hosts.root.toSpecifier) (.obj Hosts.annotated) ∧
    Metadata.filterFields (fun leaf => some leaf.unmarked) Hosts.recorded.nodes =
      Metadata.ofFields Hosts.root.fields Hosts.annotated ∧
    Leads (some Hosts.root.toSpecifier) ["hosts", "x", "extra"] none := by
  have hcommit : Hosts.root.commit .initial Hosts.annotated .root false (∅, ()) =
      (.ok (), (Hosts.recorded, ())) := rfl
  obtain ⟨hiff, hrecorded⟩ :=
    Namespace.commit_initial Hosts.withoutMappers Hosts.annotated .root false ()
  obtain ⟨-, hmetadata, hmarks⟩ := hrecorded _ _ hcommit
  have hreach : (Metadata.ns Hosts.recorded.nodes).Reaches ["hosts", "x", "extra"]
      (.leaf ⟨some (.int 1), some (.int 1), .initial, false, true⟩) :=
    .field rfl (.snapshot rfl (.field rfl .here))
  exact ⟨hcommit, hiff.1 (congrArg Prod.fst hcommit), hmetadata, (hmarks _ _ hreach).1 rfl⟩

end Settings
