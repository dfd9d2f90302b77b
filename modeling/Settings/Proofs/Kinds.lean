import Settings.Proofs.Shape

/-!
# Kinds of metadata

Every node of metadata has the kind that its position demands, and the flags of a leaf say how the
leaf is declared. `Suits` says this of one node and `Store.Reachable.metadata_suits` of all nodes of
every store, those in the snapshots of records included. Nothing is asked of the specification: that
a mapper's data may contradict it does not matter, because metadata is written without a look at
data.
-/

set_option autoImplicit false

namespace Settings

variable {σ : Type}

def Metadata.kind : Metadata → Kind
  | leaf _ => .leaf
  | ns _ => .ns
  | record _ _ _ => .record

/-- The kind that a position demands. A key that is not declared has a leaf. -/
def demandedKind : Option (Specifier σ) → Kind
  | none => .leaf
  | some s => s.kind

/-- The node is one that its position demands, with the flags that its declaration gives it. -/
structure Suits (spec : Option (Specifier σ)) (m : Metadata) : Prop where
  kind : m.kind = demandedKind spec
  entries : ∀ provenance nodes initial, m = .record provenance nodes initial → ∀ name inside,
    nodes.get? name = some inside ∨ initial.get? name = some inside → inside.kind = .ns
  passthrough : ∀ node, m = .leaf node → node.isPassthrough = true →
    spec = none ∧ node.initial = none
  shadow : ∀ node, m = .leaf node → node.isShadow = true →
    ∃ rules, spec = some (.leaf rules) ∧ rules.shadow = true

/-- The condition on leaves: which flags a leaf may have, and what they say about it. -/
private def Flagged : Option (LeafRules σ) → LeafNode → Prop
  | none, node => (node.isPassthrough = true → node.initial = none) ∧ node.isShadow = false
  | some rules, node => node.isPassthrough = false ∧ (node.isShadow = true → rules.shadow = true)

/-! ## Every write keeps the flags -/

section Keeps

variable {options : Options σ}

/-- The leaf of an undeclared key has an initial value only if a seed gave it, and then it does not
pass through. -/
private theorem keptUndeclared_flagged : KeptUndeclared (Flagged (σ := σ)) := by
  intro v node hnode
  rcases hnode with rfl | hflagged
  · exact ⟨fun _ => rfl, rfl⟩
  · exact hflagged

private theorem LeafRules.keeps_flagged (rules : LeafRules σ) : rules.Keeps options Flagged where
  built pos v node h := by
    obtain rfl := LeafRules.eq_initialNode h
    exact ⟨rfl, id⟩
  given _ v := ⟨rfl, nofun⟩
  changed pos v w _ node hnode := by
    rcases hnode with rfl | hflagged
    · exact ⟨rfl, nofun⟩
    · exact hflagged

private theorem Specifier.keeps_flagged (s : Specifier σ) : s.Keeps options Flagged := by
  induction s with
  | leaf rules => exact .leaf rules.keeps_flagged
  | ns rules specs ih =>
    exact .ns ⟨fun _ _ _ _ _ _ _ => ⟨nofun, rfl⟩, fun _ _ _ _ _ _ _ _ => ⟨rfl, id⟩⟩ ih
  | record starters entry ih => exact .record trivial ih

end Keeps

/-! ## What fits is suited to its position -/

section Fits

variable {L : Option (LeafRules σ) → LeafNode → Prop}

/-- The specification follows every path into metadata that fits. -/
theorem Metadata.Fits.exists_leads {spec : Option (Specifier σ)} {path : List String}
    {m m' : Metadata} (h : m.Fits L spec) (hreach : m.Reaches path m') :
    ∃ target, Leads spec path target ∧ m'.Fits L target := by
  induction hreach generalizing spec with
  | here => exact ⟨spec, .here, h⟩
  | field at_name rest ih =>
    cases h with
    | ns fields =>
      obtain ⟨target, hleads, hfits⟩ := ih (fields _ _ at_name)
      exact ⟨target, .field hleads, hfits⟩
  | entry at_name rest ih =>
    cases h with
    | record entries snapshot kind =>
      obtain ⟨target, hleads, hfits⟩ := ih (entries _ _ at_name)
      exact ⟨target, .entry hleads, hfits⟩
  | snapshot at_name rest ih =>
    cases h with
    | record entries snapshot kind =>
      obtain ⟨target, hleads, hfits⟩ := ih (snapshot _ _ at_name)
      exact ⟨target, .entry hleads, hfits⟩

theorem Metadata.Fits.kind_eq {spec : Option (Specifier σ)} {m : Metadata} (h : m.Fits L spec) :
    m.kind = demandedKind spec := by
  cases h <;> rfl

/-- What fits where a namespace is declared is one. -/
theorem Metadata.Fits.kind_of_ns {spec : Option (Specifier σ)} {m : Metadata} (h : m.Fits L spec)
    (hspec : containerKind? spec = some .ns) : m.kind = .ns := by
  cases h with
  | ns => rfl
  | _ => cases hspec

end Fits

private theorem Metadata.Fits.suits {spec : Option (Specifier σ)} {m : Metadata}
    (h : m.Fits Flagged spec) : Suits spec m := by
  refine ⟨h.kind_eq, ?entries, ?passthrough, ?shadow⟩
  case entries =>
    rintro provenance nodes initial rfl name inside hname
    cases h with
    | record entries snapshot kind =>
      rcases kind with hns | ⟨rfl, rfl⟩
      · rcases hname with hname | hname
        · exact (entries name inside hname).kind_of_ns hns
        · exact (snapshot name inside hname).kind_of_ns hns
      · -- Without a namespace to make entries of there are none.
        rcases hname with hname | hname <;> cases hname
  case passthrough =>
    rintro node rfl hpass
    cases h with
    | free here => exact ⟨rfl, here.1 hpass⟩
    | leaf here =>
      rw [here.1] at hpass
      cases hpass
  case shadow =>
    rintro node rfl hshadow
    cases h with
    | free here =>
      rw [here.2] at hshadow
      cases hshadow
    | leaf here => exact ⟨_, rfl, here.2 hshadow⟩

/-- Whatever the history of a store, the specification follows every path into its metadata, and the
node that the path leads to suits the position. -/
theorem Store.Reachable.metadata_suits {spec : Namespace σ} {options : Options σ}
    {store : Store σ} (h : Store.Reachable spec options store) {path : List String}
    {m : Metadata} (hreach : store.metadata.Reaches path m) :
    ∃ target, Leads (some spec.toSpecifier) path target ∧ Suits target m := by
  have hfits : store.metadata.Fits Flagged (some spec.toSpecifier) :=
    h.fits keptUndeclared_flagged (Specifier.keeps_flagged _)
  obtain ⟨target, hleads, hfits⟩ := hfits.exists_leads hreach
  exact ⟨target, hleads, hfits.suits⟩

/-- A note under a key of the host that is not declared. -/
theorem Store.Reachable.metadata_suits_hosts :
    ∃ target, Leads (some Hosts.root.toSpecifier) ["hosts", "x", "note"] target ∧
      Suits target (.leaf ⟨some (.str "n"), none, .change, false, true⟩) := by
  have hstore := Store.Reachable.step Hosts.changed_reachable
    (.change (.obj (.ofList [("hosts", .obj (.ofList [("x", .obj
      (.ofList [("note", .str "n")]))]))]))) ()
  exact hstore.metadata_suits (.field rfl (.entry rfl (.field rfl .here)))

end Settings
