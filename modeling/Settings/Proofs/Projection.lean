import Settings.Proofs.Change

/-!
# Data is a projection of metadata

`Metadata.current?` reads the present data off metadata: the value of every leaf, through the fields
of namespaces and the present entries of records. Without mappers the live data of every store is
what it gives, so that neither tree ever has a key that the other lacks.
-/

set_option autoImplicit false

namespace Settings

variable {σ : Type} {R : Option Value → Option LeafNode → Prop}

namespace Metadata

mutual

/-- The present data that the metadata records, if any. -/
def current? : Metadata → Option Value
  | leaf node => node.value
  | ns fields => some (.obj (currentFields fields))
  | record _ entries _ => some (.obj (currentFields entries))
termination_by structural m => m

/-- The present data of the fields that have one. -/
def currentFields {lo : Option String} : SortedMap Metadata lo → SortedMap Value lo
  | .nil => .nil
  | .cons name above node rest =>
    match current? node with
    | some v => .cons name above v (currentFields rest)
    | none => (currentFields rest).weaken fun _ h => above.trans h
termination_by structural fields => fields

end

theorem get?_currentFields {lo : Option String} (fields : SortedMap Metadata lo) (k : String) :
    (currentFields fields).get? k = (fields.get? k).bind current? := by
  have hfilter : currentFields fields = fields.filterMap fun _ node => current? node := by
    induction fields with
    | nil => rfl
    | cons name above node rest ih =>
      rw [currentFields, SortedMap.filterMap, ih]
      cases current? node <;> rfl
  rw [hfilter, SortedMap.get?_filterMap]

/-- Only a leaf can be without present data. -/
theorem current?_eq_none {m : Metadata} :
    m.current? = none ↔ ∃ node, m = .leaf node ∧ node.value = none := by
  cases m with
  | leaf node => exact ⟨fun h => ⟨node, rfl, h⟩, fun ⟨_, h, hv⟩ => by cases h; exact hv⟩
  | ns fields => exact ⟨nofun, fun ⟨_, h, _⟩ => nomatch h⟩
  | record provenance entries initial => exact ⟨nofun, fun ⟨_, h, _⟩ => nomatch h⟩

end Metadata

/-- Where leaves are tied, data is what the metadata records as present. -/
theorem Coherent.data_eq {spec : Option (Specifier σ)} {slot : Slot}
    (h : Coherent Tied spec slot) : slot.data = slot.node.bind Metadata.current? := by
  have hlevel {inner : Level}
      (hinner : ∀ k, (inner.slot k).data = (inner.slot k).node.bind Metadata.current?) :
      inner.data = Metadata.currentFields inner.nodes := by
    apply SortedMap.ext
    intro k
    rw [Metadata.get?_currentFields]
    exact hinner k
  induction h with
  | @value spec data node terminal here =>
    rw [Tied] at here
    subst here
    cases node <;> rfl
  | ns fields ih => exact congrArg (some ∘ Value.obj) (hlevel ih)
  | @record starters entry provenance initial inner entries kind ih =>
    apply congrArg (some ∘ Value.obj)
    apply hlevel
    intro k
    -- An absent entry has neither data nor metadata.
    by_cases hk : inner.slot k = ⟨none, none⟩
    · rw [hk]
      rfl
    · exact ih k hk

/-! ## Positions of a coherent tree -/

namespace Slot

theorem follow_node_none {slot : Slot} (h : slot.node = none) (path : List String) :
    (slot.follow path).node = none := by
  induction path generalizing slot with
  | nil => exact h
  | cons name path ih =>
    refine ih ?_
    show slot.node.bind _ = none
    rw [h]
    rfl

end Slot

/-- Wherever a path finds metadata in a coherent tree, the tree is coherent there too. -/
theorem Coherent.follow {spec : Option (Specifier σ)} {slot : Slot} (h : Coherent R spec slot)
    {path : List String} (hpath : (slot.follow path).node ≠ none) :
    ∃ target, Leads spec path target ∧ Coherent R target (slot.follow path) := by
  -- By induction on the path; wherever it goes on there is a container, and so a specifier for it.
  induction path generalizing spec slot with
  | nil => exact ⟨spec, .here, h⟩
  | cons name path ih =>
    rw [Slot.follow_cons] at hpath ⊢
    cases h with
    | @value _ data node terminal here =>
      -- A leaf has nothing inside.
      have hchild : ((⟨data, node.map .leaf⟩ : Slot).child name).node = none := by
        cases node <;> rfl
      exact absurd (Slot.follow_node_none hchild path) hpath
    | ns fields =>
      obtain ⟨target, hleads, htarget⟩ := ih (fields name) hpath
      exact ⟨target, .field hleads, htarget⟩
    | @record _ _ _ _ inner entries kind =>
      have hpresent : inner.slot name ≠ ⟨none, none⟩ := by
        intro hempty
        rw [Level.child_of_record, hempty] at hpath
        exact hpath (Slot.follow_node_none rfl path)
      obtain ⟨target, hleads, htarget⟩ := ih (entries name hpresent) hpath
      exact ⟨target, .entry hleads, htarget⟩

/-- The entries of records are namespaces. -/
theorem Coherent.entry_ns {spec : Option (Specifier σ)} {slot : Slot} (h : Coherent R spec slot)
    {provenance : Provenance} {nodes initial : Fields Metadata}
    (hnode : slot.node = some (.record provenance nodes initial)) {k : String} {m : Metadata}
    (hk : nodes.get? k = some m) : ∃ fields, m = .ns fields := by
  cases h with
  | @value _ data node terminal here => cases node <;> cases hnode
  | ns fields => cases hnode
  | @record starters entry _ _ inner entries kind =>
    cases hnode
    have hpresent : inner.slot k ≠ ⟨none, none⟩ := by
      intro hempty
      have hnone : inner.nodes.get? k = none := congrArg Slot.node hempty
      rw [hnone] at hk
      cases hk
    have hentry := entries k hpresent
    have hkind := kind k hpresent
    -- Entries of any other kind are never made.
    cases entry with
    | leaf => cases hkind
    | record => cases hkind
    | ns rules specs =>
      obtain ⟨level, hslot, -⟩ := hentry.of_ns
      have hm : some m = some (.ns level.nodes) := hk.symm.trans (congrArg Slot.node hslot)
      exact ⟨level.nodes, Option.some.inj hm⟩

/-- Where leaves are tied, a namespace's data leaves out the keys of leaves without value alone. -/
theorem Coherent.keys_of_ns {spec : Option (Specifier σ)} {slot : Slot}
    (h : Coherent Tied spec slot) {nodes : Fields Metadata}
    (hnode : slot.node = some (.ns nodes)) :
    ∃ data, slot.data = some (.obj data) ∧
      ∀ k, data.get? k = none ↔
        nodes.get? k = none ∨ ∃ leaf, nodes.get? k = some (.leaf leaf) ∧ leaf.value = none := by
  have hdata := h.data_eq
  rw [hnode] at hdata
  refine ⟨_, hdata, fun k => ?_⟩
  rw [Metadata.get?_currentFields]
  cases hk : nodes.get? k with
  | none => simp
  | some m =>
    -- Metadata is there, so only a leaf without value can leave the key out.
    rw [Option.bind_some, Metadata.current?_eq_none]
    simp

/-- A record's data leaves out no entry. -/
theorem Coherent.keys_of_record {spec : Option (Specifier σ)} {slot : Slot}
    (h : Coherent Tied spec slot) {provenance : Provenance} {nodes initial : Fields Metadata}
    (hnode : slot.node = some (.record provenance nodes initial)) :
    ∃ data, slot.data = some (.obj data) ∧ ∀ k, data.get? k = none ↔ nodes.get? k = none := by
  have hdata := h.data_eq
  rw [hnode] at hdata
  refine ⟨_, hdata, fun k => ?_⟩
  rw [Metadata.get?_currentFields]
  cases hk : nodes.get? k with
  | none => simp
  | some m =>
    obtain ⟨fields, rfl⟩ := h.entry_ns hnode hk
    simp [Metadata.current?]

/-- Without mappers live data is the projection of the metadata. In every namespace both have the
same keys, but for leaves without value, and in every record the very same. -/
theorem Store.Reachable.data_eq_current {spec : Namespace σ} {options : Options σ}
    {store : Store σ} (h : Store.Reachable spec options store)
    (hspec : spec.toSpecifier.WithoutMappers) :
    store.data = Metadata.currentFields store.level.nodes ∧
    (∀ path nodes, (store.slotAt path).node = some (.ns nodes) →
      ∃ data, (store.slotAt path).data = some (.obj data) ∧
        ∀ k, data.get? k = none ↔
          nodes.get? k = none ∨ ∃ leaf, nodes.get? k = some (.leaf leaf) ∧ leaf.value = none) ∧
    (∀ path provenance nodes initial,
      (store.slotAt path).node = some (.record provenance nodes initial) →
      ∃ data, (store.slotAt path).data = some (.obj data) ∧
        ∀ k, data.get? k = none ↔ nodes.get? k = none) := by
  have hroot : Coherent Tied (some spec.toSpecifier) (.of .ns store.level) :=
    h.coherent (fun _ => rfl) hspec.mild
  have hat (path : List String) {m : Metadata} (hnode : (store.slotAt path).node = some m) :
      ∃ target : Option (Specifier σ), Coherent Tied target (store.slotAt path) := by
    have hpresent : (store.slotAt path).node ≠ none := by
      rw [hnode]
      exact nofun
    obtain ⟨target, -, htarget⟩ := hroot.follow hpresent
    exact ⟨target, htarget⟩
  refine ⟨?_, fun path nodes hnode => ?_, fun path provenance nodes initial hnode => ?_⟩
  · exact Value.obj.inj (Option.some.inj hroot.data_eq)
  · obtain ⟨target, htarget⟩ := hat path hnode
    exact htarget.keys_of_ns hnode
  · obtain ⟨target, htarget⟩ := hat path hnode
    exact htarget.keys_of_record hnode

theorem Store.Reachable.data_eq_current_hosts :
    Hosts.changed.data = Metadata.currentFields Hosts.changed.level.nodes :=
  (Store.Reachable.data_eq_current Hosts.changed_reachable Hosts.withoutMappers).1

end Settings
