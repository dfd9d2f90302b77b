import Settings.Proofs.Shape

/-!
# When a change keeps the initial data

The initial data of a slot is what its metadata records of initialization: the initial value of
every leaf, and the snapshot of every record. A change keeps it as long as data and metadata agree
on where the containers are. A mapper can write over the data of a declared container, and then
resolving finds none and works on a scratch level; if the input introduces an entry there, the
scratch level replaces the metadata, and the initial values in it are gone. `Spares` is the exact
condition under which a change keeps the initial data (`Resolves.initial?_iff`).
-/

set_option autoImplicit false

namespace Settings

variable {σ : Type}

/-! ## Initial data of a slot -/

namespace Slot

/-- The initial data that the metadata in the slot records. -/
def initial? (slot : Slot) : Option Value := slot.node.bind Metadata.initial?

theorem initial?_of_node {slot : Slot} {m : Metadata} (h : slot.node = some m) :
    slot.initial? = m.initial? := by
  rw [initial?, h, Option.bind_some]

theorem initial?_of_not_node {slot : Slot} (h : slot.node = none) : slot.initial? = none := by
  rw [initial?, h, Option.bind_none]

def HasObject (slot : Slot) : Prop := ∃ fields, slot.data = some (.obj fields)

/-- A change of a leaf or of an undeclared key keeps the initial value. -/
theorem initial?_write {L : Option (LeafRules σ) → LeafNode → Prop} {spec : Option (Specifier σ)}
    {slot : Slot} (h : slot.Fits L spec) (terminal : containerKind? spec = none) (declared : Bool)
    (v : Value) : (slot.write declared .change v).initial? = slot.initial? := by
  obtain ⟨leaf, hwrite, -, -, hinitial⟩ := slot.write_change declared v
  rw [hwrite]
  show leaf.initial = slot.initial?
  rw [hinitial]
  cases hnode : slot.node with
  | none =>
    rw [initial?_of_not_node hnode]
    rfl
  | some m =>
    obtain ⟨node, rfl⟩ := (h m hnode).leaf_of terminal
    rw [initial?_of_node hnode]
    rfl

end Slot

theorem Metadata.initialFields_inj {a b : Fields Metadata} :
    initialFields a = initialFields b ↔
      ∀ k, (a.get? k).bind initial? = (b.get? k).bind initial? := by
  constructor
  · intro h k
    rw [← get?_initialFields, ← get?_initialFields, h]
  · intro h
    apply SortedMap.ext
    intro k
    rw [get?_initialFields, get?_initialFields, h k]

/-! ## The condition -/

/-- A candidate names an entry of a record that is reached through namespaces. -/
inductive NamesEntry : Option (Specifier σ) → Value → Prop
  | entry {starters : Option (CallM σ Value)} {entry : Specifier σ} {c : Fields Value} {k : String}
      {v : Value} (named : c.get? k = some v) :
      NamesEntry (some (.record starters entry)) (.obj c)
  | field {rules : NamespaceRules σ} {specs : Fields (Specifier σ)} {c : Fields Value} {k : String}
      {v : Value} (named : c.get? k = some v) (inside : NamesEntry (specs.get? k) v) :
      NamesEntry (some (.ns rules specs)) (.obj c)

mutual

/-- The initial data on record where a candidate is committed into nothing: that of the containers
themselves. -/
def bareInitial : Option (Specifier σ) → Value → Option Value
  | some (.ns _ specs), .obj fields => some (.obj (bareFields specs fields))
  | some (.record _ _), .obj _ => some (.obj ∅)
  | _, _ => none
termination_by structural _ v => v

def bareFields {lo : Option String} (specs : Fields (Specifier σ)) :
    SortedMap Value lo → SortedMap Value lo
  | .nil => .nil
  | .cons name above v rest =>
    match bareInitial (specs.get? name) v with
    | some w => .cons name above w (bareFields specs rest)
    | none => (bareFields specs rest).weaken fun _ h => above.trans h
termination_by structural fields => fields

end

theorem get?_bareFields {lo : Option String} (specs : Fields (Specifier σ))
    (fields : SortedMap Value lo) (k : String) :
    (bareFields specs fields).get? k = (fields.get? k).bind (bareInitial (specs.get? k)) := by
  have hfilter : bareFields specs fields =
      fields.filterMap fun name v => bareInitial (specs.get? name) v := by
    induction fields with
    | nil => rfl
    | cons name above v rest ih =>
      rw [bareFields, SortedMap.filterMap, ih]
      cases bareInitial (specs.get? name) v <;> rfl
  rw [hfilter, SortedMap.get?_filterMap]

/-- A change to a candidate keeps the initial data of the slot. What the candidate names has to be
there. Metadata whose data is no object is replaced if an entry is named; then it must have had no
initial data beyond its containers. -/
inductive Spares : Option (Specifier σ) → Slot → Value → Prop
  | value {spec : Option (Specifier σ)} {slot : Slot} {v : Value}
      (terminal : containerKind? spec = none) : Spares spec slot v
  | ns {rules : NamespaceRules σ} {specs : Fields (Specifier σ)} {slot : Slot} {c : Fields Value}
      {nodes : Fields Metadata} (present : slot.node = some (.ns nodes))
      (kept : slot.HasObject ∨ ¬ NamesEntry (some (.ns rules specs)) (.obj c))
      (each : ∀ k v, c.get? k = some v → Spares (specs.get? k) (slot.child k) v) :
      Spares (some (.ns rules specs)) slot (.obj c)
  | replaced {rules : NamespaceRules σ} {specs : Fields (Specifier σ)} {slot : Slot}
      {c : Fields Value} (lost : ¬ slot.HasObject)
      (names : NamesEntry (some (.ns rules specs)) (.obj c))
      (same : slot.initial? = some (.obj (bareFields specs c))) :
      Spares (some (.ns rules specs)) slot (.obj c)
  | record {starters : Option (CallM σ Value)} {entry : Specifier σ} {slot : Slot}
      {c : Fields Value} {provenance : Provenance} {nodes initial : Fields Metadata}
      (present : slot.node = some (.record provenance nodes initial))
      (kept : slot.HasObject ∨ c = ∅ ∨ Metadata.initialFields initial = ∅) :
      Spares (some (.record starters entry)) slot (.obj c)

/-! ## Resolving into nothing -/

section

variable {options : Options σ} {spec : Option (Specifier σ)} {pos : Position} {v w : Value}
  {slot mid slot' : Slot} {isEntry : Bool}

theorem Resolves.data_ne_none (h : Resolves options spec pos v slot w mid)
    (hdata : slot.data ≠ none) : mid.data ≠ none := by
  have hleave (kind : ContainerKind) (inner : Level) : (slot.leave kind inner).data ≠ none := by
    unfold Slot.leave
    split
    · exact nofun
    · split
      · exact hdata
      · exact nofun
  cases h with
  | free => exact hdata
  | leaf => exact hdata
  | ns => exact hleave _ _
  | record => exact hleave _ _

/-- A scratch level for the names of an object leaves something in an empty slot exactly if one of
the names has left something in the level. -/
theorem Slot.leave_empty (kind : ContainerKind) {inner : Level} {c : Fields Value}
    {leavesSome : String → Value → Prop}
    (others : ∀ k, c.get? k = none → inner.slot k = ⟨none, none⟩)
    (each : ∀ k v, c.get? k = some v → inner.slot k = ⟨none, none⟩ ∧ ¬ leavesSome k v ∨
      (inner.slot k).data ≠ none ∧ leavesSome k v) :
    (⟨none, none⟩ : Slot).leave kind inner = ⟨none, none⟩ ∧
        (∀ k v, c.get? k = some v → ¬ leavesSome k v) ∨
      ((⟨none, none⟩ : Slot).leave kind inner).data ≠ none ∧
        ∃ k v, c.get? k = some v ∧ leavesSome k v := by
  rw [leave_of_not_enter? rfl]
  by_cases hempty : inner.data.isEmpty = true
  · refine .inl ⟨if_pos hempty, fun k v hv => ?_⟩
    have hdata : (inner.slot k).data = none := by
      show inner.data.get? k = none
      rw [SortedMap.isEmpty_iff.1 hempty, SortedMap.get?_empty]
    rcases each k v hv with ⟨-, hnot⟩ | ⟨hsome, -⟩
    · exact hnot
    · exact absurd hdata hsome
  · refine .inr ⟨by rw [if_neg hempty]; exact nofun, ?_⟩
    -- Some name has data, and it is one of those in the object.
    obtain ⟨k, w, hk⟩ := SortedMap.exists_of_not_isEmpty hempty
    have hdata : (inner.slot k).data = some w := hk
    cases hv : c.get? k with
    | none =>
      rw [others k hv] at hdata
      cases hdata
    | some v =>
      rcases each k v hv with ⟨hnothing, -⟩ | ⟨-, hleaves⟩
      · rw [hnothing] at hdata
        cases hdata
      · exact ⟨k, v, hv, hleaves⟩

/-- Resolving into an empty slot leaves something exactly if the candidate names an entry, and what
it leaves has data. -/
theorem Resolves.into_empty (h : Resolves options spec pos v slot w mid)
    (hslot : slot = ⟨none, none⟩) :
    mid = ⟨none, none⟩ ∧ ¬ NamesEntry spec w ∨ mid.data ≠ none ∧ NamesEntry spec w := by
  induction h with
  | free => exact .inl ⟨hslot, nofun⟩
  | leaf => exact .inl ⟨hslot, nofun⟩
  | @ns rules specs pos v slot fields c inner longhand names others each ih =>
    subst hslot
    have hleave := Slot.leave_empty .ns (fun k hk => others k ((names k).1 hk)) fun k y hy => by
      obtain ⟨x, hx⟩ := exists_of_names names hy
      exact ih k x y hx hy rfl
    rcases hleave with ⟨hempty, hnone⟩ | ⟨hdata, k, y, hy, hnames⟩
    · refine .inl ⟨hempty, fun hnames => ?_⟩
      cases hnames with
      | field named inside => exact hnone _ _ named inside
    · exact .inr ⟨hdata, .field hy hnames⟩
  | @record starters rules specs pos slot entries c inner mid names others ensured each ih =>
    subst hslot
    -- Every entry has been made sure of, so each of them has data.
    have hleave := @Slot.leave_empty .record inner c (fun _ _ => True)
      (fun k hk => others k ((names k).1 hk)) fun k y hy => by
        obtain ⟨x, hx⟩ := exists_of_names names hy
        exact .inr ⟨(each k x y hx hy).data_ne_none (ensured k x hx).data_ne_none, trivial⟩
    rcases hleave with ⟨hempty, hnone⟩ | ⟨hdata, k, y, hy, -⟩
    · refine .inl ⟨hempty, fun hnames => ?_⟩
      cases hnames with
      | entry named => exact hnone _ _ named trivial
    · exact .inr ⟨hdata, .entry hy⟩

/-- What resolving leaves of a scratch level shows the commit the same slots, kept or not. -/
theorem Slot.opened_leave_empty (kind : ContainerKind) {inner : Level}
    (h : ∀ k, (inner.slot k).data = none → inner.slot k = ⟨none, none⟩) :
    ((⟨none, none⟩ : Slot).leave kind inner).opened kind = inner := by
  rw [leave_of_not_enter? rfl]
  split
  · next hempty =>
    refine Level.ext_slot fun k => (h k ?_).symm
    show inner.data.get? k = none
    rw [SortedMap.isEmpty_iff.1 hempty, SortedMap.get?_empty]
  · cases kind <;> rfl

/-- A candidate that is resolved into nothing and committed records the initial data of its
containers alone. -/
theorem Resolves.initial?_into_empty (h : Resolves options spec pos v slot w mid)
    (hslot : slot = ⟨none, none⟩) (hcommit : Commits .change isEntry spec pos w mid slot') :
    slot'.initial? = bareInitial spec w := by
  induction h generalizing isEntry slot' with
  | free =>
    subst hslot
    cases hcommit with
    | value => cases ‹Value› <;> rfl
  | leaf =>
    subst hslot
    cases hcommit with
    | value => cases ‹Value› <;> rfl
  | @ns rules specs pos v slot fields c inner longhand names others each ih =>
    subst hslot
    obtain ⟨inner', mapped, rfl, others', each', -⟩ := hcommit.of_ns
    have hopened : ((⟨none, none⟩ : Slot).leave .ns inner).opened .ns = inner := by
      apply Slot.opened_leave_empty .ns
      intro k hdata
      cases hx : fields.get? k with
      | none => exact others k hx
      | some x =>
        obtain ⟨y, hy⟩ := exists_of_names (fun k => (names k).symm) hx
        rcases (each k x y hx hy).into_empty rfl with ⟨hempty, -⟩ | ⟨hsome, -⟩
        · exact hempty
        · exact absurd hdata hsome
    rw [hopened] at others' each'
    show some (Value.obj (Metadata.initialFields inner'.nodes)) = some (.obj (bareFields specs c))
    congr 2
    apply SortedMap.ext
    intro k
    rw [Metadata.get?_initialFields, get?_bareFields]
    show (inner'.slot k).initial? = _
    cases hk : c.get? k with
    | none =>
      rw [others' k hk, others k ((names k).1 hk)]
      rfl
    | some y =>
      obtain ⟨x, hx⟩ := exists_of_names names hk
      exact ih k x y hx hk rfl (each' k y hk)
  | @record starters rules specs pos slot entries c inner mid names others ensured each ih =>
    subst hslot
    obtain ⟨inner', rfl, -⟩ := hcommit.of_record
    -- The record is new, and a change gives it no snapshot.
    have hsnapshot : ((⟨none, none⟩ : Slot).leave .record inner).snapshot = ∅ := by
      rw [Slot.leave_of_not_enter? rfl]
      split <;> rfl
    rw [hsnapshot]
    rfl

/-! ## Resolving and committing -/

/-- In a namespace that is there a commit works on what is inside. -/
theorem Slot.opened_slot {nodes : Fields Metadata} (hnode : slot.node = some (.ns nodes))
    (k : String) : (slot.opened .ns).slot k = slot.child k := by
  refine Slot.ext (Level.data_opened slot .ns k) ?_
  obtain ⟨data, node⟩ := slot
  cases hnode
  rfl

theorem Slot.child_node {nodes : Fields Metadata} (hnode : slot.node = some (.ns nodes))
    (k : String) : (slot.child k).node = nodes.get? k := by
  unfold child
  rw [hnode]
  rfl

/-- An object beside the metadata of a container is a container to enter. -/
theorem Slot.not_hasObject {kind : ContainerKind} (henter : slot.enter? kind = none) {m : Metadata}
    (hnode : slot.node = some m) {opened : Container × Fields Metadata}
    (hopen : m.open? kind = some opened) : ¬ slot.HasObject := by
  rintro ⟨fields, hdata⟩
  unfold enter? at henter
  rw [hdata, hnode, Option.bind_some, hopen] at henter
  cases henter

/-- A container that is not there gets initial data. -/
private theorem initial?_absent_iff {kind : ContainerKind} (hkind : containerKind? spec = some kind)
    (habsent : slot.node = none) {fields c : Fields Value} :
    some (Value.obj fields) = slot.initial? ↔ Spares spec slot (.obj c) := by
  have hnone := Slot.initial?_of_not_node habsent
  rw [hnone]
  apply iff_of_false nofun
  intro h
  cases h with
  | value terminal => exact absurd (hkind.symm.trans terminal) nofun
  | ns present => exact absurd (habsent.symm.trans present) nofun
  | replaced _ _ same => exact absurd (hnone.symm.trans same) nofun
  | record present => exact absurd (habsent.symm.trans present) nofun

/-- Where a namespace stays what it is, its initial data stays exactly if that of the fields does
that the candidate names. -/
private theorem initial?_ns_iff {rules : NamespaceRules σ} {specs : Fields (Specifier σ)}
    {c : Fields Value} {nodes nodes' : Fields Metadata}
    (present : slot.node = some (.ns nodes))
    (kept : slot.HasObject ∨ ¬ NamesEntry (some (.ns rules specs)) (.obj c))
    (others : ∀ k, c.get? k = none → nodes'.get? k = nodes.get? k)
    (each : ∀ k v, c.get? k = some v →
      ((nodes'.get? k).bind Metadata.initial? = (nodes.get? k).bind Metadata.initial? ↔
        Spares (specs.get? k) (slot.child k) v)) :
    some (Value.obj (Metadata.initialFields nodes')) = slot.initial? ↔
      Spares (some (.ns rules specs)) slot (.obj c) := by
  have hinitial : slot.initial? = some (.obj (Metadata.initialFields nodes)) :=
    Slot.initial?_of_node present
  rw [hinitial, Option.some.injEq, Value.obj.injEq, Metadata.initialFields_inj]
  constructor
  · intro h
    exact .ns present kept fun k v hv => (each k v hv).1 (h k)
  · intro h k
    cases hk : c.get? k with
    | none => rw [others k hk]
    | some v =>
      cases h with
      | value terminal => cases terminal
      | ns _ _ heach => exact (each k v hk).2 (heach k v hk)
      | replaced lost names _ => rcases kept with hobject | hnot <;> contradiction

/-- A candidate that names no entries is committed to what is there. -/
private theorem Commits.initial?_iff (h : Commits .change isEntry spec pos w slot slot')
    (hcandidate : IsCandidate options spec pos w) (hfits : slot.Fits (fun _ _ => True) spec)
    (hnames : ¬ NamesEntry spec w) : slot'.initial? = slot.initial? ↔ Spares spec slot w := by
  induction h with
  | @value isEntry spec pos v slot closed =>
    have terminal := hcandidate.terminal closed
    exact iff_of_true (Slot.initial?_write hfits terminal _ v) (.value terminal)
  | @ns isEntry rules specs pos fields slot inner mapped others each mapper ih =>
    cases hnode : slot.node with
    | none => exact initial?_absent_iff rfl hnode
    | some m =>
      cases hfits m hnode with
      | @ns _ _ nodes hnodes =>
        cases hcandidate with
        | ns hfields =>
          refine initial?_ns_iff hnode (.inr hnames) (fun k hk => ?_) (fun k v hv => ?_)
          · rw [← Slot.child_node hnode, ← Slot.opened_slot hnode]
            exact congrArg Slot.node (others k hk)
          · have hchild := ih k v hv (hfields k v hv) (hfits.opened .ns k)
              fun inside => hnames (.field hv inside)
            rw [Slot.opened_slot hnode] at hchild
            rw [← Slot.child_node hnode]
            exact hchild
  | @record isEntry starters rules specs pos entries slot inner objects others each ih =>
    -- Naming no entries, the candidate of a record is empty.
    have hempty : entries = ∅ := by
      apply SortedMap.ext
      intro k
      cases hk : entries.get? k with
      | none => rfl
      | some v => exact absurd (.entry hk) hnames
    cases hnode : slot.node with
    | none => exact initial?_absent_iff rfl hnode
    | some m =>
      cases hfits m hnode with
      | @record _ _ provenance nodes initial hentries hsnapshot =>
        refine iff_of_true ?_ (.record hnode (.inr (.inl hempty)))
        rw [Slot.initial?_of_node hnode, Slot.snapshot, hnode]
        rfl

/-- Where entries are named in a container that cannot be entered, what is on record afterwards is
what was on record before exactly if there was nothing beyond the containers. -/
private theorem bareInitial_eq_iff {kind : ContainerKind} (hkind : containerKind? spec = some kind)
    (henter : slot.enter? kind = none) (hnames : NamesEntry spec w)
    (hfits : slot.Fits (fun _ _ => True) spec) :
    bareInitial spec w = slot.initial? ↔ Spares spec slot w := by
  have hnamesAll := hnames
  cases hnames with
  | @field rules specs c _ _ named inside =>
    cases hkind
    show some (Value.obj (bareFields specs c)) = _ ↔ _
    cases hnode : slot.node with
    | none => exact initial?_absent_iff rfl hnode
    | some m =>
      cases hfits m hnode with
      | ns =>
        have hlost : ¬ slot.HasObject := Slot.not_hasObject henter hnode rfl
        refine ⟨fun h => .replaced hlost hnamesAll h.symm, fun h => ?_⟩
        cases h with
        | value terminal => cases terminal
        | ns _ kept _ => rcases kept with hobject | hnot <;> contradiction
        | replaced _ _ same => exact same.symm
  | @entry starters entry c _ _ named =>
    cases hkind
    show some (Value.obj ∅) = _ ↔ _
    cases hnode : slot.node with
    | none => exact initial?_absent_iff rfl hnode
    | some m =>
      cases hfits m hnode with
      | @record _ _ provenance nodes initial _ _ =>
        have hlost : ¬ slot.HasObject := Slot.not_hasObject henter hnode rfl
        have hinitial : slot.initial? = some (.obj (Metadata.initialFields initial)) :=
          Slot.initial?_of_node hnode
        rw [hinitial, Option.some.injEq, Value.obj.injEq]
        refine ⟨fun h => .record hnode (.inr (.inr h.symm)), fun h => ?_⟩
        cases h with
        | value terminal => cases terminal
        | record present kept =>
          cases hnode.symm.trans present
          rcases kept with hobject | hnone | hsame
          · exact absurd hobject hlost
          · subst hnone
            cases named
          · exact hsame.symm

/-- What resolving does to a slot that it cannot enter is what it does to an empty one, unless there
is nothing to keep. -/
theorem Slot.leave_eq_leave_empty {kind : ContainerKind} (henter : slot.enter? kind = none)
    (inner : Level) :
    ((⟨none, none⟩ : Slot).leave kind inner = ⟨none, none⟩ → slot.leave kind inner = slot) ∧
      (((⟨none, none⟩ : Slot).leave kind inner).data ≠ none →
        slot.leave kind inner = (⟨none, none⟩ : Slot).leave kind inner) := by
  rw [leave_of_not_enter? henter, leave_of_not_enter? rfl]
  by_cases hempty : inner.data.isEmpty = true
  · rw [if_pos hempty, if_pos hempty]
    exact ⟨fun _ => rfl, fun h => absurd rfl h⟩
  · rw [if_neg hempty, if_neg hempty]
    exact ⟨nofun, fun _ => rfl⟩

theorem Slot.inside_of_not_enter? {kind : ContainerKind} (henter : slot.enter? kind = none) :
    slot.inside kind = (⟨none, none⟩ : Slot).inside kind := by
  unfold inside
  rw [henter]
  rfl

/-- The change of a container that resolving cannot enter. The scratch level that it works on is
what it would work on in an empty slot. -/
private theorem Resolves.initial?_scratch_iff {kind : ContainerKind} {inner : Level}
    (h : Resolves options spec pos v ⟨none, none⟩ w ((⟨none, none⟩ : Slot).leave kind inner))
    (hkind : containerKind? spec = some kind) (henter : slot.enter? kind = none)
    (hcommit : Commits .change isEntry spec pos w (slot.leave kind inner) slot')
    (hfits : slot.Fits (fun _ _ => True) spec) :
    slot'.initial? = slot.initial? ↔ Spares spec slot w := by
  obtain ⟨huntouched, hreplaced⟩ := Slot.leave_eq_leave_empty henter inner
  rcases h.into_empty rfl with ⟨hempty, hnames⟩ | ⟨hdata, hnames⟩
  · -- No entry is introduced, and the slot is committed to as it was.
    rw [huntouched hempty] at hcommit
    exact hcommit.initial?_iff h.isCandidate hfits hnames
  · -- The scratch level takes the place of what was there.
    rw [hreplaced hdata] at hcommit
    rw [h.initial?_into_empty rfl hcommit]
    exact bareInitial_eq_iff hkind henter hnames hfits

/-- A change keeps the initial data of a slot exactly if it spares it. -/
theorem Resolves.initial?_iff (h : Resolves options spec pos v slot w mid)
    (hcommit : Commits .change isEntry spec pos w mid slot')
    (hfits : slot.Fits (fun _ _ => True) spec) :
    slot'.initial? = slot.initial? ↔ Spares spec slot w := by
  induction h generalizing isEntry slot' with
  | @free pos v slot =>
    cases hcommit with
    | value => exact iff_of_true (Slot.initial?_write hfits rfl _ v) (.value rfl)
  | @leaf rules pos v w slot value =>
    cases hcommit with
    | value => exact iff_of_true (Slot.initial?_write hfits rfl _ w) (.value rfl)
  | @ns rules specs pos v slot fields c inner longhand names others each ih =>
    cases henter : slot.enter? .ns with
    | none =>
      rw [Slot.inside_of_not_enter? henter] at others each
      have hscratch := Resolves.ns longhand names others each
      exact hscratch.initial?_scratch_iff rfl henter hcommit hfits
    | some entered =>
      obtain ⟨container, level⟩ := entered
      obtain rfl := Slot.of_enter? henter
      obtain rfl := Slot.of_enter?_ns henter
      obtain ⟨inner', mapped, rfl, others', each', -⟩ := hcommit.of_ns
      refine initial?_ns_iff rfl (.inl ⟨_, rfl⟩) (fun k hk => ?_) (fun k y hy => ?_)
      · have hsame := (others' k hk).trans (others k ((names k).1 hk))
        exact congrArg Slot.node hsame
      · obtain ⟨x, hx⟩ := exists_of_names names hy
        exact ih k x y hx hy (each' k y hy) (hfits.inside .ns k)
  | @record starters rules specs pos slot entries c inner mid names others ensured each ih =>
    cases henter : slot.enter? .record with
    | none =>
      rw [Slot.inside_of_not_enter? henter] at others ensured
      have hscratch := @Resolves.record σ options starters rules specs pos _ entries c inner mid
        names others ensured each
      exact hscratch.initial?_scratch_iff rfl henter hcommit hfits
    | some entered =>
      obtain ⟨container, level⟩ := entered
      obtain rfl := Slot.of_enter? henter
      obtain ⟨provenance, initial, rfl⟩ := Slot.of_enter?_record henter
      -- Only the snapshot counts, and a change of a record that is there keeps it.
      obtain ⟨inner', rfl, -⟩ := hcommit.of_record
      exact iff_of_true rfl (.record rfl (.inl ⟨_, rfl⟩))

end

end Settings
