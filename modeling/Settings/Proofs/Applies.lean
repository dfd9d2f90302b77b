import Settings.Proofs.Change
import Settings.Proofs.Completeness

/-!
# Applying an input in one pass

Resolving finds the candidate of an input without a look at the settings (`Renders`), and a change
to a candidate is one pass over them (`Changes`). `Applies` puts the two together: what an input as
it is given does to a slot. On coherent settings it says exactly when a change succeeds and with
what result: every successful change applies its input (`Store.change_applies`), and with determined
callbacks an input that applies is a change that succeeds (`Store.change_of_applies`).
-/

set_option autoImplicit false

namespace Settings

variable {σ : Type}

/-- The candidate that resolving makes of a value. -/
inductive Renders (options : Options σ) :
    Option (Specifier σ) → Position → Value → Value → Prop
  | free {pos : Position} {v : Value} : Renders options none pos v v
  | leaf {rules : LeafRules σ} {pos : Position} {v w : Value}
      (value : (rules.resolve options v pos).Yields w) :
      Renders options (some (.leaf rules)) pos v w
  | ns {rules : NamespaceRules σ} {specs : Fields (Specifier σ)} {pos : Position} {v : Value}
      {fields c : Fields Value}
      (longhand : (rules.longhand v pos).Yields fields)
      (names : ∀ k, c.get? k = none ↔ fields.get? k = none)
      (each : ∀ k x y, fields.get? k = some x → c.get? k = some y →
        Renders options (specs.get? k) (pos.child k) x y) :
      Renders options (some (.ns rules specs)) pos v (.obj c)
  | record {starters : Option (CallM σ Value)} {rules : NamespaceRules σ}
      {specs : Fields (Specifier σ)} {pos : Position} {entries c : Fields Value}
      (names : ∀ k, c.get? k = none ↔ entries.get? k = none)
      (each : ∀ k x y, entries.get? k = some x → c.get? k = some y →
        Renders options (some (.ns rules specs)) (pos.child k) x y) :
      Renders options (some (.record starters (.ns rules specs))) pos (.obj entries) (.obj c)

theorem Resolves.renders {options : Options σ} {spec : Option (Specifier σ)} {pos : Position}
    {v w : Value} {slot slot' : Slot} (h : Resolves options spec pos v slot w slot') :
    Renders options spec pos v w := by
  induction h with
  | free => exact .free
  | leaf value => exact .leaf value
  | ns longhand names others each ih => exact .ns longhand names ih
  | record mid names others ensured each ih => exact .record names ih

/-- What an input does to a slot. The flag says whether the slot is an entry's. -/
def Applies (options : Options σ) (isEntry : Bool) (spec : Option (Specifier σ)) (pos : Position)
    (v : Value) (slot slot' : Slot) : Prop :=
  ∃ w, Renders options spec pos v w ∧ Changes isEntry spec pos slot w slot'

/-- What an input does to the slot of an entry, which is made sure of first. -/
def Namespace.AppliesToEntry (entry : Namespace σ) (options : Options σ) (pos : Position)
    (v : Value) (slot slot' : Slot) : Prop :=
  ∃ base, entry.Ensures pos slot base ∧
    Applies options true (some entry.toSpecifier) pos v base slot'

/-- Where a value is given it takes its step; without one the slot stays. -/
def IfGiven (step : Value → Slot → Slot → Prop) (v : Option Value) (slot slot' : Slot) : Prop :=
  match v with
  | some v => step v slot slot'
  | none => slot' = slot

theorem IfGiven.of_some {step : Value → Slot → Slot → Prop} {o : Option Value} {v : Value}
    {slot slot' : Slot} (h : IfGiven step o slot slot') (ho : o = some v) : step v slot slot' := by
  rw [ho] at h
  exact h

theorem IfGiven.of_none {step : Value → Slot → Slot → Prop} {o : Option Value} {slot slot' : Slot}
    (h : IfGiven step o slot slot') (ho : o = none) : slot' = slot := by
  rw [ho] at h
  exact h

/-- An entry that is there is kept. -/
theorem Namespace.ensures_of_ns {entry : Namespace σ} {pos : Position} {inner : Level}
    {slot : Slot} : entry.Ensures pos (.of .ns inner) slot ↔ slot = .of .ns inner := by
  constructor
  · intro h
    generalize hslot : Slot.of .ns inner = before at h
    cases h with
    | created missing =>
      subst hslot
      rcases missing with hnone | hnull
      · cases hnone
      · cases hnull
    | kept => rfl
  · rintro rfl
    exact .kept nofun nofun

section Forms

variable {options : Options σ} {isEntry : Bool} {pos : Position} {v : Value} {slot slot' : Slot}

/-- At a leaf or an undeclared key an input writes its candidate. -/
theorem applies_terminal {spec : Option (Specifier σ)} (terminal : containerKind? spec = none) :
    Applies options isEntry spec pos v slot slot' ↔
      ∃ w, Renders options spec pos v w ∧ slot' = slot.write spec.isSome .change w := by
  constructor
  · rintro ⟨w, hrenders, hchanges⟩
    refine ⟨w, hrenders, ?_⟩
    cases hchanges with
    | value => rfl
    | ns => cases terminal
    | record => cases terminal
  · rintro ⟨w, hrenders, rfl⟩
    exact ⟨w, hrenders, .value terminal⟩

/-- A candidate that exists for every value of an input is one for the input. -/
private theorem exists_candidate {fields : Fields Value} {P : String → Value → Value → Prop}
    (h : ∀ k x, fields.get? k = some x → ∃ y, P k x y) :
    ∃ c : Fields Value, (∀ k, c.get? k = none ↔ fields.get? k = none) ∧
      ∀ k x y, fields.get? k = some x → c.get? k = some y → P k x y := by
  obtain ⟨w, hw⟩ := SortedMap.exists_choice h
  refine ⟨fields.map fun k _ => w k, fun k => ?_, fun k x y hx hy => ?_⟩
  · rw [SortedMap.get?_map, Option.map_eq_none_iff]
  · rw [SortedMap.get?_map, hx] at hy
    rw [← Option.some.inj hy]
    exact hw k x hx

/-- An input applies to a namespace field by field, and then the mapper runs. -/
theorem applies_ns {rules : NamespaceRules σ} {specs : Fields (Specifier σ)} :
    Applies options isEntry (some (.ns rules specs)) pos v slot slot' ↔
      ∃ (fields mapped : Fields Value) (inner inner' : Level),
        (rules.longhand v pos).Yields fields ∧
        slot = .of .ns inner ∧ slot' = .of .ns ⟨inner'.data.assign mapped, inner'.nodes⟩ ∧
        (∀ k, IfGiven (Applies options false (specs.get? k) (pos.child k)) (fields.get? k)
          (inner.slot k) (inner'.slot k)) ∧
        (rules.runMapper inner'.data pos isEntry).Yields mapped := by
  constructor
  · rintro ⟨w, hrenders, hchanges⟩
    cases hrenders with
    | @ns _ _ _ _ fields c longhand names each =>
      cases hchanges with
      | value terminal => cases terminal
      | @ns _ _ _ _ _ inner inner' mapped others changes mapper =>
        refine ⟨fields, mapped, inner, inner', longhand, rfl, rfl, fun k => ?_, mapper⟩
        cases hk : fields.get? k with
        | none => exact others k ((names k).2 hk)
        | some x =>
          obtain ⟨y, hy⟩ := exists_of_names (fun k => (names k).symm) hk
          exact ⟨y, each k x y hk hy, changes k y hy⟩
  · rintro ⟨fields, mapped, inner, inner', longhand, rfl, rfl, hfields, mapper⟩
    obtain ⟨c, names, hc⟩ := exists_candidate fun k x hk => (hfields k).of_some hk
    refine ⟨.obj c, .ns longhand names fun k x y hx hy => (hc k x y hx hy).1,
      .ns (fun k hk => (hfields k).of_none ((names k).1 hk)) (fun k y hy => ?_) mapper⟩
    obtain ⟨x, hx⟩ := exists_of_names names hy
    exact (hc k x y hx hy).2

/-- So an input leaves a namespace where it applies to one. -/
theorem Applies.exists_of_ns {rules : NamespaceRules σ} {specs : Fields (Specifier σ)}
    (h : Applies options isEntry (some (.ns rules specs)) pos v slot slot') :
    ∃ inner, slot' = .of .ns inner := by
  obtain ⟨_, mapped, _, inner, -, -, hslot, -⟩ := applies_ns.1 h
  exact ⟨_, hslot⟩

/-- An entry that an input was applied to is there, so it is kept. -/
theorem Applies.ensures_iff {n : Namespace σ} {base : Slot}
    (h : Applies options isEntry (some n.toSpecifier) pos v slot slot') :
    n.Ensures pos slot' base ↔ base = slot' := by
  obtain ⟨inner, rfl⟩ := h.exists_of_ns
  exact Namespace.ensures_of_ns

/-- Without a mapper an input applies field by field, and that is all. -/
theorem applies_ns_of_mapperless [Nonempty σ] {rules : NamespaceRules σ}
    {specs : Fields (Specifier σ)} (hmapper : rules.mapper = none) :
    Applies options isEntry (some (.ns rules specs)) pos v slot slot' ↔
      ∃ (fields : Fields Value) (inner inner' : Level), (rules.longhand v pos).Yields fields ∧
        slot = .of .ns inner ∧ slot' = .of .ns inner' ∧
        ∀ k, IfGiven (Applies options false (specs.get? k) (pos.child k)) (fields.get? k)
          (inner.slot k) (inner'.slot k) := by
  rw [applies_ns]
  constructor
  · rintro ⟨fields, mapped, inner, inner', hlonghand, hslot, hslot', hfields, hmapped⟩
    obtain rfl := NamespaceRules.mapped_eq_empty hmapper hmapped
    exact ⟨fields, inner, inner', hlonghand, hslot, hslot', hfields⟩
  · rintro ⟨fields, inner, inner', hlonghand, hslot, hslot', hfields⟩
    have hmapped : (rules.runMapper inner'.data pos isEntry).Yields ∅ := by
      unfold NamespaceRules.runMapper
      rw [hmapper]
      exact Run.yields_pure ∅
    exact ⟨fields, ∅, inner, inner', hlonghand, hslot, hslot', hfields, hmapped⟩

/-- Only records of namespaces take input. -/
theorem Applies.entry_eq_ns {starters : Option (CallM σ Value)} {entry : Specifier σ}
    (h : Applies options isEntry (some (.record starters entry)) pos v slot slot') :
    ∃ rules specs, entry = .ns rules specs := by
  obtain ⟨w, hrenders, -⟩ := h
  cases hrenders
  exact ⟨_, _, rfl⟩

/-- An input applies to a record entry by entry. -/
theorem applies_record {starters : Option (CallM σ Value)} {rules : NamespaceRules σ}
    {specs : Fields (Specifier σ)} :
    Applies options isEntry (some (.record starters (.ns rules specs))) pos v slot slot' ↔
      ∃ (entries : Fields Value) (provenance : Provenance) (initial : Fields Metadata)
        (inner inner' : Level), v = .obj entries ∧
        slot = .of (.record provenance initial) inner ∧
        slot' = .of (.record .change initial) inner' ∧
        ∀ k, IfGiven ((Namespace.mk rules specs).AppliesToEntry options (pos.child k))
          (entries.get? k) (inner.slot k) (inner'.slot k) := by
  constructor
  · rintro ⟨w, hrenders, hchanges⟩
    cases hrenders with
    | @record _ _ _ _ entries c names each =>
      cases hchanges with
      | value terminal => cases terminal
      | @record _ _ _ _ _ provenance initial _ inner inner' base others ensured changes =>
        refine ⟨entries, provenance, initial, inner, inner', rfl, rfl, rfl, fun k => ?_⟩
        cases hk : entries.get? k with
        | none => exact others k ((names k).2 hk)
        | some x =>
          obtain ⟨y, hy⟩ := exists_of_names (fun k => (names k).symm) hk
          exact ⟨base k, ensured k y hy, y, each k x y hk hy, changes k y hy⟩
  · rintro ⟨entries, provenance, initial, inner, inner', rfl, rfl, rfl, hentries⟩
    obtain ⟨base, hbase⟩ := SortedMap.exists_choice fun k x hk => (hentries k).of_some hk
    obtain ⟨c, names, hc⟩ := exists_candidate fun k x hk => (hbase k x hk).2
    refine ⟨.obj c, .record names fun k x y hx hy => (hc k x y hx hy).1,
      .record base (fun k hk => (hentries k).of_none ((names k).1 hk)) (fun k y hy => ?_)
        fun k y hy => ?_⟩
    · obtain ⟨x, hx⟩ := exists_of_names names hy
      exact (hbase k x hx).1
    · obtain ⟨x, hx⟩ := exists_of_names names hy
      exact (hc k x y hx hy).2

end Forms

/-! ## From one pass back to two -/

/-- There is a level with any slots at the names of a map. -/
theorem Level.exists_slots {α : Type} {lo : Option String} (m : SortedMap α lo) (level : Level)
    (f : String → Slot) :
    ∃ level' : Level, ∀ k, level'.slot k = if (m.get? k).isSome then f k else level.slot k := by
  -- One map for the data and one for the nodes, each with what the slots have of it.
  have hmap {β : Type} (base : Fields β) (g : String → Option β) : ∃ out : Fields β, ∀ k,
      out.get? k = if (m.get? k).isSome then g k else base.get? k := by
    refine ⟨(base.filterMap fun k b => if (m.get? k).isSome then none else some b).assign
      (m.filterMap fun k _ => g k), fun k => ?_⟩
    rw [SortedMap.get?_assign, SortedMap.get?_filterMap, SortedMap.get?_filterMap]
    cases hk : m.get? k with
    | none => cases base.get? k <;> rfl
    | some a => cases base.get? k <;> cases g k <;> rfl
  obtain ⟨data, hdata⟩ := hmap level.data fun k => (f k).data
  obtain ⟨nodes, hnodes⟩ := hmap level.nodes fun k => (f k).node
  refine ⟨⟨data, nodes⟩, fun k => ?_⟩
  unfold slot
  rw [hdata, hnodes]
  split <;> rfl

/-- Slots that exist at every name that an input and its candidate share are those of one level,
which has another level's slots at the other names. -/
private theorem exists_mid {fields c : Fields Value} {P : String → Value → Value → Slot → Prop}
    (names : ∀ k, c.get? k = none ↔ fields.get? k = none) (level : Level)
    (h : ∀ k x y, fields.get? k = some x → c.get? k = some y → ∃ slot, P k x y slot) :
    ∃ mid : Level, (∀ k, c.get? k = none → mid.slot k = level.slot k) ∧
      ∀ k x y, fields.get? k = some x → c.get? k = some y → P k x y (mid.slot k) := by
  have hname : ∀ k y, c.get? k = some y →
      ∃ slot, ∀ x, fields.get? k = some x → P k x y slot := by
    intro k y hy
    obtain ⟨x, hx⟩ := exists_of_names names hy
    obtain ⟨slot, hslot⟩ := h k x y hx hy
    refine ⟨slot, fun x' hx' => ?_⟩
    rw [Option.some.inj (hx'.symm.trans hx)]
    exact hslot
  obtain ⟨f, hf⟩ := SortedMap.exists_choice hname
  obtain ⟨mid, hmid⟩ := Level.exists_slots c level f
  refine ⟨mid, fun k hk => ?_, fun k x y hx hy => ?_⟩
  · rw [hmid k, hk]
    rfl
  · rw [hmid k, hy]
    exact hf k y hy x hx

/-- A change to a value's candidate is a resolution of the value and the commit of the candidate. -/
theorem Renders.resolves_commits {options : Options σ} {isEntry : Bool}
    {spec : Option (Specifier σ)} {pos : Position} {v w : Value} {slot slot' : Slot}
    (hrenders : Renders options spec pos v w) (hchanges : Changes isEntry spec pos slot w slot') :
    ∃ mid, Resolves options spec pos v slot w mid ∧
      Commits .change isEntry spec pos w mid slot' := by
  induction hchanges generalizing v with
  | @value isEntry spec pos slot w terminal =>
    refine ⟨slot, ?_, .value (.inl terminal)⟩
    cases hrenders with
    | free => exact .free
    | leaf value => exact .leaf value
    | ns => cases terminal
    | record => cases terminal
  | @ns isEntry rules specs pos c inner inner' mapped others each mapper ih =>
    cases hrenders with
    | @ns _ _ _ _ fields _ longhand names renders =>
      obtain ⟨mid, hothers, hmid⟩ := exists_mid names inner
        fun k x y hx hy => ih k y hy (renders k x y hx hy)
      -- The namespace is there, so both passes work on the level inside it.
      have hresolves := @Resolves.ns σ options rules specs pos v (.of .ns inner) fields c mid
        longhand names (fun k hk => hothers k ((names k).2 hk)) fun k x y hx hy =>
          (hmid k x y hx hy).1
      have hcommits := @Commits.ns σ .change isEntry rules specs pos c (.of .ns mid) inner' mapped
        (fun k hk => (others k hk).trans (hothers k hk).symm)
        (fun k y hy => by
          obtain ⟨x, hx⟩ := exists_of_names names hy
          exact (hmid k x y hx hy).2) mapper
      exact ⟨.of .ns mid, hresolves, hcommits⟩
  | @record isEntry starters rules specs pos provenance initial c inner inner' base others ensured
      each ih =>
    cases hrenders with
    | @record _ _ _ _ entries _ names renders =>
      obtain ⟨mid, hothers, hmid⟩ := exists_mid names inner
        fun k x y hx hy => ih k y hy (renders k x y hx hy)
      have hresolves := @Resolves.record σ options starters rules specs pos
        (.of (.record provenance initial) inner) entries c mid base names
        (fun k hk => hothers k ((names k).2 hk))
        (fun k x hx => by
          obtain ⟨y, hy⟩ := exists_of_names (fun k => (names k).symm) hx
          exact ensured k y hy)
        fun k x y hx hy => (hmid k x y hx hy).1
      have hcommits := @Commits.record σ .change isEntry starters rules specs pos c
        (.of (.record provenance initial) mid) inner'
        (fun k y hy => by
          obtain ⟨x, hx⟩ := exists_of_names names hy
          exact (hmid k x y hx hy).1.isCandidate.isObject rfl)
        (fun k hk => (others k hk).trans (hothers k hk).symm)
        fun k y hy => by
          obtain ⟨x, hx⟩ := exists_of_names names hy
          exact (hmid k x y hx hy).2
      exact ⟨.of (.record provenance initial) mid, hresolves, hcommits⟩

/-! ## Changes of a store -/

section Stores

variable {spec : Namespace σ} {options : Options σ} {store store' : Store σ} {input : Value}

/-- A successful change of a store whose data and metadata are coherent applies its input. -/
theorem Store.Reachable.change_applies {R : Option Value → Option LeafNode → Prop}
    (hR : ∀ node : Option LeafNode, R (node.bind (·.value)) node)
    (h : Store.Reachable spec options store) (hmild : spec.toSpecifier.Mild R) {s s' : σ}
    (hchange : store.change input s = (.ok store', s')) :
    ∃ level, store' = { store with level } ∧
      Applies options false (some spec.toSpecifier) .root input (.of .ns store.level)
        (.of .ns level) := by
  obtain ⟨c, mid, level, rfl, -, hresolves, hcommits⟩ := Store.change_eq_ok hchange
  obtain ⟨hspec, hoptions⟩ := h.fixed
  rw [hspec, hoptions] at hresolves
  rw [hspec] at hcommits
  exact ⟨level, rfl, .obj c, hresolves.renders,
    hresolves.changes hR hcommits (Specifier.forall_of_some hmild) (h.coherent hR hmild)⟩

/-- With determined callbacks an input that applies is a change that succeeds. -/
theorem Store.change_of_applies {level : Level} (hspec : store.spec.toSpecifier.Determined)
    (hoptions : store.options.Determined)
    (h : Applies store.options false (some store.spec.toSpecifier) .root input (.of .ns store.level)
      (.of .ns level)) : (store.change input).Gives { store with level } := by
  obtain ⟨w, hrenders, hchanges⟩ := h
  obtain ⟨mid, hresolves, hcommits⟩ := hrenders.resolves_commits hchanges
  generalize hslot : Slot.of .ns store.level = slot at hresolves
  cases hresolves with
  | @ns _ _ _ _ _ fields c inner longhand names others each =>
    subst hslot
    exact Store.change_of_rules hspec hoptions (.ns longhand names others each) hcommits

end Stores

end Settings
