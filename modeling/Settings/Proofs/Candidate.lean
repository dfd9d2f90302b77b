import Settings.Proofs.Defaults

/-!
# What resolving does

`Resolves` says what a successful resolution does with one input value at one slot: which candidate
it makes of the value and how it leaves the slot. It forgets the order of the names and the state of
the host, and it is all that later proofs know about resolving (`Specifier.resolve_takes`,
`Namespace.resolve_takes`).
-/

set_option autoImplicit false

namespace Settings

variable {σ : Type}

/-- What making sure of a record entry does to the entry's slot. -/
inductive Namespace.Ensures (entry : Namespace σ) (pos : Position) : Slot → Slot → Prop
  | created {slot : Slot} {fresh : Level} (missing : slot.data = none ∨ slot.data = some .null)
      (build : (entry.defaults pos true).Yields fresh) : entry.Ensures pos slot (.of .ns fresh)
  | kept {slot : Slot} (present : slot.data ≠ none) (notNull : slot.data ≠ some .null) :
      entry.Ensures pos slot slot

/-- A successful resolution of an input value under a specifier, or under none: the slot before,
the candidate, and the slot after. -/
inductive Resolves (options : Options σ) :
    Option (Specifier σ) → Position → Value → Slot → Value → Slot → Prop
  | free {pos : Position} {v : Value} {slot : Slot} : Resolves options none pos v slot v slot
  | leaf {rules : LeafRules σ} {pos : Position} {v w : Value} {slot : Slot}
      (value : (rules.resolve options v pos).Yields w) :
      Resolves options (some (.leaf rules)) pos v slot w slot
  | ns {rules : NamespaceRules σ} {specs : Fields (Specifier σ)} {pos : Position} {v : Value}
      {slot : Slot} {fields c : Fields Value} {inner : Level}
      (longhand : (rules.longhand v pos).Yields fields)
      (names : ∀ k, c.get? k = none ↔ fields.get? k = none)
      (others : ∀ k, fields.get? k = none → inner.slot k = (slot.inside .ns).slot k)
      (each : ∀ k x y, fields.get? k = some x → c.get? k = some y →
        Resolves options (specs.get? k) (pos.child k) x ((slot.inside .ns).slot k) y
          (inner.slot k)) :
      Resolves options (some (.ns rules specs)) pos v slot (.obj c) (slot.leave .ns inner)
  | record {starters : Option (CallM σ Value)} {rules : NamespaceRules σ}
      {specs : Fields (Specifier σ)} {pos : Position} {slot : Slot} {entries c : Fields Value}
      {inner : Level} (mid : String → Slot)
      (names : ∀ k, c.get? k = none ↔ entries.get? k = none)
      (others : ∀ k, entries.get? k = none → inner.slot k = (slot.inside .record).slot k)
      (ensured : ∀ k x, entries.get? k = some x →
        (Namespace.mk rules specs).Ensures (pos.child k) ((slot.inside .record).slot k) (mid k))
      (each : ∀ k x y, entries.get? k = some x → c.get? k = some y →
        Resolves options (some (.ns rules specs)) (pos.child k) x (mid k) y (inner.slot k)) :
      Resolves options (some (.record starters (.ns rules specs))) pos (.obj entries) slot (.obj c)
        (slot.leave .record inner)

theorem Namespace.Ensures.data_ne_none {entry : Namespace σ} {pos : Position} {slot slot' : Slot}
    (h : entry.Ensures pos slot slot') : slot'.data ≠ none := by
  cases h with
  | created => exact nofun
  | kept present => exact present

/-! ## The loop over an input -/

theorem resolveEach_takes {field : String → Value → Edit σ Level Value}
    (hlocal : ∀ name v level w level', (field name v).Takes level w level' →
      ∀ k, k ≠ name → level'.slot k = level.slot k)
    {lo : Option String} {m : SortedMap Value lo} {acc c : Fields Value} {level level' : Level}
    (h : (resolveEach field m acc).Takes level c level') (k : String) :
    (m.get? k = none → c.get? k = acc.get? k ∧ level'.slot k = level.slot k) ∧
    ∀ v, m.get? k = some v → ∃ w before after, (field k v).Takes before w after ∧
      c.get? k = some w ∧ before.slot k = level.slot k ∧ after.slot k = level'.slot k := by
  -- By induction on the input; what was resolved so far is in the accumulator.
  induction m generalizing acc level with
  | nil =>
    obtain ⟨rfl, rfl⟩ := h.of_pure
    exact ⟨fun _ => ⟨rfl, rfl⟩, fun v hv => nomatch hv⟩
  | cons name above v rest ih =>
    obtain ⟨w, mid, hstep, hrest⟩ := h.of_bind
    obtain ⟨hnone, hsome⟩ := ih hrest
    rw [SortedMap.get?_cons]
    by_cases e : k = name
    · -- The name is no key of the rest, so its result and its slot stay.
      subst e
      obtain ⟨hc, hslot⟩ := hnone (SortedMap.get?_self_bound rest)
      rw [SortedMap.get?_insert, if_pos rfl] at hc
      rw [if_pos rfl]
      refine ⟨fun hn => (by cases hn), fun x hx => ?_⟩
      cases hx
      exact ⟨w, level, mid, hstep, hc, rfl, hslot.symm⟩
    · rw [if_neg e]
      have hmid := hlocal name v level w mid hstep k e
      rw [SortedMap.get?_insert, if_neg e, hmid] at hnone
      rw [hmid] at hsome
      exact ⟨hnone, hsome⟩

/-- An input is resolved to a candidate if each step, whatever level it finds, resolves the value of
its name to the candidate's, and takes the slot of the name from one level to the other. -/
theorem resolveEach_does {field : String → Value → Edit σ Level Value} {lo : Option String}
    {m : SortedMap Value lo} {acc c : Fields Value} {level level' : Level}
    (others : ∀ k, m.get? k = none → c.get? k = acc.get? k ∧ level'.slot k = level.slot k)
    (each : ∀ k v, m.get? k = some v → ∃ w, c.get? k = some w ∧
      ∀ before : Level, before.slot k = level.slot k → ∃ after,
        (field k v).Does before w after ∧ after.slot k = level'.slot k ∧
          ∀ j, j ≠ k → after.slot j = before.slot j) :
    (resolveEach field m acc).Does level c level' := by
  induction m generalizing acc level with
  | nil =>
    obtain rfl : c = acc := SortedMap.ext fun k => (others k rfl).1
    obtain rfl : level' = level := Level.ext_slot fun k => (others k rfl).2
    exact Run.does_pure c level'
  | cons name above v rest ih =>
    obtain ⟨w, hw, hfield⟩ := each name v (if_pos rfl)
    obtain ⟨mid, hstep, hname, hmid⟩ := hfield level rfl
    have hrest {k : String} (e : k ≠ name) :
        (SortedMap.cons name above v rest).get? k = rest.get? k := if_neg e
    refine hstep.bind (ih (fun k hk => ?_) fun k x hk => ?_)
    · rw [SortedMap.get?_insert]
      by_cases e : k = name
      · rw [if_pos e, e, hname]
        exact ⟨hw, rfl⟩
      · rw [if_neg e, hmid k e]
        exact others k ((hrest e).trans hk)
    · obtain ⟨w, hw, hfield⟩ := each k x (SortedMap.get?_cons_of_get? hk)
      exact ⟨w, hw, fun before hbefore =>
        hfield before (hbefore.trans (hmid k (SortedMap.ne_of_get? hk)))⟩

/-- The names of the candidate are those of the input. -/
theorem resolveEach_names {field : String → Value → Edit σ Level Value}
    (hlocal : ∀ name v level w level', (field name v).Takes level w level' →
      ∀ k, k ≠ name → level'.slot k = level.slot k)
    {m c : Fields Value} {level level' : Level} (h : (resolveEach field m ∅).Takes level c level')
    (k : String) : c.get? k = none ↔ m.get? k = none := by
  obtain ⟨hnone, hsome⟩ := resolveEach_takes hlocal h k
  constructor
  · intro hc
    cases hm : m.get? k with
    | none => rfl
    | some v =>
      obtain ⟨w, -, -, -, hw, -⟩ := hsome v hm
      rw [hc] at hw
      cases hw
  · intro hm
    exact (hnone hm).1

/-- Builds the entry at a name, whatever the record has there. -/
private def Namespace.buildEntry (entry : Namespace σ) (name : String) (pos : Position) :
    Edit σ Level Unit := do
  let inner ← (entry.defaults pos true).beside
  Run.update fun p => (p.1.put name .ns inner, p.2)

private theorem Namespace.ensureEntry_of_missing {entry : Namespace σ} {name : String}
    {pos : Position} {level : Level}
    (h : level.data.get? name = none ∨ level.data.get? name = some .null) (s : σ) :
    entry.ensureEntry name pos (level, s) = entry.buildEntry name pos (level, s) := by
  unfold ensureEntry
  rw [Run.bind_apply]
  dsimp only [Run.state]
  -- An entry that is `null` counts as missing.
  rcases h with hnone | hnull
  · rw [hnone]
    rfl
  · rw [hnull]
    rfl

private theorem Namespace.ensureEntry_of_present {entry : Namespace σ} {name : String}
    {pos : Position} {level : Level} {v : Value} (h : level.data.get? name = some v)
    (hnull : v ≠ .null) (s : σ) :
    entry.ensureEntry name pos (level, s) = (.ok (), (level, s)) := by
  unfold ensureEntry
  rw [Run.bind_apply]
  dsimp only [Run.state]
  rw [h]
  cases v with
  | null => exact absurd rfl hnull
  | _ => rfl

theorem Namespace.ensureEntry_takes {entry : Namespace σ} {name : String} {pos : Position}
    {level level' : Level} {u : Unit} (h : (entry.ensureEntry name pos).Takes level u level') :
    entry.Ensures pos (level.slot name) (level'.slot name) ∧
      ∀ k, k ≠ name → level'.slot k = level.slot k := by
  obtain ⟨s, s', h⟩ := h
  by_cases hmissing : level.data.get? name = none ∨ level.data.get? name = some .null
  · rw [ensureEntry_of_missing hmissing] at h
    have hbuild : (entry.buildEntry name pos).Takes level u level' := ⟨s, s', h⟩
    obtain ⟨inner, mid, hinner, hput⟩ := hbuild.of_bind
    obtain ⟨hfresh, rfl⟩ := hinner.of_beside
    obtain rfl := Run.Takes.of_update (f := fun level : Level => level.put name .ns inner) hput
    simp only [Level.slot_put]
    exact ⟨.created hmissing hfresh, fun k hk => if_neg hk⟩
  · rw [not_or] at hmissing
    obtain ⟨hsome, hnull⟩ := hmissing
    obtain ⟨v, hv⟩ := Option.ne_none_iff_exists'.1 hsome
    have hvalue : v ≠ .null := by
      rintro rfl
      exact hnull hv
    rw [ensureEntry_of_present hv hvalue] at h
    cases h
    exact ⟨.kept hsome hnull, fun _ _ => rfl⟩

theorem Namespace.ensureEntry_does {entry : Namespace σ} {name : String} {pos : Position}
    {level : Level} {slot' : Slot} (h : entry.Ensures pos (level.slot name) slot')
    (hdetermined : (entry.defaults pos true).Determined) :
    ∃ level', (entry.ensureEntry name pos).Does level () level' ∧ level'.slot name = slot' ∧
      ∀ k, k ≠ name → level'.slot k = level.slot k := by
  cases h with
  | @created fresh missing build =>
    have hput : (entry.buildEntry name pos).Does level () (level.put name .ns fresh) :=
      ((hdetermined.gives build).beside level).bind
        (Run.does_update (fun level : Level => level.put name .ns fresh) level)
    refine ⟨level.put name .ns fresh, fun s => ?_, ?_, fun k hk => ?_⟩
    · rw [ensureEntry_of_missing missing]
      exact hput s
    · rw [Level.slot_put, if_pos rfl]
    · rw [Level.slot_put, if_neg hk]
  | kept present notNull =>
    obtain ⟨v, hv⟩ := Option.ne_none_iff_exists'.1 present
    have hvalue : v ≠ .null := by
      rintro rfl
      exact notNull hv
    exact ⟨level, fun s => ⟨s, ensureEntry_of_present hv hvalue s⟩, rfl, fun _ _ => rfl⟩

/-! ## Resolving, by induction on the specifier -/

private theorem resolveWith_resolves {options : Options σ} {rules : NamespaceRules σ}
    {specs : Fields (Specifier σ)}
    (fields : ∀ k s, specs.get? k = some s → ∀ pos v level w level',
      (s.resolve options pos k v).Takes level w level' →
      Resolves options (some s) pos v (level.slot k) w (level'.slot k) ∧
        ∀ j, j ≠ k → level'.slot j = level.slot j)
    {pos : Position} {v : Value} {slot : Slot} {c : Fields Value} {inner : Level}
    (h : (rules.resolveWith (fun name v => resolveField specs options pos name v) v pos).Takes
      (slot.inside .ns) c inner) :
    Resolves options (some (.ns rules specs)) pos v slot (.obj c) (slot.leave .ns inner) := by
  -- A name without specifier is taken over as it is.
  have hfield {name : String} {v : Value} {level : Level} {w : Value} {level' : Level}
      (h : (resolveField specs options pos name v).Takes level w level') :
      Resolves options (specs.get? name) (pos.child name) v (level.slot name) w
          (level'.slot name) ∧ ∀ k, k ≠ name → level'.slot k = level.slot k := by
    rw [resolveField_eq] at h
    cases hs : specs.get? name with
    | none =>
      rw [hs] at h
      obtain ⟨rfl, rfl⟩ := h.of_pure
      exact ⟨.free, fun _ _ => rfl⟩
    | some s =>
      rw [hs] at h
      exact fields name s hs _ _ _ _ _ h
  obtain ⟨longhand, level, hcall, heach⟩ := h.of_bind
  obtain ⟨hlong, rfl⟩ := hcall.of_beside
  have hlocal : ∀ name v level w level',
      (resolveField specs options pos name v).Takes level w level' →
      ∀ k, k ≠ name → level'.slot k = level.slot k := fun _ _ _ _ _ h => (hfield h).2
  have hslots := fun k => resolveEach_takes hlocal heach k
  refine .ns hlong (resolveEach_names hlocal heach) (fun k hk => ((hslots k).1 hk).2) ?_
  intro k x y hx hy
  obtain ⟨w, before, after, hstep, hw, hbefore, hafter⟩ := (hslots k).2 x hx
  obtain rfl := Option.some.inj (hy.symm.trans hw)
  rw [← hbefore, ← hafter]
  exact (hfield hstep).1

private theorem resolveEach_record {options : Options σ} {rules : NamespaceRules σ}
    {specs : Fields (Specifier σ)} {starters : Option (CallM σ Value)} {pos : Position}
    (resolveNs : ∀ {pos : Position} {v : Value} {slot : Slot} {c : Fields Value} {inner : Level},
      (rules.resolveWith (fun name v => resolveField specs options pos name v) v pos).Takes
        (slot.inside .ns) c inner →
      Resolves options (some (.ns rules specs)) pos v slot (.obj c) (slot.leave .ns inner))
    {entries : Fields Value} {slot : Slot} {c : Fields Value} {inner : Level}
    (h : (resolveEach (fun name v => do
        (Namespace.mk rules specs).ensureEntry name (pos.child name)
        Value.obj <$> Level.within .ns name
          (rules.resolveWith (fun field v => resolveField specs options (pos.child name) field v)
            v (pos.child name)) : String → Value → Edit σ Level Value) entries ∅).Takes
      (slot.inside .record) c inner) :
    Resolves options (some (.record starters (.ns rules specs))) pos (.obj entries) slot (.obj c)
      (slot.leave .record inner) := by
  -- One entry: it is made sure of, and then resolved like a namespace.
  have hentry {name : String} {v : Value} {level : Level} {w : Value} {level' : Level}
      (h : (do
        (Namespace.mk rules specs).ensureEntry name (pos.child name)
        Value.obj <$> Level.within .ns name
          (rules.resolveWith (fun field v => resolveField specs options (pos.child name) field v)
            v (pos.child name)) : Edit σ Level Value).Takes level w level') :
      (∃ mid, (Namespace.mk rules specs).Ensures (pos.child name) (level.slot name) mid ∧
        Resolves options (some (.ns rules specs)) (pos.child name) v mid w (level'.slot name)) ∧
      ∀ k, k ≠ name → level'.slot k = level.slot k := by
    obtain ⟨u, mid, hcall, hrest⟩ := h.of_bind
    obtain ⟨hensure, hothers⟩ := Namespace.ensureEntry_takes hcall
    obtain ⟨c, hc, rfl⟩ := hrest.of_map
    obtain ⟨inner, hinner, hslots⟩ := Level.within_takes hc
    refine ⟨⟨mid.slot name, hensure, ?_⟩, fun k hk => ?_⟩
    · rw [hslots name, if_pos rfl]
      exact resolveNs hinner
    · rw [hslots k, if_neg hk, hothers k hk]
  have hlocal := fun name v level w level' h => (@hentry name v level w level' h).2
  have hslots := fun k => resolveEach_takes hlocal h k
  -- The slot between the two steps exists for each name; the rule wants one function for all.
  have hmid : ∀ k x, entries.get? k = some x → ∃ mid,
      (Namespace.mk rules specs).Ensures (pos.child k) ((slot.inside .record).slot k) mid ∧
        ∀ y, c.get? k = some y →
          Resolves options (some (.ns rules specs)) (pos.child k) x mid y (inner.slot k) := by
    intro k x hx
    obtain ⟨w, before, after, hstep, hw, hbefore, hafter⟩ := (hslots k).2 x hx
    obtain ⟨⟨mid, hensure, hresolve⟩, -⟩ := hentry hstep
    rw [hbefore] at hensure
    rw [hafter] at hresolve
    refine ⟨mid, hensure, fun y hy => ?_⟩
    rw [Option.some.inj (hy.symm.trans hw)]
    exact hresolve
  obtain ⟨mid, hmid⟩ := SortedMap.exists_choice hmid
  exact .record mid (resolveEach_names hlocal h) (fun k hk => ((hslots k).1 hk).2)
    (fun k x hx => (hmid k x hx).1) (fun k x y hx hy => (hmid k x hx).2 y hy)

/-- Resolving a field does what `Resolves` says, and leaves the other slots alone. -/
theorem Specifier.resolve_takes {options : Options σ} {s : Specifier σ} {pos : Position}
    {name : String} {v w : Value} {level level' : Level}
    (h : (s.resolve options pos name v).Takes level w level') :
    Resolves options (some s) pos v (level.slot name) w (level'.slot name) ∧
      ∀ k, k ≠ name → level'.slot k = level.slot k := by
  suffices hall : (∀ name pos v level w level',
        (s.resolve options pos name v).Takes level w level' →
        Resolves options (some s) pos v (level.slot name) w (level'.slot name) ∧
          ∀ k, k ≠ name → level'.slot k = level.slot k) ∧
      (∀ starters pos v slot c inner,
        (s.resolveEntries options pos v).Takes (slot.inside .record) c inner →
        Resolves options (some (.record starters s)) pos v slot (.obj c)
          (slot.leave .record inner)) from hall.1 _ _ _ _ _ _ h
  clear h
  -- The entries of a record are resolved by its entry specifier, so both go by one induction.
  induction s with
  | leaf rules =>
    refine ⟨fun name pos v level w level' h => ?_, fun starters pos v slot c inner h => ?_⟩
    · rw [Specifier.resolve] at h
      obtain ⟨hvalue, rfl⟩ := h.of_beside
      exact ⟨.leaf hvalue, fun _ _ => rfl⟩
    · rw [Specifier.resolveEntries] at h
      exact absurd h Run.not_takes_fail
  | ns rules specs ih =>
    have hns {pos : Position} {v : Value} {slot : Slot} {c : Fields Value} {inner : Level}
        (h : (rules.resolveWith (fun name v => resolveField specs options pos name v) v pos).Takes
          (slot.inside .ns) c inner) :
        Resolves options (some (.ns rules specs)) pos v slot (.obj c) (slot.leave .ns inner) :=
      resolveWith_resolves (fun k s hs => (ih k s hs).1 k) h
    refine ⟨fun name pos v level w level' h => ?_, fun starters pos v slot c inner h => ?_⟩
    · rw [Specifier.resolve] at h
      obtain ⟨c, hc, rfl⟩ := h.of_map
      obtain ⟨inner, hinner, hslots⟩ := Level.within_takes hc
      refine ⟨?_, fun k hk => by rw [hslots k, if_neg hk]⟩
      rw [hslots name, if_pos rfl]
      exact hns hinner
    · cases v with
      | obj entries =>
        rw [Specifier.resolveEntries] at h
        exact resolveEach_record hns h
      | _ =>
        rw [Specifier.resolveEntries.eq_def] at h
        exact absurd h Run.not_takes_fail
  | record starters entry ih =>
    refine ⟨fun name pos v level w level' h => ?_, fun starters' pos v slot c inner h => ?_⟩
    · rw [Specifier.resolve] at h
      obtain ⟨c, hc, rfl⟩ := h.of_map
      obtain ⟨inner, hinner, hslots⟩ := Level.within_takes hc
      refine ⟨?_, fun k hk => by rw [hslots k, if_neg hk]⟩
      rw [hslots name, if_pos rfl]
      exact ih.2 starters pos v _ c inner hinner
    · rw [Specifier.resolveEntries] at h
      exact absurd h Run.not_takes_fail

/-- Resolving the input of a namespace does what `Resolves` says to the namespace's slot. -/
theorem Namespace.resolve_takes {options : Options σ} {n : Namespace σ} {input : Value}
    {pos : Position} {level level' : Level} {c : Fields Value}
    (h : (n.resolve options input pos).Takes level c level') :
    Resolves options (some n.toSpecifier) pos input (.of .ns level) (.obj c) (.of .ns level') :=
  @resolveWith_resolves σ options n.rules n.fields
    (fun _ _ _ _ _ _ _ _ h => Specifier.resolve_takes h) pos input (.of .ns level) c level' h

/-! ## Candidates -/

/-- What resolving can make of some input at a position: every declared leaf in it went through the
leaf's repair, check and mapping. -/
inductive IsCandidate (options : Options σ) : Option (Specifier σ) → Position → Value → Prop
  | free {pos : Position} {w : Value} : IsCandidate options none pos w
  | leaf {rules : LeafRules σ} {pos : Position} {v w : Value}
      (value : (rules.resolve options v pos).Yields w) :
      IsCandidate options (some (.leaf rules)) pos w
  | ns {rules : NamespaceRules σ} {specs : Fields (Specifier σ)} {pos : Position}
      {c : Fields Value}
      (fields : ∀ k y, c.get? k = some y → IsCandidate options (specs.get? k) (pos.child k) y) :
      IsCandidate options (some (.ns rules specs)) pos (.obj c)
  | record {starters : Option (CallM σ Value)} {rules : NamespaceRules σ}
      {specs : Fields (Specifier σ)} {pos : Position} {c : Fields Value}
      (entries : ∀ k y, c.get? k = some y →
        IsCandidate options (some (.ns rules specs)) (pos.child k) y) :
      IsCandidate options (some (.record starters (.ns rules specs))) pos (.obj c)

theorem exists_of_names {c fields : Fields Value}
    (names : ∀ k, c.get? k = none ↔ fields.get? k = none) {k : String} {y : Value}
    (hy : c.get? k = some y) : ∃ x, fields.get? k = some x := by
  cases hx : fields.get? k with
  | some x => exact ⟨x, rfl⟩
  | none =>
    rw [(names k).2 hx] at hy
    cases hy

theorem Resolves.isCandidate {options : Options σ} {spec : Option (Specifier σ)} {pos : Position}
    {v w : Value} {slot slot' : Slot} (h : Resolves options spec pos v slot w slot') :
    IsCandidate options spec pos w := by
  induction h with
  | free => exact .free
  | leaf value => exact .leaf value
  | ns longhand names others each ih =>
    apply IsCandidate.ns
    intro k y hy
    obtain ⟨x, hx⟩ := exists_of_names names hy
    exact ih k x y hx hy
  | record mid names others ensured each ih =>
    apply IsCandidate.record
    intro k y hy
    obtain ⟨x, hx⟩ := exists_of_names names hy
    exact ih k x y hx hy

/-- A candidate has an object wherever a container is declared. -/
theorem IsCandidate.isObject {options : Options σ} {spec : Option (Specifier σ)} {pos : Position}
    {w : Value} (h : IsCandidate options spec pos w) {kind : ContainerKind}
    (hkind : containerKind? spec = some kind) : w.isObject = true := by
  cases h with
  | free => cases hkind
  | leaf => cases hkind
  | ns => rfl
  | record => rfl

/-- So a candidate that is written as a value stands at a leaf or an undeclared key. -/
theorem IsCandidate.terminal {options : Options σ} {spec : Option (Specifier σ)} {pos : Position}
    {w : Value} (h : IsCandidate options spec pos w)
    (closed : containerKind? spec = none ∨ w.isObject = false) : containerKind? spec = none := by
  cases hkind : containerKind? spec with
  | none => rfl
  | some kind =>
    have hobject := h.isObject hkind
    simp [hkind, hobject] at closed

end Settings
