import Settings.Proofs.Pipeline

/-!
# Resolving only adds record entries

An input that is resolved is written nowhere: what resolving leaves, whether it succeeds or not, is
the settings it found and the record entries that the input introduces, each as it is initialized
(`OnlyAdds`). `Grows` says the same step by step, along the specification, and holds of every
resolution (`Specifier.Determined.resolve_grows`). Where data and metadata have the same containers
(`Matched`), resolving finds each of them and works on it in place, so nothing is lost.
-/

set_option autoImplicit false

namespace Settings

variable {σ : Type}

/-! ## What an edit leaves -/

namespace Run

variable {ε σ τ ρ α β : Type}

/-- Some state of the host lets the edit take one state to another, whatever it ends with. -/
def Leaves (r : Run ε (τ × σ) α) (t t' : τ) : Prop := ∃ s, (r (t, s)).2.1 = t'

theorem Takes.leaves {r : Run ε (τ × σ) α} {t t' : τ} {a : α} (h : r.Takes t a t') :
    r.Leaves t t' := by
  obtain ⟨s, s', h⟩ := h
  exact ⟨s, by rw [h]⟩

theorem Leaves.of_pure {a : α} {t t' : τ} (h : (pure a : Run ε (τ × σ) α).Leaves t t') :
    t' = t := by
  obtain ⟨s, rfl⟩ := h
  rfl

theorem Leaves.of_fail {e : ε} {t t' : τ} (h : (fail e : Run ε (τ × σ) α).Leaves t t') :
    t' = t := by
  obtain ⟨s, rfl⟩ := h
  rfl

/-- A run beside a state leaves the state alone. -/
theorem Leaves.of_beside {r : Run ε σ α} {t t' : τ}
    (h : (r.beside : Run ε (τ × σ) α).Leaves t t') : t' = t := by
  obtain ⟨s, rfl⟩ := h
  rfl

theorem Leaves.of_update {f : τ → τ} {t t' : τ}
    (h : (update fun p : τ × σ => (f p.1, p.2) : Run ε (τ × σ) Unit).Leaves t t') : t' = f t := by
  obtain ⟨s, rfl⟩ := h
  rfl

theorem Leaves.of_map {r : Run ε (τ × σ) α} {f : α → β} {t t' : τ} (h : (f <$> r).Leaves t t') :
    r.Leaves t t' := by
  obtain ⟨s, rfl⟩ := h
  rw [map_apply]
  exact ⟨s, rfl⟩

/-- A sequence leaves what its first part leaves, or else what its second part makes of it. -/
theorem Leaves.of_bind {r : Run ε (τ × σ) α} {f : α → Run ε (τ × σ) β} {t t' : τ}
    (h : (r >>= f).Leaves t t') :
    r.Leaves t t' ∨ ∃ a u, r.Takes t a u ∧ (f a).Leaves u t' := by
  obtain ⟨s, rfl⟩ := h
  rw [bind_apply]
  rcases hr : r (t, s) with ⟨e | a, u, s'⟩
  · exact .inl ⟨s, by rw [hr]⟩
  · exact .inr ⟨a, u, ⟨s, s', hr⟩, s', rfl⟩

theorem Leaves.of_zoom {part : τ → ρ} {leave : Bool → ρ → τ → τ} {r : Run ε (ρ × σ) α} {t t' : τ}
    (h : (zoom part leave r).Leaves t t') :
    ∃ succeeded p, r.Leaves (part t) p ∧ t' = leave succeeded p t := by
  obtain ⟨s, rfl⟩ := h
  unfold zoom
  dsimp only
  rcases hr : r (part t, s) with ⟨e | a, p, s'⟩
  · exact ⟨false, p, ⟨s, by rw [hr]⟩, rfl⟩
  · exact ⟨true, p, ⟨s, by rw [hr]⟩, rfl⟩

end Run

/-- Resolving the fields of an input leaves the slot of each name as it was, or as resolving the
value at the name leaves it. -/
theorem resolveEach_leaves {field : String → Value → Edit σ Level Value}
    (hlocal : ∀ name v level level', (field name v).Leaves level level' →
      ∀ k, k ≠ name → level'.slot k = level.slot k)
    {lo : Option String} {m : SortedMap Value lo} {acc : Fields Value} {level level' : Level}
    (h : (resolveEach field m acc).Leaves level level') (k : String) :
    (m.get? k = none → level'.slot k = level.slot k) ∧
    ∀ v, m.get? k = some v → level'.slot k = level.slot k ∨ ∃ before after,
      (field k v).Leaves before after ∧ before.slot k = level.slot k ∧
        after.slot k = level'.slot k := by
  induction m generalizing acc level with
  | nil =>
    obtain rfl := h.of_pure
    exact ⟨fun _ => rfl, fun v hv => nomatch hv⟩
  | cons name above v rest ih =>
    rw [SortedMap.get?_cons]
    obtain hstep | ⟨w, mid, hstep, hrest⟩ := h.of_bind
    · -- The value at this name ends the loop.
      by_cases e : k = name
      · subst e
        rw [if_pos rfl]
        refine ⟨fun hn => (by cases hn), fun x hx => ?_⟩
        cases hx
        exact .inr ⟨level, level', hstep, rfl, rfl⟩
      · rw [if_neg e]
        have hsame := hlocal name v level level' hstep k e
        exact ⟨fun _ => hsame, fun _ _ => .inl hsame⟩
    · obtain ⟨hnone, hsome⟩ := ih hrest
      have hstep := hstep.leaves
      by_cases e : k = name
      · subst e
        rw [if_pos rfl]
        refine ⟨fun hn => (by cases hn), fun x hx => ?_⟩
        cases hx
        exact .inr ⟨level, mid, hstep, rfl, (hnone (SortedMap.get?_self_bound rest)).symm⟩
      · rw [if_neg e, ← hlocal name v level mid hstep k e]
        exact ⟨hnone, hsome⟩

/-- A container that is edited in place keeps its slot or is left as resolving leaves it. -/
theorem Level.within_leaves {α : Type} {kind : ContainerKind} {name : String}
    {edit : Edit σ Level α} {level level' : Level}
    (h : (Level.within kind name edit).Leaves level level') :
    ∃ inner, edit.Leaves ((level.slot name).inside kind) inner ∧
      (level'.slot name = level.slot name ∨
        level'.slot name = (level.slot name).leave kind inner) ∧
      ∀ k, k ≠ name → level'.slot k = level.slot k := by
  obtain ⟨succeeded, inner, hedit, rfl⟩ := h.of_zoom
  refine ⟨inner, hedit, ?_⟩
  cases hentered : level.enter? kind name with
  | some entered =>
    have hslot : (level.slot name).enter? kind = some entered := hentered
    refine ⟨.inr ?_, fun k hk => ?_⟩
    · rw [Slot.leave_of_enter? hslot, Level.slot_put, if_pos rfl]
    · rw [Level.slot_put, if_neg hk]
  | none =>
    have hslot : (level.slot name).enter? kind = none := hentered
    dsimp only
    split
    · next hkeep =>
      rw [Bool.and_eq_true, Bool.not_eq_true'] at hkeep
      refine ⟨.inr ?_, fun k hk => ?_⟩
      · rw [Slot.leave_of_not_enter? hslot, hkeep.2, Level.slot_put, if_pos rfl]
        rfl
      · rw [Level.slot_put, if_neg hk]
    · exact ⟨.inl rfl, fun _ _ => rfl⟩

theorem Namespace.ensureEntry_leaves {entry : Namespace σ} {name : String} {pos : Position}
    {level level' : Level} (h : (entry.ensureEntry name pos).Leaves level level') :
    (level'.slot name = level.slot name ∨
      entry.Ensures pos (level.slot name) (level'.slot name)) ∧
    ∀ k, k ≠ name → level'.slot k = level.slot k := by
  have hsame (h : level' = level) :
      (level'.slot name = level.slot name ∨
        entry.Ensures pos (level.slot name) (level'.slot name)) ∧
      ∀ k, k ≠ name → level'.slot k = level.slot k := by
    rw [h]
    exact ⟨.inl rfl, fun _ _ => rfl⟩
  -- Where the entry is missing it is built, and nothing is left of a build that fails.
  have hmissing (missing : level.data.get? name = none ∨ level.data.get? name = some .null)
      (h : (do
        let inner ← (entry.defaults pos true).beside
        Run.update fun p => (p.1.put name .ns inner, p.2) : Edit σ Level Unit).Leaves
          level level') :
      (level'.slot name = level.slot name ∨
        entry.Ensures pos (level.slot name) (level'.slot name)) ∧
      ∀ k, k ≠ name → level'.slot k = level.slot k := by
    obtain hfail | ⟨fresh, u, hbuild, hput⟩ := h.of_bind
    · exact hsame hfail.of_beside
    · obtain ⟨hfresh, rfl⟩ := hbuild.of_beside
      obtain rfl := Run.Leaves.of_update (f := fun level : Level => level.put name .ns fresh) hput
      simp only [Level.slot_put]
      exact ⟨.inr (.created missing hfresh), fun k hk => if_neg hk⟩
  unfold ensureEntry at h
  obtain ⟨s, rfl⟩ | ⟨_, _, ⟨s, s', hstate⟩, h⟩ := h.of_bind
  · exact hsame rfl
  · cases hstate
    dsimp only at h
    split at h
    · next hnone => exact hmissing (.inl hnone) h
    · next hnull => exact hmissing (.inr hnull) h
    · exact hsame h.of_pure

/-! ## Growing -/

/-- What resolving a value, written out, leaves of a slot. The flag says whether the slot is an
entry's, which may be made first. -/
inductive Grows : (isEntry : Bool) → Option (Specifier σ) → Position → Value → Slot → Slot → Prop
  | same {isEntry : Bool} {spec : Option (Specifier σ)} {pos : Position} {v : Value} {slot : Slot} :
      Grows isEntry spec pos v slot slot
  | entry {rules : NamespaceRules σ} {specs : Fields (Specifier σ)} {pos : Position} {v : Value}
      {slot base slot' : Slot} (ensured : (Namespace.mk rules specs).Ensures pos slot base)
      (rest : Grows false (some (.ns rules specs)) pos v base slot') :
      Grows true (some (.ns rules specs)) pos v slot slot'
  | inside {isEntry : Bool} {s : Specifier σ} {kind : ContainerKind} {pos : Position}
      {fields : Fields Value} {slot : Slot} {inner : Level}
      (container : containerKind? (some s) = some kind)
      (others : ∀ k, fields.get? k = none → inner.slot k = (slot.inside kind).slot k)
      (each : ∀ k x, fields.get? k = some x →
        Grows (s.kind = .record) (s.below? k) (pos.child k) x ((slot.inside kind).slot k)
          (inner.slot k)) :
      Grows isEntry (some s) pos (.obj fields) slot (slot.leave kind inner)

/-- Nothing is left of a visit that changes nothing. -/
theorem Slot.leave_inside (kind : ContainerKind) (slot : Slot) :
    slot.leave kind (slot.inside kind) = slot := by
  cases hentered : slot.enter? kind with
  | some entered =>
    rw [leave_of_enter? hentered, (inside_eq_opened hentered).1, ← of_enter? hentered]
  | none =>
    rw [leave_of_not_enter? hentered, inside, hentered]
    rfl

/-- Resolving a value of an input, or of an entry, grows the slot of its name. -/
private structure ResolvesByGrowing (options : Options σ) (t : σ) (s : Specifier σ) : Prop where
  value : ∀ pos name v level level', (s.resolve options pos name v).Leaves level level' →
    Grows false (some s) pos (s.expand t v) (level.slot name) (level'.slot name) ∧
      ∀ k, k ≠ name → level'.slot k = level.slot k
  entries : ∀ starters pos v slot inner,
    (s.resolveEntries options pos v).Leaves (slot.inside .record) inner →
    Grows false (some (.record starters s)) pos ((Specifier.record starters s).expand t v) slot
      (slot.leave .record inner)

section Resolving

variable {options : Options σ} {t : σ} {rules : NamespaceRules σ} {specs : Fields (Specifier σ)}

/-- A refusal leaves everything as it was. -/
private theorem grows_of_fail {kind : ContainerKind} {isEntry : Bool} {spec : Option (Specifier σ)}
    {pos : Position} {v : Value} {slot : Slot} {inner : Level} {α : Type} {e : SettingsError}
    (h : (Run.fail e : Edit σ Level α).Leaves (slot.inside kind) inner) :
    Grows isEntry spec pos v slot (slot.leave kind inner) := by
  rw [h.of_fail, Slot.leave_inside]
  exact .same

/-- Resolving what is given name by name grows the container, if resolving each value grows the slot
of its name. -/
private theorem grows_of_each {s : Specifier σ} {kind : ContainerKind} {isEntry : Bool}
    {pos : Position} {field : String → Value → Edit σ Level Value} {f : String → Value → Value}
    (container : containerKind? (some s) = some kind)
    (hfield : ∀ name v level level', (field name v).Leaves level level' →
      Grows (s.kind = .record) (s.below? name) (pos.child name) (f name v) (level.slot name)
          (level'.slot name) ∧
        ∀ k, k ≠ name → level'.slot k = level.slot k)
    {fields : Fields Value} {slot : Slot} {inner : Level}
    (h : (resolveEach field fields ∅).Leaves (slot.inside kind) inner) :
    Grows isEntry (some s) pos (.obj (fields.map f)) slot (slot.leave kind inner) := by
  have hslots := fun k => resolveEach_leaves (fun _ _ _ _ h => (hfield _ _ _ _ h).2) h k
  refine .inside container (fun k hk => ?_) fun k x hx => ?_
  · rw [SortedMap.get?_map, Option.map_eq_none_iff] at hk
    exact (hslots k).1 hk
  · rw [SortedMap.get?_map] at hx
    obtain ⟨v, hv, rfl⟩ := Option.map_eq_some_iff.1 hx
    obtain hsame | ⟨before, after, hstep, hbefore, hafter⟩ := (hslots k).2 v hv
    · rw [hsame]
      exact .same
    · rw [← hbefore, ← hafter]
      exact (hfield _ _ _ _ hstep).1

private theorem resolveWith_grows (hrules : rules.Determined)
    (hfields : ∀ k s, specs.get? k = some s → ResolvesByGrowing options t s)
    {pos : Position} {v : Value} {slot : Slot} {inner : Level}
    (h : (rules.resolveWith (fun name v => resolveField specs options pos name v) v pos).Leaves
      (slot.inside .ns) inner) :
    Grows false (some (.ns rules specs)) pos ((Specifier.ns rules specs).expand t v) slot
      (slot.leave .ns inner) := by
  have hfield {name : String} {v : Value} {level level' : Level}
      (h : (resolveField specs options pos name v).Leaves level level') :
      Grows false (specs.get? name) (pos.child name) (expandAt t (specs.get? name) v)
          (level.slot name) (level'.slot name) ∧
        ∀ k, k ≠ name → level'.slot k = level.slot k := by
    rw [resolveField_eq] at h
    cases hs : specs.get? name with
    | none =>
      rw [hs] at h
      rw [h.of_pure]
      exact ⟨.same, fun _ _ => rfl⟩
    | some s =>
      rw [hs] at h
      exact (hfields name s hs).value _ _ _ _ _ h
  obtain hrefused | ⟨fields, level, hcall, heach⟩ := h.of_bind
  · rw [hrefused.of_beside, Slot.leave_inside]
    exact .same
  · obtain ⟨hlonghand, rfl⟩ := hcall.of_beside
    rw [Specifier.expand_ns specs (hrules.expanded_of_longhand hlonghand t)]
    exact grows_of_each (s := .ns rules specs) (f := fun name v => expandAt t (specs.get? name) v)
      rfl (fun _ _ _ _ h => hfield h) heach

private theorem resolveEach_grows
    (hns : ∀ {pos : Position} {v : Value} {slot : Slot} {inner : Level},
      (rules.resolveWith (fun name v => resolveField specs options pos name v) v pos).Leaves
        (slot.inside .ns) inner →
      Grows false (some (.ns rules specs)) pos ((Specifier.ns rules specs).expand t v) slot
        (slot.leave .ns inner))
    {starters : Option (CallM σ Value)} {pos : Position} {entries : Fields Value} {slot : Slot}
    {inner : Level}
    (h : (resolveEach (fun name v => do
        (Namespace.mk rules specs).ensureEntry name (pos.child name)
        Value.obj <$> Level.within .ns name
          (rules.resolveWith (fun field v => resolveField specs options (pos.child name) field v)
            v (pos.child name)) : String → Value → Edit σ Level Value) entries ∅).Leaves
      (slot.inside .record) inner) :
    Grows false (some (.record starters (.ns rules specs))) pos
      ((Specifier.record starters (.ns rules specs)).expand t (.obj entries)) slot
      (slot.leave .record inner) := by
  -- An entry that could not be made sure of is not resolved.
  have hentry {name : String} {v : Value} {level level' : Level}
      (h : (do
        (Namespace.mk rules specs).ensureEntry name (pos.child name)
        Value.obj <$> Level.within .ns name
          (rules.resolveWith (fun field v => resolveField specs options (pos.child name) field v)
            v (pos.child name)) : Edit σ Level Value).Leaves level level') :
      Grows true (some (.ns rules specs)) (pos.child name) ((Specifier.ns rules specs).expand t v)
          (level.slot name) (level'.slot name) ∧
        ∀ k, k ≠ name → level'.slot k = level.slot k := by
    obtain hensure | ⟨u, mid, hensure, hrest⟩ := h.of_bind
    · obtain ⟨hsame | hensured, hothers⟩ := Namespace.ensureEntry_leaves hensure
      · rw [hsame]
        exact ⟨.same, hothers⟩
      · exact ⟨.entry hensured .same, hothers⟩
    · obtain ⟨hensured, hothers⟩ := Namespace.ensureEntry_takes hensure
      obtain ⟨inner, hinner, hslot, hrest⟩ := Level.within_leaves hrest.of_map
      refine ⟨.entry hensured ?_, fun k hk => (hrest k hk).trans (hothers k hk)⟩
      obtain hslot | hslot := hslot <;> rw [hslot]
      · exact .same
      · exact hns hinner
  rw [Specifier.expand_record]
  exact grows_of_each (s := .record starters (.ns rules specs))
    (f := fun _ v => (Specifier.ns rules specs).expand t v) rfl (fun _ _ _ _ h => hentry h) h

private theorem Specifier.Determined.resolvesByGrowing {s : Specifier σ} (h : s.Determined)
    (options : Options σ) (t : σ) : ResolvesByGrowing options t s := by
  induction s with
  | leaf rules =>
    refine ⟨fun pos name v level level' h => ?_, fun starters pos v slot inner h => ?_⟩
    · rw [Specifier.resolve] at h
      rw [h.of_beside]
      exact ⟨.same, fun _ _ => rfl⟩
    · rw [Specifier.resolveEntries] at h
      exact grows_of_fail h
  | ns rules specs ih =>
    obtain ⟨hrules, hspecs⟩ := Specifier.everywhere_ns.1 h
    have hfields := fun k s hk => ih k s hk (hspecs k s hk)
    refine ⟨fun pos name v level level' h => ?_, fun starters pos v slot inner h => ?_⟩
    · rw [Specifier.resolve] at h
      obtain ⟨inner, hinner, hslot, hothers⟩ := Level.within_leaves h.of_map
      refine ⟨?_, hothers⟩
      obtain hslot | hslot := hslot <;> rw [hslot]
      · exact .same
      · exact resolveWith_grows hrules hfields hinner
    · cases v with
      | obj entries =>
        rw [Specifier.resolveEntries] at h
        exact resolveEach_grows (resolveWith_grows hrules hfields) h
      | _ =>
        rw [Specifier.resolveEntries.eq_def] at h
        exact grows_of_fail h
  | record starters entry ih =>
    have hentries := (ih (Specifier.everywhere_record.1 h).2).entries
    refine ⟨fun pos name v level level' h => ?_, fun starters' pos v slot inner h => ?_⟩
    · rw [Specifier.resolve] at h
      obtain ⟨inner, hinner, hslot, hothers⟩ := Level.within_leaves h.of_map
      refine ⟨?_, hothers⟩
      obtain hslot | hslot := hslot <;> rw [hslot]
      · exact .same
      · exact hentries starters pos v _ inner hinner
    · rw [Specifier.resolveEntries] at h
      exact grows_of_fail h

/-- Whatever resolving an input ends with, it grows the level that it finds. -/
theorem Namespace.resolve_grows {n : Namespace σ} (hspec : n.toSpecifier.Determined) (t : σ)
    {input : Value} {pos : Position} {level level' : Level}
    (h : (n.resolve options input pos).Leaves level level') :
    Grows false (some n.toSpecifier) pos (n.toSpecifier.expand t input) (.of .ns level)
      (.of .ns level') := by
  obtain ⟨hrules, hspecs⟩ := Specifier.everywhere_ns.1 hspec
  exact @resolveWith_grows σ options t n.rules n.fields hrules
    (fun k s hk => Specifier.Determined.resolvesByGrowing (hspecs k s hk) options t) pos input
    (.of .ns level) level' h

end Resolving

/-! ## What was there and what is new -/

/-- Each declared namespace, each declared record and each record entry that is there is there in
data and metadata, and is of the declared kind. -/
inductive Matched : Option (Specifier σ) → Slot → Prop
  | terminal {spec : Option (Specifier σ)} {slot : Slot} (terminal : containerKind? spec = none) :
      Matched spec slot
  | absent {spec : Option (Specifier σ)} : Matched spec ⟨none, none⟩
  | ns {rules : NamespaceRules σ} {specs : Fields (Specifier σ)} {inner : Level}
      (fields : ∀ k, Matched (specs.get? k) (inner.slot k)) :
      Matched (some (.ns rules specs)) (.of .ns inner)
  | record {starters : Option (CallM σ Value)} {entry : Specifier σ} {provenance : Provenance}
      {initial : Fields Metadata} {inner : Level}
      (entries : ∀ k, Matched (some entry) (inner.slot k)) :
      Matched (some (.record starters entry)) (.of (.record provenance initial) inner)

/-- A slot is the same as before, or it is that of a declared container, which still is what it was
apart from what is inside. -/
inductive Kept (spec : Option (Specifier σ)) : Slot → Slot → Prop
  | same {slot : Slot} : Kept spec slot slot
  | container {container : Container} {inner inner' : Level}
      (declared : containerKind? spec ≠ none) :
      Kept spec (.of container inner) (.of container inner')

/-- A path leads to a record entry that a value has and a slot has not, and to this level the entry
is initialized. -/
structure NewEntry (isEntry : Bool) (spec : Option (Specifier σ)) (pos : Position) (v : Value)
    (slot : Slot) (path : List String) (entry : Namespace σ) (x : Value) (fresh : Level) :
    Prop where
  leads : Leads spec path (some entry.toSpecifier)
  isEntry : isEntryAt spec isEntry path = true
  given : v.at? path = some x
  absent : slot.follow path = ⟨none, none⟩
  build : (entry.defaults (pos.follow path) true).Gives fresh

/-- What was there is kept, and what is new is in new entries or on the way to them. The same
applies to a new entry, from what it is initialized to. -/
inductive OnlyAdds :
    (isEntry : Bool) → Option (Specifier σ) → Position → Value → Slot → Slot → Prop
  | intro {isEntry : Bool} {spec : Option (Specifier σ)} {pos : Position} {v : Value}
      {slot slot' : Slot} (new : List String → Namespace σ → Value → Level → Prop)
      (kept : ∀ path target, Leads spec path target → slot.follow path ≠ ⟨none, none⟩ →
        Kept target (slot.follow path) (slot'.follow path))
      (added : ∀ path target, Leads spec path target → slot.follow path = ⟨none, none⟩ →
        slot'.follow path ≠ ⟨none, none⟩ →
        ∃ place entry x fresh, new place entry x fresh ∧ (place <+: path ∨ path <+: place))
      (entries : ∀ place entry x fresh, new place entry x fresh →
        NewEntry isEntry spec pos v slot place entry x fresh)
      (inside : ∀ place entry x fresh, new place entry x fresh →
        OnlyAdds false (some entry.toSpecifier) (pos.follow place) x (.of .ns fresh)
          (slot'.follow place)) :
      OnlyAdds isEntry spec pos v slot slot'

section Adding

variable {isEntry : Bool} {spec : Option (Specifier σ)} {s : Specifier σ} {kind : ContainerKind}
  {pos : Position} {v x : Value} {slot slot' : Slot} {path : List String} {entry : Namespace σ}
  {fresh : Level}

theorem Coherent.matched {R : Option Value → Option LeafNode → Prop}
    (h : Coherent R spec slot) : Matched spec slot := by
  induction h with
  | value terminal => exact .terminal terminal
  | ns fields ih => exact .ns ih
  | @record starters entry provenance initial inner entries kind ih =>
    refine .record fun k => ?_
    by_cases hk : inner.slot k = ⟨none, none⟩
    · rw [hk]
      exact .absent
    · exact ih k hk

/-- A declared container is absent, or it can be entered. -/
theorem Matched.enter? (h : Matched (some s) slot)
    (container : containerKind? (some s) = some kind) :
    slot = ⟨none, none⟩ ∨ ∃ c inner, slot.enter? kind = some (c, inner) := by
  cases h with
  | terminal terminal =>
    rw [container] at terminal
    cases terminal
  | absent => exact .inl rfl
  | ns =>
    cases container
    exact .inr ⟨_, _, rfl⟩
  | record =>
    cases container
    exact .inr ⟨_, _, rfl⟩

/-- Where a declared namespace has no data or `null` it is absent. -/
theorem Matched.eq_absent {rules : NamespaceRules σ} {specs : Fields (Specifier σ)}
    (h : Matched (some (.ns rules specs)) slot)
    (missing : slot.data = none ∨ slot.data = some .null) : slot = ⟨none, none⟩ := by
  cases h with
  | terminal terminal => cases terminal
  | absent => rfl
  | ns =>
    rcases missing with hnone | hnull
    · cases hnone
    · cases hnull

theorem Matched.inside (h : Matched (some s) slot) (container : containerKind? (some s) = some kind)
    (k : String) : Matched (s.below? k) ((slot.inside kind).slot k) := by
  cases h with
  | terminal terminal =>
    rw [container] at terminal
    cases terminal
  | absent => exact .absent
  | ns fields =>
    cases container
    exact fields k
  | record entries =>
    cases container
    exact entries k

theorem Slot.child_of (c : Container) (inner : Level) (name : String) :
    (Slot.of c inner).child name = inner.slot name := by
  cases c <;> rfl

/-- Inside a slot that is empty or can be entered there is what resolving finds. -/
theorem Slot.child_inside (h : slot = ⟨none, none⟩ ∨ ∃ c inner, slot.enter? kind = some (c, inner))
    (name : String) : slot.child name = (slot.inside kind).slot name := by
  obtain rfl | ⟨c, inner, hentered⟩ := h
  · rfl
  · rw [(inside_eq_opened hentered).1, of_enter? hentered, child_of]

/-- Leaving a slot that is empty or can be entered changes nothing, fills the slot or changes what
is inside. -/
theorem Slot.leave_cases (h : slot = ⟨none, none⟩ ∨ ∃ c inner, slot.enter? kind = some (c, inner))
    (inner : Level) : slot.leave kind inner = slot ∨ ∃ c, slot.leave kind inner = .of c inner ∧
      (slot = ⟨none, none⟩ ∧ inner.data.isEmpty = false ∨ ∃ level, slot = .of c level) := by
  obtain rfl | ⟨c, level, hentered⟩ := h
  · cases hempty : inner.data.isEmpty with
    | true =>
      left
      rw [leave_of_not_enter? rfl, hempty]
      rfl
    | false =>
      refine .inr ⟨.fresh kind, ?_, .inl ⟨rfl, rfl⟩⟩
      rw [leave_of_not_enter? rfl, hempty]
      rfl
  · exact .inr ⟨c, leave_of_enter? hentered inner, .inr ⟨level, of_enter? hentered⟩⟩

namespace NewEntry

/-- What is new below a container is new in it. -/
theorem cons (container : containerKind? (some s) ≠ none) {fields : Fields Value} {name : String}
    {u : Value} (hu : fields.get? name = some u)
    (h : NewEntry (s.kind = .record) (s.below? name) (pos.child name) u (slot.child name) path entry
      x fresh) :
    NewEntry isEntry (some s) pos (.obj fields) slot (name :: path) entry x fresh where
  leads := leads_cons.2 ⟨container, h.leads⟩
  isEntry := h.isEntry
  given := by
    rw [Value.at?_cons, hu]
    exact h.given
  absent := h.absent
  build := h.build

/-- What is new in what is no entry is new in an entry. -/
theorem flagged (h : NewEntry false spec pos v slot path entry x fresh) :
    NewEntry isEntry spec pos v slot path entry x fresh := by
  obtain ⟨leads, hentry, given, absent, build⟩ := h
  refine ⟨leads, ?_, given, absent, build⟩
  cases path with
  | nil =>
    rw [isEntryAt_nil] at hentry
    cases hentry
  | cons name path =>
    cases spec with
    | none => cases hentry
    | some s => exact hentry

end NewEntry

namespace OnlyAdds

theorem kept (h : OnlyAdds isEntry spec pos v slot slot') {target : Option (Specifier σ)}
    (hpath : Leads spec path target) (hthere : slot.follow path ≠ ⟨none, none⟩) :
    Kept target (slot.follow path) (slot'.follow path) := by
  cases h with
  | intro _ kept => exact kept path target hpath hthere

theorem added (h : OnlyAdds isEntry spec pos v slot slot') {target : Option (Specifier σ)}
    (hpath : Leads spec path target) (habsent : slot.follow path = ⟨none, none⟩)
    (hthere : slot'.follow path ≠ ⟨none, none⟩) :
    ∃ place entry x fresh, NewEntry isEntry spec pos v slot place entry x fresh ∧
      OnlyAdds false (some entry.toSpecifier) (pos.follow place) x (.of .ns fresh)
        (slot'.follow place) ∧ (place <+: path ∨ path <+: place) := by
  cases h with
  | intro new _ added entries inside =>
    obtain ⟨place, entry, x, fresh, hnew, hplace⟩ := added path target hpath habsent hthere
    exact ⟨place, entry, x, fresh, entries _ _ _ _ hnew, inside _ _ _ _ hnew, hplace⟩

/-- Everything that is new may count as such. -/
theorem of_added
    (kept : ∀ path target, Leads spec path target → slot.follow path ≠ ⟨none, none⟩ →
      Kept target (slot.follow path) (slot'.follow path))
    (added : ∀ path target, Leads spec path target → slot.follow path = ⟨none, none⟩ →
      slot'.follow path ≠ ⟨none, none⟩ →
      ∃ place entry x fresh, NewEntry isEntry spec pos v slot place entry x fresh ∧
        OnlyAdds false (some entry.toSpecifier) (pos.follow place) x (.of .ns fresh)
          (slot'.follow place) ∧ (place <+: path ∨ path <+: place)) :
    OnlyAdds isEntry spec pos v slot slot' :=
  .intro
    (fun place entry x fresh => NewEntry isEntry spec pos v slot place entry x fresh ∧
      OnlyAdds false (some entry.toSpecifier) (pos.follow place) x (.of .ns fresh)
        (slot'.follow place))
    kept
    (fun path target hpath habsent hthere => by
      obtain ⟨place, entry, x, fresh, hnew, hinside, hplace⟩ :=
        added path target hpath habsent hthere
      exact ⟨place, entry, x, fresh, ⟨hnew, hinside⟩, hplace⟩)
    (fun _ _ _ _ h => h.1) fun _ _ _ _ h => h.2

theorem same : OnlyAdds isEntry spec pos v slot slot :=
  of_added (fun _ _ _ _ => .same) fun _ _ _ habsent hthere => absurd habsent hthere

theorem flagged (h : OnlyAdds false spec pos v slot slot') :
    OnlyAdds isEntry spec pos v slot slot' := by
  refine of_added (fun path target hpath => h.kept hpath) fun path target hpath habsent hthere => ?_
  obtain ⟨place, entry, x, fresh, hnew, hinside, hplace⟩ := h.added hpath habsent hthere
  exact ⟨place, entry, x, fresh, hnew.flagged, hinside, hplace⟩

/-- A missing entry that is made, and then only added to, is all that is new. -/
theorem of_built (hbuild : (entry.defaults pos true).Gives fresh)
    (h : OnlyAdds false (some entry.toSpecifier) pos v (.of .ns fresh) slot') :
    OnlyAdds true (some entry.toSpecifier) pos v ⟨none, none⟩ slot' := by
  refine of_added (fun path target hpath hthere => absurd (Slot.follow_none path) hthere)
    fun path target hpath _ _ => ?_
  exact ⟨[], entry, v, fresh, ⟨.here, rfl, rfl, rfl, hbuild⟩, h, .inl List.nil_prefix⟩

/-- Where names are only added to, one at which there is something new is one of the fields. -/
theorem added_below (declared : containerKind? (some s) ≠ none) {fields : Fields Value}
    {inner : Level} (others : ∀ k, fields.get? k = none → inner.slot k = slot.child k)
    (each : ∀ k u, fields.get? k = some u →
      OnlyAdds (s.kind = .record) (s.below? k) (pos.child k) u (slot.child k) (inner.slot k))
    {name : String} {target : Option (Specifier σ)} (hpath : Leads (s.below? name) path target)
    (habsent : (slot.child name).follow path = ⟨none, none⟩)
    (hthere : (inner.slot name).follow path ≠ ⟨none, none⟩) :
    ∃ place entry x fresh,
      NewEntry isEntry (some s) pos (.obj fields) slot (name :: place) entry x fresh ∧
      OnlyAdds false (some entry.toSpecifier) (pos.follow (name :: place)) x (.of .ns fresh)
        ((inner.slot name).follow place) ∧ (place <+: path ∨ path <+: place) := by
  cases hname : fields.get? name with
  | none =>
    rw [others name hname] at hthere
    exact absurd habsent hthere
  | some u =>
    obtain ⟨place, entry, x, fresh, hnew, hinside, hplace⟩ :=
      (each name u hname).added hpath habsent hthere
    exact ⟨place, entry, x, fresh, hnew.cons declared hname, hinside, hplace⟩

/-- What is only added to name by name is only added to. -/
theorem inside (container : containerKind? (some s) = some kind)
    (hslot : slot = ⟨none, none⟩ ∨ ∃ c level, slot.enter? kind = some (c, level))
    {fields : Fields Value} {inner : Level}
    (others : ∀ k, fields.get? k = none → inner.slot k = (slot.inside kind).slot k)
    (each : ∀ k u, fields.get? k = some u →
      OnlyAdds (s.kind = .record) (s.below? k) (pos.child k) u ((slot.inside kind).slot k)
        (inner.slot k)) :
    OnlyAdds isEntry (some s) pos (.obj fields) slot (slot.leave kind inner) := by
  have hdeclared : containerKind? (some s) ≠ none := by
    rw [container]
    exact Option.some_ne_none kind
  simp only [← Slot.child_inside hslot] at others each
  obtain hsame | ⟨c, hleave, hbefore⟩ := Slot.leave_cases hslot inner
  · rw [hsame]
    exact .same
  rw [hleave]
  refine of_added (fun path target hpath hthere => ?_) fun path target hpath habsent hthere => ?_
  · cases path with
    | nil =>
      cases hpath
      obtain ⟨hnone, -⟩ | ⟨level, hlevel⟩ := hbefore
      · exact absurd hnone hthere
      · rw [Slot.follow_nil, Slot.follow_nil, hlevel]
        exact .container hdeclared
    | cons name path =>
      obtain ⟨-, hrest⟩ := leads_cons.1 hpath
      rw [Slot.follow_cons] at hthere
      rw [Slot.follow_cons, Slot.follow_cons, Slot.child_of]
      cases hname : fields.get? name with
      | none =>
        rw [others name hname]
        exact .same
      | some u => exact (each name u hname).kept hrest hthere
  · cases path with
    | nil =>
      obtain ⟨rfl, hempty⟩ | ⟨level, hlevel⟩ := hbefore
      · -- The slot was filled, so there is something inside.
        obtain ⟨name, a, hname⟩ := SortedMap.exists_of_not_isEmpty (by rw [hempty]; exact nofun)
        have hthere : (inner.slot name).follow [] ≠ ⟨none, none⟩ := by
          intro hnone
          have hdata : inner.data.get? name = none := congrArg Slot.data hnone
          rw [hname] at hdata
          cases hdata
        obtain ⟨place, entry, x, fresh, hentry, hinside, -⟩ :=
          added_below hdeclared others each .here rfl hthere
        rw [← Slot.child_of c] at hinside
        exact ⟨name :: place, entry, x, fresh, hentry, hinside, .inr List.nil_prefix⟩
      · rw [hlevel] at habsent
        cases habsent
    | cons name path =>
      obtain ⟨-, hrest⟩ := leads_cons.1 hpath
      rw [Slot.follow_cons, Slot.child_of] at hthere
      obtain ⟨place, entry, x, fresh, hentry, hinside, hplace⟩ :=
        added_below hdeclared others each hrest habsent hthere
      rw [← Slot.child_of c] at hinside
      refine ⟨name :: place, entry, x, fresh, hentry, hinside, ?_⟩
      rwa [List.cons_prefix_cons, List.cons_prefix_cons, eq_self, true_and, true_and]

end OnlyAdds

theorem Specifier.Everywhere.at_name {onLeaf : LeafRules σ → Prop}
    {onNs : NamespaceRules σ → Fields (Specifier σ) → Prop}
    {onRecord : Option (CallM σ Value) → Prop} (h : s.Everywhere onLeaf onNs onRecord)
    (name : String) : ∀ s', s.below? name = some s' → s'.Everywhere onLeaf onNs onRecord := by
  cases h with
  | leaf => exact nofun
  | ns _ fields => exact fields name
  | record _ inside => exact Specifier.forall_of_some inside

/-- Where data and metadata have the same containers, growing only adds entries. -/
theorem Grows.onlyAdds (h : Grows isEntry spec pos v slot slot') (hmatched : Matched spec slot)
    (hspec : ∀ s, spec = some s → s.Determined)
    (hmild : ∀ s, spec = some s → s.Mild fun _ _ => True) :
    OnlyAdds isEntry spec pos v slot slot' := by
  induction h with
  | same => exact .same
  | @entry rules specs pos v slot base slot' ensured rest ih =>
    cases ensured with
    | @created fresh missing build =>
      have hbuild := (Namespace.defaults_determined (n := ⟨rules, specs⟩) (hspec _ rfl) pos
        true).gives build
      have hcoherent : Coherent (fun _ _ => True) (some (.ns rules specs)) (.of .ns fresh) :=
        Specifier.defaults_coherent (fun _ => trivial) (hmild _ rfl)
          (Namespace.defaults_toSpecifier build)
      rw [hmatched.eq_absent missing]
      exact .of_built hbuild (ih hcoherent.matched hspec hmild)
    | kept => exact (ih hmatched hspec hmild).flagged
  | @inside isEntry s kind pos fields slot inner container others each ih =>
    exact .inside container (hmatched.enter? container) others fun k u hk =>
      ih k u hk (hmatched.inside container k) ((hspec s rfl).at_name k)
        ((hmild s rfl).at_name k)

end Adding

/-- Whether it succeeds or fails, resolving an input keeps all data and metadata that it finds, and
adds only the record entries that the input, written out, names and the data has not, each as it is
initialized at its position, and the containers on the way to them. -/
theorem Namespace.resolve_onlyAdds {n : Namespace σ} (hspec : n.toSpecifier.Determined)
    (hmild : n.toSpecifier.Mild fun _ _ => True) (options : Options σ) (input : Value)
    (pos : Position) {level : Level} (hmatched : Matched (some n.toSpecifier) (.of .ns level))
    (s t : σ) :
    OnlyAdds false (some n.toSpecifier) pos (n.toSpecifier.expand t input) (.of .ns level)
      (.of .ns (n.resolve options input pos (level, s)).2.1) :=
  (resolve_grows hspec t ⟨s, rfl⟩).onlyAdds hmatched (Specifier.forall_of_some hspec)
    (Specifier.forall_of_some hmild)

/-- The first host is resolved and the second refused, so both are added and the third is not. -/
theorem Namespace.resolve_onlyAdds_hosts :
    (∃ e, (Hosts.root.resolve Hosts.quiet Hosts.mixed .root (Hosts.built.level, ())).1 =
      .error e) ∧
    (Hosts.root.resolve Hosts.quiet Hosts.mixed .root (Hosts.built.level, ())).2.1.data =
      .ofList [("hosts", .obj (.ofList [("x", .obj (.ofList [("port", .str "80")])),
        ("y", .obj (.ofList [("port", .str "80")]))]))] ∧
    OnlyAdds false (some Hosts.root.toSpecifier) .root
      (Hosts.root.toSpecifier.expand () Hosts.mixed) (.of .ns Hosts.built.level)
      (.of .ns (Hosts.root.resolve Hosts.quiet Hosts.mixed .root (Hosts.built.level, ())).2.1) := by
  have hmild : Hosts.root.toSpecifier.Mild fun _ _ => True := Hosts.withoutMappers.mild
  have hcoherent : Coherent (fun _ _ => True) (some Hosts.root.toSpecifier)
      (.of .ns Hosts.built.level) :=
    Hosts.built_reachable.coherent (fun _ => trivial) hmild
  exact ⟨⟨_, rfl⟩, rfl, Namespace.resolve_onlyAdds
    (Specifier.determined_of_subsingleton _) hmild Hosts.quiet Hosts.mixed .root
    hcoherent.matched () ()⟩

end Settings
