import Settings.Proofs.Admission

/-!
# What the rules allow is what runs

`Resolves` and `Commits` are read off runs that succeeded. With determined callbacks the way back is
open too: a resolution or a commit that the rules allow is the one that every run makes
(`Resolves.does`, `Commits.does`), and so a resolution with the commit of its candidate is a change
that succeeds (`Store.change_of_rules`).
-/

set_option autoImplicit false

namespace Settings

variable {σ : Type}

/-! ## Determined repairs -/

/-- Whether the hook takes a notice depends on the notice alone. -/
def Options.Determined (options : Options σ) : Prop :=
  ∀ hook, options.onFixup = some hook → ∀ notice, (hook notice options.logFixup).Determined

theorem Options.determined_of_subsingleton [Subsingleton σ] (options : Options σ) :
    options.Determined := fun _ _ _ => Run.determined_of_subsingleton _

theorem Options.logFixup_determined (options : Options σ) (notice : FixupNotice) :
    (options.logFixup notice).Determined := by
  unfold logFixup
  split <;> exact fun _ _ => rfl

theorem Options.Determined.report {options : Options σ} (h : options.Determined)
    (notice : FixupNotice) : (options.report notice).Determined := by
  unfold Options.report
  apply Run.Determined.mapError
  split
  · next hook hhook => exact h hook hhook notice
  · exact options.logFixup_determined notice

theorem LeafRules.Determined.resolve {rules : LeafRules σ} (h : rules.Determined)
    {options : Options σ} (hoptions : options.Determined) (input : Value) (pos : Position) :
    (rules.resolve options input pos).Determined := by
  have hrepair : (rules.repair options input pos).Determined := by
    unfold repair
    split
    · exact Run.determined_pure _
    · next fixup hfixup =>
      refine ((h.fixup fixup hfixup input).mapError _).bind fun fix => ?_
      cases fix with
      | none => exact Run.determined_pure _
      | some fix => exact (hoptions.report _).bind fun _ => Run.determined_pure _
  have hcheck (w : Value) : (rules.check w pos).Determined := by
    unfold check
    split
    · exact Run.determined_pure _
    · next validate hvalidate =>
      refine ((h.validate validate hvalidate w).mapError _).bind fun violation => ?_
      cases violation with
      | none => exact Run.determined_pure _
      | some violation => exact Run.determined_fail _
  rw [resolve_eq]
  exact hrepair.bind fun w => (hcheck w).bind fun _ => h.coerce w pos

/-! ## Commits -/

/-- Committing a value to any cell that shows the slot succeeds. It leaves the second slot at the
cell's key, and the data at the other keys alone. -/
private def CellCommits (spec : Option (Specifier σ)) (provenance : Provenance) (pos : Position)
    (v : Value) (slot slot' : Slot) : Prop :=
  ∀ {cell : Cell} {key : String}, cell.Shows key spec.isSome provenance slot →
    ∃ cell' : Cell, (commit spec provenance v key pos).Does cell () cell' ∧
      ⟨cell'.data.get? key, some cell'.node⟩ = slot' ∧
      ∀ k, k ≠ key → cell'.data.get? k = cell.data.get? k

private theorem CellCommits.onCell {spec : Option (Specifier σ)} {provenance : Provenance}
    {pos : Position} {v : Value} {level : Level} {name : String} {slot' : Slot}
    (h : CellCommits spec provenance pos v (level.slot name) slot') :
    ∃ level', (Level.onCell name spec.isSome provenance (commit spec provenance v name pos)).Does
        level () level' ∧
      level'.slot name = slot' ∧ ∀ k, k ≠ name → level'.slot k = level.slot k := by
  obtain ⟨cell', hdoes, hslot, hothers⟩ :=
    @h (level.cell name spec.isSome provenance) name ⟨rfl, rfl⟩
  refine ⟨level.putCell name cell', ?_, ?_, fun k hk => ?_⟩
  · unfold Level.onCell
    exact Run.does_zoom _ _ hdoes
  · rw [← hslot]
    simp only [Level.putCell, Level.slot, SortedMap.get?_insert, if_pos]
  · simp only [Level.putCell, Level.slot, SortedMap.get?_insert, if_neg hk, hothers k hk]
    rfl

private theorem Cell.put_shows (cell : Cell) (key : String) (container : Container)
    (inner : Level) :
    ⟨(cell.put key container inner).data.get? key, some (cell.put key container inner).node⟩ =
        Slot.of container inner ∧
      ∀ k, k ≠ key → (cell.put key container inner).data.get? k = cell.data.get? k := by
  refine ⟨?_, fun k hk => ?_⟩
  · simp only [put, SortedMap.get?_insert, if_pos]
    rfl
  · simp only [put, SortedMap.get?_insert, if_neg hk]

private theorem Cell.onRecord_does {edit : Edit σ Level Unit} {cell : Cell} {key : String}
    {declared : Bool} {provenance : Provenance} {slot : Slot} {inner : Level}
    (hshows : cell.Shows key declared provenance slot)
    (h : edit.Does (slot.opened .record) () inner) :
    (Cell.onRecord key provenance edit).Does cell () (cell.put key
      (.record provenance (if provenance = .initial then inner.nodes else slot.snapshot))
      inner) := by
  rw [← hshows.level] at h
  rw [← hshows.snapshot]
  unfold Cell.onRecord
  -- Once the provenance is known, what the edit leaves behind on success computes.
  cases provenance with
  | initial => exact Run.does_zoom _ _ h
  | change => exact Run.does_zoom _ _ h

private theorem commit_of_closed {spec : Option (Specifier σ)} {v : Value}
    (closed : containerKind? spec = none ∨ v.isObject = false) (provenance : Provenance)
    (key : String) (pos : Position) : commit spec provenance v key pos =
      Run.update fun p => (p.1.putLeaf key provenance v, p.2) := by
  rw [commit.eq_def]
  split
  · rcases closed with hkind | hobject <;> contradiction
  · rcases closed with hkind | hobject <;> contradiction
  · rfl

/-- The namespace of a level is committed if its fields can be, each for itself. -/
private theorem commit_ns_does {rules : NamespaceRules σ} {specs : Fields (Specifier σ)}
    {provenance : Provenance} {fields : Fields Value} {pos : Position} {level inner : Level}
    (others : ∀ k, fields.get? k = none → inner.slot k = level.slot k)
    (each : ∀ k v, fields.get? k = some v →
      CellCommits (specs.get? k) provenance (pos.child k) v (level.slot k) (inner.slot k))
    {isEntry : Bool} {mapped : Fields Value}
    (mapper : (rules.runMapper inner.data pos isEntry).Gives mapped) :
    ((Namespace.mk rules specs).commit provenance fields pos isEntry).Does level ()
      ⟨inner.data.assign mapped, inner.nodes⟩ := by
  have hfields : (commitFields specs provenance fields pos).Does level () inner := by
    rw [commitFields_eq_sweepEdit]
    exact sweepEdit_does others fun k v hk before hbefore =>
      CellCommits.onCell (hbefore ▸ each k v hk)
  exact hfields.bind (NamespaceRules.remap_does mapper)

private theorem commitEntries_does {entry : Namespace σ} {provenance : Provenance}
    {entries : Fields Value} {pos : Position} {level inner : Level}
    (others : ∀ k, entries.get? k = none → inner.slot k = level.slot k)
    (each : ∀ k v, entries.get? k = some v → ∃ fields inner', v = .obj fields ∧
      inner.slot k = .of .ns inner' ∧
      (entry.commit provenance fields (pos.child k) true).Does ((level.slot k).opened .ns) ()
        inner') :
    (commitEntries entry provenance (.obj entries) entries pos).Does level () inner := by
  rw [commitEntries_eq_sweepEdit]
  refine sweepEdit_does others fun k v hk before hbefore => ?_
  obtain ⟨fields, inner', rfl, hinner, hcommit⟩ := each k v hk
  rw [← hbefore] at hcommit
  obtain ⟨after, hdoes, hput⟩ := Level.onEntry_does hcommit
  exact ⟨after, hdoes, (hput k).trans ((if_pos rfl).trans hinner.symm),
    fun j hj => (hput j).trans (if_neg hj)⟩

private theorem commits_does {provenance : Provenance} {isEntry : Bool}
    {spec : Option (Specifier σ)} {pos : Position} {v : Value} {slot slot' : Slot}
    (h : Commits provenance isEntry spec pos v slot slot')
    (hspec : ∀ s, spec = some s → s.Determined) :
    (isEntry = false → CellCommits spec provenance pos v slot slot') ∧
      ∀ rules specs fields, spec = some (.ns rules specs) → v = .obj fields → ∃ inner,
        slot' = .of .ns inner ∧
        ((Namespace.mk rules specs).commit provenance fields pos isEntry).Does (slot.opened .ns) ()
          inner := by
  -- An entry of a record is committed without a cell of its own, so both forms go together.
  induction h with
  | @value isEntry spec pos v slot closed =>
    refine ⟨fun _ cell key hshows => ?_, ?_⟩
    · rw [commit_of_closed closed]
      obtain ⟨hdata, hnode⟩ := hshows.putLeaf v
      refine ⟨_, Run.does_update (fun cell : Cell => cell.putLeaf key provenance v) cell, ?_,
        fun k hk => ?_⟩
      · rw [hdata, hnode, SortedMap.get?_insert, if_pos rfl]
        rfl
      · rw [hdata, SortedMap.get?_insert, if_neg hk]
    · rintro rules specs fields rfl rfl
      rcases closed with hkind | hobject <;> contradiction
  | @ns isEntry rules specs pos fields slot inner mapped others each mapper ih =>
    obtain ⟨hrules, hspecs⟩ := Specifier.everywhere_ns.1 (hspec _ rfl)
    have hdoes : ((Namespace.mk rules specs).commit provenance fields pos isEntry).Does
        (slot.opened .ns) () ⟨inner.data.assign mapped, inner.nodes⟩ :=
      commit_ns_does others (fun k v hk => (ih k v hk fun s hs => hspecs k s hs).1 rfl)
        ((hrules.runMapper _ _ _).gives mapper)
    refine ⟨?_, ?_⟩
    · rintro rfl cell key hshows
      rw [← hshows.level] at hdoes
      have hcommit : (commit (some (.ns rules specs)) provenance (.obj fields) key pos).Does cell ()
          (cell.put key .ns ⟨inner.data.assign mapped, inner.nodes⟩) := by
        rw [commit]
        exact Run.does_zoom (fun cell : Cell => cell.level .ns key)
          (fun _ inner cell => cell.put key .ns inner) hdoes
      exact ⟨_, hcommit, cell.put_shows key .ns _⟩
    · rintro _ _ _ ⟨⟩ ⟨⟩
      exact ⟨_, rfl, hdoes⟩
  | @record isEntry starters rules specs pos entries slot inner objects others each ih =>
    obtain ⟨-, hentry⟩ := Specifier.everywhere_record.1 (hspec _ rfl)
    have hdoes : (commitEntries ⟨rules, specs⟩ provenance (.obj entries) entries pos).Does
        (slot.opened .record) () inner := by
      refine commitEntries_does others fun k v hk => ?_
      obtain ⟨fields, rfl⟩ : ∃ fields, v = .obj fields := by
        cases v with
        | obj fields => exact ⟨fields, rfl⟩
        | _ => cases objects k _ hk
      obtain ⟨inner', hinner, hcommit⟩ :=
        (ih k _ hk (Specifier.forall_of_some hentry)).2 rules specs fields rfl rfl
      exact ⟨fields, inner', rfl, hinner, hcommit⟩
    refine ⟨?_, ?_⟩
    · intro _ cell key hshows
      have hcommit : (commit (some (.record starters (.ns rules specs))) provenance (.obj entries)
          key pos).Does cell () (cell.put key
            (.record provenance (if provenance = .initial then inner.nodes else slot.snapshot))
            inner) := by
        rw [commit]
        exact Cell.onRecord_does hshows hdoes
      exact ⟨_, hcommit, cell.put_shows key _ _⟩
    · rintro _ _ _ ⟨⟩

/-- A commit that the rules allow to the slot of a namespace succeeds. -/
theorem Commits.does {n : Namespace σ} {provenance : Provenance} {isEntry : Bool} {pos : Position}
    {c : Fields Value} {level level' : Level}
    (h : Commits provenance isEntry (some n.toSpecifier) pos (.obj c) (.of .ns level)
      (.of .ns level'))
    (hspec : n.toSpecifier.Determined) :
    (n.commit provenance c pos isEntry).Does level () level' := by
  obtain ⟨inner, hinner, hdoes⟩ :=
    (commits_does h (Specifier.forall_of_some hspec)).2 n.rules n.fields c rfl rfl
  obtain ⟨-, rfl⟩ := Slot.of_inj.1 hinner
  exact hdoes

/-! ## Resolutions -/

/-- Resolving a value at any name of any level with the slot there succeeds. It makes the candidate
of the value, leaves the second slot at the name, and keeps to the name. -/
private def FieldResolves (options : Options σ) (spec : Option (Specifier σ)) (pos : Position)
    (v : Value) (slot : Slot) (w : Value) (slot' : Slot) : Prop :=
  ∀ {level : Level} {name : String}, level.slot name = slot → ∃ level',
    (match spec with
      | some s => s.resolve options pos name v
      | none => pure v : Edit σ Level Value).Does level w level' ∧
    level'.slot name = slot' ∧ ∀ k, k ≠ name → level'.slot k = level.slot k

private theorem resolve_ns_does {options : Options σ} {rules : NamespaceRules σ}
    {specs : Fields (Specifier σ)} {pos : Position} {v : Value} {fields c : Fields Value}
    {level inner : Level} (longhand : (rules.longhand v pos).Gives fields)
    (names : ∀ k, c.get? k = none ↔ fields.get? k = none)
    (others : ∀ k, fields.get? k = none → inner.slot k = level.slot k)
    (each : ∀ k x y, fields.get? k = some x → c.get? k = some y →
      FieldResolves options (specs.get? k) (pos.child k) x (level.slot k) y (inner.slot k)) :
    ((Namespace.mk rules specs).resolve options v pos).Does level c inner := by
  refine (longhand.beside level).bind (resolveEach_does (fun k hk => ?_) fun k x hk => ?_)
  · exact ⟨(names k).2 hk, others k hk⟩
  · obtain ⟨y, hy⟩ := exists_of_names (fun k => (names k).symm) hk
    refine ⟨y, hy, fun before hbefore => ?_⟩
    rw [resolveField_eq]
    exact each k x y hk hy hbefore

/-- The container at a name is resolved if the level inside is. -/
private theorem FieldResolves.within {options : Options σ} {s : Specifier σ} {pos : Position}
    {v : Value} {kind : ContainerKind} {slot : Slot} {c : Fields Value} {inner : Level}
    {edit : Edit σ Level (Fields Value)}
    (hresolve : ∀ name, s.resolve options pos name v = Value.obj <$> Level.within kind name edit)
    (hedit : edit.Does (slot.inside kind) c inner) :
    FieldResolves options (some s) pos v slot (.obj c) (slot.leave kind inner) := by
  rintro level name rfl
  obtain ⟨level', hdoes, hslots⟩ := Level.within_does hedit
  refine ⟨level', ?_, (hslots name).trans (if_pos rfl), fun k hk => (hslots k).trans (if_neg hk)⟩
  dsimp only
  rw [hresolve]
  exact hdoes.map _

private theorem resolves_does {options : Options σ} {spec : Option (Specifier σ)} {pos : Position}
    {v w : Value} {slot slot' : Slot} (h : Resolves options spec pos v slot w slot')
    (hspec : ∀ s, spec = some s → s.Determined) (hoptions : options.Determined) :
    FieldResolves options spec pos v slot w slot' ∧
      ∀ rules specs, spec = some (.ns rules specs) → ∃ c inner, w = .obj c ∧
        slot' = slot.leave .ns inner ∧
        ((Namespace.mk rules specs).resolve options v pos).Does (slot.inside .ns) c inner := by
  -- The namespace at the root is no field of a level, so both forms go together.
  induction h with
  | @free pos v slot =>
    refine ⟨?_, ?_⟩
    · rintro level name rfl
      exact ⟨level, Run.does_pure v level, rfl, fun _ _ => rfl⟩
    · rintro _ _ ⟨⟩
  | @leaf rules pos v w slot value =>
    refine ⟨?_, ?_⟩
    · rintro level name rfl
      have hrules := Specifier.everywhere_leaf.1 (hspec _ rfl)
      refine ⟨level, ?_, rfl, fun _ _ => rfl⟩
      dsimp only
      rw [Specifier.resolve]
      exact ((hrules.resolve hoptions v pos).gives value).beside level
    · rintro _ _ ⟨⟩
  | @ns rules specs pos v slot fields c inner longhand names others each ih =>
    obtain ⟨hrules, hspecs⟩ := Specifier.everywhere_ns.1 (hspec _ rfl)
    have hdoes : ((Namespace.mk rules specs).resolve options v pos).Does (slot.inside .ns) c
        inner :=
      resolve_ns_does ((hrules.longhand v pos).gives longhand) names others
        fun k x y hx hy => (ih k x y hx hy fun s hs => hspecs k s hs).1
    refine ⟨FieldResolves.within (fun _ => by rw [Specifier.resolve]; rfl) hdoes, ?_⟩
    rintro _ _ ⟨⟩
    exact ⟨c, inner, rfl, rfl, hdoes⟩
  | @record starters rules specs pos slot entries c inner mid names others ensured each ih =>
    obtain ⟨-, hentry⟩ := Specifier.everywhere_record.1 (hspec _ rfl)
    refine ⟨?_, ?_⟩
    · refine FieldResolves.within (fun _ => by rw [Specifier.resolve, Specifier.resolveEntries])
        (resolveEach_does (fun k hk => ⟨(names k).2 hk, others k hk⟩) fun k x hk => ?_)
      obtain ⟨y, hy⟩ := exists_of_names (fun k => (names k).symm) hk
      refine ⟨y, hy, fun before hbefore => ?_⟩
      -- An entry is made sure of, and then resolved as the field of a namespace is.
      have hdefaults : ((Namespace.mk rules specs).defaults (pos.child k) true).Determined :=
        @Namespace.defaults_determined σ ⟨rules, specs⟩ hentry (pos.child k) true
      obtain ⟨level, hensure, hmid, hothers⟩ :=
        Namespace.ensureEntry_does (hbefore ▸ ensured k x hk) hdefaults
      obtain ⟨after, hresolve, hslot, hkeeps⟩ :=
        (ih k x y hk hy (Specifier.forall_of_some hentry)).1 hmid
      dsimp only at hresolve
      rw [Specifier.resolve] at hresolve
      exact ⟨after, hensure.bind hresolve, hslot, fun j hj => (hkeeps j hj).trans (hothers j hj)⟩
    · rintro _ _ ⟨⟩

/-- A resolution that the rules allow to the slot of a namespace succeeds. -/
theorem Resolves.does {options : Options σ} {n : Namespace σ} {pos : Position} {input : Value}
    {c : Fields Value} {level level' : Level}
    (h : Resolves options (some n.toSpecifier) pos input (.of .ns level) (.obj c)
      (.of .ns level'))
    (hspec : n.toSpecifier.Determined) (hoptions : options.Determined) :
    (n.resolve options input pos).Does level c level' := by
  obtain ⟨_, inner, ⟨⟩, hinner, hdoes⟩ :=
    (resolves_does h (Specifier.forall_of_some hspec) hoptions).2 n.rules n.fields rfl
  obtain ⟨-, rfl⟩ := Slot.of_inj.1 hinner
  exact hdoes

/-! ## Changes -/

/-- A resolution that the rules allow, with a commit of its candidate that they allow, is a change
that succeeds whatever the state of the host. -/
theorem Store.change_of_rules {store : Store σ} {input : Value} {c : Fields Value}
    {mid level' : Level} (hspec : store.spec.toSpecifier.Determined)
    (hoptions : store.options.Determined)
    (hresolves : Resolves store.options (some store.spec.toSpecifier) .root input
      (.of .ns store.level) (.obj c) (.of .ns mid))
    (hcommits : Commits .change false (some store.spec.toSpecifier) .root (.obj c) (.of .ns mid)
      (.of .ns level')) :
    (store.change input).Gives { store with level := level' } := by
  intro s
  have hdoes : (applyInput store.spec store.options input).Does store.level () level' := by
    unfold applyInput
    exact (hresolves.does hspec hoptions).bind (hcommits.does hspec)
  obtain ⟨s', h⟩ := hdoes s
  unfold change
  rw [h]

end Settings
