import Settings.Proofs.Commit
import Settings.Proofs.Kinds
import Settings.Proofs.Sites

/-!
# What a commit accepts

A commit checks the shape of its input on its way: a record for which there is an object needs a
namespace for its entries, and objects for all of them. `Committable` says this of every record that
a path into the input leads to, whatever data and metadata the commit meets. A commit that succeeds
had a committable input (`Commits.committable`), and a commit of a committable input fails in its
mappers alone (`commit_fails_in_mappers`); without mappers it succeeds (`commit_ok_iff`). What
resolving returns is committable, with an object wherever a container is declared
(`Namespace.commit_of_resolve`).
-/

set_option autoImplicit false

namespace Settings

variable {σ : Type}

/-- Every record that gets an object has a namespace for its entries and gets objects alone. -/
def Committable (spec : Option (Specifier σ)) (v : Value) : Prop :=
  ∀ path starters entry entries, Leads spec path (some (.record starters entry)) →
    v.at? path = some (.obj entries) →
    entry.kind = .ns ∧ ∀ k x, entries.get? k = some x → x.isObject = true

/-- An error that a mapper ended with: the mapper of a namespace for which a value, committed at a
position, has an object. -/
def IsMapperError (spec : Option (Specifier σ)) (pos : Position) (v : Value) (e : SettingsError) :
    Prop :=
  ∃ path rules specs fields data isEntry s cause, Leads spec path (some (.ns rules specs)) ∧
    v.at? path = some (.obj fields) ∧
    (rules.runMapper data (pos.follow path) isEntry s).1 = .error e ∧
    e = .mapper (pos.follow path).render (.obj data) cause

/-! ## Level by level -/

section Forms

variable {spec : Option (Specifier σ)} {s : Specifier σ} {v : Value} {fields : Fields Value}

/-- Nothing is asked of a value that is written as it is. -/
theorem committable_closed (closed : containerKind? spec = none ∨ v.isObject = false) :
    Committable spec v := by
  intro path starters entry entries hpath hv
  cases path with
  | nil =>
    cases hpath
    cases hv
    rcases closed with hkind | hobject <;> contradiction
  | cons name path =>
    obtain ⟨fields, x, rfl, -, -⟩ := Value.at?_cons_eq_some.1 hv
    cases hpath <;> rcases closed with hkind | hobject <;> contradiction

/-- What is asked of an object is asked of its own record, if there is one, and of its fields. -/
theorem committable_obj (container : containerKind? (some s) ≠ none) :
    Committable (some s) (.obj fields) ↔
      (∀ starters entry, s = .record starters entry →
        entry.kind = .ns ∧ ∀ k x, fields.get? k = some x → x.isObject = true) ∧
      ∀ k x, fields.get? k = some x → Committable (s.below? k) x := by
  constructor
  · intro h
    refine ⟨?_, fun k x hx path starters entry entries hpath hv => ?_⟩
    · rintro starters entry rfl
      exact h [] starters entry fields .here rfl
    · exact h (k :: path) starters entry entries (leads_cons.2 ⟨container, hpath⟩)
        (Value.at?_cons_eq_some.2 ⟨fields, x, rfl, hx, hv⟩)
  · rintro ⟨hhere, hbelow⟩ path starters entry entries hpath hv
    cases path with
    | nil =>
      cases hpath
      cases hv
      exact hhere starters entry rfl
    | cons name path =>
      obtain ⟨_, x, ⟨⟩, hx, hv⟩ := Value.at?_cons_eq_some.1 hv
      exact hbelow name x hx path starters entry entries (leads_cons.1 hpath).2 hv

theorem committable_ns {rules : NamespaceRules σ} {specs : Fields (Specifier σ)} :
    Committable (some (.ns rules specs)) (.obj fields) ↔
      ∀ k x, fields.get? k = some x → Committable (specs.get? k) x := by
  rw [committable_obj (s := .ns rules specs) (Option.some_ne_none _)]
  refine ⟨And.right, fun h => ⟨?_, h⟩⟩
  rintro starters entry ⟨⟩

theorem committable_record {starters : Option (CallM σ Value)} {entry : Specifier σ} :
    Committable (some (.record starters entry)) (.obj fields) ↔
      entry.kind = .ns ∧ (∀ k x, fields.get? k = some x → x.isObject = true) ∧
      ∀ k x, fields.get? k = some x → Committable (some entry) x := by
  rw [committable_obj (s := .record starters entry) (Option.some_ne_none _), ← and_assoc]
  refine and_congr_left fun _ => ⟨fun h => h starters entry rfl, ?_⟩
  rintro h _ _ ⟨⟩
  exact h

/-- The error of a mapper inside a field is one of the object around it. -/
theorem IsMapperError.below {pos : Position} {k : String} {x : Value} {e : SettingsError}
    (h : IsMapperError (s.below? k) (pos.child k) x e)
    (container : containerKind? (some s) ≠ none) (hx : fields.get? k = some x) :
    IsMapperError (some s) pos (.obj fields) e := by
  obtain ⟨path, rules, specs, given, data, isEntry, s, cause, hpath, hgiven, herror⟩ := h
  exact ⟨k :: path, rules, specs, given, data, isEntry, s, cause, leads_cons.2 ⟨container, hpath⟩,
    Value.at?_cons_eq_some.2 ⟨fields, x, rfl, hx, hgiven⟩, herror⟩

end Forms

/-! ## Failing in the mappers alone -/

/-- A mapper fails for its own position and for the data that it was given: its call failed, or what
it returned is no object. -/
theorem NamespaceRules.runMapper_failsWith (rules : NamespaceRules σ) (data : Fields Value)
    (pos : Position) (isEntry : Bool) : (rules.runMapper data pos isEntry).FailsWith fun e =>
      rules.mapper.isSome ∧ ∃ cause, e = .mapper pos.render (.obj data) cause := by
  unfold NamespaceRules.runMapper
  split
  · exact Run.failsWith_pure _ _
  · next f hf =>
    rw [hf]
    refine Run.FailsWith.bind (fun s e he => ?_) fun v => ?_
    · unfold Run.mapError at he
      split at he
      · cases he
      · cases he
        exact ⟨rfl, _, rfl⟩
    · cases objectOrNull? v with
      | none => exact Run.failsWith_fail ⟨rfl, _, rfl⟩
      | some mapped => exact Run.failsWith_pure _ mapped

theorem NamespaceRules.remap_failsWith (rules : NamespaceRules σ) (pos : Position)
    (isEntry : Bool) : (rules.remap pos isEntry).FailsWith fun e =>
      ∃ data s, (rules.runMapper data pos isEntry s).1 = .error e := by
  rintro ⟨level, s⟩
  have hmapper : (rules.runMapper level.data pos isEntry).FailsWith fun e =>
      ∃ data s, (rules.runMapper data pos isEntry s).1 = .error e :=
    fun s e he => ⟨level.data, s, he⟩
  exact (hmapper.beside.bind fun _ => Run.failsWith_update _ _) (level, s)

/-- What is to be shown of a commit of a value to any cell. -/
private def FailsInMappers (σ : Type) (v : Value) : Prop :=
  ∀ {spec : Option (Specifier σ)} (provenance : Provenance) (key : String) (pos : Position),
    Committable spec v → (commit spec provenance v key pos).FailsWith (IsMapperError spec pos v)

private theorem commit_ns_failsWith {fields : Fields Value}
    (ih : ∀ k x, fields.get? k = some x → FailsInMappers σ x) {n : Namespace σ}
    (provenance : Provenance) (pos : Position) (isEntry : Bool)
    (h : Committable (some n.toSpecifier) (.obj fields)) :
    (n.commit provenance fields pos isEntry).FailsWith
      (IsMapperError (some n.toSpecifier) pos (.obj fields)) := by
  have hfields : (commitFields n.fields provenance fields pos).FailsWith
      (IsMapperError (some n.toSpecifier) pos (.obj fields)) := by
    rw [commitFields_eq_sweepEdit]
    refine sweepEdit_failsWith fun k x hx => Run.FailsWith.zoom ?_ _ _
    refine (ih k x hx provenance k (pos.child k) (committable_ns.1 h k x hx)).imp fun e he => ?_
    exact he.below (s := n.toSpecifier) (Option.some_ne_none _) hx
  refine hfields.bind fun _ => (n.rules.remap_failsWith pos isEntry).imp fun e he => ?_
  obtain ⟨data, s, herror⟩ := he
  obtain ⟨-, cause, hcause⟩ := n.rules.runMapper_failsWith data pos isEntry s e herror
  exact ⟨[], n.rules, n.fields, fields, data, isEntry, s, cause, .here, rfl, herror, hcause⟩

private theorem failsInMappers (v : Value) : FailsInMappers σ v ∧
    ∀ fields, v = .obj fields → ∀ k x, fields.get? k = some x → FailsInMappers σ x := by
  -- By induction on the value. An entry of a record is committed without a cell of its own, so
  -- what is known of the fields of an object is carried along.
  induction v with
  | obj fields ih =>
    refine ⟨?_, fun _ e => Value.obj.inj e ▸ fun k x hx => (ih k x hx).1⟩
    intro spec provenance key pos h
    rw [commit.eq_def]
    cases spec with
    | none => exact Run.failsWith_update _ _
    | some s =>
      cases s with
      | leaf rules => exact Run.failsWith_update _ _
      | ns rules specs =>
        exact (commit_ns_failsWith (n := ⟨rules, specs⟩) (fun k x hx => (ih k x hx).1) provenance
          pos false h).zoom _ _
      | record starters entry =>
        obtain ⟨hkind, hobjects, hentries⟩ := committable_record.1 h
        cases entry with
        | ns rules specs =>
          refine Run.FailsWith.zoom ?_ _ _
          rw [commitEntries_eq_sweepEdit]
          refine sweepEdit_failsWith fun k x hx => ?_
          have hobject := hobjects k x hx
          cases x with
          | obj inside =>
            refine Run.FailsWith.zoom ?_ _ _
            refine (commit_ns_failsWith (n := ⟨rules, specs⟩) ((ih k _ hx).2 inside rfl) provenance
              (pos.child k) true (hentries k _ hx)).imp fun e he => ?_
            exact IsMapperError.below (s := .record starters (.ns rules specs)) he
              (Option.some_ne_none _) hx
          | _ => cases hobject
        | _ => cases hkind
  | _ =>
    refine ⟨?_, fun _ e => by cases e⟩
    intro spec provenance key pos h
    rw [commit.eq_def]
    cases spec with
    | none => exact Run.failsWith_update _ _
    | some s => cases s <;> exact Run.failsWith_update _ _

/-- Whatever cell a committable value is committed to, only a mapper can fail. -/
theorem commit_fails_in_mappers {spec : Option (Specifier σ)} {v : Value} (h : Committable spec v)
    (provenance : Provenance) (key : String) (pos : Position) :
    (commit spec provenance v key pos).FailsWith (IsMapperError spec pos v) :=
  (failsInMappers v).1 provenance key pos h

theorem Namespace.commit_fails_in_mappers {n : Namespace σ} {input : Fields Value}
    (h : Committable (some n.toSpecifier) (.obj input)) (provenance : Provenance) (pos : Position)
    (isEntry : Bool) : (n.commit provenance input pos isEntry).FailsWith
      (IsMapperError (some n.toSpecifier) pos (.obj input)) :=
  commit_ns_failsWith ((failsInMappers (.obj input)).2 input rfl) provenance pos isEntry h

/-! ## What has been committed -/

section Commits

variable {provenance : Provenance} {isEntry : Bool} {spec target : Option (Specifier σ)}
  {pos : Position} {v w : Value} {slot slot' : Slot}

/-- What a commit succeeds for is committable. -/
theorem Commits.committable (h : Commits provenance isEntry spec pos v slot slot') :
    Committable spec v := by
  induction h with
  | value closed => exact committable_closed closed
  | @ns isEntry rules specs pos fields slot inner mapped others each mapper ih =>
    exact committable_ns.2 ih
  | @record isEntry starters rules specs pos entries slot inner objects others each ih =>
    exact committable_record.2 ⟨rfl, objects, ih⟩

/-- Wherever a path into the value leads, what is there has been committed under the specifier
there, and the metadata shows it. -/
theorem Commits.at_path {path : List String} (h : Commits provenance isEntry spec pos v slot slot')
    (hpath : Leads spec path target) (hv : v.at? path = some w) :
    ∃ isEntry' before after, Commits provenance isEntry' target (pos.follow path) w before after ∧
      (slot'.follow path).node = after.node := by
  induction hpath generalizing isEntry pos v slot slot' with
  | here =>
    cases hv
    exact ⟨isEntry, slot, slot', h, rfl⟩
  | @field rules specs name path target rest ih =>
    obtain ⟨fields, x, rfl, hx, hw⟩ := Value.at?_cons_eq_some.1 hv
    obtain ⟨inner, mapped, rfl, -, each, -⟩ := h.of_ns
    obtain ⟨isEntry', before, after, hcommits, hnode⟩ := ih (each name x hx) hw
    refine ⟨isEntry', before, after, hcommits, Eq.trans ?_ hnode⟩
    rw [Slot.follow_cons, Level.child_of_ns]
    apply Slot.node_follow_congr
    rfl
  | @entry starters entry name path target rest ih =>
    obtain ⟨entries, x, rfl, hx, hw⟩ := Value.at?_cons_eq_some.1 hv
    cases h with
    | value closed => rcases closed with hkind | hobject <;> contradiction
    | record objects others each =>
      obtain ⟨isEntry', before, after, hcommits, hnode⟩ := ih (each name x hx) hw
      exact ⟨isEntry', before, after, hcommits, hnode⟩

/-- An object that is committed where a container is declared leaves metadata of its kind. -/
theorem Commits.kind_eq {s : Specifier σ} (h : Commits provenance isEntry (some s) pos v slot slot')
    (container : containerKind? (some s) ≠ none) (hv : v.isObject = true) :
    ∃ m, slot'.node = some m ∧ m.kind = s.kind := by
  cases h with
  | value closed =>
    rcases closed with hkind | hobject
    · exact absurd hkind container
    · rw [hv] at hobject
      cases hobject
  | ns => exact ⟨_, rfl, rfl⟩
  | record => exact ⟨_, rfl, rfl⟩

end Commits

/-! ## Without mappers -/

/-- What holds at every node of a specification holds at every node that a path leads to. -/
theorem Leads.everywhere {onLeaf : LeafRules σ → Prop}
    {onNs : NamespaceRules σ → Fields (Specifier σ) → Prop}
    {onRecord : Option (CallM σ Value) → Prop} {spec target : Option (Specifier σ)}
    {path : List String} (h : Leads spec path target)
    (hspec : ∀ s, spec = some s → s.Everywhere onLeaf onNs onRecord) :
    ∀ s, target = some s → s.Everywhere onLeaf onNs onRecord := by
  induction h with
  | here => exact hspec
  | @field rules specs name path target rest ih =>
    exact ih ((Specifier.everywhere_ns.1 (hspec _ rfl)).2 name)
  | entry rest ih =>
    exact ih (Specifier.forall_of_some (Specifier.everywhere_record.1 (hspec _ rfl)).2)

theorem not_isMapperError {spec : Option (Specifier σ)}
    (hspec : ∀ s, spec = some s → s.WithoutMappers) {pos : Position} {v : Value}
    {e : SettingsError} : ¬ IsMapperError spec pos v e := by
  rintro ⟨path, rules, specs, fields, data, isEntry, s, cause, hpath, -, herror, -⟩
  obtain ⟨hmapper, -⟩ := rules.runMapper_failsWith data (pos.follow path) isEntry s e herror
  rw [(Specifier.everywhere_ns.1 (hpath.everywhere hspec _ rfl)).1] at hmapper
  cases hmapper

/-- Without mappers a commit succeeds exactly for committable values, whatever is in its cell. -/
theorem commit_ok_iff {spec : Option (Specifier σ)}
    (hspec : ∀ s, spec = some s → s.WithoutMappers) (provenance : Provenance) (v : Value)
    (key : String) (pos : Position) (cell : Cell) (s : σ) :
    (commit spec provenance v key pos (cell, s)).1 = .ok () ↔ Committable spec v := by
  constructor
  · intro h
    exact (commit_takes (cell.shows_slot key) (Run.takes_of_ok h)).committable
  · intro h
    exact ((commit_fails_in_mappers h provenance key pos).imp fun e he =>
      not_isMapperError hspec he).ok (cell, s)

theorem Namespace.commit_ok_iff {n : Namespace σ} (hmappers : n.toSpecifier.WithoutMappers)
    (provenance : Provenance) (input : Fields Value) (pos : Position) (isEntry : Bool)
    (level : Level) (s : σ) : (n.commit provenance input pos isEntry (level, s)).1 = .ok () ↔
      Committable (some n.toSpecifier) (.obj input) := by
  constructor
  · intro h
    exact (Namespace.commit_takes (Run.takes_of_ok h)).committable
  · intro h
    exact ((Namespace.commit_fails_in_mappers h provenance pos isEntry).imp fun e he =>
      not_isMapperError (Specifier.forall_of_some hmappers) he).ok (level, s)

/-! ## What resolving returns -/

section Candidates

variable {options : Options σ} {spec target : Option (Specifier σ)} {pos : Position} {w : Value}

theorem IsCandidate.committable (h : IsCandidate options spec pos w) : Committable spec w := by
  induction h with
  | free => exact committable_closed (.inl rfl)
  | leaf => exact committable_closed (.inl rfl)
  | ns fields ih => exact committable_ns.2 ih
  | record entries ih =>
    exact committable_record.2 ⟨rfl, fun k y hy => (entries k y hy).isObject rfl, ih⟩

/-- Every part of a candidate is a candidate for its own place. -/
theorem IsCandidate.at_path {path : List String} {x : Value} (h : IsCandidate options spec pos w)
    (hpath : Leads spec path target) (hx : w.at? path = some x) :
    IsCandidate options target (pos.follow path) x := by
  induction hpath generalizing pos w with
  | here =>
    cases hx
    exact h
  | @field rules specs name path target rest ih =>
    obtain ⟨fields, y, rfl, hy, hx⟩ := Value.at?_cons_eq_some.1 hx
    cases h with
    | ns each => exact ih (each name y hy) hx
  | @entry starters entry name path target rest ih =>
    obtain ⟨fields, y, rfl, hy, hx⟩ := Value.at?_cons_eq_some.1 hx
    cases h with
    | record each => exact ih (each name y hy) hx

end Candidates

/-- What resolving returns can be committed anywhere: into any level, with either provenance and at
any position. Wherever a namespace or a record is declared the candidate has an object, if it has
anything, and all entries of records are objects. So no check of the commit fails and no container
is written as a leaf: only mappers of namespaces that the candidate has an object for can fail, and
without mappers the commit succeeds. -/
theorem Namespace.commit_of_resolve {n : Namespace σ} {options : Options σ} {input : Value}
    {pos : Position} {level level' : Level} {c : Fields Value} {s t : σ}
    (h : n.resolve options input pos (level, s) = (.ok c, (level', t))) (provenance : Provenance)
    (pos' : Position) (isEntry : Bool) (into : Level) (u : σ) :
    (∀ path target kind x, Leads (some n.toSpecifier) path target →
      containerKind? target = some kind → (Value.obj c).at? path = some x → x.isObject = true) ∧
    Committable (some n.toSpecifier) (.obj c) ∧
    (∀ e, (n.commit provenance c pos' isEntry (into, u)).1 = .error e →
      IsMapperError (some n.toSpecifier) pos' (.obj c) e) ∧
    (∀ after u', n.commit provenance c pos' isEntry (into, u) = (.ok (), (after, u')) →
      ∀ path spec x, Leads (some n.toSpecifier) path (some spec) →
        containerKind? (some spec) ≠ none → (Value.obj c).at? path = some x →
        ∃ m, ((Slot.of .ns after).follow path).node = some m ∧ m.kind = spec.kind) ∧
    (n.toSpecifier.WithoutMappers → (n.commit provenance c pos' isEntry (into, u)).1 = .ok ()) := by
  have hcandidate : IsCandidate options (some n.toSpecifier) pos (.obj c) :=
    (Namespace.resolve_takes ⟨s, t, h⟩).isCandidate
  have hobject {path : List String} {target : Option (Specifier σ)} {kind : ContainerKind}
      {x : Value} (hpath : Leads (some n.toSpecifier) path target)
      (hkind : containerKind? target = some kind) (hx : (Value.obj c).at? path = some x) :
      x.isObject = true := (hcandidate.at_path hpath hx).isObject hkind
  refine ⟨fun path target kind x => hobject, hcandidate.committable, ?_, ?_, fun hmappers => ?_⟩
  · exact Namespace.commit_fails_in_mappers hcandidate.committable provenance pos' isEntry (into, u)
  · intro after u' hcommit path spec x hpath hcontainer hx
    have hcommits := Namespace.commit_takes ⟨u, u', hcommit⟩
    obtain ⟨isEntry', before, inside, hinside, hnode⟩ := hcommits.at_path hpath hx
    obtain ⟨kind, hkind⟩ := Option.ne_none_iff_exists'.1 hcontainer
    rw [hnode]
    exact hinside.kind_eq hcontainer (hobject hpath hkind hx)
  · exact (Namespace.commit_ok_iff hmappers provenance c pos' isEntry into u).2
      hcandidate.committable

/-- A level whose hosts are text for the data and a leaf for the metadata. -/
def Hosts.crossed : Level := ⟨.ofList [("hosts", .str "x")], .ofList [("hosts", .leaf
  (.fresh (some .null) .initial))]⟩

theorem Namespace.commit_of_resolve_hosts : ∃ level' after,
    Hosts.root.resolve Hosts.quiet Hosts.input .root (Hosts.built.level, ()) =
      (.ok Hosts.candidate, (level', ())) ∧
    Hosts.root.commit .initial Hosts.candidate .root false (Hosts.crossed, ()) =
      (.ok (), (after, ())) ∧
    (∃ m, ((Slot.of .ns after).follow ["hosts"]).node = some m ∧ m.kind = .record) ∧
    ∃ m, ((Slot.of .ns after).follow ["hosts", "x"]).node = some m ∧ m.kind = .ns := by
  have hresolve : Hosts.root.resolve Hosts.quiet Hosts.input .root (Hosts.built.level, ()) =
      (.ok Hosts.candidate, (_, ())) := rfl
  obtain ⟨-, -, -, hkinds, hsucceeds⟩ :=
    Namespace.commit_of_resolve hresolve .initial .root false Hosts.crossed ()
  have hcommit : Hosts.root.commit .initial Hosts.candidate .root false (Hosts.crossed, ()) =
      (.ok (), (_, ())) := Prod.ext (hsucceeds Hosts.withoutMappers) rfl
  refine ⟨_, _, hresolve, hcommit, ?_, ?_⟩
  · exact hkinds _ _ hcommit ["hosts"] (.record none _) _ (.field .here) (Option.some_ne_none _) rfl
  · exact hkinds _ _ hcommit ["hosts", "x"] (.ns ⟨none, none, none⟩ _) _ (.field (.entry .here))
      (Option.some_ne_none _) rfl

end Settings
