import Settings.Proofs.Admission
import Settings.Proofs.Limits

/-!
# The check of a specification

`Specifier.offence?` is exact: it finds nothing in the specifications that are `Valid`, and
otherwise the offence before which there is none (`Specifier.FirstOffence`). It is also sufficient:
the passes over a tree have checks of their own for the entries of records, and on a valid
specification none of them ever fails.
-/

set_option autoImplicit false

namespace Settings

variable {σ : Type} {lo : Option String}

/-- A name that can be a field's. -/
def IsFieldName (name : String) : Prop := name ≠ "" ∧ '.' ∉ name.toList

theorem isFieldName_iff {name : String} : isFieldName name = true ↔ IsFieldName name := by
  simp [isFieldName, IsFieldName]

/-- Every record of the tree has a namespace as entry, and every declared name can be a field's. -/
inductive Specifier.Valid : Specifier σ → Prop
  | leaf {rules : LeafRules σ} : Valid (.leaf rules)
  | ns {rules : NamespaceRules σ} {specs : Fields (Specifier σ)}
      (names : ∀ k s, specs.get? k = some s → IsFieldName k)
      (fields : ∀ k s, specs.get? k = some s → Valid s) : Valid (.ns rules specs)
  | record {starters : Option (CallM σ Value)} {rules : NamespaceRules σ}
      {specs : Fields (Specifier σ)} (entry : Valid (.ns rules specs)) :
      Valid (.record starters (.ns rules specs))

/-- What can be wrong with a namespace or a record: the name of a field, or the kind of entry. -/
inductive Fault
  | fieldName (name : String)
  | entryKind (kind : Kind)

def Fault.error : Fault → Position → SettingsError
  | fieldName name, pos => .fieldName pos.render pos.isRoot name
  | entryKind kind, pos => .recordEntry pos.render kind

theorem Fault.path_error (fault : Fault) (pos : Position) :
    (fault.error pos).path = pos.render := by
  cases fault <;> rfl

/-- The names of the fields that lead to the namespace or the record with the first fault. The
fields before it, in order of their names, are in order with all that lies below them. An entry is
where its record is. -/
inductive Specifier.FirstOffence : Specifier σ → List String → Fault → Prop
  | name {rules : NamespaceRules σ} {specs : Fields (Specifier σ)} {name : String}
      {s : Specifier σ} (declared : specs.get? name = some s)
      (before : ∀ k s, k < name → specs.get? k = some s → IsFieldName k ∧ s.Valid)
      (wrong : ¬ IsFieldName name) : FirstOffence (.ns rules specs) [] (.fieldName name)
  | field {rules : NamespaceRules σ} {specs : Fields (Specifier σ)} {name : String}
      {s : Specifier σ} {path : List String} {fault : Fault} (declared : specs.get? name = some s)
      (before : ∀ k s, k < name → specs.get? k = some s → IsFieldName k ∧ s.Valid)
      (right : IsFieldName name) (below : FirstOffence s path fault) :
      FirstOffence (.ns rules specs) (name :: path) fault
  | entry {starters : Option (CallM σ Value)} {entry : Specifier σ} (wrong : entry.kind ≠ .ns) :
      FirstOffence (.record starters entry) [] (.entryKind entry.kind)
  | inside {starters : Option (CallM σ Value)} {rules : NamespaceRules σ}
      {specs : Fields (Specifier σ)} {path : List String} {fault : Fault}
      (entry : FirstOffence (.ns rules specs) path fault) :
      FirstOffence (.record starters (.ns rules specs)) path fault

/-! ## Exactness -/

/-- The fields of a namespace are in order if no name and nothing below is at fault. -/
private theorem fieldsOffence?_eq_none {specs : SortedMap (Specifier σ) lo} {pos : Position} :
    fieldsOffence? specs pos = none ↔ ∀ k s, specs.get? k = some s →
      IsFieldName k ∧ s.offence? (pos.child k) = none := by
  induction specs with
  | nil =>
    refine ⟨fun _ k s hs => ?_, fun _ => rfl⟩
    cases hs
  | cons name above spec rest ih =>
    rw [fieldsOffence?]
    constructor
    · intro h k s hs
      split at h
      · next hname =>
        obtain ⟨hspec, hrest⟩ := Option.or_eq_none_iff.1 h
        rw [SortedMap.get?_cons] at hs
        split at hs
        · next e =>
          obtain rfl := Option.some.inj hs
          rw [e]
          exact ⟨isFieldName_iff.1 hname, hspec⟩
        · exact ih.1 hrest k s hs
      · cases h
    · intro h
      obtain ⟨hname, hspec⟩ := h name spec (if_pos rfl)
      rw [if_pos (isFieldName_iff.2 hname), hspec, Option.none_or]
      exact ih.2 fun k s hs => h k s (SortedMap.get?_cons_of_get? hs)

/-- The first offence in the fields of a namespace is a wrong name, or lies below a right one. -/
private theorem of_fieldsOffence? {specs : SortedMap (Specifier σ) lo} {pos : Position}
    {e : SettingsError} (h : fieldsOffence? specs pos = some e) : ∃ name s,
      specs.get? name = some s ∧
      (∀ k s, k < name → specs.get? k = some s → IsFieldName k ∧ s.offence? (pos.child k) = none) ∧
      (¬ IsFieldName name ∧ e = (Fault.fieldName name).error pos ∨
        IsFieldName name ∧ s.offence? (pos.child name) = some e) := by
  induction specs with
  | nil => cases h
  | cons name above spec rest ih =>
    -- Nothing comes before the first name.
    have hfirst : ∀ k s, k < name → (SortedMap.cons name above spec rest).get? k = some s →
        IsFieldName k ∧ s.offence? (pos.child k) = none := by
      intro k s hk hs
      rw [SortedMap.get?_cons, if_neg (SortedMap.ne_of_lt hk), SortedMap.get?_of_lt rest hk] at hs
      cases hs
    rw [fieldsOffence?] at h
    split at h
    · next hname =>
      cases hspec : spec.offence? (pos.child name) with
      | some e' =>
        rw [hspec] at h
        obtain rfl := Option.some.inj h
        exact ⟨name, spec, if_pos rfl, hfirst, .inr ⟨isFieldName_iff.1 hname, hspec⟩⟩
      | none =>
        rw [hspec, Option.none_or] at h
        obtain ⟨k, s, hs, hbefore, hk⟩ := ih h
        refine ⟨k, s, SortedMap.get?_cons_of_get? hs, fun j s' hj hs' => ?_, hk⟩
        rw [SortedMap.get?_cons] at hs'
        split at hs'
        · next e =>
          obtain rfl := Option.some.inj hs'
          rw [e]
          exact ⟨isFieldName_iff.1 hname, hspec⟩
        · exact hbefore j s' hj hs'
    · next hname =>
      obtain rfl := Option.some.inj h
      exact ⟨name, spec, if_pos rfl, hfirst,
        .inl ⟨fun h => hname (isFieldName_iff.2 h), rfl⟩⟩

theorem Specifier.offence?_eq_none {s : Specifier σ} {pos : Position} :
    s.offence? pos = none ↔ s.Valid := by
  induction s generalizing pos with
  | leaf rules => exact ⟨fun _ => .leaf, fun _ => rfl⟩
  | ns rules specs ih =>
    rw [Specifier.offence?, fieldsOffence?_eq_none]
    constructor
    · intro h
      exact .ns (fun k s hs => (h k s hs).1) fun k s hs => (ih k s hs).1 (h k s hs).2
    · rintro (- | ⟨names, fields⟩) k s hs
      exact ⟨names k s hs, (ih k s hs).2 (fields k s hs)⟩
  | record starters entry ih =>
    cases entry with
    | ns rules specs =>
      have hentry : (Specifier.record starters (.ns rules specs)).offence? pos =
          (Specifier.ns rules specs).offence? pos := by
        rw [Specifier.offence?, Specifier.offence?]
      rw [hentry, ih]
      constructor
      · exact .record
      · rintro (- | - | ⟨entry⟩)
        exact entry
    | leaf rules =>
      refine ⟨?_, ?_⟩
      · rintro ⟨⟩
      · rintro ⟨⟩
    | record starters' entry =>
      refine ⟨?_, ?_⟩
      · rintro ⟨⟩
      · rintro ⟨⟩

/-- What is found is the first offence. -/
theorem Specifier.firstOffence_of_offence? {s : Specifier σ} {pos : Position} {e : SettingsError}
    (h : s.offence? pos = some e) :
    ∃ path fault, s.FirstOffence path fault ∧ e = fault.error ⟨pos.path ++ path, none⟩ := by
  have hhere (fault : Fault) (pos : Position) :
      fault.error pos = fault.error ⟨pos.path ++ [], none⟩ := by
    rw [List.append_nil]
    cases fault <;> rfl
  induction s generalizing pos with
  | leaf rules => cases h
  | ns rules specs ih =>
    rw [Specifier.offence?] at h
    obtain ⟨name, s, hs, hbefore, hname⟩ := of_fieldsOffence? h
    have hbefore : ∀ k s, k < name → specs.get? k = some s → IsFieldName k ∧ s.Valid :=
      fun k s hk hs => ⟨(hbefore k s hk hs).1, Specifier.offence?_eq_none.1 (hbefore k s hk hs).2⟩
    rcases hname with ⟨hwrong, rfl⟩ | ⟨hright, hbelow⟩
    · exact ⟨[], .fieldName name, .name hs hbefore hwrong, hhere _ pos⟩
    · obtain ⟨path, fault, hfirst, rfl⟩ := ih name s hs hbelow
      refine ⟨name :: path, fault, .field hs hbefore hright hfirst, ?_⟩
      rw [Position.path_child, List.append_assoc]
      rfl
  | record starters entry ih =>
    cases entry with
    | ns rules specs =>
      rw [Specifier.offence?] at h
      obtain ⟨path, fault, hfirst, rfl⟩ := ih h
      exact ⟨path, fault, .inside hfirst, rfl⟩
    | leaf rules =>
      obtain rfl := Option.some.inj h
      exact ⟨[], .entryKind .leaf, .entry (by rintro ⟨⟩), hhere (.entryKind .leaf) pos⟩
    | record starters' entry =>
      obtain rfl := Option.some.inj h
      exact ⟨[], .entryKind .record, .entry (by rintro ⟨⟩), hhere (.entryKind .record) pos⟩

/-! ## Sufficiency -/

/-- No error is about the specification. -/
def Limits.sound (σ : Type) : Limits σ where
  errors e := e.kind ≠ .invalidSpecifier
  moves _ _ := True
  error _ h hkind := by
    rw [hkind] at h
    cases h
  refl _ := trivial
  trans _ _ := trivial

theorem Specifier.Valid.uses {s : Specifier σ} (h : s.Valid) :
    s.Uses (Limits.sound σ).Moved (Limits.sound σ).Heeded := by
  have hcall {ε α : Type} (r : Run ε σ α) : (Limits.sound σ).Moved r := fun _ => trivial
  induction h with
  | leaf => exact .leaf ⟨fun f _ => hcall f, fun f _ v => hcall (f v)⟩
  | ns _ _ ih =>
    exact .ns ⟨fun f _ v => hcall (f v), fun f _ => hcall f, fun f _ v pos => hcall (f v pos)⟩ ih
  | record _ ih => exact .record (fun f _ => hcall f) (fun hkind => absurd rfl hkind) ih

/-- The pipeline of a leaf has no errors about the specification. -/
theorem LeafRules.resolve_sound (rules : LeafRules σ) (options : Options σ) (v : Value)
    (pos : Position) : (Limits.sound σ).Heeded (rules.resolve options v pos) := by
  have closed := (Limits.sound σ).closed
  have hcall {ε α : Type} (r : Run ε σ α) : (Limits.sound σ).Moved r := fun _ => trivial
  have hattempt {α : Type} (r : CallM σ α) {f : String → SettingsError}
      (hf : ∀ text, (f text).kind ≠ .invalidSpecifier) : (Limits.sound σ).Heeded (r.mapError f) :=
    (hcall r).mapError hf
  have hrepair : (Limits.sound σ).Heeded (rules.repair options v pos) := by
    unfold repair
    split
    · exact closed.pure v
    · refine closed.bind (hattempt _ fun _ => by rintro ⟨⟩) fun fix => ?_
      cases fix with
      | none => exact closed.pure v
      | some fix =>
        exact closed.bind (hattempt _ fun _ => by rintro ⟨⟩) fun _ => closed.pure _
  have hcheck (w : Value) : (Limits.sound σ).Heeded (rules.check w pos) := by
    unfold check
    split
    · exact closed.pure ()
    · refine closed.bind (hattempt _ fun _ => by rintro ⟨⟩) fun violation => ?_
      cases violation with
      | none => exact closed.pure ()
      | some violation => exact Limits.heeded_fail (by rintro ⟨⟩)
  have huses : rules.Uses (Limits.sound σ).Moved := ⟨fun f _ => hcall f, fun f _ v => hcall (f v)⟩
  rw [resolve_eq]
  exact closed.bind hrepair fun w => closed.bind (hcheck w) fun _ => huses.coerce closed w pos

/-- The check finds nothing in a specification exactly if it is valid, and otherwise the first
offence. Once it has found nothing in a root namespace, no run fails for the specification: neither
does building the store, nor does any step. -/
theorem Specifier.offence?_exact (s : Specifier σ) (pos : Position) :
    (s.offence? pos = none ↔ s.Valid) ∧
    (∀ e, s.offence? pos = some e → ∃ path fault, s.FirstOffence path fault ∧
      e = fault.error ⟨pos.path ++ path, none⟩ ∧
      e.path = ".".intercalate ((pos.path ++ path).drop 1)) ∧
    ∀ n : Namespace σ, s = n.toSpecifier → n.offence? .root = none →
      ∀ (options : Options σ) (steps : List Step) (t : σ),
        (∀ e, (n.play options steps t).1 = .error e → e.kind ≠ .invalidSpecifier) ∧
        ∀ visits, (n.play options steps t).1 = .ok visits →
          ∀ visit ∈ visits, ∀ e, visit.2 = some e → e.kind ≠ .invalidSpecifier := by
  refine ⟨Specifier.offence?_eq_none, fun e he => ?_, ?_⟩
  · obtain ⟨path, fault, hfirst, rfl⟩ := Specifier.firstOffence_of_offence? he
    exact ⟨path, fault, hfirst, rfl, fault.path_error _⟩
  · rintro n rfl hn options steps t
    have hvalid : n.toSpecifier.Valid := Specifier.offence?_eq_none.1 hn
    have hoffence : ∀ e, n.offence? .root = some e → (Limits.sound σ).errors e := by
      intro e he
      rw [hn] at he
      cases he
    obtain ⟨hrun, hvisits⟩ := Namespace.play_heeded
      (fun rules v pos => rules.resolve_sound options v pos) hvalid.uses hoffence steps
    exact ⟨(hrun t).2, fun visits h => hvisits visits ⟨t, _, Prod.ext h rfl⟩⟩

/-- A namespace with a record of leaves inside the entries of a record, and after that a dotted
name. -/
def Hosts.faulty : Namespace Unit :=
  ⟨⟨none, none, none⟩, .ofList [
    ("a", .record none (.ns ⟨none, none, none⟩ (.ofList [("b", .record none (.leaf port))]))),
    ("c.d", .leaf port)]⟩

/-- The record of leaves is found first, and a run over a valid specification fails for its input
alone. -/
theorem Specifier.offence?_exact_hosts :
    (∃ path fault, Hosts.faulty.toSpecifier.FirstOffence path fault ∧
      fault.error ⟨rootSegment :: path, none⟩ = .recordEntry "a.b" .leaf) ∧
    Hosts.root.toSpecifier.Valid ∧
    ∃ e, (Hosts.root.play Hosts.quiet [.change (.str "x")] ()).1 =
        .ok [(Hosts.built, none), (Hosts.built, some e)] ∧ e.kind ≠ .invalidSpecifier := by
  obtain ⟨-, hfound, -⟩ := Specifier.offence?_exact Hosts.faulty.toSpecifier .root
  obtain ⟨path, fault, hfirst, herror, -⟩ := hfound (.recordEntry "a.b" .leaf) rfl
  obtain ⟨hvalid, -, hruns⟩ := Specifier.offence?_exact Hosts.root.toSpecifier .root
  obtain ⟨-, hvisits⟩ := hruns Hosts.root rfl rfl Hosts.quiet [.change (.str "x")] ()
  refine ⟨⟨path, fault, hfirst, herror.symm⟩, hvalid.1 rfl, _, rfl, ?_⟩
  exact hvisits _ rfl _ (.tail _ (.head _)) _ rfl

end Settings
