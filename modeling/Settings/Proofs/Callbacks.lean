import Settings.Proofs.Outcome
import Settings.Spec.Calls

/-!
# Conditions on the callbacks of a specification

`Specifier.Everywhere` states a condition for every node of a specification. Two instances are used
throughout: a specification without mappers, and one whose callbacks are determined, which means
that what they return depends on their arguments alone.
-/

set_option autoImplicit false

namespace Settings

variable {σ : Type}

/-- Every node of the specification meets the condition for its kind. -/
inductive Specifier.Everywhere (onLeaf : LeafRules σ → Prop)
    (onNs : NamespaceRules σ → Fields (Specifier σ) → Prop)
    (onRecord : Option (CallM σ Value) → Prop) : Specifier σ → Prop
  | leaf {rules : LeafRules σ} (here : onLeaf rules) : Everywhere onLeaf onNs onRecord (.leaf rules)
  | ns {rules : NamespaceRules σ} {specs : Fields (Specifier σ)} (here : onNs rules specs)
      (fields : ∀ k s, specs.get? k = some s → Everywhere onLeaf onNs onRecord s) :
      Everywhere onLeaf onNs onRecord (.ns rules specs)
  | record {starters : Option (CallM σ Value)} {entry : Specifier σ} (here : onRecord starters)
      (inside : Everywhere onLeaf onNs onRecord entry) :
      Everywhere onLeaf onNs onRecord (.record starters entry)

section Everywhere

variable {onLeaf : LeafRules σ → Prop} {onNs : NamespaceRules σ → Fields (Specifier σ) → Prop}
  {onRecord : Option (CallM σ Value) → Prop}

@[simp] theorem Specifier.everywhere_leaf {rules : LeafRules σ} :
    (Specifier.leaf rules).Everywhere onLeaf onNs onRecord ↔ onLeaf rules :=
  ⟨fun h => (by cases h; assumption), .leaf⟩

@[simp] theorem Specifier.everywhere_ns {rules : NamespaceRules σ} {specs : Fields (Specifier σ)} :
    (Specifier.ns rules specs).Everywhere onLeaf onNs onRecord ↔
      onNs rules specs ∧ ∀ k s, specs.get? k = some s → s.Everywhere onLeaf onNs onRecord :=
  ⟨fun h => (by cases h; exact ⟨‹_›, ‹_›⟩), fun h => .ns h.1 h.2⟩

@[simp] theorem Specifier.everywhere_record {starters : Option (CallM σ Value)}
    {entry : Specifier σ} :
    (Specifier.record starters entry).Everywhere onLeaf onNs onRecord ↔
      onRecord starters ∧ entry.Everywhere onLeaf onNs onRecord :=
  ⟨fun h => (by cases h; exact ⟨‹_›, ‹_›⟩), fun h => .record h.1 h.2⟩

theorem Specifier.Everywhere.imp {onLeaf' : LeafRules σ → Prop}
    {onNs' : NamespaceRules σ → Fields (Specifier σ) → Prop}
    {onRecord' : Option (CallM σ Value) → Prop} {s : Specifier σ}
    (h : s.Everywhere onLeaf onNs onRecord) (leaf : ∀ rules, onLeaf rules → onLeaf' rules)
    (ns : ∀ rules specs, onNs rules specs → onNs' rules specs)
    (record : ∀ starters, onRecord starters → onRecord' starters) :
    s.Everywhere onLeaf' onNs' onRecord' := by
  induction h with
  | leaf here => exact .leaf (leaf _ here)
  | ns here _ ih => exact .ns (ns _ _ here) ih
  | record here _ ih => exact .record (record _ here) ih

end Everywhere

/-- A condition on the specifier of a position, where there is one. -/
theorem Specifier.forall_of_some {P : Specifier σ → Prop} {s : Specifier σ} (h : P s) :
    ∀ s', some s = some s' → P s' := by
  rintro s' ⟨⟩
  exact h

/-- No namespace of the specification has a mapper. -/
def Specifier.WithoutMappers : Specifier σ → Prop :=
  Specifier.Everywhere (fun _ => True) (fun rules _ => rules.mapper = none) fun _ => True

/-- What the callbacks of a leaf return depends on their arguments alone. -/
structure LeafRules.Determined (rules : LeafRules σ) : Prop where
  initial : ∀ f, rules.initial = some f → f.Determined
  validate : ∀ f, rules.validate = some f → ∀ v, (f v).Determined
  fixup : ∀ f, rules.fixup = some f → ∀ v, (f v).Determined
  mapType : ∀ f, rules.mapType = some f → ∀ v, (f v).Determined

/-- What the callbacks of a namespace return depends on their arguments alone. -/
structure NamespaceRules.Determined (rules : NamespaceRules σ) : Prop where
  shorthand : ∀ f, rules.shorthand = some f → ∀ v, (f v).Determined
  seed : ∀ f, rules.seed = some f → f.Determined
  mapper : ∀ f, rules.mapper = some f → ∀ v pos, (f v pos).Determined

/-- What the callbacks of a specification return depends on their arguments alone. -/
def Specifier.Determined : Specifier σ → Prop :=
  Specifier.Everywhere LeafRules.Determined (fun rules _ => rules.Determined)
    fun starters => ∀ f, starters = some f → f.Determined

theorem Specifier.determined_of_subsingleton [Subsingleton σ] (s : Specifier σ) :
    s.Determined := by
  -- The host has one state, so it has no say in any call.
  have hrun {ε α : Type} (r : Run ε σ α) : r.Determined := Run.determined_of_subsingleton r
  induction s with
  | leaf rules => exact .leaf ⟨fun f _ => hrun f, fun f _ v => hrun (f v),
      fun f _ v => hrun (f v), fun f _ v => hrun (f v)⟩
  | ns rules specs ih => exact .ns ⟨fun f _ v => hrun (f v), fun f _ => hrun f,
      fun f _ v pos => hrun (f v pos)⟩ ih
  | record starters entry ih => exact .record (fun f _ => hrun f) ih

/-! ## Attempts made of calls -/

/-- The kinds of error that the pipeline of a leaf ends with: from its repair, from the notice of a
repair, and from its check. -/
def ErrorKind.isPipeline : ErrorKind → Bool
  | fixup | onFixup | validationRun | validation => true
  | _ => false

/-- The kinds of error that are neither about the specification nor from the pipeline of a leaf. -/
def ErrorKind.isPlain : ErrorKind → Bool
  | invalidSpecifier => false
  | kind => !kind.isPipeline

/-- A class of callbacks' runs and one of attempts: an attempt belongs to its class if it is put
together from calls that belong to theirs, and fails with plain errors. -/
structure Run.Closed (calls : {α : Type} → CallM σ α → Prop)
    (attempts : {α : Type} → Attempt σ α → Prop) : Prop where
  pure : ∀ {α : Type} (a : α), attempts (pure a)
  fail : ∀ {α : Type} {e : SettingsError}, e.kind.isPlain → attempts (Run.fail e : Attempt σ α)
  call : ∀ {α : Type} {r : CallM σ α} {f : String → SettingsError}, calls r →
    (∀ text, (f text).kind.isPlain) → attempts (r.mapError f)
  bind : ∀ {α β : Type} {r : Attempt σ α} {f : α → Attempt σ β}, attempts r →
    (∀ a, attempts (f a)) → attempts (r >>= f)

/-- The callbacks of a leaf that initialization calls belong to a class. -/
structure LeafRules.Uses (calls : {α : Type} → CallM σ α → Prop) (rules : LeafRules σ) : Prop where
  initial : ∀ f, rules.initial = some f → calls f
  mapType : ∀ f, rules.mapType = some f → ∀ v, calls (f v)

/-- The callbacks of a namespace belong to a class. -/
structure NamespaceRules.Uses (calls : {α : Type} → CallM σ α → Prop) (rules : NamespaceRules σ) :
    Prop where
  shorthand : ∀ f, rules.shorthand = some f → ∀ v, calls (f v)
  seed : ∀ f, rules.seed = some f → calls f
  mapper : ∀ f, rules.mapper = some f → ∀ v pos, calls (f v pos)

/-- The callbacks that take part in initialization and in committing belong to a class. So does the
failure about the entries of a record, where they are no namespace. -/
inductive Specifier.Uses (calls : {α : Type} → CallM σ α → Prop)
    (attempts : {α : Type} → Attempt σ α → Prop) : Specifier σ → Prop
  | leaf {rules : LeafRules σ} (here : rules.Uses @calls) : Uses @calls @attempts (.leaf rules)
  | ns {rules : NamespaceRules σ} {specs : Fields (Specifier σ)} (here : rules.Uses @calls)
      (fields : ∀ k s, specs.get? k = some s → Uses @calls @attempts s) :
      Uses @calls @attempts (.ns rules specs)
  | record {starters : Option (CallM σ Value)} {entry : Specifier σ}
      (here : ∀ f, starters = some f → calls f)
      (kind : entry.kind ≠ .ns → ∀ {α : Type} path,
        attempts (Run.fail (.recordEntry path entry.kind) : Attempt σ α))
      (inside : Uses @calls @attempts entry) : Uses @calls @attempts (.record starters entry)

section Closed

variable {calls : {α : Type} → CallM σ α → Prop} {attempts : {α : Type} → Attempt σ α → Prop}
  (closed : Run.Closed calls attempts)
include closed

theorem Run.Closed.map {α β : Type} {r : Attempt σ α} (h : attempts r) (f : α → β) :
    attempts (f <$> r) := by
  rw [map_eq_pure_bind]
  exact closed.bind h fun a => closed.pure (f a)

theorem Run.Closed.ofOption {α : Type} {e : SettingsError} (h : e.kind.isPlain)
    (o : Option α) : attempts (Run.ofOption e o) := by
  cases o with
  | none => exact closed.fail h
  | some a => exact closed.pure a

theorem Run.Closed.runSeed {seed : Option (CallM σ Value)} (h : ∀ f, seed = some f → calls f)
    (pos : Position) : attempts (runSeed seed pos) := by
  unfold Settings.runSeed
  split
  · exact closed.pure _
  · next f =>
    exact closed.bind (closed.call (h f rfl) fun _ => rfl) fun v =>
      closed.ofOption rfl _

theorem LeafRules.Uses.runInitial {rules : LeafRules σ} (h : rules.Uses calls) (pos : Position) :
    attempts (rules.runInitial pos) := by
  unfold LeafRules.runInitial
  split
  · exact closed.pure _
  · next f hf =>
    exact closed.bind (closed.call (h.initial f hf) fun _ => rfl) fun v =>
      closed.pure (some v)

theorem LeafRules.Uses.coerce {rules : LeafRules σ} (h : rules.Uses calls) (v : Value)
    (pos : Position) : attempts (rules.coerce v pos) := by
  unfold LeafRules.coerce
  split
  · exact closed.pure v
  · next f hf => exact closed.call (h.mapType f hf v) fun _ => rfl

theorem NamespaceRules.Uses.longhand {rules : NamespaceRules σ} (h : rules.Uses calls)
    (input : Value) (pos : Position) : attempts (rules.longhand input pos) := by
  unfold NamespaceRules.longhand
  split
  · exact closed.pure _
  · split
    · exact closed.fail rfl
    · next f hf =>
      exact closed.bind (closed.call (h.shorthand f hf input) fun _ => rfl) fun v =>
        closed.ofOption rfl _

theorem NamespaceRules.Uses.runMapper {rules : NamespaceRules σ} (h : rules.Uses calls)
    (data : Fields Value) (pos : Position) (isEntry : Bool) :
    attempts (rules.runMapper data pos isEntry) := by
  unfold NamespaceRules.runMapper
  split
  · exact closed.pure _
  · next f hf =>
    exact closed.bind (closed.call (h.mapper f hf _ _) fun _ => rfl) fun v =>
      closed.ofOption rfl _

theorem NamespaceRules.Uses.withMapper {rules : NamespaceRules σ} (h : rules.Uses calls)
    (pos : Position) (isEntry : Bool) (level : Level) :
    attempts (level.withMapper rules pos isEntry) :=
  closed.bind (h.runMapper closed level.data pos isEntry) fun _ => closed.pure _

end Closed

/-- Attempts in which the host has no say are made of such calls. -/
theorem Run.determined_closed :
    Run.Closed (σ := σ) (fun r => r.Determined) (fun r => r.Determined) where
  pure := Run.determined_pure
  fail _ := Run.determined_fail _
  call h _ := h.mapError _
  bind := Run.Determined.bind

theorem LeafRules.Determined.uses {rules : LeafRules σ} (h : rules.Determined) :
    rules.Uses fun r => r.Determined := ⟨h.initial, h.mapType⟩

theorem NamespaceRules.Determined.uses {rules : NamespaceRules σ} (h : rules.Determined) :
    rules.Uses fun r => r.Determined := ⟨h.shorthand, h.seed, h.mapper⟩

theorem Specifier.Determined.uses {s : Specifier σ} (h : s.Determined) :
    s.Uses (fun r => r.Determined) (fun r => r.Determined) := by
  induction h with
  | leaf here => exact .leaf here.uses
  | ns here _ ih => exact .ns here.uses ih
  | record here _ ih => exact .record here (fun _ _ _ => Run.determined_fail _) ih

theorem LeafRules.Determined.coerce {rules : LeafRules σ} (h : rules.Determined) (v : Value)
    (pos : Position) : (rules.coerce v pos).Determined :=
  h.uses.coerce Run.determined_closed v pos

theorem NamespaceRules.Determined.longhand {rules : NamespaceRules σ} (h : rules.Determined)
    (input : Value) (pos : Position) : (rules.longhand input pos).Determined :=
  h.uses.longhand Run.determined_closed input pos

theorem NamespaceRules.Determined.runMapper {rules : NamespaceRules σ} (h : rules.Determined)
    (data : Fields Value) (pos : Position) (isEntry : Bool) :
    (rules.runMapper data pos isEntry).Determined :=
  h.uses.runMapper Run.determined_closed data pos isEntry

/-! ## What calls give -/

/-- Without a mapper nothing is assigned. -/
theorem NamespaceRules.mapped_eq_empty {rules : NamespaceRules σ} (h : rules.mapper = none)
    {data mapped : Fields Value} {pos : Position} {isEntry : Bool}
    (hm : (rules.runMapper data pos isEntry).Yields mapped) : mapped = ∅ := by
  unfold NamespaceRules.runMapper at hm
  rw [h] at hm
  exact hm.of_pure

/-- A mapper touches data alone. -/
theorem Level.withMapper_yields {rules : NamespaceRules σ} {pos : Position} {isEntry : Bool}
    {level level' : Level} (h : (level.withMapper rules pos isEntry).Yields level') :
    ∃ mapped, (rules.runMapper level.data pos isEntry).Yields mapped ∧
      level' = ⟨level.data.assign mapped, level.nodes⟩ := by
  obtain ⟨mapped, hm, h⟩ := h.of_bind
  exact ⟨mapped, hm, h.of_pure⟩

end Settings
