import Settings.Defaults
import Settings.Fixup

/-!
# Resolving an input

Resolving turns a partial input into a candidate: the same keys, shorthands expanded, leaf values
repaired, checked and mapped to their data representation. Only the keys of the input are visited,
in order. The level is read to find out which record entries exist, and written only to add those
that the input introduces.
-/

set_option autoImplicit false

namespace Settings

variable {σ : Type}

/-- Resolves a leaf's value: repair, then check, then data representation. -/
def LeafRules.resolve (rules : LeafRules σ) (options : Options σ) (input : Value) (pos : Position) :
    Attempt σ Value := do
  let v ← match rules.fixup with
    | none => pure input
    | some fixup => do
      let fix ← (fixup input).mapError fun text => .fixup pos.render input (.failed text)
      match fix with
      | none => pure input
      | some fix => do
        options.report ⟨pos.render, input, fix.value, fix.messages⟩
        pure fix.value
  match rules.validate with
  | none => pure ()
  | some validate => do
    let violation ← (validate v).mapError fun text => .validationRun pos.render v (.failed text)
    match violation with
    | none => pure ()
    | some violation => Run.fail (.validation pos.render v violation.reasons)
  rules.coerce v pos

/-- Resolves the fields of an input one after the other, each with a given edit, and collects the
results. -/
def resolveEach {τ : Type} (field : String → Value → Edit σ τ Value) {lo : Option String} :
    SortedMap Value lo → (candidate : Fields Value) → Edit σ τ (Fields Value)
  | .nil, candidate => pure candidate
  | .cons name _ v rest, candidate => do
    let resolved ← field name v
    resolveEach field rest (candidate.insert name resolved)

/-- Resolves the input of a namespace, its fields with a given edit: an input that is no object is
expanded first. -/
def NamespaceRules.resolveWith (rules : NamespaceRules σ)
    (field : String → Value → Edit σ Level Value) (input : Value) (pos : Position) :
    Edit σ Level (Fields Value) := do
  let input ← (rules.longhand input pos).beside
  resolveEach field input ∅

/-- Makes sure that a record has an entry: one whose data is missing or `null` is initialized. -/
def Namespace.ensureEntry (entry : Namespace σ) (name : String) (pos : Position) :
    Edit σ Level Unit := do
  let (level, _) ← Run.state
  match level.data.get? name with
  | none | some .null => do
    let inner ← (entry.defaults pos true).beside
    Run.update fun (level, s) => (level.put name .ns inner, s)
  | some _ => pure ()

/-- Why a record whose entries are no namespace takes no input: the input is looked at first. -/
def wrongEntries (pos : Position) (input : Value) (kind : Kind) : SettingsError :=
  if input.isObject then .recordEntry pos.render kind else .recordInput pos.render input

mutual

/-- Resolves the value of the field at a name of the level. -/
def Specifier.resolve : Specifier σ → Options σ → Position → (name : String) → (input : Value) →
    Edit σ Level Value
  | .leaf rules, options, pos, _, input => (rules.resolve options input pos).beside
  | .ns rules specs, options, pos, name, input =>
    Value.obj <$> Level.within .ns name
      (rules.resolveWith (fun name v => resolveField specs options pos name v) input pos)
  | .record _ entry, options, pos, name, input =>
    Value.obj <$> Level.within .record name (entry.resolveEntries options pos input)
termination_by structural s => s

/-- Resolves the value of one field of a namespace. A name that is not declared passes its value
through. -/
def resolveField {lo : Option String} :
    SortedMap (Specifier σ) lo → Options σ → Position → (name : String) → (input : Value) →
    Edit σ Level Value
  | .nil, _, _, _, input => pure input
  | .cons declared _ spec rest, options, pos, name, input =>
    if name = declared then spec.resolve options (pos.child name) name input
    else resolveField rest options pos name input
termination_by structural specs => specs

/-- Resolves the entries of a record, of which this is the entry specifier. -/
def Specifier.resolveEntries : Specifier σ → Options σ → Position → (input : Value) →
    Edit σ Level (Fields Value)
  | .ns rules specs, options, pos, input =>
    match input with
    | .obj entries =>
      resolveEach (fun name v => do
        (Namespace.mk rules specs).ensureEntry name (pos.child name)
        Value.obj <$> Level.within .ns name
          (rules.resolveWith
            (fun field v => resolveField specs options (pos.child name) field v)
            v (pos.child name))) entries ∅
    | _ => Run.fail (.recordInput pos.render input)
  | .leaf _, _, pos, input => Run.fail (wrongEntries pos input .leaf)
  | .record _ _, _, pos, input => Run.fail (wrongEntries pos input .record)
termination_by structural s => s

end

/-- What resolving a field does depends on the specifier at its name, or on there being none. -/
theorem resolveField_eq {lo : Option String} (specs : SortedMap (Specifier σ) lo)
    (options : Options σ) (pos : Position) (name : String) (input : Value) :
    resolveField specs options pos name input =
      match specs.get? name with
      | some spec => spec.resolve options (pos.child name) name input
      | none => pure input := by
  induction specs with
  | nil => rfl
  | cons k above spec rest ih =>
    rw [resolveField, SortedMap.get?_cons]
    split
    · rfl
    · exact ih

/-- Resolves an input object against the fields of a namespace. -/
def Namespace.resolveFields (n : Namespace σ) (options : Options σ) (input : Fields Value)
    (pos : Position) : Edit σ Level (Fields Value) :=
  resolveEach (fun name v => resolveField n.fields options pos name v) input ∅

def Namespace.resolve (n : Namespace σ) (options : Options σ) (input : Value) (pos : Position) :
    Edit σ Level (Fields Value) :=
  n.rules.resolveWith (fun name v => resolveField n.fields options pos name v) input pos

end Settings
