import Settings.Candidate
import Settings.Commit
import Settings.Layer.Merge
import Settings.Spec.Validity

/-!
# The settings store

A `Store` is a specification together with the live data and metadata made from it. A step changes
it as a whole or, if it fails, not at all.
-/

set_option autoImplicit false

namespace Settings

variable {σ : Type}

/-- A specification with live data and metadata. -/
structure Store (σ : Type) where
  spec : Namespace σ
  options : Options σ
  level : Level

namespace Store

/-- Builds a store from declared defaults. In development mode the specification is checked
first. -/
def create (spec : Namespace σ) (options : Options σ) : Attempt σ (Store σ) := do
  if options.mode = .development then
    match spec.offence? .root with
    | some offence => Run.fail offence
    | none => pure ()
  let level ← spec.defaults .root false
  pure ⟨spec, options, level⟩

def data (store : Store σ) : Fields Value := store.level.data

def metadata (store : Store σ) : Metadata := .ns store.level.nodes

/-- The edit that applies an input: it is resolved, and the candidate committed as a change. -/
def applyInput (spec : Namespace σ) (options : Options σ) (input : Value) : Edit σ Level Unit := do
  let candidate ← spec.resolve options input .root
  spec.commit .change candidate .root false

/-- The store after an input has been applied. -/
def change (store : Store σ) (input : Value) : Attempt σ (Store σ) := fun s =>
  match applyInput store.spec store.options input (store.level, s) with
  | (.ok (), (level, s)) => (.ok { store with level }, s)
  | (.error e, (_, s)) => (.error e, s)

/-- The store after several layers of input have been applied as one change. -/
def changeLayers (store : Store σ) (layers : List Value) : Attempt σ (Store σ) :=
  store.change (Layer.mergeAll layers)

def reset (store : Store σ) : Attempt σ (Store σ) := do
  let level ← store.spec.defaults .root false
  pure { store with level }

def initialData (store : Store σ) : Fields Value := Metadata.initialOver store.level.nodes ∅

end Store

/-- What can be done to a store. -/
inductive Step
  | change (input : Value)
  | layers (layers : List Value)
  | reset

def Step.attempt (step : Step) (store : Store σ) : Attempt σ (Store σ) :=
  match step with
  | change input => store.change input
  | layers inputs => store.changeLayers inputs
  | reset => store.reset

/-- Takes a step. A step that fails leaves the store as it was; the error is given back. -/
def Store.step (store : Store σ) (step : Step) (s : σ) : Store σ × Option SettingsError × σ :=
  match step.attempt store s with
  | (.ok store, s) => (store, none, s)
  | (.error e, s) => (store, some e, s)

end Settings
