import Settings.Level

/-!
# Calling callbacks

Every callback is called at one place, which turns its failure into an error of the setting it was
called for. Seeds, mappers and shorthands have to return objects; for seeds and mappers `null` is an
empty one.
-/

set_option autoImplicit false

namespace Settings

variable {σ : Type}

/-- The object that a callback returned, `null` standing for an empty one. -/
def objectOrNull? : Value → Option (Fields Value)
  | .obj fields => some fields
  | .null => some ∅
  | _ => none

/-- Runs the seed of a namespace or the starters of a record; without one there is nothing. -/
def runSeed (seed : Option (CallM σ Value)) (pos : Position) : Attempt σ (Fields Value) :=
  match seed with
  | none => pure ∅
  | some seed => do
    let v ← seed.mapError fun text => .initializer pos.render (.failed text)
    Run.ofOption (.initializer pos.render (.notObject .initializer v)) (objectOrNull? v)

namespace LeafRules

/-- Runs the initializer, if there is one. -/
def runInitial (rules : LeafRules σ) (pos : Position) : Attempt σ (Option Value) :=
  match rules.initial with
  | none => pure none
  | some initial => do
    let v ← initial.mapError fun text => .initializer pos.render (.failed text)
    pure (some v)

/-- Maps a resolved value to its data representation. -/
def coerce (rules : LeafRules σ) (v : Value) (pos : Position) : Attempt σ Value :=
  match rules.mapType with
  | none => pure v
  | some mapType => (mapType v).mapError fun text => .typeMapper pos.render (.failed text)

end LeafRules

namespace NamespaceRules

/-- Runs the mapper over the data of a namespace and gives the keys to assign. A record entry sees
its name as the key of its position. -/
def runMapper (rules : NamespaceRules σ) (data : Fields Value) (pos : Position) (isEntry : Bool) :
    Attempt σ (Fields Value) :=
  match rules.mapper with
  | none => pure ∅
  | some mapper => do
    let input := Value.obj data
    let context := if isEntry then pos.asEntry else pos
    let v ← (mapper input context).mapError fun text => .mapper pos.render input (.failed text)
    Run.ofOption (.mapper pos.render input (.notObject .mapper v)) (objectOrNull? v)

/-- The object that an input stands for: itself, or the expansion of the shorthand. -/
def longhand (rules : NamespaceRules σ) (input : Value) (pos : Position) :
    Attempt σ (Fields Value) :=
  match input with
  | .obj fields => pure fields
  | _ =>
    match rules.shorthand with
    | none => Run.fail (.missingShorthand pos.render input)
    | some shorthand => do
      let v ← (shorthand input).mapError fun text => .shorthand pos.render input (.failed text)
      Run.ofOption (.shorthand pos.render input (.notObject .shorthand v)) v.fields?

end NamespaceRules

/-- Runs the mapper over the data of a level and assigns its keys. -/
def Level.withMapper (rules : NamespaceRules σ) (pos : Position) (isEntry : Bool) (level : Level) :
    Attempt σ Level := do
  let mapped ← rules.runMapper level.data pos isEntry
  pure { level with data := level.data.assign mapped }

end Settings
