import Settings.Metadata.OfData
import Settings.Spec.Calls

/-!
# Data and metadata from declared defaults

`Specifier.defaults` builds the first data and metadata of a node. A namespace starts from its
seed and lays its fields over it in order of their names; its mapper comes last. A record starts
from its starters: each is laid over the canonical entry, which is what the fields of an entry are
initialized to when the starter says nothing about them.
-/

set_option autoImplicit false

namespace Settings

variable {σ : Type}

/-- What a specifier is initialized to. A leaf without initial value has no data. -/
structure Initialized where
  data : Option Value
  node : Metadata

namespace Initialized

/-- A namespace with its data and metadata. -/
def ofNamespace (level : Level) : Initialized := ⟨some (.obj level.data), .ns level.nodes⟩

/-- A record with its entries' data and metadata. -/
def ofRecord (level : Level) : Initialized := ⟨some (.obj level.data), .freshRecord level.nodes⟩

end Initialized

namespace Level

/-- A namespace's own data with the metadata it has before its fields are initialized. -/
def ofSeed (specs : Fields (Specifier σ)) (data : Fields Value) : Level :=
  ⟨data, Metadata.ofFields specs data⟩

/-- Lays an initialized field over the level. Data replaces what the seed had at the name; without
data the seed's stays and only metadata is merged. -/
def overlay (level : Level) (name : String) (field : Initialized) : Level :=
  match field.data with
  | some v => level.set name v field.node
  | none => ⟨level.data, Metadata.mergeField level.nodes name field.node⟩

/-- Adds an initialized field to a canonical entry. -/
def add (level : Level) (name : String) (field : Initialized) : Level :=
  ⟨match field.data with
    | some v => level.data.insert name v
    | none => level.data, level.nodes.insert name field.node⟩

/-- The level of the namespace at a name. Data or metadata of another kind count as an empty one,
each for itself. -/
def namespaceAt (level : Level) (name : String) : Level :=
  ⟨objectAt level.data name,
    (match level.nodes.get? name with
      | some (.ns nodes) => nodes
      | _ => ∅)⟩

end Level

/-- Initializes a leaf: its initial value in its data representation. -/
def LeafRules.defaults (rules : LeafRules σ) (pos : Position) : Attempt σ Initialized := do
  let v ← match ← rules.runInitial pos with
    | some v => some <$> rules.coerce v pos
    | none => pure none
  pure ⟨v, .leaf { LeafNode.fresh v .initial with isShadow := rules.shadow }⟩

/-- Initializes a namespace, its fields with a given run: seed, fields, mapper. -/
def NamespaceRules.defaultsWith (rules : NamespaceRules σ) (specs : Fields (Specifier σ))
    (fields : Level → Attempt σ Level) (pos : Position) (isEntry : Bool) : Attempt σ Level := do
  let data ← runSeed rules.seed pos
  let level ← fields (.ofSeed specs data)
  level.withMapper rules pos isEntry

/-- Lays a given value over a namespace's level, its fields with a given run: the value's longhand,
then the mapper. -/
def NamespaceRules.reconcileWith (rules : NamespaceRules σ)
    (fields : Fields Value → Level → Attempt σ Level) (given : Value) (pos : Position)
    (isEntry : Bool) (level : Level) : Attempt σ Level := do
  let given ← rules.longhand given pos
  let level ← fields given level
  level.withMapper rules pos isEntry

/-- Makes an entry of every starter, in order of the names. -/
def stitchEntries (entry : String → Value → Attempt σ Level) {lo : Option String} :
    SortedMap Value lo → Level → Attempt σ Level
  | .nil, level => pure level
  | .cons name _ starter rest, level => do
    let inner ← entry name starter
    stitchEntries entry rest (level.put name .ns inner)

mutual

/-- The data and metadata of a node before any change. -/
def Specifier.defaults : Specifier σ → Position → (isEntry : Bool) → Attempt σ Initialized
  | .leaf rules, pos, _ => rules.defaults pos
  | .ns rules specs, pos, isEntry =>
    Initialized.ofNamespace <$>
      rules.defaultsWith specs (fun level => defaultFields specs pos level) pos isEntry
  | .record starters entry, pos, _ => do
    let starters ← runSeed starters pos
    Initialized.ofRecord <$> entry.stitch starters pos
termination_by structural s => s

/-- Initializes the fields of a namespace over what its seed gave. -/
def defaultFields {lo : Option String} :
    SortedMap (Specifier σ) lo → Position → Level → Attempt σ Level
  | .nil, _, level => pure level
  | .cons name _ spec rest, pos, level => do
    let field ← spec.defaults (pos.child name) false
    defaultFields rest pos (level.overlay name field)
termination_by structural specs => specs

/-- The fields that an entry has when nothing is given for them. Shadow leaves are left out, and
neither the seed nor the mapper of the entry takes part. -/
def canonicalFields {lo : Option String} :
    SortedMap (Specifier σ) lo → Position → Level → Attempt σ Level
  | .nil, _, level => pure level
  | .cons name _ spec rest, pos, level =>
    if spec.isShadow then canonicalFields rest pos level
    else do
      let field ← spec.defaults (pos.child name) false
      canonicalFields rest pos (level.add name field)
termination_by structural specs => specs

/-- Makes the entries of a record, of which this is the entry specifier, from its starters. Without
starters nothing is asked of the specifier. -/
def Specifier.stitch : Specifier σ → Fields Value → Position → Attempt σ Level
  | .ns rules specs, starters, pos =>
    if starters.isEmpty then pure ∅
    else do
      let canonical ← canonicalFields specs (pos.child "*") ∅
      stitchEntries (fun name starter =>
        rules.reconcileWith (fun given level => reconcileFields specs given (pos.child name) level)
          starter (pos.child name) true canonical) starters ∅
  | .leaf _, starters, pos =>
    if starters.isEmpty then pure ∅ else Run.fail (.recordEntry pos.render .leaf)
  | .record _ _, starters, pos =>
    if starters.isEmpty then pure ∅ else Run.fail (.recordEntry pos.render .record)
termination_by structural s => s

/-- Lays the given fields over a namespace's level. What is not given, or given as `null`, stays;
shadow leaves cannot be given. -/
def reconcileFields {lo : Option String} :
    SortedMap (Specifier σ) lo → (given : Fields Value) → Position → Level → Attempt σ Level
  | .nil, _, _, level => pure level
  | .cons name _ spec rest, given, pos, level => do
    let level ← match given.get? name with
      | none | some .null => pure level
      | some v => if spec.isShadow then pure level else spec.reconcile name v (pos.child name) level
    reconcileFields rest given pos level
termination_by structural specs => specs

/-- Lays a given value over the field of a level. It becomes the initial value of a leaf; in a
namespace it is laid over what is there; a record is made from it alone. -/
def Specifier.reconcile : Specifier σ → (name : String) → (given : Value) → Position → Level →
    Attempt σ Level
  | .leaf _, name, given, _, level =>
    pure (level.set name given (.leaf (.fresh (some given) .initial)))
  | .ns rules specs, name, given, pos, level => do
    let inner ← rules.reconcileWith (fun given level => reconcileFields specs given pos level)
      given pos false (level.namespaceAt name)
    pure (level.put name .ns inner)
  | .record _ entry, name, given, pos, level =>
    match given with
    | .obj starters => do
      let inner ← entry.stitch starters pos
      pure (level.set name (.obj inner.data) (.freshRecord inner.nodes))
    | _ => Run.fail (.recordInput pos.render given)
termination_by structural s => s

end

/-- The data and metadata of a namespace before any change. -/
def Namespace.defaults (n : Namespace σ) (pos : Position) (isEntry : Bool) : Attempt σ Level :=
  n.rules.defaultsWith n.fields (fun level => defaultFields n.fields pos level) pos isEntry

end Settings
