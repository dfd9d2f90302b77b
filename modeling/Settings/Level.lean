import Settings.Error
import Settings.Metadata.Basic

/-!
# Levels of a settings tree

A `Level` is the data and the metadata of one container: of a namespace's fields or of a record's
entries. `Level.within` takes an edit one level deeper, and `Cell` is a single key with its
metadata, the place that a commit writes to.
-/

set_option autoImplicit false

namespace Settings

/-- An attempt at something over the state of the host. -/
abbrev Attempt (σ : Type) : Type → Type := Run SettingsError σ

/-- An attempt that edits a state `τ`; what was edited before an error stays edited. -/
abbrev Edit (σ τ : Type) : Type → Type := Run SettingsError (τ × σ)

/-- The data and the metadata of one container. -/
structure Level where
  data : Fields Value
  nodes : Fields Metadata

/-- The two kinds of node that hold further nodes. -/
inductive ContainerKind
  | ns
  | record
  deriving DecidableEq, Repr

/-- What metadata of a container says besides the nodes inside. -/
inductive Container
  | ns
  | record (provenance : Provenance) (initial : Fields Metadata)

namespace Container

/-- The metadata of a container around given nodes. -/
def node : Container → Fields Metadata → Metadata
  | ns, nodes => .ns nodes
  | record provenance initial, nodes => .record provenance nodes initial

/-- A container of which nothing is known. -/
def fresh : ContainerKind → Container
  | .ns => ns
  | .record => record .initial ∅

end Container

namespace Metadata

/-- The container and its nodes, if the metadata is of that kind. -/
def open? : ContainerKind → Metadata → Option (Container × Fields Metadata)
  | .ns, ns nodes => some (.ns, nodes)
  | .record, record provenance value initial => some (.record provenance initial, value)
  | _, _ => none

/-- The container and its nodes, or a fresh one if the metadata is of another kind. -/
def opened (kind : ContainerKind) (m : Metadata) : Container × Fields Metadata :=
  (m.open? kind).getD (.fresh kind, ∅)

end Metadata

/-- The object at a key, or an empty one if there is none. -/
def objectAt (data : Fields Value) (key : String) : Fields Value :=
  ((data.get? key).bind Value.fields?).getD ∅

namespace Level

instance : EmptyCollection Level := ⟨⟨∅, ∅⟩⟩

/-- Writes data and metadata, over everything the level had at the name. -/
def set (level : Level) (name : String) (v : Value) (node : Metadata) : Level :=
  ⟨level.data.insert name v, level.nodes.insert name node⟩

/-- Writes a container with its data and metadata. -/
def put (level : Level) (name : String) (container : Container) (inner : Level) : Level :=
  level.set name (.obj inner.data) (container.node inner.nodes)

/-- The container at a name, if data and metadata agree that there is one of the kind. -/
def enter? (level : Level) (kind : ContainerKind) (name : String) : Option (Container × Level) :=
  match level.data.get? name, (level.nodes.get? name).bind (·.open? kind) with
  | some (.obj data), some (container, nodes) => some (container, ⟨data, nodes⟩)
  | _, _ => none

/-- Edits the container at a name in place. Without one the edit works on an empty scratch level,
which is kept only if the edit succeeds and leaves data in it. -/
def within {σ α : Type} (kind : ContainerKind) (name : String) (edit : Edit σ Level α) :
    Edit σ Level α :=
  Run.zoom (fun level => ((level.enter? kind name).map Prod.snd).getD ∅)
    (fun succeeded inner level =>
      match level.enter? kind name with
      | some (container, _) => level.put name container inner
      | none =>
        if succeeded && !inner.data.isEmpty then level.put name (.fresh kind) inner else level)
    edit

end Level

/-- One key of an object of data, together with the metadata of that key. -/
structure Cell where
  data : Fields Value
  node : Metadata

namespace Cell

/-- The container at the key. Data or metadata of another kind count as an empty one, each for
itself. -/
def level (cell : Cell) (kind : ContainerKind) (key : String) : Level :=
  ⟨objectAt cell.data key, (cell.node.opened kind).2⟩

/-- Writes a container with its data and metadata. -/
def put (cell : Cell) (key : String) (container : Container) (inner : Level) : Cell :=
  ⟨cell.data.insert key (.obj inner.data), container.node inner.nodes⟩

/-- Writes a value. Metadata that is no leaf is replaced by a fresh one first. -/
def putLeaf (cell : Cell) (key : String) (provenance : Provenance) (v : Value) : Cell :=
  let leaf := cell.node.leaf?.getD (.fresh none provenance)
  ⟨cell.data.insert key v, .leaf (leaf.write provenance v)⟩

end Cell

end Settings
