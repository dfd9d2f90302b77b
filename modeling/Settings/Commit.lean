import Settings.Spec.Calls

/-!
# Committing a candidate

A commit writes an input into live data and metadata. Objects are merged key by key where the
specifier is a namespace or a record; everything else is written as a leaf. What stands in the way,
in data or in metadata, is replaced. After its fields a namespace runs its mapper again over the
merged data. A commit with initial provenance also writes the initial values.
-/

set_option autoImplicit false

namespace Settings

variable {σ : Type}

namespace Level

/-- The cell at a name. A name without metadata starts as a leaf without value, which passes its
value through if the name is not declared. -/
def cell (level : Level) (name : String) (declared : Bool) (provenance : Provenance) : Cell :=
  ⟨level.data, (level.nodes.get? name).getD
    (.leaf (if declared then .fresh none provenance else .passthrough provenance))⟩

/-- Writes the cell at a name back. -/
def putCell (level : Level) (name : String) (cell : Cell) : Level :=
  ⟨cell.data, level.nodes.insert name cell.node⟩

def onCell {α : Type} (name : String) (declared : Bool) (provenance : Provenance)
    (edit : Edit σ Cell α) : Edit σ Level α :=
  Run.zoom (fun level => level.cell name declared provenance)
    (fun _ cell level => level.putCell name cell) edit

/-- Edits the entry at a name, which is made an empty namespace if it is none. -/
def onEntry {α : Type} (name : String) (edit : Edit σ Level α) : Edit σ Level α :=
  Run.zoom
    (fun level => ⟨objectAt level.data name,
      (((level.nodes.get? name).getD (.ns ∅)).opened .ns).2⟩)
    (fun _ inner level => level.put name .ns inner) edit

end Level

namespace Cell

def onNamespace {α : Type} (key : String) (edit : Edit σ Level α) : Edit σ Cell α :=
  Run.zoom (fun cell => cell.level .ns key) (fun _ inner cell => cell.put key .ns inner) edit

/-- Edits the entries of the record at the key. The record takes the provenance, and on success of
an initial commit its entries become its snapshot. -/
def onRecord {α : Type} (key : String) (provenance : Provenance) (edit : Edit σ Level α) :
    Edit σ Cell α :=
  Run.zoom (fun cell => cell.level .record key)
    (fun succeeded inner cell =>
      let snapshot := match (cell.node.opened .record).1 with
        | .record _ initial => initial
        | .ns => ∅
      let snapshot := if succeeded && provenance = .initial then inner.nodes else snapshot
      cell.put key (.record provenance snapshot) inner) edit

/-- Makes sure that there is a record at the key, and changes nothing else. -/
def ensureRecord (cell : Cell) (key : String) : Cell :=
  cell.put key (cell.node.opened .record).1 (cell.level .record key)

end Cell

/-- Runs the mapper of a namespace over its level and assigns its keys. -/
def NamespaceRules.remap (rules : NamespaceRules σ) (pos : Position) (isEntry : Bool) :
    Edit σ Level Unit := do
  let (level, _) ← Run.state
  let mapped ← (rules.runMapper level.data pos isEntry).beside
  Run.update fun (level, s) => ({ level with data := level.data.assign mapped }, s)

mutual

/-- Commits an input to the cell of a key. Without a specifier it is written as a leaf. -/
def commit : Option (Specifier σ) → Provenance → (input : Value) → (key : String) → Position →
    Edit σ Cell Unit
  | some (.ns rules specs), provenance, .obj fields, key, pos =>
    Cell.onNamespace key do
      commitFields specs provenance fields pos
      rules.remap pos false
  | some (.record _ entry), provenance, .obj entries, key, pos =>
    match entry with
    | .ns rules specs =>
      Cell.onRecord key provenance
        (commitEntries ⟨rules, specs⟩ provenance (.obj entries) entries pos)
    | entry => do
      Run.update fun (cell, s) => (cell.ensureRecord key, s)
      Run.fail (.recordEntry pos.render entry.kind)
  | _, provenance, v, key, _ => Run.update fun (cell, s) => (cell.putLeaf key provenance v, s)
termination_by structural _ _ input => input

/-- Commits the fields of a namespace's input one after the other. -/
def commitFields {lo : Option String} (specs : Fields (Specifier σ)) (provenance : Provenance) :
    SortedMap Value lo → Position → Edit σ Level Unit
  | .nil, _ => pure ()
  | .cons name _ v rest, pos => do
    let spec := specs.get? name
    Level.onCell name spec.isSome provenance (commit spec provenance v name (pos.child name))
    commitFields specs provenance rest pos
termination_by structural fields => fields

/-- Commits the entries of a record's input one after the other; all have to be objects. -/
def commitEntries {lo : Option String} (entry : Namespace σ) (provenance : Provenance)
    (whole : Value) : SortedMap Value lo → Position → Edit σ Level Unit
  | .nil, _ => pure ()
  | .cons name _ v rest, pos => do
    match v with
    | .obj fields =>
      Level.onEntry name do
        commitFields entry.fields provenance fields (pos.child name)
        entry.rules.remap (pos.child name) true
    | _ => Run.fail (.recordInput pos.render whole)
    commitEntries entry provenance whole rest pos
termination_by structural entries => entries

end

/-- Commits an input at a position: to the key that is the position's last segment, or the root's
name if it has none. -/
def commitAt (spec : Option (Specifier σ)) (provenance : Provenance) (input : Value)
    (pos : Position) : Edit σ Cell Unit :=
  commit spec provenance input (pos.last?.getD rootSegment) pos

/-- Commits an input object to the level of a namespace. -/
def Namespace.commit (n : Namespace σ) (provenance : Provenance) (input : Fields Value)
    (pos : Position) (isEntry : Bool) : Edit σ Level Unit := do
  commitFields n.fields provenance input pos
  n.rules.remap pos isEntry

end Settings
