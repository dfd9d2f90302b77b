import Settings.Value

/-!
# Metadata of settings

Beside every piece of data stands a node of `Metadata`: for a leaf the current value, the initial
value and where the current one came from; for a namespace the nodes of its fields; for a record
the nodes of its entries and a snapshot of them as they were at initialization. An absent value is
not `null`.
-/

set_option autoImplicit false

namespace Settings

/-- Where a value came from. -/
inductive Provenance
  | initial
  | change
  deriving DecidableEq, Repr

namespace Provenance

def name : Provenance → String
  | initial => "initial"
  | change => "change"

def ofName? (s : String) : Option Provenance :=
  if s = "initial" then some initial else if s = "change" then some change else none

theorem ofName?_name (p : Provenance) : ofName? p.name = some p := by cases p <;> decide

end Provenance

/-- What is recorded about one value. -/
structure LeafNode where
  value : Option Value
  initial : Option Value
  provenance : Provenance
  isShadow : Bool
  isPassthrough : Bool

namespace LeafNode

/-- A value that is also the initial one; or neither. -/
def fresh (value : Option Value) (provenance : Provenance) : LeafNode :=
  ⟨value, value, provenance, false, false⟩

/-- No value yet, at a key that nothing is known about. -/
def passthrough (provenance : Provenance) : LeafNode :=
  { fresh none provenance with isPassthrough := true }

/-- Writes a value; an initial one also counts as the initial value. -/
def write (leaf : LeafNode) (provenance : Provenance) (value : Value) : LeafNode :=
  { leaf with
    value := some value
    provenance := provenance
    initial := if provenance = .initial then some value else leaf.initial }

/-- Lays another leaf over this one. What is absent in the overlay stays, and flags are kept. -/
def merge (base overlay : LeafNode) : LeafNode where
  value := overlay.value.or base.value
  initial := overlay.initial.or base.initial
  provenance := overlay.provenance
  isShadow := base.isShadow || overlay.isShadow
  isPassthrough := base.isPassthrough || overlay.isPassthrough

end LeafNode

/-- The metadata of one node of a settings tree. -/
inductive Metadata
  | leaf (node : LeafNode)
  | ns (fields : SortedMap Metadata none)
  | record (provenance : Provenance) (value initial : SortedMap Metadata none)

namespace Metadata

instance : Inhabited Metadata := ⟨ns ∅⟩

/-- A record whose snapshot is its present entries. -/
def freshRecord (entries : Fields Metadata) : Metadata := record .initial entries entries

/-- The node of the leaf, if it is one. -/
def leaf? : Metadata → Option LeafNode
  | leaf node => some node
  | _ => none

section Induction

variable {P : Metadata → Prop} (leaf : ∀ node, P (.leaf node))
  (ns : ∀ fields : Fields Metadata, (∀ k m, fields.get? k = some m → P m) → P (.ns fields))
  (record : ∀ provenance (value initial : Fields Metadata), (∀ k m, value.get? k = some m → P m) →
    (∀ k m, initial.get? k = some m → P m) → P (.record provenance value initial))
include leaf ns record

set_option linter.unusedSectionVars false

mutual

/-- Induction on metadata: through the fields of namespaces and the entries of records. -/
@[elab_as_elim, induction_eliminator]
theorem induction : ∀ m, P m
  | .leaf node => leaf node
  | .ns fields => ns fields (induction_fields fields)
  | .record provenance value initial =>
    record provenance value initial (induction_fields value) (induction_fields initial)
termination_by structural m => m

private theorem induction_fields {lo : Option String} :
    ∀ fields : SortedMap Metadata lo, ∀ k m, fields.get? k = some m → P m
  | .nil, _, _, h => nomatch h
  | .cons name _ m rest, k, w, h =>
    if e : k = name then
      Option.some.inj ((if_pos e).symm.trans h) ▸ induction m
    else induction_fields rest k w ((if_neg e).symm.trans h)
termination_by structural fields => fields

end

end Induction

mutual

/-- Lays other metadata over this: leaves are merged, namespaces field by field, and where the
kinds differ the overlay stays. Records do not merge. -/
def merge : (base overlay : Metadata) → Metadata
  | leaf base, leaf overlay => leaf (base.merge overlay)
  | ns base, ns overlay => ns (mergeFields base overlay)
  | _, overlay => overlay
termination_by structural _ overlay => overlay

/-- Lays the fields of the overlay over the base, one after the other. -/
def mergeFields {lo : Option String} : Fields Metadata → SortedMap Metadata lo → Fields Metadata
  | base, .nil => base
  | base, .cons name _ overlay rest =>
    mergeFields (base.insert name (match base.get? name with
      | some node => merge node overlay
      | none => overlay)) rest
termination_by structural _ overlay => overlay

end

/-- Lays metadata over one field. -/
def mergeField (fields : Fields Metadata) (name : String) (overlay : Metadata) : Fields Metadata :=
  fields.insert name (match fields.get? name with
    | some node => node.merge overlay
    | none => overlay)

/-- Merging fields merges where both sides have a node. -/
theorem get?_mergeFields {lo : Option String} (base : Fields Metadata)
    (overlay : SortedMap Metadata lo) (k : String) :
    (mergeFields base overlay).get? k =
      match base.get? k, overlay.get? k with
      | some a, some b => some (a.merge b)
      | none, some b => some b
      | a, none => a := by
  induction overlay generalizing base with
  | nil => rw [mergeFields]; cases base.get? k <;> rfl
  | cons name above m rest ih =>
    rw [mergeFields, ih, SortedMap.get?_insert, SortedMap.get?_cons]
    by_cases e : k = name
    · subst e
      rw [SortedMap.get?_self_bound]
      cases base.get? k <;> simp
    · simp [e]

end Metadata

end Settings
