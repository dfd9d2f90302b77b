import Settings.Metadata.Basic

/-!
# Metadata as values

The published form of metadata: an object with a `type` and the parts of the node. Absent values and
flags that are not set have no key.
-/

set_option autoImplicit false

namespace Settings

namespace LeafNode

/-- A flag, written only when it is set. -/
def flag (name : String) (on : Bool) : List (String × Value) :=
  if on then [(name, .bool true)] else []

def toPairs (leaf : LeafNode) : List (String × Value) :=
  [("type", .str "leaf"), ("from", .str leaf.provenance.name)]
    ++ (leaf.value.map fun v => ("value", v)).toList
    ++ (leaf.initial.map fun v => ("initial", v)).toList
    ++ flag "is_shadow" leaf.isShadow ++ flag "is_passthrough" leaf.isPassthrough

/-- Whether a flag is set in an object. -/
def flagOf (fields : Fields Value) (name : String) : Bool :=
  match fields.get? name with
  | some (.bool b) => b
  | _ => false

/-- The leaf node with the parts of an object. -/
def ofFields? (fields : Fields Value) : Option LeafNode :=
  match fields.get? "from" with
  | some (.str from_) => do
    let provenance ← Provenance.ofName? from_
    some ⟨fields.get? "value", fields.get? "initial", provenance, flagOf fields "is_shadow",
      flagOf fields "is_passthrough"⟩
  | _ => none

end LeafNode

namespace Metadata

def toValue : Metadata → Value
  | leaf node => .obj (.ofList node.toPairs)
  | ns fields => .obj (.ofList [("type", .str "namespace"), ("fields", .obj (toFields fields))])
  | record provenance value initial =>
    .obj (.ofList [("type", .str "record"), ("from", .str provenance.name),
      ("value", .obj (toFields value)), ("initial", .obj (toFields initial))])
where
  toFields {lo : Option String} : SortedMap Metadata lo → SortedMap Value lo
    | .nil => .nil
    | .cons name above node rest => .cons name above (toValue node) (toFields rest)

/-- Reads a namespace's fields from its published form, the nodes with a given reader. -/
def readFields? (read : Value → Option Metadata) {lo : Option String} :
    SortedMap Value lo → Option (SortedMap Metadata lo)
  | .nil => some .nil
  | .cons name above v rest => do
    let node ← read v
    let rest ← readFields? read rest
    some (.cons name above node rest)

/-- Reads metadata of at most `depth` levels from its published form. -/
def ofValue? : (depth : Nat) → Value → Option Metadata
  | depth + 1, .obj fields =>
    match fields.get? "type" with
    | some (.str "leaf") => (LeafNode.ofFields? fields).map leaf
    | some (.str "namespace") =>
      match fields.get? "fields" with
      | some (.obj inner) => (readFields? (ofValue? depth) inner).map ns
      | _ => none
    | some (.str "record") =>
      match fields.get? "from", fields.get? "value", fields.get? "initial" with
      | some (.str from_), some (.obj value), some (.obj initial) => do
        let provenance ← Provenance.ofName? from_
        let value ← readFields? (ofValue? depth) value
        let initial ← readFields? (ofValue? depth) initial
        some (record provenance value initial)
      | _, _, _ => none
    | _ => none
  | _, _ => none

end Metadata

end Settings
