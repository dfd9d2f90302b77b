import Settings.Value
import Settings.Yaml.Node
import Settings.Yaml.Plain

/-!
# Reading YAML text

The value of the only document of a text. Mappings become objects: their keys are scalars, taken as
they are written, and of two equal keys the later counts. Aliases are replaced by the nodes they
stand for, within limits on depth and repetition.
-/

set_option autoImplicit false

namespace Settings.Yaml

def nestingLimit : Nat := 128

/-- How many aliases may be followed for each part of the document. -/
def repetitionFactor : Nat := 100

/-- Building a value, with a count of the aliases that may still be followed. -/
abbrev Builds : Type → Type := StateT Nat Option

def followAlias : Builds Unit := fun left =>
  match left with
  | 0 => none
  | left + 1 => some ((), left)

/-- The node itself, or the one that an alias stands for. -/
def Document.follow (d : Document) : Node → Builds Node
  | .reference number => do
    followAlias
    (fun left => (d.anchored? number).map (·, left))
  | node => pure node

/-- The name that a key stands for. -/
def Document.key (d : Document) (node : Node) : Builds String := do
  match ← d.follow node with
  | .scalar _ _ text => pure text
  | _ => fun _ => none

/-- The value of a node whose collections nest at most `depth` levels. -/
def Document.value (d : Document) : (depth : Nat) → Node → Builds Value
  | depth, node => do
    match ← d.follow node with
    | .scalar tag plain text => fun left => (scalarValue? tag plain text).map (·, left)
    | .sequence tag items =>
      match depth with
      | 0 => fun _ => none
      | depth + 1 =>
        if tag.any Tag.isPrivate then fun _ => none
        else do
          let vs ← items.mapM (d.value depth)
          pure (.arr vs)
    | .mapping tag pairs =>
      match depth with
      | 0 => fun _ => none
      | depth + 1 =>
        if tag.any Tag.isPrivate then fun _ => none
        else do
          let fields ← pairs.mapM fun (key, v) => do
            let name ← d.key key
            let v ← d.value depth v
            pure (name, v)
          pure (.obj (.ofList fields))
    | .reference _ => fun _ => none

/-- The value of a YAML text, if it is one. -/
def parse? (text : String) : Option Value := do
  let tokens ← Token.ofText? text
  let d ← Document.ofTokens? tokens
  let (v, _) ← (d.value nestingLimit d.root).run (repetitionFactor * d.root.size)
  some v

end Settings.Yaml
