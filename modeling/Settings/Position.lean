import Settings.Value

/-!
# Positions in a settings tree

A `Position` is the path from the root of a settings tree to a node, and the entry name if the node
is seen as an entry of a record. Its dotted form leaves out the first segment, which stands for the
root itself.
-/

set_option autoImplicit false

namespace Settings

/-- The name of the first path segment, the root. -/
def rootSegment : String := "__root__"

/-- A path from the root and, for a record entry, its name. -/
structure Position where
  path : List String
  key : Option String
  deriving DecidableEq, Repr

namespace Position

def root : Position := ⟨[rootSegment], none⟩

/-- One segment deeper. What lies below an entry is no entry. -/
def child (p : Position) (segment : String) : Position := ⟨p.path ++ [segment], none⟩

def last? (p : Position) : Option String := p.path.getLast?

/-- The same node seen as a record entry, named by its last segment. -/
def asEntry (p : Position) : Position := ⟨p.path, p.last?⟩

def isRoot (p : Position) : Bool := p.path.length ≤ 1

/-- The dotted path, without the root's segment. -/
def render (p : Position) : String := ".".intercalate (p.path.drop 1)

/-- The position as an object of its path and, if it has one, its key. -/
def toValue (p : Position) : Value :=
  let path : Fields Value := (∅ : Fields Value).insert "path" (.arr (p.path.map .str))
  .obj (match p.key with
    | some key => path.insert "key" (.str key)
    | none => path)

@[simp] theorem path_child (p : Position) (segment : String) :
    (p.child segment).path = p.path ++ [segment] := rfl

end Position

end Settings
