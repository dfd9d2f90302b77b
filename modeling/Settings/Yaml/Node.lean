import Settings.SortedMap.Basic
import Settings.Yaml.Token

/-!
# YAML nodes

The tree that the tokens of a document stand for. Anchors are numbered by how many different names
were in use before them, and an alias stands for the number that its name has at that place; the
node under a number is the one that got it last in the whole document.
-/

set_option autoImplicit false

namespace Settings.Yaml

/-- A node of a document: a scalar with its tag and whether it is written plainly, a sequence, a
mapping, or an alias for a numbered node. -/
inductive Node
  | scalar (tag : Option Tag) (plain : Bool) (text : String)
  | sequence (tag : Option Tag) (items : List Node)
  | mapping (tag : Option Tag) (pairs : List (Node × Node))
  | reference (number : Nat)

namespace Node

instance : Inhabited Node := ⟨reference 0⟩

def missing : Node := scalar none true ""

mutual

/-- How many parts a node has: one for a scalar or an alias, two for the ends of a collection. -/
def size : Node → Nat
  | scalar _ _ _ => 1
  | reference _ => 1
  | sequence _ items => 2 + sizeItems items
  | mapping _ pairs => 2 + sizePairs pairs

def sizeItems : List Node → Nat
  | [] => 0
  | node :: nodes => size node + sizeItems nodes

def sizePairs : List (Node × Node) → Nat
  | [] => 0
  | (key, v) :: pairs => size key + size v + sizePairs pairs

end

end Node

/-- The state of reading nodes: the tokens left, the meaning of tag handles, the numbers of anchor
names, for each number the serial of the node that has it, and the anchored nodes by serial. -/
structure Reading where
  tokens : List Token
  handles : List (String × Tag)
  numbers : Fields Nat
  serials : List (Nat × Nat)
  nodes : List (Nat × Node)
  count : Nat

/-- A step of reading; it fails where the text is not YAML. -/
abbrev Reads : Type → Type := StateT Reading Option

namespace Reads

def peek? : Reads (Option Token) := do
  let s ← get
  pure s.tokens.head?

/-- Goes over a token. -/
def skip : Reads Unit := modify fun s => { s with tokens := s.tokens.tail }

/-- Not YAML. -/
def fail {α : Type} : Reads α := fun _ => none

/-- The meaning of a tag as written. -/
def resolveTag (t : WrittenTag) : Reads Tag := do
  if t.handle.isEmpty then pure t.suffix
  else
    match (← get).handles.lookup t.handle with
    | some text => pure (text.append t.suffix)
    | none => fail

/-- Gives the node that starts here a number under its anchor, and says under which serial to store
it. -/
def numberAnchor (name : String) : Reads Nat :=
  modifyGet fun s =>
    let number := s.numbers.size
    (s.count, { s with
      numbers := s.numbers.insert name number
      serials := (number, s.count) :: s.serials
      count := s.count + 1 })

def store (serial : Option Nat) (node : Node) : Reads Node := do
  if let some serial := serial then
    modify fun s => { s with nodes := (serial, node) :: s.nodes }
  pure node

/-- The anchor and the tag in front of a node, in any order. -/
def properties : Reads (Option String × Option WrittenTag) := do
  match ← peek? with
  | some (.anchor name) =>
    skip
    match ← peek? with
    | some (.tag t) => skip; pure (some name, some t)
    | _ => pure (some name, none)
  | some (.tag t) =>
    skip
    match ← peek? with
    | some (.anchor name) => skip; pure (some name, some t)
    | _ => pure (none, some t)
  | _ => pure (none, none)

end Reads

open Reads

mutual

/-- Reads a node. A block collection is allowed in block context; a sequence without indentation of
its own is allowed as the key or the value of a block mapping. -/
def readNode (inBlock indentless : Bool) : (fuel : Nat) → Reads Node
  | 0 => fail
  | fuel + 1 => do
    if let some (.reference name) ← peek? then
      skip
      match (← get).numbers.get? name with
      | some number => return .reference number
      | none => fail
    let (anchor, written) ← properties
    let tag ← written.mapM resolveTag
    let serial ← anchor.mapM numberAnchor
    match ← peek? with
    | some .blockEntry =>
      if indentless then store serial (.sequence tag (← readIndentless fuel))
      else if anchor.isSome || tag.isSome then store serial (.scalar tag true "")
      else fail
    | some (.scalar plain text) =>
      skip
      store serial (.scalar tag plain text)
    | some .flowSequenceStart => skip; store serial (.sequence tag (← readFlowItems true fuel))
    | some .flowMappingStart => skip; store serial (.mapping tag (← readFlowPairs true fuel))
    | some .blockSequenceStart =>
      if !inBlock then fail
      skip
      store serial (.sequence tag (← readItems fuel))
    | some .blockMappingStart =>
      if !inBlock then fail
      skip
      store serial (.mapping tag (← readPairs fuel))
    | _ =>
      if anchor.isSome || tag.isSome then store serial (.scalar tag true "") else fail

/-- Reads the items of a block sequence up to its end. -/
def readItems : (fuel : Nat) → Reads (List Node)
  | 0 => fail
  | fuel + 1 => do
    match ← peek? with
    | some .blockEntry =>
      skip
      let item ← match ← peek? with
        | some .blockEntry | some .blockEnd => pure .missing
        | _ => readNode true false fuel
      let items ← readItems fuel
      pure (item :: items)
    | some .blockEnd => skip; pure []
    | _ => fail

/-- Reads the items of a sequence that stands at the indentation of its key. -/
def readIndentless : (fuel : Nat) → Reads (List Node)
  | 0 => fail
  | fuel + 1 => do
    match ← peek? with
    | some .blockEntry =>
      skip
      let item ← match ← peek? with
        | some .blockEntry | some .key | some .value | some .blockEnd => pure .missing
        | _ => readNode true false fuel
      let items ← readIndentless fuel
      pure (item :: items)
    | _ => pure []

/-- Reads the pairs of a block mapping up to its end. -/
def readPairs : (fuel : Nat) → Reads (List (Node × Node))
  | 0 => fail
  | fuel + 1 => do
    match ← peek? with
    | some .key =>
      skip
      let key ← match ← peek? with
        | some .key | some .value | some .blockEnd => pure .missing
        | _ => readNode true true fuel
      let v ← match ← peek? with
        | some .value =>
          skip
          match ← peek? with
          | some .key | some .value | some .blockEnd => pure .missing
          | _ => readNode true true fuel
        | _ => pure .missing
      let pairs ← readPairs fuel
      pure ((key, v) :: pairs)
    | some .blockEnd => skip; pure []
    | _ => fail

/-- Reads the items of a flow sequence up to its end. An item may be a single pair. -/
def readFlowItems (first : Bool) : (fuel : Nat) → Reads (List Node)
  | 0 => fail
  | fuel + 1 => do
    if let some .flowSequenceEnd ← peek? then
      skip
      return []
    if !first then
      match ← peek? with
      | some .flowEntry => skip
      | _ => fail
    match ← peek? with
    | some .flowSequenceEnd => skip; pure []
    | some .key =>
      skip
      let key ← match ← peek? with
        | some .value | some .flowEntry | some .flowSequenceEnd => skip; pure .missing
        | _ => readNode false false fuel
      let v ← match ← peek? with
        | some .value =>
          skip
          match ← peek? with
          | some .flowEntry | some .flowSequenceEnd => pure .missing
          | _ => readNode false false fuel
        | _ => pure .missing
      let items ← readFlowItems false fuel
      pure (.mapping none [(key, v)] :: items)
    | _ =>
      let item ← readNode false false fuel
      let items ← readFlowItems false fuel
      pure (item :: items)

/-- Reads the pairs of a flow mapping up to its end. A key may stand alone. -/
def readFlowPairs (first : Bool) : (fuel : Nat) → Reads (List (Node × Node))
  | 0 => fail
  | fuel + 1 => do
    if let some .flowMappingEnd ← peek? then
      skip
      return []
    if !first then
      match ← peek? with
      | some .flowEntry => skip
      | _ => fail
    match ← peek? with
    | some .flowMappingEnd => skip; pure []
    | some .key =>
      skip
      let key ← match ← peek? with
        | some .value | some .flowEntry | some .flowMappingEnd => pure .missing
        | _ => readNode false false fuel
      let v ← match ← peek? with
        | some .value =>
          skip
          match ← peek? with
          | some .flowEntry | some .flowMappingEnd => pure .missing
          | _ => readNode false false fuel
        | _ => pure .missing
      let pairs ← readFlowPairs false fuel
      pure ((key, v) :: pairs)
    | _ =>
      let key ← readNode false false fuel
      let pairs ← readFlowPairs false fuel
      pure ((key, .missing) :: pairs)

end

/-- The meaning that handles have without directives. -/
def defaultHandles : List (String × Tag) :=
  [("!", .ofString "!"), ("!!", .ofString "tag:yaml.org,2002:")]

/-- Reads the directives in front of a document. Of each kind, and of each handle, there is at most
one; the version is 1.1 or 1.2. -/
def readDirectives : (fuel : Nat) → (version : Bool) → (handles : List (String × Tag)) → Reads Unit
  | 0, _, _ => fail
  | fuel + 1, version, handles => do
    match ← peek? with
    | some (.directive (.version major minor)) =>
      if version || major != 1 || (minor != 1 && minor != 2) then fail
      skip
      readDirectives fuel true handles
    | some (.directive (.tag handle text)) =>
      if (handles.lookup handle).isSome then fail
      skip
      readDirectives fuel version ((handle, text) :: handles)
    | _ => modify fun s => { s with handles := handles ++ defaultHandles }

/-- Goes over marks of a document's end. -/
def skipDocumentEnds : (fuel : Nat) → Reads Unit
  | 0 => pure ()
  | fuel + 1 => do
    if let some .documentEnd ← peek? then
      skip
      skipDocumentEnds fuel

/-- Reads the only document of a text; `none` for a text without one. What follows the document
may only be marks of its end. -/
def readDocument (fuel : Nat) : Reads (Option Node) := do
  let node ← match ← peek? with
    | none => return none
    | some (.directive _) | some .documentStart =>
      readDirectives fuel false []
      match ← peek? with
      | some .documentStart => skip
      | _ => fail
      match ← peek? with
      | none | some (.directive _) | some .documentStart | some .documentEnd => pure .missing
      | _ => readNode true false fuel
    | _ =>
      readDirectives fuel false []
      readNode true false fuel
  skipDocumentEnds fuel
  match ← peek? with
  | none => pure (some node)
  | some _ => fail

/-- A document: its root and the anchored nodes by number. -/
structure Document where
  root : Node
  anchored : List (Nat × Node)

def Document.anchored? (d : Document) (number : Nat) : Option Node := d.anchored.lookup number

/-- The document of a list of tokens; a text without one has a missing root. -/
def Document.ofTokens? (tokens : List Token) : Option Document := do
  let fuel := 2 * tokens.length + 4
  let (root, s) ← (readDocument fuel).run ⟨tokens, [], ∅, [], [], 0⟩
  let anchored := s.serials.filterMap fun (number, serial) =>
    (s.nodes.lookup serial).map fun node => (number, node)
  some ⟨root.getD .missing, anchored⟩

end Settings.Yaml
