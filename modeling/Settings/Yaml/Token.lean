import Settings.Yaml.Scalar
import Settings.Yaml.Tag

/-!
# YAML tokens

The tokens of a text, with its indentation made explicit: block collections start and end with
tokens of their own. A key without an indicator is recognised only when its colon is met; the
tokens for it are then inserted where the key started. Such a simple key stands on one line and
takes at most 1024 bytes up to its colon.
-/

set_option autoImplicit false

namespace Settings.Yaml

/-- A token. -/
inductive Token
  | directive (d : Directive)
  | documentStart
  | documentEnd
  | blockSequenceStart
  | blockMappingStart
  | blockEnd
  | flowSequenceStart
  | flowSequenceEnd
  | flowMappingStart
  | flowMappingEnd
  | blockEntry
  | flowEntry
  | key
  | value
  | reference (name : String)
  | anchor (name : String)
  | tag (t : WrittenTag)
  | scalar (plain : Bool) (text : String)

/-- A place where a simple key may have started, and the number of tokens before it. A required key
starts its line in a block mapping, where nothing but a key can stand. -/
structure SimpleKey where
  required : Bool
  tokens : Nat
  offset : Nat
  line : Nat
  column : Nat

/-- What is known between two tokens: the tokens so far, how many flow collections are open, the
possible simple key of each (the innermost first, with one more for the block context), whether a
simple key may start here, and the columns of the open block collections. The bound exceeds the
number of characters of the text, and with it the number of steps of any loop over them. -/
structure Scanner where
  bound : Nat
  cursor : Cursor
  tokens : Array Token
  flow : Nat
  keys : List (Option SimpleKey)
  keyAllowed : Bool
  indent : Int
  outer : List Int

namespace Scanner

def ofText (text : String) : Scanner :=
  ⟨text.length + 1, .ofText text, #[], 0, [none], true, -1, []⟩

def inBlock (s : Scanner) : Bool := s.flow == 0

def push (s : Scanner) (t : Token) : Scanner := { s with tokens := s.tokens.push t }

/-- Adds a token with which the scan goes on at another place. -/
def emit (s : Scanner) (t : Token) (c : Cursor) : Scanner := { s.push t with cursor := c }

/-- Sets whether a simple key may start. -/
def allowKey (s : Scanner) (allowed : Bool) : Scanner := { s with keyAllowed := allowed }

/-- Inserts a token before a number of tokens already there. -/
def insertAt (s : Scanner) (n : Nat) (t : Token) : Scanner :=
  { s with tokens := s.tokens.take n ++ #[t] ++ s.tokens.drop n }

/-- Forgets the possible key of the current collection; a required key without colon is an
error. -/
def dropKey? (s : Scanner) : Option Scanner :=
  match s.keys with
  | some k :: keys => if k.required then none else some { s with keys := none :: keys }
  | _ => some s

/-- Notes that a simple key may start here. -/
def noteKey? (s : Scanner) : Option Scanner :=
  if s.keyAllowed then do
    let s ← s.dropKey?
    let c := s.cursor
    let key : SimpleKey :=
      ⟨s.inBlock && s.indent == c.column, s.tokens.size, c.offset, c.line, c.column⟩
    some { s with keys := some key :: s.keys.drop 1 }
  else some s

/-- Forgets the keys that can no longer become one. -/
def dropStaleKeys? (s : Scanner) : Option Scanner := do
  let keys ← s.keys.mapM fun
    | some k =>
      if k.line < s.cursor.line || k.offset + 1024 < s.cursor.offset then
        if k.required then none else some none
      else some (some k)
    | none => some none
  some { s with keys }

/-- Opens a block collection at a column, if it is to the right of the present one; its token is
inserted before a number of tokens, or comes last. -/
def roll (s : Scanner) (column : Nat) (number : Option Nat) (t : Token) : Scanner :=
  if s.inBlock && s.indent < column then
    let s := { s with indent := column, outer := s.indent :: s.outer }
    match number with
    | some n => s.insertAt n t
    | none => s.push t
  else s

/-- Closes the given open block collections that are to the right of a column. -/
def closeBlocks (column : Int) : List Int → Scanner → Scanner
  | [], s => s
  | outer :: rest, s =>
    if column < s.indent then
      closeBlocks column rest { s.push .blockEnd with indent := outer, outer := rest }
    else s

/-- Closes the block collections to the right of a column. -/
def unroll (s : Scanner) (column : Int) : Scanner :=
  if s.inBlock then closeBlocks column s.outer s else s

/-- Goes to the next token: over blanks, comments and line breaks. A tab is no blank where a simple
key may start in block context. A mark of byte order may stand at the start of a line, where it
takes up a column. -/
def skipToToken : (fuel : Nat) → Scanner → Scanner
  | 0, s => s
  | fuel + 1, s =>
    let c := if s.cursor.column == 0 && s.cursor.isAt '\ufeff' then s.cursor.next else s.cursor
    let tabs := !s.inBlock || !s.keyAllowed
    let c := (c.dropWhile fun char => char == ' ' || (tabs && char == '\t')).skipComment
    match c.readBreak? with
    | some (_, c) =>
      skipToToken fuel { s with cursor := c, keyAllowed := s.keyAllowed || s.inBlock }
    | none => { s with cursor := c }

/-- A token of a document's own, at the start of a line. -/
def outsideBlocks? (s : Scanner) : Option Scanner :=
  ((s.unroll (-1)).dropKey?).map (·.allowKey false)

def openFlow? (s : Scanner) (t : Token) : Option Scanner := do
  let s ← s.noteKey?
  some ({ s with flow := s.flow + 1, keys := none :: s.keys }.allowKey true |>.emit t s.cursor.next)

def closeFlow? (s : Scanner) (t : Token) : Option Scanner := do
  let s ← s.dropKey?
  let s := if s.inBlock then s else { s with flow := s.flow - 1, keys := s.keys.drop 1 }
  some ((s.allowKey false).emit t s.cursor.next)

/-- A dash in front of an item. -/
def blockEntry? (s : Scanner) : Option Scanner := do
  if s.inBlock && !s.keyAllowed then none
  let s ← (s.roll s.cursor.column none .blockSequenceStart).dropKey?
  some ((s.allowKey true).emit .blockEntry s.cursor.next)

/-- A question mark in front of a key. -/
def explicitKey? (s : Scanner) : Option Scanner := do
  if s.inBlock && !s.keyAllowed then none
  let s ← (s.roll s.cursor.column none .blockMappingStart).dropKey?
  some ((s.allowKey s.inBlock).emit .key s.cursor.next)

/-- A colon in front of a value. With a possible simple key the key's token is inserted before it,
and the mapping's before that where one starts. -/
def value? (s : Scanner) : Option Scanner :=
  match s.keys with
  | some k :: keys =>
    let s := (s.insertAt k.tokens .key).roll k.column (some k.tokens) .blockMappingStart
    some (({ s with keys := none :: keys }.allowKey false).emit .value s.cursor.next)
  | _ =>
    if s.inBlock && !s.keyAllowed then none
    else
      let s := s.roll s.cursor.column none .blockMappingStart
      some ((s.allowKey s.inBlock).emit .value s.cursor.next)

/-- The name of an anchor or an alias, the text standing after its indicator. -/
def readName? (c : Cursor) : Option (String × Cursor) :=
  let (name, c) := c.takeWhile isWordChar
  if name.isEmpty || !(isGap c.peek? || c.peek?.any fun d => "?:,]\x7d%@`".contains d) then none
  else some (String.ofList name, c)

def name? (s : Scanner) (t : String → Token) : Option Scanner := do
  let s ← s.noteKey?
  let (name, c) ← readName? s.cursor.next
  some ((s.allowKey false).emit (t name) c)

def tag? (s : Scanner) : Option Scanner := do
  let s ← s.noteKey?
  let (t, c) ← readTag? (!s.inBlock) s.cursor
  some ((s.allowKey false).emit (.tag t) c)

def blockScalar? (s : Scanner) (literal : Bool) : Option Scanner := do
  let s ← s.dropKey?
  let (text, c) ← readBlock? literal s.indent s.bound s.cursor.next
  some ((s.allowKey true).emit (.scalar false (String.ofList text)) c)

def quotedScalar? (s : Scanner) (single : Bool) : Option Scanner := do
  let s ← s.noteKey?
  let c := s.cursor.next
  let (text, c) ← readQuoted? single s.bound [] c
  some ((s.allowKey false).emit (.scalar false (String.ofList text)) c)

/-- A plain scalar. After a line break a simple key may start again. -/
def plainScalar? (s : Scanner) : Option Scanner := do
  let s ← s.noteKey?
  let c := s.cursor
  let (text, broken, c) ← readPlain? (!s.inBlock) (s.indent + 1).toNat s.bound [] .empty c
  some ((s.allowKey broken).emit (.scalar true (String.ofList text)) c)

/-- Whether a plain scalar may start with a character, given the one after it. -/
def startsPlain (s : Scanner) (c : Char) (following : Option Char) : Bool :=
  !(isGap (some c) || "-?:,[]\x7b\x7d#&*!|>'\"%@`".contains c)
    || (c == '-' && !following.any isBlank)
    || (s.inBlock && (c == '?' || c == ':') && !isGap following)

/-- The next token, which starts with a given character. -/
def token? (s : Scanner) (char : Char) : Option Scanner :=
  let c := s.cursor
  let following := c.peekAt? 1
  if c.column == 0 && char == '%' then do
    let s ← s.outsideBlocks?
    let (d, c) ← readDirective? c.next
    some (s.emit (.directive d) c)
  else if c.startsMarker '-' then (s.outsideBlocks?).map (·.emit .documentStart (c.skip 3))
  else if c.startsMarker '.' then (s.outsideBlocks?).map (·.emit .documentEnd (c.skip 3))
  else if char == '[' then s.openFlow? .flowSequenceStart
  else if char == '\x7b' then s.openFlow? .flowMappingStart
  else if char == ']' then s.closeFlow? .flowSequenceEnd
  else if char == '\x7d' then s.closeFlow? .flowMappingEnd
  else if char == ',' then do
    let s ← s.dropKey?
    some ((s.allowKey true).emit .flowEntry c.next)
  else if char == '-' && isGap following then s.blockEntry?
  else if char == '?' && (!s.inBlock || isGap following) then s.explicitKey?
  else if char == ':' && (!s.inBlock || isGap following) then s.value?
  else if char == '*' then s.name? .reference
  else if char == '&' then s.name? .anchor
  else if char == '!' then s.tag?
  else if char == '|' && s.inBlock then s.blockScalar? true
  else if char == '>' && s.inBlock then s.blockScalar? false
  else if char == '\'' then s.quotedScalar? true
  else if char == '"' then s.quotedScalar? false
  else if s.startsPlain char following then s.plainScalar?
  else none

/-- Reads tokens to the end of the text. -/
def scan? : (fuel : Nat) → Scanner → Option (Array Token)
  | 0, _ => none
  | fuel + 1, s => do
    let s ← (skipToToken s.bound s).dropStaleKeys?
    let s := s.unroll s.cursor.column
    match s.cursor.peek? with
    | some char =>
      let s ← s.token? char
      scan? fuel s
    | none =>
      let s ← s.outsideBlocks?
      some s.tokens

end Scanner

/-- The tokens of a text, all of whose characters are permitted. -/
def Token.ofText? (text : String) : Option (List Token) :=
  if text.toList.all isPermitted then
    let s := Scanner.ofText text
    (s.scan? s.bound).map Array.toList
  else none

end Settings.Yaml
