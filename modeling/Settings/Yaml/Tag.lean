import Settings.Json.Reader
import Settings.Yaml.Cursor

/-!
# YAML tags and directives

A tag is written as a handle and a suffix, or in full between angle brackets. A `%TAG` directive
gives a handle a meaning, a `%YAML` directive names the version. The text of a tag is kept as bytes,
since percent escapes may spell bytes that are no characters.
-/

set_option autoImplicit false

namespace Settings.Yaml

/-- The text of a tag, or of its start. -/
structure Tag where
  bytes : List UInt8
  deriving DecidableEq

namespace Tag

/-- The tag of some bytes, which a NUL ends. -/
def ofBytes (bytes : List UInt8) : Tag := ⟨bytes.takeWhile (· != 0)⟩

def ofString (s : String) : Tag := ofBytes s.toUTF8.toList

/-- A start with the rest behind it. -/
def append (start rest : Tag) : Tag := ⟨start.bytes ++ rest.bytes⟩

def isEmpty (t : Tag) : Bool := t.bytes.isEmpty

/-- What follows the exclamation mark of a tag that starts with one. -/
def localPart? (t : Tag) : Option (List UInt8) :=
  match t.bytes with
  | b :: rest => if b = '!'.toUInt8 then some rest else none
  | [] => none

/-- Whether the tag starts with an exclamation mark. -/
def isLocal (t : Tag) : Bool := t.localPart?.isSome

/-- Whether the tag is local and names something: what follows the mark is text. -/
def isPrivate (t : Tag) : Bool :=
  t.localPart?.any fun bytes => (String.fromUTF8? ⟨bytes.toArray⟩).isSome

end Tag

/-- A character of a tag. Brackets and commas belong only to tags written in full. -/
def isTagChar (full : Bool) (c : Char) : Bool :=
  isWordChar c || ";/?:@&=+$.%!~*'()".contains c || (full && ",[]".contains c)

/-- How many bytes a character has that starts with the given one. -/
def sequenceLength? (lead : UInt8) : Option Nat :=
  if lead < 0x80 then some 1
  else if 0xC0 ≤ lead && lead < 0xE0 then some 2
  else if 0xE0 ≤ lead && lead < 0xF0 then some 3
  else if 0xF0 ≤ lead && lead < 0xF8 then some 4
  else none

/-- The bytes of tag characters, percent escapes decoded. A number of further escapes has to
continue a character; whether they make one is not looked at. -/
def decodeEscapes? : (pending : Nat) → List Char → Option (List UInt8)
  | pending, '%' :: a :: b :: cs => do
    let a ← Json.hexValue? a
    let b ← Json.hexValue? b
    let byte := (a * 16 + b).toUInt8
    let pending ←
      if pending = 0 then (sequenceLength? byte).map (· - 1)
      else if 0x80 ≤ byte && byte < 0xC0 then some (pending - 1) else none
    let bytes ← decodeEscapes? pending cs
    some (byte :: bytes)
  | 0, [] => some []
  | 0, c :: cs => do
    if c = '%' then none
    let bytes ← decodeEscapes? 0 cs
    some ((String.singleton c).toUTF8.toList ++ bytes)
  | _ + 1, _ => none

/-- Reads the text of a tag after a given start. The start counts for the text not being empty,
but its exclamation mark is not part of it. -/
def readTagText? (full : Bool) (start : List Char) (c : Cursor) : Option (Tag × Cursor) := do
  let (chars, c) := c.takeWhile (isTagChar full)
  if start.isEmpty && chars.isEmpty then none
  let bytes ← decodeEscapes? 0 chars
  some (.ofBytes ((String.ofList (start.drop 1)).toUTF8.toList ++ bytes), c)

/-- Reads a handle: an exclamation mark, word characters and perhaps another mark. In a directive
the other mark has to be there, unless the handle is a single one. -/
def readHandle? (inDirective : Bool) (c : Cursor) : Option (List Char × Cursor) :=
  if !c.isAt '!' then none
  else
    let (word, c) := c.next.takeWhile isWordChar
    if c.isAt '!' then some ('!' :: word ++ ['!'], c.next)
    else if inDirective && !word.isEmpty then none
    else some ('!' :: word, c)

/-- A tag as written: its handle, empty for a tag in full, and the rest. -/
structure WrittenTag where
  handle : String
  suffix : Tag

/-- Reads a tag. In a flow collection a comma may follow it, and otherwise only a gap. -/
def readTag? (flow : Bool) (c : Cursor) : Option (WrittenTag × Cursor) := do
  let (tag, c) ←
    if c.peekAt? 1 == some '<' then do
      let (text, c) ← readTagText? true [] (c.skip 2)
      if c.isAt '>' then some (WrittenTag.mk "" text, c.next) else none
    else do
      let (handle, c) ← readHandle? false c
      if 1 < handle.length && handle.getLast? == some '!' then
        let (text, c) ← readTagText? false [] c
        some (WrittenTag.mk (String.ofList handle) text, c)
      else
        let (text, c) ← readTagText? false handle c
        some (if text.isEmpty then ⟨"", .ofString "!"⟩ else ⟨"!", text⟩, c)
  if isGap c.peek? || (flow && c.isAt ',') then some (tag, c) else none

/-- A directive at the head of a document. -/
inductive Directive
  | version (major minor : Nat)
  | tag (handle : String) (text : Tag)

/-- Reads a number of at most nine digits. -/
def readVersionNumber? (c : Cursor) : Option (Nat × Cursor) :=
  let (digits, c) := c.takeWhile Char.isDigit
  if digits.isEmpty || 9 < digits.length then none
  else some (digits.foldl (fun n d => n * 10 + (d.toNat - '0'.toNat)) 0, c)

/-- Reads a directive, the text standing after its percent sign, to the end of its line. -/
def readDirective? (c : Cursor) : Option (Directive × Cursor) := do
  let (name, c) := c.takeWhile isWordChar
  if !isGap c.peek? then none
  let c := c.dropWhile isBlank
  let (directive, c) ←
    if name == "YAML".toList then do
      let (major, c) ← readVersionNumber? c
      if !c.isAt '.' then none
      let (minor, c) ← readVersionNumber? c.next
      some (Directive.version major minor, c)
    else if name == "TAG".toList then do
      let (handle, c) ← readHandle? true c
      if !c.peek?.any isBlank then none
      let (text, c) ← readTagText? true [] (c.dropWhile isBlank)
      if !isGap c.peek? then none
      some (Directive.tag (String.ofList handle) text, c)
    else none
  let c := (c.dropWhile isBlank).skipComment
  if isLineEnd c.peek? then some (directive, c.skipBreak) else none

end Settings.Yaml
