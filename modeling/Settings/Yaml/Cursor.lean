/-!
# Places in YAML text

A `Cursor` is the rest of a text together with where it starts: the line, the column in characters
and the number of bytes before it. Line breaks are line feed, carriage return, both in that order,
next line, line separator and paragraph separator.
-/

set_option autoImplicit false

namespace Settings.Yaml

def isBlank (c : Char) : Bool := c == ' ' || c == '\t'

def isBreak (c : Char) : Bool :=
  c == '\n' || c == '\r' || c == '\u0085' || c == '\u2028' || c == '\u2029'

/-- Whether a character is a blank, ends a line, or is missing. -/
def isGap : Option Char → Bool
  | none => true
  | some c => isBlank c || isBreak c

/-- Whether a character ends a line or is missing. -/
def isLineEnd : Option Char → Bool
  | none => true
  | some c => isBreak c

/-- A character of anchors, tag handles and directives. -/
def isWordChar (c : Char) : Bool := c.isAlphanum || c == '_' || c == '-'

/-- Whether a character may stand in YAML text at all. -/
def isPermitted (c : Char) : Bool :=
  c == '\t' || c == '\n' || c == '\r' || (' ' ≤ c && c ≤ '~') || c == '\u0085'
    || ('\u00a0' ≤ c && c != '\ufffe' && c != '\uffff')

/-- How many bytes characters take in UTF-8. -/
def byteCount (cs : List Char) : Nat := cs.foldr (fun c n => c.utf8Size + n) 0

/-- The rest of a text and where it starts. -/
structure Cursor where
  rest : List Char
  offset : Nat
  line : Nat
  column : Nat

namespace Cursor

def ofText (text : String) : Cursor := ⟨text.toList, 0, 0, 0⟩

def peek? (c : Cursor) : Option Char := c.rest.head?

def peekAt? (c : Cursor) (n : Nat) : Option Char := c.rest[n]?

/-- Whether the next character is the given one. -/
def isAt (c : Cursor) (char : Char) : Bool := c.peek? == some char

def skip (c : Cursor) (n : Nat) : Cursor :=
  ⟨c.rest.drop n, c.offset + byteCount (c.rest.take n), c.line, c.column + n⟩

def next (c : Cursor) : Cursor := c.skip 1

/-- A line break and what follows it. The separators of lines and paragraphs stand for themselves,
every other break for a line feed. -/
def readBreak? (c : Cursor) : Option (Char × Cursor) :=
  match c.rest with
  | '\r' :: '\n' :: rest => some ('\n', ⟨rest, c.offset + 2, c.line + 1, 0⟩)
  | char :: rest =>
    if isBreak char then
      let kept := if char == '\u2028' || char == '\u2029' then char else '\n'
      some (kept, ⟨rest, c.offset + char.utf8Size, c.line + 1, 0⟩)
    else none
  | [] => none

/-- After a line break, if there is one. -/
def skipBreak (c : Cursor) : Cursor := (c.readBreak?.map Prod.snd).getD c

/-- The characters of the line in front that satisfy a test, and what follows them. -/
def takeWhile (c : Cursor) (test : Char → Bool) : List Char × Cursor :=
  let taken := c.rest.takeWhile test
  (taken, c.skip taken.length)

/-- After the characters of the line in front that satisfy a test. -/
def dropWhile (c : Cursor) (test : Char → Bool) : Cursor := (c.takeWhile test).2

/-- After a comment, if there is one. -/
def skipComment (c : Cursor) : Cursor :=
  if c.isAt '#' then c.dropWhile (!isBreak ·) else c

/-- Whether a line starts here with three given characters and a gap after them. -/
def startsMarker (c : Cursor) (char : Char) : Bool :=
  c.column == 0 && c.rest.take 3 == [char, char, char] && isGap (c.peekAt? 3)

def isMarker (c : Cursor) : Bool := c.startsMarker '-' || c.startsMarker '.'

end Cursor

end Settings.Yaml
