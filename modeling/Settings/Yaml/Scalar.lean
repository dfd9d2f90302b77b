import Settings.Json.Reader
import Settings.Yaml.Cursor

/-!
# The text of YAML scalars

Plain and quoted scalars are folded: between words of one line their blanks stay, and a line break
becomes a blank, or the empty lines after it. Block scalars keep their lines or fold them, and their
last line break is clipped, stripped or kept with the empty lines after it.
-/

set_option autoImplicit false

namespace Settings.Yaml

/-- What separates two words: the blanks up to the first line break, whether there was one, the
break itself and the breaks of further empty lines. -/
structure Gap where
  broken : Bool
  spaces : List Char
  first : List Char
  more : List Char

namespace Gap

def empty : Gap := ⟨false, [], [], []⟩

/-- A gap over a line break that is left out. -/
def joined : Gap := ⟨true, [], [], []⟩

def text (g : Gap) : List Char :=
  if g.broken then
    if g.first == ['\n'] then if g.more.isEmpty then [' '] else g.more
    else g.first ++ g.more
  else g.spaces

/-- Reads blanks and line breaks. A tab left of the given column, on a line of its own, is an
error. -/
def read? (tabLimit : Nat) : (fuel : Nat) → Gap → Cursor → Option (Gap × Cursor)
  | 0, g, c => some (g, c)
  | fuel + 1, g, c =>
    match c.readBreak? with
    | some (char, after) =>
      if g.broken then read? tabLimit fuel { g with more := g.more ++ [char] } after
      else read? tabLimit fuel { g with broken := true, spaces := [], first := [char] } after
    | none =>
      match c.peek? with
      | some char =>
        if isBlank char then
          if g.broken then
            if char == '\t' && c.column < tabLimit then none
            else read? tabLimit fuel g c.next
          else read? tabLimit fuel { g with spaces := g.spaces ++ [char] } c.next
        else some (g, c)
      | none => some (g, c)

end Gap

/-! ## Plain scalars -/

/-- The brackets and the comma of flow collections. -/
def isFlowIndicator (c : Char) : Bool :=
  c == ',' || c == '[' || c == ']' || c == '\x7b' || c == '\x7d'

/-- The characters of a plain scalar up to a gap or an indicator. In a flow collection a colon in
front of an indicator is an error. -/
def plainWord? (flow : Bool) : List Char → Option (List Char)
  | [] => some []
  | c :: cs =>
    if isGap (some c) then some []
    else if flow && c == ':' && cs.head?.any fun d => isFlowIndicator d || d == '?' then none
    else if (c == ':' && isGap cs.head?) || (flow && isFlowIndicator c) then some []
    else (plainWord? flow cs).map (c :: ·)

/-- Reads a plain scalar: its text, whether a line break follows it, and what comes after the gap
behind it. The scalar goes on over lines that are indented to the given column. What was read is
kept in reverse. -/
def readPlain? (flow : Bool) (indent : Nat) :
    (fuel : Nat) → (seen : List Char) → Gap → Cursor → Option (List Char × Bool × Cursor)
  | 0, _, _, _ => none
  | fuel + 1, seen, gap, c =>
    if c.isMarker || c.isAt '#' then some (seen.reverse, gap.broken, c)
    else do
      let word ← plainWord? flow c.rest
      let c := c.skip word.length
      let (seen, gap) :=
        if word.isEmpty then (seen, gap) else ((gap.text ++ word).reverse ++ seen, .empty)
      if isGap c.peek? && c.peek?.isSome then
        let (gap, c) ← gap.read? indent (fuel + 1) c
        if !flow && c.column < indent then some (seen.reverse, gap.broken, c)
        else readPlain? flow indent fuel seen gap c
      else some (seen.reverse, gap.broken, c)

/-! ## Quoted scalars -/

/-- The character of a hexadecimal escape with a number of digits. -/
def readHexEscape? (digits : Nat) (cs : List Char) : Option (Char × List Char) := do
  let values ← (cs.take digits).mapM Json.hexValue?
  if values.length < digits then none
  let n := values.foldl (fun n d => n * 16 + d) 0
  if (0xD800 ≤ n ∧ n ≤ 0xDFFF) ∨ 0x10FFFF < n then none
  some (Char.ofNat n, cs.drop digits)

/-- The character of an escape, the text standing after its backslash, and how long the escape
is. -/
def readEscape? (cs : List Char) : Option (Char × Nat) :=
  match cs with
  | '0' :: _ => some ('\x00', 1)
  | 'a' :: _ => some ('\x07', 1)
  | 'b' :: _ => some ('\x08', 1)
  | 't' :: _ | '\t' :: _ => some ('\t', 1)
  | 'n' :: _ => some ('\n', 1)
  | 'v' :: _ => some ('\x0b', 1)
  | 'f' :: _ => some ('\x0c', 1)
  | 'r' :: _ => some ('\r', 1)
  | 'e' :: _ => some ('\x1b', 1)
  | ' ' :: _ => some (' ', 1)
  | '"' :: _ => some ('"', 1)
  | '/' :: _ => some ('/', 1)
  | '\\' :: _ => some ('\\', 1)
  | 'N' :: _ => some ('\u0085', 1)
  | '_' :: _ => some ('\u00a0', 1)
  | 'L' :: _ => some ('\u2028', 1)
  | 'P' :: _ => some ('\u2029', 1)
  | 'x' :: cs => (readHexEscape? 2 cs).map fun r => (r.1, 3)
  | 'u' :: cs => (readHexEscape? 4 cs).map fun r => (r.1, 5)
  | 'U' :: cs => (readHexEscape? 8 cs).map fun r => (r.1, 9)
  | _ => none

/-- The characters of a quoted scalar up to a gap or the closing quote. The last part says whether
they ended with an escaped line break. What was read is kept in reverse. -/
def quotedWord? (single : Bool) :
    (fuel : Nat) → (seen : List Char) → Cursor → Option (List Char × Bool × Cursor)
  | 0, seen, c => some (seen.reverse, false, c)
  | fuel + 1, seen, c =>
    match c.rest with
    | [] => some (seen.reverse, false, c)
    | char :: rest =>
      if isGap (some char) then some (seen.reverse, false, c)
      else if single then
        if char == '\'' then
          if rest.head? == some '\'' then quotedWord? single fuel ('\'' :: seen) (c.skip 2)
          else some (seen.reverse, false, c)
        else quotedWord? single fuel (char :: seen) c.next
      else if char == '"' then some (seen.reverse, false, c)
      else if char == '\\' then
        match c.next.readBreak? with
        | some (_, c) => some (seen.reverse, true, c)
        | none => do
          let (char, length) ← readEscape? rest
          quotedWord? single fuel (char :: seen) (c.skip (length + 1))
      else quotedWord? single fuel (char :: seen) c.next

/-- Reads the rest of a quoted scalar, the text standing after its opening quote. What was read is
kept in reverse. -/
def readQuoted? (single : Bool) :
    (fuel : Nat) → (seen : List Char) → Cursor → Option (List Char × Cursor)
  | 0, _, _ => none
  | fuel + 1, seen, c =>
    if c.isMarker || c.rest.isEmpty then none
    else do
      let (word, escaped, c) ← quotedWord? single (fuel + 1) [] c
      let seen := word.reverse ++ seen
      if c.isAt (if single then '\'' else '"') then some (seen.reverse, c.next)
      else
        let start := if escaped then Gap.joined else Gap.empty
        let (gap, c) ← start.read? 0 (fuel + 1) c
        readQuoted? single fuel (gap.text.reverse ++ seen) c

/-! ## Block scalars -/

/-- What becomes of the line break at the end of a block scalar. -/
inductive Chomping
  | clip
  | strip
  | keep
  deriving DecidableEq

/-- A sign that says how to chomp. -/
def chomping? : Option Char → Option Chomping
  | some '+' => some .keep
  | some '-' => some .strip
  | _ => none

/-- A digit that says how far a block scalar is indented; zero is an error. -/
def indentation? (c : Cursor) : Option (Option Nat × Cursor) :=
  match c.peek? with
  | some char =>
    if char == '0' then none
    else if char.isDigit then some (some (char.toNat - '0'.toNat), c.next)
    else some (none, c)
  | none => some (none, c)

/-- The header of a block scalar after its indicator: chomping and indentation in any order. -/
def readHeader? (c : Cursor) : Option (Chomping × Option Nat × Cursor) :=
  match chomping? c.peek? with
  | some chomping => do
    let (indent, c) ← indentation? c.next
    some (chomping, indent, c)
  | none => do
    let (indent, c) ← indentation? c
    match if indent.isSome then chomping? c.peek? else none with
    | some chomping => some (chomping, indent, c.next)
    | none => some (.clip, indent, c)

/-- Reads the empty lines in front of a line of a block scalar: the widest indentation seen, the
breaks, and what follows. Without a known indentation all blanks are skipped, and a tab among them
is an error. -/
def readEmptyLines? (indent : Option Nat) :
    (fuel : Nat) → (widest : Nat) → (breaks : List Char) → Cursor →
      Option (Nat × List Char × Cursor)
  | 0, _, _, _ => none
  | fuel + 1, widest, breaks, c =>
    let blanks := c.rest.takeWhile (· == ' ')
    let wanted := match indent with
      | some n => min blanks.length (n - c.column)
      | none => blanks.length
    let c := c.skip wanted
    let widest := max widest c.column
    if c.isAt '\t' && indent.all (c.column < ·) then none
    else
      match c.readBreak? with
      | some (char, c) => readEmptyLines? indent fuel widest (breaks ++ [char]) c
      | none => some (widest, breaks, c)

/-- Reads the lines of a block scalar. `last` is the break of the line before, `empties` are those
of the empty lines after it, and `indented` says whether that line started with a blank. What was
read is kept in reverse. -/
def readLines? (literal : Bool) (indent : Nat) : (fuel : Nat) → (seen last empties : List Char) →
    (indented : Bool) → Cursor → Option (List Char × List Char × List Char × Cursor)
  | 0, _, _, _, _, _ => none
  | fuel + 1, seen, last, empties, indented, c =>
    if c.column == indent && !c.rest.isEmpty then do
      let blank := c.peek?.any isBlank
      let folds := !literal && last == ['\n'] && !indented && !blank
      let gap := if folds then if empties.isEmpty then [' '] else [] else last
      let (line, c) := c.takeWhile (!isBreak ·)
      let seen := (gap ++ empties ++ line).reverse ++ seen
      let (last, c) := match c.readBreak? with
        | some (char, c) => ([char], c)
        | none => ([], c)
      let (_, empties, c) ← readEmptyLines? (some indent) (fuel + 1) 0 [] c
      readLines? literal indent fuel seen last empties blank c
    else some (seen.reverse, last, empties, c)

/-- Reads a block scalar, the text standing after its indicator. The parent's indentation is one
less than the least that the scalar can have. The fuel counts characters. -/
def readBlock? (literal : Bool) (parent : Int) (fuel : Nat) (c : Cursor) :
    Option (List Char × Cursor) := do
  let (chomping, increment, c) ← readHeader? c
  let c := (c.dropWhile isBlank).skipComment
  if !isLineEnd c.peek? then none
  let c := c.skipBreak
  let given := increment.map fun n => (max parent 0).toNat + n
  let (widest, empties, c) ← readEmptyLines? given fuel 0 [] c
  let indent := given.getD (max (max widest (parent + 1).toNat) 1)
  let (text, last, empties, c) ←
    readLines? literal indent fuel [] [] empties false c
  let ending := match chomping with
    | .strip => []
    | .clip => last
    | .keep => last ++ empties
  some (text ++ ending, c)

end Settings.Yaml
