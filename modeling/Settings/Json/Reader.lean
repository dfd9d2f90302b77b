import Settings.Json.Number

/-!
# Reading JSON text

A strict reader: one value with blanks around it and nothing else, no comments, no trailing commas,
no raw control characters in strings, no lone surrogates. Of two fields with one name the later
counts. Containers may nest up to a given depth.
-/

set_option autoImplicit false

namespace Settings.Json

/-- A reader gives a result and the text after it, or fails. -/
abbrev Reader (α : Type) := List Char → Option (α × List Char)

/-- The four blanks of JSON. -/
def isBlank (c : Char) : Bool := c == ' ' || c == '\n' || c == '\t' || c == '\r'

def skipBlanks (cs : List Char) : List Char := cs.dropWhile isBlank

def hexValue? (c : Char) : Option Nat :=
  if c.isDigit then some (c.toNat - '0'.toNat)
  else if 'a' ≤ c ∧ c ≤ 'f' then some (c.toNat - 'a'.toNat + 10)
  else if 'A' ≤ c ∧ c ≤ 'F' then some (c.toNat - 'A'.toNat + 10)
  else none

/-- Four hexadecimal digits. -/
def readUnit : Reader Nat
  | a :: b :: c :: d :: cs => do
    let a ← hexValue? a
    let b ← hexValue? b
    let c ← hexValue? c
    let d ← hexValue? d
    some (((a * 16 + b) * 16 + c) * 16 + d, cs)
  | _ => none

/-- The first half of a surrogate pair. -/
def isLead (n : Nat) : Bool := 0xD800 ≤ n && n < 0xDC00

/-- The second half of a surrogate pair. -/
def isTrail (n : Nat) : Bool := 0xDC00 ≤ n && n < 0xE000

/-- The character of a numeric escape, the text standing after its `u`; a character beyond the
basic plane takes a second escape. -/
def readUnicode (cs : List Char) : Option (Char × List Char) := do
  let (n, cs) ← readUnit cs
  if isTrail n then none
  else if isLead n then
    match cs with
    | '\\' :: 'u' :: cs =>
      let (m, cs) ← readUnit cs
      if isTrail m then some (Char.ofNat (0x10000 + (n - 0xD800) * 0x400 + (m - 0xDC00)), cs)
      else none
    | _ => none
  else some (Char.ofNat n, cs)

/-- The character of an escape, the text standing after its backslash. -/
def readEscape : Reader Char
  | '"' :: cs => some ('"', cs)
  | '\\' :: cs => some ('\\', cs)
  | '/' :: cs => some ('/', cs)
  | 'b' :: cs => some ('\x08', cs)
  | 'f' :: cs => some ('\x0c', cs)
  | 'n' :: cs => some ('\n', cs)
  | 'r' :: cs => some ('\r', cs)
  | 't' :: cs => some ('\t', cs)
  | 'u' :: cs => readUnicode cs
  | _ => none

/-- The rest of a string, the text standing after its opening quote. The fuel counts characters. -/
def readString : (fuel : Nat) → (seen : List Char) → Reader String
  | 0, _, _ => none
  | fuel + 1, seen, cs =>
    match cs with
    | '"' :: cs => some (String.ofList seen.reverse, cs)
    | '\\' :: cs => do
      let (c, cs) ← readEscape cs
      readString fuel (c :: seen) cs
    | c :: cs => if c.toNat < 0x20 then none else readString fuel (c :: seen) cs
    | [] => none

/-- Items separated by commas up to a closing bracket, at least one. The fuel counts items. -/
def readSeparated {α : Type} (close : Char) (item : Reader α) :
    (fuel : Nat) → (seen : List α) → Reader (List α)
  | 0, _, _ => none
  | fuel + 1, seen, cs => do
    let (a, cs) ← item (skipBlanks cs)
    match skipBlanks cs with
    | c :: cs =>
      if c = ',' then readSeparated close item fuel (a :: seen) cs
      else if c = close then some ((a :: seen).reverse, cs)
      else none
    | [] => none

/-- The items of a container, the text standing after its opening bracket. -/
def readItems {α : Type} (close : Char) (item : Reader α) : Reader (List α) := fun cs =>
  match skipBlanks cs with
  | c :: rest =>
    if c = close then some ([], rest)
    else readSeparated close item (rest.length + 1) [] (c :: rest)
  | [] => none

/-- A name, a colon and a value. -/
def readField (value : Reader Value) : Reader (String × Value)
  | '"' :: cs => do
    let (name, cs) ← readString (cs.length + 1) [] cs
    match skipBlanks cs with
    | ':' :: cs =>
      let (v, cs) ← value (skipBlanks cs)
      some ((name, v), cs)
    | _ => none
  | _ => none

/-- A value whose containers nest at most `depth` levels. -/
def readValue : (depth : Nat) → Reader Value
  | depth, cs =>
    match cs with
    | 'n' :: 'u' :: 'l' :: 'l' :: cs => some (.null, cs)
    | 't' :: 'r' :: 'u' :: 'e' :: cs => some (.bool true, cs)
    | 'f' :: 'a' :: 'l' :: 's' :: 'e' :: cs => some (.bool false, cs)
    | '"' :: cs => do
      let (s, cs) ← readString (cs.length + 1) [] cs
      some (.str s, cs)
    | '[' :: cs =>
      match depth with
      | 0 => none
      | depth + 1 => do
        let (items, cs) ← readItems ']' (readValue depth) cs
        some (.arr items, cs)
    | '\x7b' :: cs =>
      match depth with
      | 0 => none
      | depth + 1 => do
        let (fields, cs) ← readItems '\x7d' (readField (readValue depth)) cs
        some (.obj (.ofList fields), cs)
    | cs => readNumber cs

/-- How many levels of containers a settings file may nest. -/
def nestingLimit : Nat := 127

/-- The value of a text that nests at most `depth` levels of containers. -/
def parseNested? (depth : Nat) (text : String) : Option Value := do
  let (v, rest) ← readValue depth (skipBlanks text.toList)
  if (skipBlanks rest).isEmpty then some v else none

def parse? (text : String) : Option Value := parseNested? nestingLimit text

end Settings.Json
