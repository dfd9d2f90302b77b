import Settings.Json.Reader
import Settings.Yaml.Tag

/-!
# Values of YAML scalars

A plain scalar is a null, a boolean, an integer or a double precision number if it is written like
one, and otherwise a string. Digits behind a leading zero are a string. A tag of the core schema
asks for one kind of value.
-/

set_option autoImplicit false

namespace Settings.Yaml

def isNullText (s : String) : Bool := ["null", "Null", "NULL", "~"].contains s

/-- The boolean that a text stands for. -/
def boolean? (s : String) : Option Bool :=
  if ["true", "True", "TRUE"].contains s then some true
  else if ["false", "False", "FALSE"].contains s then some false
  else none

/-- The digits of a number in a base. -/
def digits? (base : Nat) (cs : List Char) : Option Nat := do
  if cs.isEmpty then none
  let values ← cs.mapM fun c => (Json.hexValue? c).filter (· < base)
  some (values.foldl (fun n d => n * base + d) 0)

/-- Whether a text is a number with a superfluous leading zero. -/
def hasLeadingZero (cs : List Char) : Bool :=
  let cs := match cs with
    | '-' :: cs | '+' :: cs => cs
    | cs => cs
  1 < cs.length && cs.head? == some '0' && cs.all Char.isDigit

/-- The magnitude written with the mark of a base, or in base ten. -/
def magnitude? (cs : List Char) : Option Nat :=
  match cs with
  | '0' :: 'x' :: cs => digits? 16 cs
  | '0' :: 'o' :: cs => digits? 8 cs
  | '0' :: 'b' :: cs => digits? 2 cs
  | cs => digits? 10 cs

/-- The integer that a text stands for, of any size. -/
def integer? (cs : List Char) : Option Int :=
  if hasLeadingZero cs then none
  else
    match cs with
    | '-' :: cs => (magnitude? cs).map fun n => -(n : Int)
    | '+' :: cs => (magnitude? cs).map Int.ofNat
    | cs => (magnitude? cs).map Int.ofNat

/-- The digits of an exponent with its letter and perhaps a sign. -/
def exponent? (cs : List Char) : Option Int :=
  match cs with
  | 'e' :: '-' :: cs | 'E' :: '-' :: cs => (digits? 10 cs).map fun n => -(n : Int)
  | 'e' :: '+' :: cs | 'E' :: '+' :: cs => (digits? 10 cs).map Int.ofNat
  | 'e' :: cs | 'E' :: cs => (digits? 10 cs).map Int.ofNat
  | [] => some 0
  | _ => none

/-- The nearest number to an unsigned decimal: digits, perhaps a point among or around them, and
perhaps an exponent. -/
def decimal? (negative : Bool) (cs : List Char) : Option Binary64 := do
  let (whole, cs) := (cs.takeWhile Char.isDigit, cs.dropWhile Char.isDigit)
  let (fraction, cs) := match cs with
    | '.' :: cs => (cs.takeWhile Char.isDigit, cs.dropWhile Char.isDigit)
    | cs => ([], cs)
  let digits ← digits? 10 (whole ++ fraction)
  let exponent ← exponent? cs
  some (.ofDecimal negative digits (exponent - fraction.length))

/-- What a text that is written like a double precision number stands for. There is no value for an
infinity or what is not a number, so those are null. -/
def double? (cs : List Char) : Option Value :=
  let (negative, signed, cs) := match cs with
    | '-' :: cs => (true, true, cs)
    | '+' :: cs => (false, true, cs)
    | cs => (false, false, cs)
  if [".inf", ".Inf", ".INF"].contains (String.ofList cs) then some .null
  else if !signed && [".nan", ".NaN", ".NAN"].contains (String.ofList cs) then some .null
  else
    match decimal? negative cs with
    | some x => if x.isFinite then some (.double x) else none
    | none => none

/-- The value of an integer. What does not fit 64 bits but 128 bits is an error; beyond that, no
integer at all. -/
def integerValue? (n : Int) : Option (Option Value) :=
  if -(Int.pow 2 63) ≤ n ∧ n < Int.pow 2 64 then some (some (.int n))
  else if -(Int.pow 2 127) ≤ n ∧ n < Int.pow 2 128 then some none
  else none

/-- The value of a plain scalar without a tag. -/
def plainValue? (s : String) : Option Value :=
  if s.isEmpty || isNullText s then some .null
  else
    match boolean? s with
    | some b => some (.bool b)
    | none =>
      match (integer? s.toList).bind integerValue? with
      | some v => v
      | none =>
        if hasLeadingZero s.toList then some (.str s)
        else some ((double? s.toList).getD (.str s))

/-- A tag of the core schema; they share a start. -/
def coreTag (name : String) : Tag := .ofString ("tag:yaml.org,2002:" ++ name)

/-- The value of a scalar. A tag that names a kind of value demands one, a private tag is an error,
a local tag that names nothing counts for nothing on a plain scalar, and any other makes a
string. -/
def scalarValue? (tag : Option Tag) (plain : Bool) (s : String) : Option Value :=
  match tag with
  | none => if plain then plainValue? s else some (.str s)
  | some tag =>
    if tag.isPrivate then none
    else if tag = coreTag "bool" then (boolean? s).map .bool
    else if tag = coreTag "int" then ((integer? s.toList).bind integerValue?).bind id
    else if tag = coreTag "float" then double? s.toList
    else if tag = coreTag "null" then if isNullText s then some .null else none
    else if tag.isLocal && plain then plainValue? s
    else some (.str s)

end Settings.Yaml
