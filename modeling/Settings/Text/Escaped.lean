import Settings.Text.Quoted
import Settings.Text.Unprintable

/-!
# Escaped text

How a name is shown to a developer: between double quotes, with short escapes for a quote, a
backslash, tab, line feed, carriage return and NUL. Other characters without a glyph of their own
are written as `\\u` with their code point in hexadecimal between braces.
-/

set_option autoImplicit false

namespace Settings.Text

/-- The hexadecimal digits of a number, without leading zeros. -/
def hexDigits (n : Nat) : List Char := Nat.toDigits 16 n

def showChar (c : Char) : List Char :=
  if c = '"' then ['\\', '"']
  else if c = '\\' then ['\\', '\\']
  else if c = '\t' then ['\\', 't']
  else if c = '\n' then ['\\', 'n']
  else if c = '\r' then ['\\', 'r']
  else if c = '\x00' then ['\\', '0']
  else if isUnprintable c then ['\\', 'u', '\x7b'] ++ hexDigits c.toNat ++ ['\x7d']
  else [c]

/-- The text between double quotes, with what has no glyph made visible. -/
def escape (s : String) : String := String.ofList ('"' :: s.toList.flatMap showChar ++ ['"'])

/-- A list of texts, escaped, between square brackets. -/
def escapeList (items : List String) : String :=
  "[" ++ ", ".intercalate (items.map escape) ++ "]"

end Settings.Text
