import Settings.Binary64.Shortest
import Settings.Text.Quoted
import Settings.Value

/-!
# Compact JSON

`Value.render` writes a value as JSON without spaces, the keys of an object in order. This is how
values appear inside messages.
-/

set_option autoImplicit false

namespace Settings

namespace Binary64

def digitsOf (n : Nat) : List Char := Nat.toDigits 10 n

def zeros (count : Nat) : List Char := List.replicate count '0'

/-- The decimal `c * 10 ^ p`: positional from 1e-5 up to below 1e16, with at least one digit on
each side of the point, and otherwise in scientific notation with a signed exponent. -/
def layout (c : Nat) (p : Int) : List Char :=
  let digits := digitsOf c
  let count := digits.length
  let point : Int := count + p
  if 0 ≤ p ∧ point ≤ 16 then digits ++ zeros p.toNat ++ ['.', '0']
  else if 0 < point ∧ point ≤ 16 then
    digits.take point.toNat ++ ['.'] ++ digits.drop point.toNat
  else if -5 < point ∧ point ≤ 0 then ['0', '.'] ++ zeros (-point).toNat ++ digits
  else
    let fraction := if count = 1 then [] else '.' :: digits.drop 1
    let exponent := point - 1
    digits.take 1 ++ fraction ++ ['e', if exponent < 0 then '-' else '+'] ++
      digitsOf exponent.natAbs

/-- The text of a finite number; JSON has none for the others, for which `null` stands in. -/
def render (x : Binary64) : String :=
  if !x.isFinite then "null"
  else
    let magnitude := if x.isZero then ['0', '.', '0'] else
      let (c, p) := x.shortest
      layout c p
    String.ofList (if x.isNegative then '-' :: magnitude else magnitude)

end Binary64

namespace Value

def render : Value → String
  | null => "null"
  | bool true => "true"
  | bool false => "false"
  | int n => toString n
  | double x => x.render
  | str s => Text.quote s
  | arr items => "[" ++ ",".intercalate (renderItems items) ++ "]"
  | obj fields => "\x7b" ++ ",".intercalate (renderFields fields) ++ "\x7d"
where
  renderItems : List Value → List String
    | [] => []
    | v :: vs => render v :: renderItems vs
  renderFields {lo : Option String} : SortedMap Value lo → List String
    | .nil => []
    | .cons k _ v rest => (Text.quote k ++ ":" ++ render v) :: renderFields rest

end Value

end Settings
