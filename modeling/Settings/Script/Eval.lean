import Settings.Fixup
import Settings.Script.Expr

/-!
# Evaluating expressions

An expression is evaluated over a `World`: flags that the user sets, counters, and what was noted so
far. The first failure ends the evaluation; what was counted and noted before it stays.
-/

set_option autoImplicit false

namespace Settings.Script

/-- The state of the host of scripted callbacks. Notes are kept in order of time. -/
structure World where
  flags : Fields Value
  counters : Fields Nat
  trace : List (Value × Value)
  fixups : List FixupNotice
  warnings : List Warning

namespace World

def empty : World := ⟨∅, ∅, [], [], []⟩

def setFlag (w : World) (name : String) (v : Value) : World :=
  { w with flags := w.flags.insert name v }

def count (w : World) (name : String) : Nat × World :=
  let n := (w.counters.get? name).getD 0 + 1
  (n, { w with counters := w.counters.insert name n })

def note (w : World) (tag v : Value) : World := { w with trace := w.trace ++ [(tag, v)] }

def noteFixup (w : World) (notice : FixupNotice) : World :=
  { w with fixups := w.fixups ++ [notice] }

def warn (warning : Warning) (w : World) : World := { w with warnings := w.warnings ++ [warning] }

/-- The same world with all notes taken away. -/
def clearNotes (w : World) : World := { w with trace := [], fixups := [], warnings := [] }

end World

/-- The name of the kind of a value. -/
def kindName : Value → String
  | .null => "null"
  | .bool _ => "bool"
  | .int _ => "number"
  | .double _ => "number"
  | .str _ => "string"
  | .arr _ => "array"
  | .obj _ => "object"

/-- The text of a value in a concatenation: a string as it is, all else as JSON. -/
def plainText : Value → String
  | .str s => s
  | v => v.render

/-- What a value adds to a sum: itself if it is a signed 64-bit integer, and otherwise nothing. -/
def summand : Value → Int
  | .int n => if -(Int.pow 2 63) ≤ n ∧ n < Int.pow 2 63 then n else 0
  | _ => 0

/-- The length of a string, an array or an object. -/
def lengthOf : Value → Nat
  | .str s => s.length
  | .arr items => items.length
  | .obj fields => fields.size
  | _ => 0

/-- What an aspect of a position is. -/
def Aspect.of (aspect : Aspect) (pos : Position) : Value :=
  match aspect with
  | all => pos.toValue
  | key => (pos.key.map .str).getD .null
  | render => .str pos.render

mutual

/-- The value of an expression. -/
def Expr.eval (input : Value) (pos : Option Position) : Expr → CallM World Value
  | .const v => pure v
  | .input => pure input
  | .get path => pure ((input.at? path).getD .null)
  | .has path => pure (.bool (input.at? path).isSome)
  | .obj fields => Value.obj <$> evalFields input pos fields
  | .arr items => Value.arr <$> evalItems input pos items
  | .position aspect => pure ((pos.map aspect.of).getD .null)
  | .fail text => Run.fail text
  | .flag name => do
    let w ← Run.state
    pure ((w.flags.get? name).getD .null)
  | .counter name => fun w =>
    let (n, w) := w.count name
    (.ok (.int n), w)
  | .eq a b => do
    let a ← a.eval input pos
    let b ← b.eval input pos
    pure (.bool (a.same b))
  | .type e => do
    let v ← e.eval input pos
    pure (.str (kindName v))
  | .concat items => do
    let vs ← evalItems input pos items
    pure (.str (String.join (vs.map plainText)))
  | .add items => do
    let vs ← evalItems input pos items
    pure (.int (vs.foldr (fun v n => summand v + n) 0))
  | .len e => do
    let v ← e.eval input pos
    pure (.int (lengthOf v))
  | .cond test yes no => do
    match ← test.eval input pos with
    | .bool true => yes.eval input pos
    | _ => no.eval input pos
  | .trace tag e => do
    Run.update (·.note tag input)
    e.eval input pos
termination_by structural e => e

/-- The values of a list of expressions, from left to right. -/
def evalItems (input : Value) (pos : Option Position) : List Expr → CallM World (List Value)
  | [] => pure []
  | e :: es => do
    let v ← e.eval input pos
    let vs ← evalItems input pos es
    pure (v :: vs)
termination_by structural es => es

/-- The values of the fields of an object, in order of their names. -/
def evalFields {lo : Option String} (input : Value) (pos : Option Position) :
    SortedMap Expr lo → CallM World (SortedMap Value lo)
  | .nil => pure .nil
  | .cons name above e rest => do
    let v ← e.eval input pos
    let rest ← evalFields input pos rest
    pure (.cons name above v rest)
termination_by structural fields => fields

end

end Settings.Script
