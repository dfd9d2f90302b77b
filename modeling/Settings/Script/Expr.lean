import Settings.Value

/-!
# Expressions

Callbacks written as data: an `Expr` computes a value from an input, for mappers also from a
position, and from the host's flags and counters.
-/

set_option autoImplicit false

namespace Settings.Script

/-- What an expression can ask about the position it is evaluated at. -/
inductive Aspect
  | all
  | key
  | render
  deriving DecidableEq, Repr

/-- An expression. -/
inductive Expr
  /-- A value as it stands. -/
  | const (v : Value)
  /-- The input. -/
  | input
  /-- The value at a path of object keys in the input, or `null`. -/
  | get (path : List String)
  /-- Whether there is a value at a path of object keys in the input. -/
  | has (path : List String)
  /-- An object of computed fields. -/
  | obj (fields : SortedMap Expr none)
  /-- An array of computed items. -/
  | arr (items : List Expr)
  /-- Something about the position, or `null` without one. -/
  | position (aspect : Aspect)
  /-- Fails with a text. -/
  | fail (text : String)
  /-- The value of a flag, or `null` if it was never set. -/
  | flag (name : String)
  /-- Adds one to a counter and gives it. -/
  | counter (name : String)
  /-- Whether two values are equal. -/
  | eq (a b : Expr)
  /-- The name of the kind of a value. -/
  | type (e : Expr)
  /-- The texts of the items in one string. -/
  | concat (items : List Expr)
  /-- The sum of the items that are signed 64-bit integers. -/
  | add (items : List Expr)
  /-- The length of a string, an array or an object; other values have length zero. -/
  | len (e : Expr)
  /-- The second expression if the first gives `true`, and otherwise the third. -/
  | cond (test yes no : Expr)
  /-- Notes a tag and the input, and goes on with an expression. -/
  | trace (tag : Value) (e : Expr)

instance : Inhabited Expr := ⟨.input⟩

/-- The strings of an array of strings. -/
def strings? : Value → Option (List String)
  | .arr items => items.mapM fun
    | .str s => some s
    | _ => none
  | _ => none

namespace Expr

/-- Reads each field of an object with a given reader. -/
def readFields? (read : Value → Option Expr) {lo : Option String} :
    SortedMap Value lo → Option (SortedMap Expr lo)
  | .nil => some .nil
  | .cons name above v rest => do
    let e ← read v
    let rest ← readFields? read rest
    some (.cons name above e rest)

def items? : Value → Option (List Value)
  | .arr items => some items
  | _ => none

/-- Reads the operator of an expression that is an object with one key. -/
def readOperator? (read : Value → Option Expr) (name : String) (v : Value) : Option Expr :=
  match name, v with
  | "const", v => some (.const v)
  | "in", _ => some .input
  | "get", v => (strings? v).map .get
  | "has", v => (strings? v).map .has
  | "obj", .obj fields => (readFields? read fields).map .obj
  | "arr", .arr items => (items.mapM read).map .arr
  | "ctx", .str "all" => some (.position .all)
  | "ctx", .str "key" => some (.position .key)
  | "ctx", .str "render" => some (.position .render)
  | "fail", .str text => some (.fail text)
  | "flag", .str name => some (.flag name)
  | "counter", .str name => some (.counter name)
  | "eq", .arr [a, b] => do
    let a ← read a
    let b ← read b
    some (.eq a b)
  | "type", v => (read v).map .type
  | "concat", .arr items => (items.mapM read).map .concat
  | "add", .arr items => (items.mapM read).map .add
  | "len", v => (read v).map .len
  | _, _ => none

/-- Reads an expression that nests at most `depth` levels. -/
def ofValue? : (depth : Nat) → Value → Option Expr
  | depth + 1, .obj fields =>
    match fields.get? "if", fields.get? "trace" with
    | some test, _ => do
      let test ← ofValue? depth test
      let yes ← (fields.get? "then").bind (ofValue? depth)
      let no ← (fields.get? "else").bind (ofValue? depth)
      some (.cond test yes no)
    | none, some tag => do
      let e ← (fields.get? "then").bind (ofValue? depth)
      some (.trace tag e)
    | none, none =>
      match fields.toList with
      | [(name, v)] => readOperator? (ofValue? depth) name v
      | _ => none
  | _, _ => none

end Expr

end Settings.Script
