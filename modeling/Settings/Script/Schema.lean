import Settings.Script.Eval

/-!
# Scripted schemas

Reads specifications and options whose callbacks are expressions.
-/

set_option autoImplicit false

namespace Settings.Script

def depthLimit : Nat := 1000

/-- A violation, if a check's result is one: anything but `null`, with its strings as reasons. -/
def violation? : Value → Option Violation
  | .null => none
  | v => some ⟨(strings? v).getD []⟩

/-- A repair, if the result is one: an object with a value and messages, which may be left out. -/
def fix? : Value → Option Fix
  | .null => none
  | v => some ⟨(v.field? "value").getD .null, ((v.field? "messages").bind strings?).getD []⟩

def Expr.produce (e : Expr) : CallM World Value := e.eval .null none

def Expr.apply (e : Expr) (v : Value) : CallM World Value := e.eval v none

/-- An optional expression at a key; `none` if what is there is no expression. -/
def expr? (fields : Fields Value) (name : String) : Option (Option Expr) :=
  match fields.get? name with
  | none => some none
  | some v => (Expr.ofValue? depthLimit v).map some

def leafRules? (fields : Fields Value) : Option (LeafRules World) := do
  let initial ← expr? fields "initial"
  let validate ← expr? fields "validate"
  let fixup ← expr? fields "fixup"
  let mapType ← expr? fields "map_type"
  let default := (fields.get? "default").map Expr.const
  some {
    initial := (initial.or default).map Expr.produce
    validate := validate.map fun e v => violation? <$> e.apply v
    fixup := fixup.map fun e v => fix? <$> e.apply v
    mapType := mapType.map fun e v => e.apply v
    shadow := (fields.get? "shadow").any fun
      | .bool b => b
      | _ => false }

def namespaceRules? (fields : Fields Value) : Option (NamespaceRules World) := do
  let shorthand ← expr? fields "shorthand"
  let seed ← expr? fields "initial"
  let mapper ← expr? fields "map"
  some {
    shorthand := shorthand.map fun e v => e.apply v
    seed := seed.map Expr.produce
    mapper := mapper.map fun e v pos => e.eval v (some pos) }

/-- Reads named specifiers, given as pairs, with a given reader. -/
def readSpecs? (read : Value → Option (Specifier World)) (v : Option Value) :
    Option (Fields (Specifier World)) :=
  match v with
  | none => some ∅
  | some (.arr pairs) => do
    let specs ← pairs.mapM fun
      | .arr [.str name, spec] => (read spec).map fun spec => (name, spec)
      | _ => none
    some (.ofList specs)
  | _ => none

/-- Reads a specifier that nests at most `depth` levels. -/
def specifier? : (depth : Nat) → Value → Option (Specifier World)
  | depth + 1, .obj fields =>
    match fields.toList with
    | [("leaf", .obj fields)] => (leafRules? fields).map .leaf
    | [("ns", .obj fields)] => do
      let rules ← namespaceRules? fields
      let specs ← readSpecs? (specifier? depth) (fields.get? "fields")
      some (.ns rules specs)
    | [("record", .obj fields)] => do
      let entry ← (fields.get? "entry").bind (specifier? depth)
      let starters ← expr? fields "initial"
      some (.record (starters.map Expr.produce) entry)
    | _ => none
  | _, _ => none

def readSpecifier? (v : Value) : Option (Specifier World) := specifier? depthLimit v

/-- A hook that notes every repair, then calls the default handler and evaluates an expression, if
asked to. -/
def hook (callDefault : Bool) (after : Option Expr) (notice : FixupNotice)
    (default : FixupNotice → CallM World Unit) : CallM World Unit := do
  Run.update (·.noteFixup notice)
  if callDefault then default notice
  match after with
  | none => pure ()
  | some e => do
    let _ ← e.apply notice.toValue

/-- Reads options: the mode and the hook. -/
def options? (mode hookSpec : Option Value) : Option (Options World) := do
  let mode ← match mode with
    | none => some .development
    | some (.str name) => Mode.ofName? name
    | some _ => none
  let onFixup ← match hookSpec with
    | none => some none
    | some (.obj fields) => do
      let after ← expr? fields "then"
      let callDefault := (fields.get? "default").any fun
        | .bool b => b
        | _ => false
      some (some (hook callDefault after))
    | some _ => none
  some ⟨mode, onFixup, World.warn⟩

end Settings.Script
