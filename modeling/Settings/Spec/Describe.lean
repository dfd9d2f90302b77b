import Settings.Fixup

/-!
# Describing specifications

A short text for developers that shows the tree of a specification and which callbacks are present.
-/

set_option autoImplicit false

namespace Settings

variable {σ : Type}

/-- The parts of a description, between braces after its name. -/
def describeParts (name : String) (parts : List (String × String)) : String :=
  name ++ " \x7b " ++ ", ".intercalate (parts.map fun (part, text) => part ++ ": " ++ text)
    ++ " \x7d"

def describePresence {α : Type} (callback : Option α) : String :=
  toString callback.isSome

namespace Specifier

/-- The tree of specifiers with the presence of each callback. -/
def describe : Specifier σ → String
  | leaf rules =>
    describeParts "Leaf" [("initial", describePresence rules.initial),
      ("validate", describePresence rules.validate), ("fixup", describePresence rules.fixup),
      ("map_type", describePresence rules.mapType), ("shadow", toString rules.shadow)]
  | ns rules specs =>
    describeParts "Namespace"
      [("fields", "\x7b" ++ ", ".intercalate (describeFields specs) ++ "\x7d"),
        ("shorthand", describePresence rules.shorthand), ("initial", describePresence rules.seed),
        ("map", describePresence rules.mapper)]
  | record starters entry =>
    describeParts "Record" [("entry", describe entry), ("initial", describePresence starters)]
where
  describeFields {lo : Option String} : SortedMap (Specifier σ) lo → List String
    | .nil => []
    | .cons name _ spec rest =>
      (Text.escape name ++ ": " ++ describe spec) :: describeFields rest

end Specifier

/-- The name of a mode in descriptions. -/
def Mode.describe : Mode → String
  | development => "Development"
  | production => "Production"

/-- The mode and whether there is a hook. -/
def Options.describe (options : Options σ) : String :=
  describeParts "ManagerOptions"
    [("mode", options.mode.describe), ("on_fixup", describePresence options.onFixup)]

end Settings
