import Settings.Level
import Settings.Text.Escaped

/-!
# Repairs and options

When a value is repaired, a notice goes to the hook of the options, or else to the default handler.
The default handler warns about repairs that explain themselves and keeps silent about the others.
-/

set_option autoImplicit false

namespace Settings

/-- Notice of one repair: where, the value before and after, and what was wrong. -/
structure FixupNotice where
  path : String
  before : Value
  after : Value
  messages : List String

/-- A warning to developers, all parts rendered. -/
structure Warning where
  path : String
  before : String
  after : String
  messages : String
  message : String
  deriving DecidableEq, Repr

namespace FixupNotice

def warningText : String :=
  "One of your setting values was invalid. We were able to automatically fix it up now but please "
    ++ "update your code."

def warning (n : FixupNotice) : Warning where
  path := n.path
  before := n.before.render
  after := n.after.render
  messages := Text.escapeList n.messages
  message := warningText

def toValue (n : FixupNotice) : Value :=
  .obj (.ofList [("path", .str n.path), ("before", n.before), ("after", n.after),
    ("messages", .arr (n.messages.map .str))])

end FixupNotice

/-- When the shape of a specification is checked: before first use, or never. -/
inductive Mode
  | development
  | production
  deriving DecidableEq, Repr

instance : Inhabited Mode := ⟨.development⟩

namespace Mode

def name : Mode → String
  | development => "development"
  | production => "production"

def ofName? (s : String) : Option Mode :=
  if s = "development" then some development else if s = "production" then some production
  else none

theorem ofName?_name (m : Mode) : ofName? m.name = some m := by cases m <;> decide

end Mode

/-- How settings are managed: the mode, a hook that is told about repairs and given the default
handler, and where the host takes warnings. -/
structure Options (σ : Type) where
  mode : Mode
  onFixup : Option (FixupNotice → (FixupNotice → CallM σ Unit) → CallM σ Unit)
  warn : Warning → σ → σ

namespace Options

variable {σ : Type}

/-- The default handler: a warning, if the repair has messages. -/
def logFixup (options : Options σ) (notice : FixupNotice) : CallM σ Unit :=
  if notice.messages.isEmpty then pure () else Run.update (options.warn notice.warning)

/-- Hands a notice to the hook, or else to the default handler. -/
def report (options : Options σ) (notice : FixupNotice) : Attempt σ Unit :=
  ((match options.onFixup with
    | some hook => hook notice options.logFixup
    | none => options.logFixup notice) : CallM σ Unit).mapError
    fun text => .onFixup notice.path (.failed text)

end Options

end Settings
