import Settings.Json.Printer
import Settings.Spec.Basic
import Settings.Text.Escaped

/-!
# Errors of settings

A `SettingsError` says what went wrong, at which dotted path and, where there is one, with which
value. The texts are functions of the cause.
-/

set_option autoImplicit false

namespace Settings

/-- The callbacks that have to return an object. -/
inductive ObjectCallback
  | initializer
  | mapper
  | shorthand
  deriving DecidableEq, Repr

/-- The word for such a callback in messages. -/
def ObjectCallback.name : ObjectCallback → String
  | initializer => "initializer"
  | mapper => "mapper"
  | shorthand => "shorthand"

/-- Why a callback's call counts as failed: it failed itself, or it returned no object. -/
inductive Cause
  | failed (text : String)
  | notObject (callback : ObjectCallback) (value : Value)

def Cause.message : Cause → String
  | failed text => text
  | notObject callback value =>
    callback.name ++ " must return an object but returned " ++ value.render

/-- The kinds of error that a program can tell apart. -/
inductive ErrorKind
  | initializer
  | invalidSpecifier
  | shorthand
  | recordInput
  | typeMapper
  | mapper
  | fixup
  | onFixup
  | validationRun
  | validation
  deriving DecidableEq, Repr

/-- The published name of a kind of error. -/
def ErrorKind.name : ErrorKind → String
  | initializer => "INITIALIZER"
  | invalidSpecifier => "INVALID_SPECIFIER"
  | shorthand => "SHORTHAND"
  | recordInput => "RECORD_INPUT"
  | typeMapper => "TYPE_MAPPER"
  | mapper => "MAPPER"
  | fixup => "FIXUP"
  | onFixup => "ON_FIXUP"
  | validationRun => "VALIDATION_RUN"
  | validation => "VALIDATION"

/-- What went wrong with a setting. Every error carries the dotted path of the setting. -/
inductive SettingsError
  /-- An initial value, a seed or the starters of a record could not be had. -/
  | initializer (path : String) (cause : Cause)
  /-- The mapping of a value to its data representation failed. -/
  | typeMapper (path : String) (cause : Cause)
  /-- The mapper of a namespace failed on its data. -/
  | mapper (path : String) (input : Value) (cause : Cause)
  /-- The shorthand of a namespace could not be expanded. -/
  | shorthand (path : String) (value : Value) (cause : Cause)
  /-- A namespace without shorthand got a value that is no object. -/
  | missingShorthand (path : String) (value : Value)
  /-- A record got a value that is no object, or one with an entry that is none. -/
  | recordInput (path : String) (value : Value)
  /-- The repair of a value failed. -/
  | fixup (path : String) (value : Value) (cause : Cause)
  /-- The hook that is told about repairs failed. -/
  | onFixup (path : String) (cause : Cause)
  /-- The check of a value failed to give an answer. -/
  | validationRun (path : String) (value : Value) (cause : Cause)
  /-- The value is not acceptable. -/
  | validation (path : String) (value : Value) (reasons : List String)
  /-- A namespace declares a field whose name is empty or has a dot in it. -/
  | fieldName (path : String) (atRoot : Bool) (name : String)
  /-- The entries of a record are not declared as a namespace. -/
  | recordEntry (path : String) (kind : Kind)

namespace SettingsError

def kind : SettingsError → ErrorKind
  | initializer .. => .initializer
  | typeMapper .. => .typeMapper
  | mapper .. => .mapper
  | shorthand .. | missingShorthand .. => .shorthand
  | recordInput .. => .recordInput
  | fixup .. => .fixup
  | onFixup .. => .onFixup
  | validationRun .. => .validationRun
  | validation .. => .validation
  | fieldName .. | recordEntry .. => .invalidSpecifier

def path : SettingsError → String
  | initializer path _ | typeMapper path _ | mapper path _ _ | shorthand path _ _
  | missingShorthand path _ | recordInput path _ | fixup path _ _ | onFixup path _
  | validationRun path _ _ | validation path _ _ | fieldName path _ _ | recordEntry path _ => path

/-- The offending value, where there is one. -/
def value? : SettingsError → Option Value
  | mapper _ value _ | shorthand _ value _ | missingShorthand _ value | recordInput _ value
  | fixup _ value _ | validationRun _ value _ | validation _ value _ => some value
  | initializer .. | typeMapper .. | onFixup .. | fieldName .. | recordEntry .. => none

/-- Why the value is not acceptable; other errors have no reasons. -/
def reasons : SettingsError → List String
  | validation _ _ reasons => reasons
  | _ => []

/-- The cause of the error, if a callback is to blame. -/
def cause? : SettingsError → Option Cause
  | initializer _ cause | typeMapper _ cause | mapper _ _ cause | shorthand _ _ cause
  | fixup _ _ cause | onFixup _ cause | validationRun _ _ cause => some cause
  | missingShorthand .. | recordInput .. | validation .. | fieldName .. | recordEntry .. => none

def message : SettingsError → String
  | initializer path _ =>
    "There was an unexpected error while running the initializer for setting \"" ++ path ++ "\""
  | typeMapper path _ =>
    "There was an unexpected error while running the type mapper for setting \"" ++ path ++ "\""
  | mapper path _ _ =>
    "There was an unexpected error while running the mapper for setting input \"" ++ path ++ "\""
  | shorthand path value _ =>
    "There was an unexpected error while running the namespace shorthand for setting \"" ++ path
      ++ "\". The given value was " ++ value.render
  | missingShorthand path value =>
    "Setting \"" ++ path ++ "\" is a namespace with no shorthand so expects an object but "
      ++ "received a non-object: " ++ value.render
  | recordInput path value =>
    "Received non-object input for record-kind setting \"" ++ path ++ "\". The input was "
      ++ value.render ++ ". Record settings must be objects."
  | fixup path value _ =>
    "Fixup for \"" ++ path ++ "\" failed while running on value " ++ value.render
  | onFixup path _ => "onFixup callback for \"" ++ path ++ "\" failed"
  | validationRun path value _ =>
    "Validation for \"" ++ path ++ "\" unexpectedly failed while running on value " ++ value.render
  | validation path value reasons =>
    "Your setting \"" ++ path ++ "\" failed validation with value " ++ value.render ++ ":\n\n- "
      ++ "\n- ".intercalate reasons
  | fieldName path atRoot name =>
    (if atRoot then "Root namespace" else "Namespace at path \"" ++ path ++ "\"")
      ++ " has an invalid field name " ++ Text.escape name
      ++ ". Field names must be non-empty and must not contain \".\""
  | recordEntry path kind =>
    "Record entry for setting specifier at path \"" ++ path
      ++ "\" was invalid. Record entries must be namespaces. Got: " ++ kind.name

end SettingsError

end Settings
