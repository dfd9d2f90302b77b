import Settings.Json.Printer
import Settings.Json.Reader
import Settings.Yaml.Reader

/-!
# Sources of input layers

A layer of input comes from YAML text or from a settings file, whose format its extension tells. Its
root has to be a mapping; a `null` root is an empty layer.
-/

set_option autoImplicit false

namespace Settings.Layer

/-- Why there is no layer. -/
inductive LoadError
  /-- The file is missing, cannot be read or is not UTF-8 text. -/
  | unreadable (file : String)
  /-- The extension stands for no known format. -/
  | unsupported (file : String)
  /-- The text is not YAML. -/
  | yaml
  /-- The file is not JSON. -/
  | json (file : String)
  /-- The root is no mapping. -/
  | notMapping (root : Value)
  /-- There is something wrong with what a file holds. -/
  | inFile (file : String) (error : LoadError)

namespace LoadError

/-- The messages from the outermost inwards. -/
def messages : LoadError → List String
  | unreadable file => ["Failed to read settings file " ++ file]
  | unsupported file =>
    ["Unsupported settings file " ++ file ++ ": expected a .yaml, .yml or .json extension"]
  | yaml => ["Failed to parse YAML input"]
  | json file => ["Failed to parse JSON settings file " ++ file]
  | notMapping root => ["Settings input must be a mapping, got " ++ root.render]
  | inFile file error => ("Invalid settings file " ++ file) :: error.messages

def message (e : LoadError) : String := e.messages.headD ""

end LoadError

def ofRoot : Value → Except LoadError Value
  | .obj fields => .ok (.obj fields)
  | .null => .ok .emptyObject
  | root => .error (.notMapping root)

def ofYaml (text : String) : Except LoadError Value :=
  match Yaml.parse? text with
  | some root => ofRoot root
  | none => .error .yaml

def ofJson (file text : String) : Except LoadError Value :=
  match Json.parse? text with
  | some root => (ofRoot root).mapError (.inFile file)
  | none => .error (.json file)

/-- The extension of a file name: what follows its last dot, unless the name starts with that
dot. -/
def extension? (file : String) : Option String :=
  let (after, before) := file.toList.reverse.span (· ≠ '.')
  if before.length ≤ 1 then none else some (String.ofList after.reverse)

/-- The layer of a settings file, given its name and, if it can be read, its bytes. -/
def ofFile (file : String) (content : Option ByteArray) : Except LoadError Value :=
  match content.bind String.fromUTF8? with
  | none => .error (.unreadable file)
  | some text =>
    match extension? file with
    | some "yaml" | some "yml" => (ofYaml text).mapError (.inFile file)
    | some "json" => ofJson file text
    | _ => .error (.unsupported file)

end Settings.Layer
