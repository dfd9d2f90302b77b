import Settings.Error

/-!
# Valid specifications

What the types leave open: the entries of a record have to be a namespace, and the name of a field
is not empty and has no dot in it. The first offence in order of the names is reported.
-/

set_option autoImplicit false

namespace Settings

variable {σ : Type}

/-- Whether a name can be a field's: it is not empty and has no dot in it. -/
def isFieldName (name : String) : Bool := !name.isEmpty && !name.toList.contains '.'

mutual

/-- The first offence in a specifier, if there is one. -/
def Specifier.offence? : Specifier σ → Position → Option SettingsError
  | .leaf _, _ => none
  | .ns _ specs, pos => fieldsOffence? specs pos
  | .record _ entry, pos =>
    match entry with
    | .ns _ specs => fieldsOffence? specs pos
    | entry => some (.recordEntry pos.render entry.kind)
termination_by structural s => s

/-- The first offence in the fields of a namespace, if there is one. -/
def fieldsOffence? {lo : Option String} :
    SortedMap (Specifier σ) lo → Position → Option SettingsError
  | .nil, _ => none
  | .cons name _ spec rest, pos =>
    if isFieldName name then
      (spec.offence? (pos.child name)).or (fieldsOffence? rest pos)
    else some (.fieldName pos.render pos.isRoot name)
termination_by structural specs => specs

end

/-- The first offence in a namespace, if there is one. -/
def Namespace.offence? (n : Namespace σ) (pos : Position) : Option SettingsError :=
  fieldsOffence? n.fields pos

end Settings
