import Settings.Metadata.Basic
import Settings.Spec.Basic

/-!
# Metadata from data, and back

`Metadata.ofValue` records resolved data as initial: an object becomes a namespace or a record where
the specifier says so, and everything else a leaf. `Metadata.initial?` reads the initial data back.
-/

set_option autoImplicit false

namespace Settings

variable {σ : Type}

namespace Metadata

mutual

/-- The metadata of resolved data. -/
def ofValue : Option (Specifier σ) → Value → Metadata
  | some (.ns _ specs), .obj fields => ns (ofFields specs fields)
  | some (.record _ entry), .obj entries => freshRecord (ofEntries entry entries)
  | _, v => leaf (.fresh (some v) .initial)
termination_by structural _ v => v

/-- The metadata of every key present in the data of a namespace. -/
def ofFields {lo : Option String} (specs : Fields (Specifier σ)) :
    SortedMap Value lo → SortedMap Metadata lo
  | .nil => .nil
  | .cons name above v rest => .cons name above (ofValue (specs.get? name) v) (ofFields specs rest)
termination_by structural fields => fields

/-- The metadata of every entry of a record. -/
def ofEntries {lo : Option String} (entry : Specifier σ) :
    SortedMap Value lo → SortedMap Metadata lo
  | .nil => .nil
  | .cons name above v rest => .cons name above (ofValue (some entry) v) (ofEntries entry rest)
termination_by structural entries => entries

end

mutual

/-- The initial data that the metadata records, if any. A leaf may have none; a record gives its
snapshot. -/
def initial? : Metadata → Option Value
  | leaf node => node.initial
  | ns fields => some (.obj (initialFields fields))
  | record _ _ initial => some (.obj (initialFields initial))
termination_by structural m => m

/-- The initial data of the fields that have one. -/
def initialFields {lo : Option String} : SortedMap Metadata lo → SortedMap Value lo
  | .nil => .nil
  | .cons name above node rest =>
    match initial? node with
    | some v => .cons name above v (initialFields rest)
    | none => (initialFields rest).weaken fun _ h => above.trans h
termination_by structural fields => fields

end

/-- Writes the initial data of a namespace's fields over an object. -/
def initialOver {lo : Option String} (fields : SortedMap Metadata lo) (target : Fields Value) :
    Fields Value := target.assign (initialFields fields)

theorem ofFields_eq_map {lo : Option String} (specs : Fields (Specifier σ))
    (fields : SortedMap Value lo) :
    ofFields specs fields = fields.map fun name v => ofValue (specs.get? name) v := by
  induction fields with
  | nil => rfl
  | cons name above v rest ih => rw [ofFields, SortedMap.map, ih]

theorem ofEntries_eq_map {lo : Option String} (entry : Specifier σ) (entries : SortedMap Value lo) :
    ofEntries entry entries = entries.map fun _ v => ofValue (some entry) v := by
  induction entries with
  | nil => rfl
  | cons name above v rest ih => rw [ofEntries, SortedMap.map, ih]

theorem initialFields_eq_filterMap {lo : Option String} (fields : SortedMap Metadata lo) :
    initialFields fields = fields.filterMap fun _ node => initial? node := by
  induction fields with
  | nil => rfl
  | cons name above node rest ih =>
    rw [initialFields, SortedMap.filterMap, ih]
    cases initial? node <;> rfl

theorem get?_ofFields {lo : Option String} (specs : Fields (Specifier σ))
    (fields : SortedMap Value lo) (k : String) :
    (ofFields specs fields).get? k = (fields.get? k).map (ofValue (specs.get? k)) := by
  rw [ofFields_eq_map, SortedMap.get?_map]

theorem get?_ofEntries {lo : Option String} (entry : Specifier σ) (entries : SortedMap Value lo)
    (k : String) :
    (ofEntries entry entries).get? k = (entries.get? k).map (ofValue (some entry)) := by
  rw [ofEntries_eq_map, SortedMap.get?_map]

theorem get?_initialFields {lo : Option String} (fields : SortedMap Metadata lo) (k : String) :
    (initialFields fields).get? k = (fields.get? k).bind initial? := by
  rw [initialFields_eq_filterMap, SortedMap.get?_filterMap]

end Metadata

end Settings
