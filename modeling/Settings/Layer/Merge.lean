import Settings.Value

/-!
# Merging layers of input

Inputs from several sources are merged in order: objects key by key, and of everything else the
later layer stays. A `null` in a later layer is a value like any other.
-/

set_option autoImplicit false

namespace Settings.Layer

mutual

/-- Lays an input over another. -/
def merge : (base overlay : Value) → Value
  | .obj base, .obj overlay => .obj (mergeFields base overlay)
  | _, overlay => overlay
termination_by structural _ overlay => overlay

/-- Lays the fields of an object over those of another. -/
def mergeFields {lo : Option String} : Fields Value → SortedMap Value lo → Fields Value
  | base, .nil => base
  | base, .cons name _ overlay rest =>
    mergeFields (base.insert name (match base.get? name with
      | some v => merge v overlay
      | none => overlay)) rest
termination_by structural _ overlay => overlay

end

/-- Merging objects merges where both have a value. -/
theorem get?_mergeFields {lo : Option String} (base : Fields Value)
    (overlay : SortedMap Value lo) (k : String) :
    (mergeFields base overlay).get? k =
      match base.get? k, overlay.get? k with
      | some a, some b => some (merge a b)
      | none, some b => some b
      | a, none => a := by
  induction overlay generalizing base with
  | nil => rw [mergeFields]; cases base.get? k <;> rfl
  | cons name above v rest ih =>
    rw [mergeFields, ih, SortedMap.get?_insert, SortedMap.get?_cons]
    by_cases e : k = name
    · subst e
      rw [SortedMap.get?_self_bound]
      cases base.get? k <;> simp
    · simp [e]

/-- All layers in one, the later ones over the earlier; without layers the empty object. -/
def mergeAll (layers : List Value) : Value := layers.foldl merge .emptyObject

end Settings.Layer
