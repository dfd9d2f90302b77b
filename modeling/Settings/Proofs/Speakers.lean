import Settings.Layer.Merge

/-!
# Who decides in merged layers

A layer speaks about a path if it has a value there, or something that is no object on the way,
below which nothing of the layers before is left. Merging two inputs takes the overlay's word where
it speaks and the base's where it does not (`Layer.outline_at?_merge`), so that in a whole list the
last layer to speak decides (`Layer.mergeAll_at?`).
-/

set_option autoImplicit false

namespace Settings

namespace Value

/-! ## Speaking about a path -/

/-- The layer has a value at the path, or something that is no object at a shorter one. -/
def Speaks (layer : Value) (path : List String) : Prop :=
  (∃ v, layer.at? path = some v) ∨
    ∃ above v, above <+: path ∧ above ≠ path ∧ layer.at? above = some v ∧ v.isObject = false

theorem speaks_nil (layer : Value) : layer.Speaks [] := .inl ⟨layer, rfl⟩

theorem at?_eq_none_of_not_speaks {layer : Value} {path : List String} (h : ¬ layer.Speaks path) :
    layer.at? path = none :=
  Option.eq_none_iff_forall_ne_some.2 fun v hv => h (.inl ⟨v, hv⟩)

/-- What is no object speaks about everything. -/
theorem speaks_of_not_object {layer : Value} (h : layer.isObject = false) (path : List String) :
    layer.Speaks path := by
  cases path with
  | nil => exact layer.speaks_nil
  | cons name path => exact .inr ⟨[], layer, List.nil_prefix, nofun, rfl, h⟩

/-- An object speaks about what its fields speak about. -/
theorem speaks_obj_cons {fields : Fields Value} {name : String} {path : List String} :
    (obj fields).Speaks (name :: path) ↔ ∃ v, fields.get? name = some v ∧ v.Speaks path := by
  constructor
  · rintro (⟨v, hv⟩ | ⟨above, v, hshort, hne, hv, hobject⟩)
    · obtain ⟨x, hx, hv⟩ := Option.bind_eq_some_iff.1 (at?_cons fields name path ▸ hv)
      exact ⟨x, hx, .inl ⟨v, hv⟩⟩
    · cases above with
      | nil =>
        cases hv
        cases hobject
      | cons first above =>
        obtain ⟨rfl, hrest⟩ := List.cons_prefix_cons.1 hshort
        obtain ⟨x, hx, hv⟩ := Option.bind_eq_some_iff.1 (at?_cons fields first above ▸ hv)
        exact ⟨x, hx, .inr ⟨above, v, hrest, fun e => hne (congrArg _ e), hv, hobject⟩⟩
  · rintro ⟨x, hx, ⟨v, hv⟩ | ⟨above, v, hshort, hne, hv, hobject⟩⟩
    · refine .inl ⟨v, ?_⟩
      rw [at?_cons, hx]
      exact hv
    · refine .inr ⟨name :: above, v, List.cons_prefix_cons.2 ⟨rfl, hshort⟩,
        fun e => hne (List.cons.inj e).2, ?_, hobject⟩
      rw [at?_cons, hx]
      exact hv

instance decidableSpeaks (layer : Value) : (path : List String) → Decidable (layer.Speaks path)
  | [] => .isTrue layer.speaks_nil
  | name :: path =>
    match layer with
    | obj fields =>
      match h : fields.get? name with
      | some v =>
        have := decidableSpeaks v path
        decidable_of_iff (v.Speaks path) (by rw [speaks_obj_cons, h]; simp)
      | none => .isFalse (by rw [speaks_obj_cons, h]; simp)
    | null | bool _ | int _ | double _ | str _ | arr _ => .isTrue (speaks_of_not_object rfl _)

/-! ## Values but for what is in an object -/

/-- The value, an object without its fields. -/
def outline : Value → Value
  | obj _ => emptyObject
  | v => v

theorem outline_of_not_object {v : Value} (h : v.isObject = false) : v.outline = v := by
  cases v <;> first | rfl | cases h

theorem isObject_outline (v : Value) : v.outline.isObject = v.isObject := by
  cases v <;> rfl

/-- What is no object is known from its outline. -/
theorem eq_some_of_outline {a b : Option Value} (h : a.map outline = b.map outline) {v : Value}
    (hv : v.isObject = false) (ha : a = some v) : b = some v := by
  subst ha
  obtain ⟨w, rfl, hw⟩ := Option.map_eq_some_iff.1 h.symm
  have hobject : w.isObject = false := by rw [← isObject_outline, hw, isObject_outline, hv]
  rw [outline_of_not_object hobject, outline_of_not_object hv] at hw
  rw [hw]

/-- An outline shows whether there is an object. -/
theorem exists_obj_of_outline {a b : Option Value} (h : a.map outline = b.map outline)
    (ha : ∃ fields, a = some (obj fields)) : ∃ fields, b = some (obj fields) := by
  obtain ⟨fields, rfl⟩ := ha
  obtain ⟨w, rfl, hw⟩ := Option.map_eq_some_iff.1 h.symm
  cases w with
  | obj fields => exact ⟨fields, rfl⟩
  | _ => cases hw

end Value

namespace Layer

/-! ## Two inputs -/

/-- A merged input has at a path what the overlay has there, if the overlay speaks about it, and
else what the base has, but for the fields of objects. -/
theorem outline_at?_merge (base overlay : Value) (path : List String) :
    ((merge base overlay).at? path).map Value.outline =
      (if overlay.Speaks path then overlay.at? path else base.at? path).map Value.outline := by
  induction path generalizing base overlay with
  | nil =>
    rw [if_pos overlay.speaks_nil]
    cases overlay with
    | obj overlay => cases base <;> rfl
    | _ => cases base <;> rfl
  | cons name path ih =>
    cases overlay with
    | obj overlay =>
      cases base with
      | obj base =>
        rw [merge, Value.at?_cons, get?_mergeFields, Value.at?_cons, Value.at?_cons]
        simp only [Value.speaks_obj_cons]
        cases hover : overlay.get? name with
        | none => cases base.get? name <;> simp
        | some b =>
          cases hbase : base.get? name with
          | none =>
            by_cases hb : b.Speaks path
            · simp [hb]
            · simp [hb, Value.at?_eq_none_of_not_speaks hb]
          | some a => simpa using ih a b
      | _ =>
        by_cases h : (Value.obj overlay).Speaks (name :: path)
        · rw [if_pos h]
          rfl
        · rw [if_neg h]
          exact congrArg _ (Value.at?_eq_none_of_not_speaks h)
    | _ =>
      rw [if_pos (Value.speaks_of_not_object rfl _)]
      cases base <;> rfl

/-! ## A list of layers -/

/-- The last of the layers that speaks about a path. Before all of them comes the empty object. -/
def lastSpeaker? (layers : List Value) (path : List String) : Option Value :=
  (.emptyObject :: layers).reverse.find? fun layer => layer.Speaks path

/-- The last layer to speak about a path decides what the merged layers have there, but for the
fields of objects. -/
theorem outline_at?_foldl (layers : List Value) (base : Value) (path : List String) :
    ((layers.foldl merge base).at? path).map Value.outline =
      (((layers.reverse.find? fun layer => layer.Speaks path).getD base).at? path).map
        Value.outline := by
  -- The first layer counts as the base of the rest, so it decides if no later one speaks.
  induction layers generalizing base with
  | nil => rfl
  | cons layer layers ih =>
    rw [List.foldl_cons, ih, List.reverse_cons, List.find?_append]
    cases layers.reverse.find? fun layer => layer.Speaks path with
    | some last => rfl
    | none =>
      rw [Option.getD_none, outline_at?_merge, Option.none_or]
      by_cases hspeaks : layer.Speaks path
      · simp [hspeaks]
      · simp [hspeaks]

theorem outline_at?_mergeAll (layers : List Value) (path : List String) :
    ((mergeAll layers).at? path).map Value.outline =
      ((lastSpeaker? layers path).bind (·.at? path)).map Value.outline := by
  rw [mergeAll, outline_at?_foldl, lastSpeaker?, List.reverse_cons, List.find?_append]
  cases layers.reverse.find? fun layer => layer.Speaks path with
  | some last => rfl
  | none =>
    by_cases hspeaks : Value.emptyObject.Speaks path
    · simp [hspeaks]
    · simp [hspeaks, Value.at?_eq_none_of_not_speaks hspeaks]

/-- At every path the last layer to speak decides: there is no value if it has none or no layer
speaks, its value if that is no object, and an object if it has one. -/
theorem mergeAll_at? (layers : List Value) (path : List String) :
    ((mergeAll layers).at? path = none ↔
      ∀ last, lastSpeaker? layers path = some last → last.at? path = none) ∧
    (∀ v, v.isObject = false → ((mergeAll layers).at? path = some v ↔
      ∃ last, lastSpeaker? layers path = some last ∧ last.at? path = some v)) ∧
    ((∃ fields, (mergeAll layers).at? path = some (.obj fields)) ↔
      ∃ last fields, lastSpeaker? layers path = some last ∧
        last.at? path = some (.obj fields)) := by
  have houtline := outline_at?_mergeAll layers path
  refine ⟨?_, fun v hv => ?_, ?_⟩
  · rw [← Option.map_eq_none_iff, houtline, Option.map_eq_none_iff, Option.bind_eq_none_iff]
  · rw [← Option.bind_eq_some_iff]
    exact ⟨Value.eq_some_of_outline houtline hv, Value.eq_some_of_outline houtline.symm hv⟩
  · rw [exists_comm]
    simp only [← Option.bind_eq_some_iff]
    exact ⟨Value.exists_obj_of_outline houtline, Value.exists_obj_of_outline houtline.symm⟩

/-- A number in between cuts off what came before it, and the object after it starts afresh. -/
example :
    let layers : List Value := [.obj (.ofList [("a", .obj (.ofList [("b", .int 1)]))]),
      .obj (.ofList [("a", .int 7)]), .obj (.ofList [("a", .obj (.ofList [("c", .int 3)]))])]
    (mergeAll layers).at? ["a", "b"] = none ∧ (mergeAll layers).at? ["a", "c"] = some (.int 3) ∧
      lastSpeaker? layers ["a", "b"] = layers[1]? :=
  ⟨rfl, rfl, rfl⟩

end Layer

end Settings
