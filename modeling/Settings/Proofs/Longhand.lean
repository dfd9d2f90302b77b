import Settings.Proofs.Callbacks
import Settings.Proofs.Slot

/-!
# Inputs written out

`Specifier.expand` writes an input out: wherever a namespace or the entry of a record is declared, a
value that is no object is replaced by the object that the namespace's shorthand makes of it, and
the fields of that object are written out in turn. What no shorthand makes an object of stays as it
is. The shorthands are called in one state of the host; which one does not matter if callbacks are
determined.
-/

set_option autoImplicit false

namespace Settings

variable {σ : Type} {lo : Option String}

/-- The object that the shorthand of the namespace makes of a value. An object stays, and so does
what the shorthand, if there is one, fails for or makes no object of. -/
def NamespaceRules.expanded (rules : NamespaceRules σ) (s : σ) (v : Value) : Value :=
  if v.isObject then v
  else
    match rules.shorthand with
    | none => v
    | some shorthand =>
      match (shorthand v s).1 with
      | .ok (.obj fields) => .obj fields
      | _ => v

/-- Replaces every field of an object; other values stay. -/
def Value.mapFields (f : String → Value → Value) : Value → Value
  | obj fields => obj (fields.map f)
  | v => v

mutual

/-- Writes a value out at the position of the specifier. -/
def Specifier.expand (s : σ) : Specifier σ → Value → Value
  | .leaf _, v => v
  | .ns rules specs, v =>
    (rules.expanded s v).mapFields fun name v => expandField s specs name v
  | .record _ entry, v => v.mapFields fun _ v => entry.expand s v
termination_by structural spec => spec

/-- Writes one field of a namespace out. A name that is not declared keeps its value. -/
def expandField (s : σ) {lo : Option String} :
    SortedMap (Specifier σ) lo → (name : String) → Value → Value
  | .nil, _, v => v
  | .cons declared _ spec rest, name, v =>
    if name = declared then spec.expand s v else expandField s rest name v
termination_by structural specs => specs

end

/-- Writes a value out at a position where a specifier may be declared. -/
def expandAt (s : σ) (spec : Option (Specifier σ)) (v : Value) : Value :=
  match spec with
  | some spec => spec.expand s v
  | none => v

theorem expandField_eq (s : σ) (specs : SortedMap (Specifier σ) lo) (name : String) (v : Value) :
    expandField s specs name v = expandAt s (specs.get? name) v := by
  induction specs with
  | nil => rfl
  | cons k above spec rest ih =>
    rw [expandField, SortedMap.get?_cons]
    split
    · rfl
    · exact ih

@[simp] theorem Value.mapFields_obj (f : String → Value → Value) (fields : Fields Value) :
    (obj fields).mapFields f = obj (fields.map f) := rfl

theorem Value.mapFields_of_plain {v : Value} (h : v.isObject = false)
    (f : String → Value → Value) : v.mapFields f = v := by
  cases v with
  | obj => cases h
  | _ => rfl

theorem Specifier.expand_ns {rules : NamespaceRules σ} (specs : Fields (Specifier σ)) {s : σ}
    {v : Value} {fields : Fields Value} (h : rules.expanded s v = .obj fields) :
    (Specifier.ns rules specs).expand s v =
      .obj (fields.map fun k x => expandAt s (specs.get? k) x) := by
  rw [Specifier.expand, h, Value.mapFields_obj]
  congr 2
  funext k x
  exact expandField_eq s specs k x

theorem Specifier.expand_record (starters : Option (CallM σ Value)) (entry : Specifier σ) (s : σ)
    (entries : Fields Value) :
    (Specifier.record starters entry).expand s (.obj entries) =
      .obj (entries.map fun _ x => expandAt s (some entry) x) := by
  rw [Specifier.expand]
  rfl

/-- Either a value stands for an object, which it is then written out as, or it is refused, and then
it stays. -/
theorem NamespaceRules.Determined.longhand_cases {rules : NamespaceRules σ} (h : rules.Determined)
    (v : Value) (pos : Position) (s t : σ) :
    (∃ fields, (rules.longhand v pos s).1 = .ok fields ∧ rules.expanded t v = .obj fields) ∨
      ∃ e, (rules.longhand v pos s).1 = .error e ∧ rules.expanded t v = v ∧ v.isObject = false := by
  unfold NamespaceRules.longhand NamespaceRules.expanded
  split
  · exact .inl ⟨_, rfl, rfl⟩
  · next hplain =>
    have hobject : v.isObject = false := by
      cases v with
      | obj fields => exact absurd rfl (hplain fields)
      | _ => rfl
    rw [if_neg (by simp [hobject])]
    cases hshorthand : rules.shorthand with
    | none => exact .inr ⟨_, rfl, rfl, hobject⟩
    | some shorthand =>
      dsimp only
      -- The shorthand returns the same whenever it is called.
      rw [h.shorthand shorthand hshorthand v t s, Run.bind_apply]
      unfold Run.mapError
      rcases shorthand v s with ⟨text | w, s'⟩
      · exact .inr ⟨_, rfl, rfl, hobject⟩
      · cases w with
        | obj fields => exact .inl ⟨fields, rfl, rfl⟩
        | _ => exact .inr ⟨_, rfl, rfl, hobject⟩

/-- Where a value stands for an object, that object is what it is written out as. -/
theorem NamespaceRules.Determined.expanded_of_longhand {rules : NamespaceRules σ}
    (h : rules.Determined) {v : Value} {pos : Position} {fields : Fields Value}
    (hlonghand : (rules.longhand v pos).Yields fields) (t : σ) :
    rules.expanded t v = .obj fields := by
  obtain ⟨s, s', hs⟩ := hlonghand
  obtain ⟨fields', hok, hexpanded⟩ | ⟨e, herror, -⟩ := h.longhand_cases v pos s t
  · rw [hs] at hok
    cases hok
    exact hexpanded
  · rw [hs] at herror
    cases herror

end Settings
