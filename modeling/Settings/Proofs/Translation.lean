import Settings.Proofs.Slot
import Settings.Spec.Validity

/-!
# Specifications with other callbacks

A `Translation` replaces the callbacks of a specification node by node, perhaps by callbacks of
another host, and leaves the tree as it is. What depends on the tree alone, such as the offences in
it and the metadata of given data, is the same afterwards. A node is told its `Place`, by which
all entries of a record are one.
-/

set_option autoImplicit false

namespace Settings

variable {σ σ₁ σ₂ : Type} {lo : Option String}

/-- A place in a specification: the names of the fields on the way to it, with no name for the step
from a record to its entries. -/
abbrev Place := List (Option String)

namespace Place

def field (place : Place) (name : String) : Place := place ++ [some name]

def entry (place : Place) : Place := place ++ [none]

end Place

/-- What becomes of the callbacks at each place. -/
structure Translation (σ σ₁ : Type) where
  leaf : Place → LeafRules σ → LeafRules σ₁
  ns : Place → NamespaceRules σ → NamespaceRules σ₁
  starters : Place → Option (CallM σ Value) → Option (CallM σ₁ Value)

mutual

/-- The specifier at a place with its callbacks translated. -/
def Specifier.translate (t : Translation σ σ₁) : Specifier σ → Place → Specifier σ₁
  | .leaf rules, place => .leaf (t.leaf place rules)
  | .ns rules specs, place => .ns (t.ns place rules) (translateFields t specs place)
  | .record starters entry, place =>
    .record (t.starters place starters) (entry.translate t place.entry)
termination_by structural s => s

/-- The fields of the namespace at a place with their callbacks translated. -/
def translateFields (t : Translation σ σ₁) {lo : Option String} :
    SortedMap (Specifier σ) lo → Place → SortedMap (Specifier σ₁) lo
  | .nil, _ => .nil
  | .cons name above s rest, place =>
    .cons name above (s.translate t (place.field name)) (translateFields t rest place)
termination_by structural specs => specs

end

/-- The root namespace with its callbacks translated. -/
def Namespace.translate (t : Translation σ σ₁) (n : Namespace σ) : Namespace σ₁ :=
  ⟨t.ns [] n.rules, translateFields t n.fields []⟩

theorem translateFields_eq_map (t : Translation σ σ₁) (specs : SortedMap (Specifier σ) lo)
    (place : Place) :
    translateFields t specs place = specs.map fun k s => s.translate t (place.field k) := by
  induction specs with
  | nil => rfl
  | cons name above s rest ih => rw [translateFields, SortedMap.map, ih]

@[simp] theorem get?_translateFields (t : Translation σ σ₁) (specs : SortedMap (Specifier σ) lo)
    (place : Place) (k : String) : (translateFields t specs place).get? k =
      (specs.get? k).map fun s => s.translate t (place.field k) := by
  rw [translateFields_eq_map, SortedMap.get?_map]

theorem Namespace.translate_toSpecifier (t : Translation σ σ₁) (n : Namespace σ) :
    (n.translate t).toSpecifier = n.toSpecifier.translate t [] := by
  show _ = (Specifier.ns n.rules n.fields).translate t []
  rw [Specifier.translate]
  rfl

/-! ## What depends on the tree alone -/

private theorem fieldsOffence?_map {specs : SortedMap (Specifier σ) lo}
    {f : String → Specifier σ → Specifier σ₁} {pos : Position}
    (h : ∀ k s, specs.get? k = some s → ∀ pos, (f k s).offence? pos = s.offence? pos) :
    fieldsOffence? (specs.map f) pos = fieldsOffence? specs pos := by
  induction specs with
  | nil => rfl
  | cons name above s rest ih =>
    have hrest : fieldsOffence? (rest.map f) pos = fieldsOffence? rest pos :=
      ih fun k s hk => h k s (SortedMap.get?_cons_of_get? hk)
    rw [SortedMap.map, fieldsOffence?, fieldsOffence?, hrest, h name s (if_pos rfl)]

theorem Specifier.offence?_translate (t : Translation σ σ₁) (s : Specifier σ) (place : Place)
    (pos : Position) : (s.translate t place).offence? pos = s.offence? pos := by
  induction s generalizing place pos with
  | leaf rules =>
    rw [Specifier.translate, Specifier.offence?, Specifier.offence?]
  | ns rules specs ih =>
    rw [Specifier.translate, Specifier.offence?, Specifier.offence?, translateFields_eq_map]
    exact fieldsOffence?_map fun k s hk pos => ih k s hk _ pos
  | record starters entry ih =>
    have hentry := ih place.entry pos
    -- An entry that is a namespace has the offences of its fields.
    cases entry <;> rw [Specifier.translate, Specifier.translate] <;>
      rw [Specifier.translate] at hentry <;>
      simp only [Specifier.offence?, Specifier.kind] at hentry ⊢
    exact hentry

theorem Namespace.offence?_translate (t : Translation σ σ₁) (n : Namespace σ) (pos : Position) :
    (n.translate t).offence? pos = n.offence? pos := by
  have h := n.toSpecifier.offence?_translate t [] pos
  rw [← Namespace.translate_toSpecifier] at h
  exact h

/-- The metadata of data does not depend on callbacks. -/
theorem Metadata.ofValue_translate (t : Translation σ σ₁) (spec : Option (Specifier σ))
    (place : Place) (v : Value) :
    ofValue (spec.map fun s => s.translate t place) v = ofValue spec v := by
  induction v generalizing spec place with
  | obj fields ih =>
    cases spec with
    | none => rfl
    | some s =>
      rw [Option.map_some]
      cases s with
      | leaf rules => rw [Specifier.translate]; rfl
      | ns rules specs =>
        rw [Specifier.translate, ofValue, ofValue]
        congr 1
        apply SortedMap.ext
        intro k
        rw [get?_ofFields, get?_ofFields, get?_translateFields]
        cases hk : fields.get? k with
        | none => rfl
        | some v => exact congrArg some (ih k v hk _ _)
      | record starters entry =>
        rw [Specifier.translate, ofValue, ofValue]
        congr 1
        apply SortedMap.ext
        intro k
        rw [get?_ofEntries, get?_ofEntries]
        cases hk : fields.get? k with
        | none => rfl
        | some v => exact congrArg some (ih k v hk (some entry) _)
  | _ =>
    cases spec with
    | none => rfl
    | some s =>
      rw [Option.map_some]
      cases s <;> rw [Specifier.translate] <;> rfl

theorem Level.ofSeed_translate (t : Translation σ σ₁) (specs : Fields (Specifier σ)) (place : Place)
    (seed : Fields Value) : ofSeed (translateFields t specs place) seed = ofSeed specs seed := by
  apply Level.ext_slot
  intro k
  show (⟨seed.get? k, (Metadata.ofFields _ seed).get? k⟩ : Slot) = ⟨seed.get? k, _⟩
  congr 1
  rw [Metadata.get?_ofFields, get?_translateFields]
  show _ = (Metadata.ofFields specs seed).get? k
  rw [Metadata.get?_ofFields]
  cases seed.get? k with
  | none => rfl
  | some v => exact congrArg some (Metadata.ofValue_translate t _ _ v)

/-! ## Translating twice, and not at all -/

namespace Translation

/-- Leaves every callback as it is. -/
protected def id (σ : Type) : Translation σ σ := ⟨fun _ rules => rules, fun _ rules => rules,
  fun _ starters => starters⟩

/-- First one translation, then another. -/
def comp (u : Translation σ₁ σ₂) (t : Translation σ σ₁) : Translation σ σ₂ where
  leaf place rules := u.leaf place (t.leaf place rules)
  ns place rules := u.ns place (t.ns place rules)
  starters place starters := u.starters place (t.starters place starters)

end Translation

theorem Specifier.translate_id (s : Specifier σ) (place : Place) :
    s.translate (.id σ) place = s := by
  induction s generalizing place with
  | leaf rules => rw [Specifier.translate]; rfl
  | ns rules specs ih =>
    rw [Specifier.translate]
    show Specifier.ns rules _ = _
    congr 1
    apply SortedMap.ext
    intro k
    rw [get?_translateFields]
    cases hk : specs.get? k with
    | none => rfl
    | some s => exact congrArg some (ih k s hk _)
  | record starters entry ih =>
    rw [Specifier.translate, ih]
    rfl

theorem Specifier.translate_translate (u : Translation σ₁ σ₂) (t : Translation σ σ₁)
    (s : Specifier σ) (place : Place) :
    (s.translate t place).translate u place = s.translate (u.comp t) place := by
  induction s generalizing place with
  | leaf rules => rw [Specifier.translate, Specifier.translate, Specifier.translate]; rfl
  | ns rules specs ih =>
    rw [Specifier.translate, Specifier.translate, Specifier.translate]
    show Specifier.ns _ _ = Specifier.ns (u.ns place (t.ns place rules)) _
    congr 1
    apply SortedMap.ext
    intro k
    rw [get?_translateFields, get?_translateFields, get?_translateFields]
    cases hk : specs.get? k with
    | none => rfl
    | some s => exact congrArg some (ih k s hk _)
  | record starters entry ih =>
    rw [Specifier.translate, Specifier.translate, Specifier.translate, ih]
    rfl

private theorem Namespace.toSpecifier_inj {n m : Namespace σ}
    (h : n.toSpecifier = m.toSpecifier) : n = m :=
  Option.some.inj (congrArg Specifier.namespace? h)

theorem Namespace.translate_id (n : Namespace σ) : n.translate (.id σ) = n := by
  apply Namespace.toSpecifier_inj
  rw [Namespace.translate_toSpecifier, Specifier.translate_id]

theorem Namespace.translate_translate (u : Translation σ₁ σ₂) (t : Translation σ σ₁)
    (n : Namespace σ) : (n.translate t).translate u = n.translate (u.comp t) := by
  apply Namespace.toSpecifier_inj
  rw [Namespace.translate_toSpecifier, Namespace.translate_toSpecifier,
    Namespace.translate_toSpecifier, Specifier.translate_translate]

end Settings
