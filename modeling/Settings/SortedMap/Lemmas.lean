import Settings.SortedMap.Basic

/-!
# Laws of sorted maps

The view of a map is its look-up `get?`: each operation is described by what `get?` answers
afterwards, and `SortedMap.ext` says that this view determines the map.
-/

set_option autoImplicit false

universe u v

namespace Settings.SortedMap

variable {α : Type u} {β : Type v} {lo : Option String}

theorem lt_or_eq_or_lt (a b : String) : a < b ∨ a = b ∨ b < a := by
  by_cases h : a < b
  · exact .inl h
  · by_cases h' : b < a
    · exact .inr (.inr h')
    · exact .inr (.inl (String.le_antisymm (String.not_lt.1 h') (String.not_lt.1 h)))

theorem ne_of_lt {a b : String} (h : a < b) : a ≠ b := fun e => String.lt_irrefl b (e ▸ h)

/-! ## Look-ups -/

@[simp] theorem get?_nil (key : String) : (nil : SortedMap α lo).get? key = none := rfl

@[simp] theorem get?_empty (key : String) : (∅ : SortedMap α lo).get? key = none := rfl

theorem get?_cons (k : String) (above : Above lo k) (a : α) (rest : SortedMap α (some k))
    (key : String) :
    (cons k above a rest).get? key = if key = k then some a else rest.get? key := rfl

/-- Only keys above the bound are present. -/
theorem above_of_get? {lo : Option String} {m : SortedMap α lo} {key : String} {a : α}
    (h : m.get? key = some a) : Above lo key := by
  induction m with
  | nil => cases h
  | cons k above b rest ih =>
    rw [get?_cons] at h
    split at h
    · next e => exact e ▸ above
    · exact above.trans (ih h)

/-- The bound itself is no key. -/
theorem get?_self_bound {k : String} (m : SortedMap α (some k)) : m.get? k = none := by
  cases h : m.get? k with
  | none => rfl
  | some a => exact absurd (above_of_get? h : k < k) (String.lt_irrefl k)

theorem ne_of_get? {k key : String} {m : SortedMap α (some k)} {a : α} (h : m.get? key = some a) :
    key ≠ k := by
  rintro rfl
  rw [get?_self_bound] at h
  cases h

/-- What the rest of a map has, the map has. -/
theorem get?_cons_of_get? {k key : String} {above : Above lo k} {a b : α}
    {rest : SortedMap α (some k)} (h : rest.get? key = some b) :
    (cons k above a rest).get? key = some b := by
  rw [get?_cons, if_neg (ne_of_get? h), h]

theorem get?_of_lt {k key : String} (m : SortedMap α (some k)) (lt : key < k) :
    m.get? key = none := by
  cases h : m.get? key with
  | none => rfl
  | some a =>
    exact absurd (String.lt_trans (above_of_get? h : k < key) lt) (String.lt_irrefl k)

/-- A map is determined by its look-ups. -/
theorem ext {lo : Option String} {m n : SortedMap α lo} (h : ∀ key, m.get? key = n.get? key) :
    m = n := by
  induction m with
  | nil =>
    cases n with
    | nil => rfl
    | cons k above a rest => simpa [get?_cons] using h k
  | cons k above a rest ih =>
    cases n with
    | nil => simpa [get?_cons] using h k
    | cons k' above' a' rest' =>
      have hk : k = k' := by
        rcases lt_or_eq_or_lt k k' with lt | e | gt
        · have := h k
          rw [get?_cons, get?_cons, if_pos rfl,
            if_neg (ne_of_lt lt), get?_of_lt rest' lt] at this
          cases this
        · exact e
        · have := h k'
          rw [get?_cons, get?_cons, if_pos rfl,
            if_neg (ne_of_lt gt), get?_of_lt rest gt] at this
          cases this
      subst hk
      have ha : a = a' := by
        have := h k
        simpa [get?_cons] using this
      subst ha
      have hrest : rest = rest' := by
        apply ih
        intro key
        have := h key
        rw [get?_cons, get?_cons] at this
        by_cases e : key = k
        · subst e; rw [get?_self_bound, get?_self_bound]
        · simpa [e] using this
      subst hrest
      rfl

/-! ## Each operation through the look-up -/

@[simp] theorem get?_weaken {lo hi : Option String} (m : SortedMap α hi)
    (below : ∀ k, Above hi k → Above lo k) (key : String) :
    (m.weaken below).get? key = m.get? key := by
  cases m <;> rfl

theorem get?_insertAbove {lo : Option String} (m : SortedMap α lo) (k : String) (above : Above lo k)
    (a : α) (key : String) :
    (m.insertAbove k above a).get? key = if key = k then some a else m.get? key := by
  induction m with
  | nil => rfl
  | cons k' above' a' rest ih =>
    rw [insertAbove]
    split
    · rfl
    · split
      · next gt =>
        rw [get?_cons, ih, get?_cons]
        by_cases e : key = k'
        · subst e
          rw [if_pos rfl, if_neg (ne_of_lt gt), if_pos rfl]
        · rw [if_neg e, if_neg e]
      · next h1 h2 =>
        have e : k = k' := String.le_antisymm (String.not_lt.1 h2) (String.not_lt.1 h1)
        subst e
        rw [get?_cons, get?_cons]
        split <;> simp_all

@[simp] theorem get?_insert (m : Fields α) (k : String) (a : α) (key : String) :
    (m.insert k a).get? key = if key = k then some a else m.get? key :=
  get?_insertAbove m k trivial a key

theorem get?_insert_self (m : Fields α) (k : String) (a : α) : (m.insert k a).get? k = some a :=
  (get?_insert m k a k).trans (if_pos rfl)

theorem get?_insert_of_ne {m : Fields α} {k key : String} {a : α} (h : key ≠ k) :
    (m.insert k a).get? key = m.get? key :=
  (get?_insert m k a key).trans (if_neg h)

/-- What holds of the value written and of all values before holds of all values after. -/
theorem forall_insert {P : α → Prop} {m : Fields α} {k : String} {a : α} (ha : P a)
    (hm : ∀ key b, m.get? key = some b → P b) :
    ∀ key b, (m.insert k a).get? key = some b → P b := by
  intro key b hb
  rw [get?_insert] at hb
  split at hb
  · cases hb
    exact ha
  · exact hm key b hb

@[simp] theorem get?_map {lo : Option String} (f : String → α → β) (m : SortedMap α lo)
    (key : String) : (m.map f).get? key = (m.get? key).map (f key) := by
  induction m with
  | nil => rfl
  | cons k above a rest ih =>
    rw [map, get?_cons, get?_cons, ih]
    split
    · next e => subst e; rfl
    · rfl

@[simp] theorem get?_filterMap {lo : Option String} (f : String → α → Option β)
    (m : SortedMap α lo) (key : String) :
    (m.filterMap f).get? key = (m.get? key).bind (f key) := by
  induction m with
  | nil => rfl
  | cons k above a rest ih =>
    rw [filterMap]
    split
    · next b hb =>
      rw [get?_cons, get?_cons, ih]
      split
      · next e => subst e; exact hb.symm
      · rfl
    · next hb =>
      rw [get?_weaken, ih, get?_cons]
      split
      · next e => subst e; simp [get?_self_bound, hb]
      · rfl

theorem isEmpty_iff {lo : Option String} {m : SortedMap α lo} : m.isEmpty = true ↔ m = ∅ := by
  cases m with
  | nil => exact ⟨fun _ => rfl, fun _ => rfl⟩
  | cons k above a rest => exact ⟨fun h => (by cases h), fun h => (by cases h)⟩

/-! ## Pairs -/

theorem exists_of_not_isEmpty {lo : Option String} {m : SortedMap α lo} (h : ¬ m.isEmpty = true) :
    ∃ k a, m.get? k = some a := by
  cases m with
  | nil => exact absurd rfl h
  | cons k above a rest => exact ⟨k, a, if_pos rfl⟩

theorem mem_toList {lo : Option String} {m : SortedMap α lo} {p : String × α} :
    p ∈ m.toList ↔ m.get? p.1 = some p.2 := by
  induction m with
  | nil => simp [toList]
  | cons k above a rest ih =>
    rw [toList, List.mem_cons, ih, get?_cons]
    constructor
    · rintro (rfl | h)
      · simp
      · have hk : k < p.1 := above_of_get? h
        rw [if_neg (ne_of_lt hk).symm, h]
    · split
      · next e =>
        intro h
        exact .inl (Prod.ext e (Option.some.inj h).symm)
      · exact .inr

/-- What exists for every value can be chosen for every name. -/
theorem exists_choice {γ : Type v} [Nonempty γ] {m : SortedMap α lo} {P : String → α → γ → Prop}
    (h : ∀ k a, m.get? k = some a → ∃ c, P k a c) :
    ∃ f : String → γ, ∀ k a, m.get? k = some a → P k a (f k) := by
  have hname : ∀ k, ∃ c, ∀ a, m.get? k = some a → P k a c := by
    intro k
    cases hk : m.get? k with
    | none => exact ⟨Classical.ofNonempty, fun a ha => nomatch ha⟩
    | some a =>
      obtain ⟨c, hc⟩ := h k a hk
      refine ⟨c, fun b hb => ?_⟩
      cases hb
      exact hc
  exact Classical.axiomOfChoice hname

theorem mem_keys {lo : Option String} {m : SortedMap α lo} {key : String} :
    key ∈ m.keys ↔ (m.get? key).isSome := by
  simp only [keys, List.mem_map, Prod.exists, mem_toList, exists_and_right, exists_eq_right,
    Option.isSome_iff_exists]

/-- The keys come in strictly increasing order. -/
theorem pairwise_keys {lo : Option String} (m : SortedMap α lo) :
    m.keys.Pairwise (· < ·) := by
  induction m with
  | nil => exact .nil
  | cons k above a rest ih =>
    refine .cons (fun key hkey => ?_) ih
    obtain ⟨b, hb⟩ := Option.isSome_iff_exists.1 (mem_keys.1 hkey)
    exact above_of_get? hb

theorem keys_map {lo : Option String} (f : String → α → β) (m : SortedMap α lo) :
    (m.map f).keys = m.keys := by
  induction m with
  | nil => rfl
  | cons name above a rest ih => exact congrArg (name :: ·) ih

/-- Maps with the same names list them alike. -/
theorem keys_eq_of_names {a : Fields α} {b : Fields β}
    (names : ∀ k, a.get? k = none ↔ b.get? k = none) : a.keys = b.keys := by
  have hunits : a.map (fun _ _ => ()) = b.map fun _ _ => () := by
    apply ext
    intro k
    rw [get?_map, get?_map]
    cases ha : a.get? k with
    | none =>
      rw [(names k).1 ha]
      rfl
    | some x =>
      cases hb : b.get? k with
      | none =>
        rw [(names k).2 hb] at ha
        cases ha
      | some y => rfl
  rw [← keys_map (fun _ _ => ()) a, hunits, keys_map]

@[simp] theorem insertMany_nil (m : Fields α) : m.insertMany [] = m := rfl

@[simp] theorem insertMany_cons (m : Fields α) (p : String × α) (pairs : List (String × α)) :
    m.insertMany (p :: pairs) = (m.insert p.1 p.2).insertMany pairs := rfl

private theorem mem_of_get?_insertMany {m : Fields α} {pairs : List (String × α)} {key : String}
    {a : α} (h : (m.insertMany pairs).get? key = some a) :
    (key, a) ∈ pairs ∨ m.get? key = some a := by
  induction pairs generalizing m with
  | nil => exact .inr h
  | cons p pairs ih =>
    rw [insertMany_cons] at h
    rcases ih h with hmem | hget
    · exact .inl (List.mem_cons_of_mem p hmem)
    · rw [get?_insert] at hget
      split at hget
      · next e =>
        rw [← Option.some.inj hget, e]
        exact .inl List.mem_cons_self
      · exact .inr hget

/-- What a map of a list of pairs has is one of the pairs. -/
theorem mem_of_get?_ofList {pairs : List (String × α)} {key : String} {a : α}
    (h : (ofList pairs).get? key = some a) : (key, a) ∈ pairs :=
  (mem_of_get?_insertMany h).resolve_right nofun

/-- What a map of one pair has is that pair. -/
theorem eq_of_get?_ofList {k key : String} {a b : α} (h : (ofList [(k, a)]).get? key = some b) :
    key = k ∧ b = a :=
  Prod.mk.inj (List.mem_singleton.1 (mem_of_get?_ofList h))

/-- After an assignment the overlay's keys have the overlay's values and the others keep theirs. -/
@[simp] theorem get?_assign {lo : Option String} (m : Fields α) (overlay : SortedMap α lo)
    (key : String) : (m.assign overlay).get? key = (overlay.get? key).or (m.get? key) := by
  unfold assign
  induction overlay generalizing m with
  | nil => simp [toList]
  | cons k above a rest ih =>
    rw [toList, insertMany_cons, ih, get?_cons, get?_insert]
    by_cases e : key = k
    · subst e; simp [get?_self_bound]
    · simp [e]

end Settings.SortedMap
