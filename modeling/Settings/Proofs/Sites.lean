import Settings.Proofs.Likeness

/-!
# The leaves that a value addresses

`sitesAt` lists the declared leaves for which a value has something, in the order in which resolving
comes to them: depth first, by sorted names. The list is what it should be: its members are the
leaves that paths of names into the value lead to (`mem_sitesAt`), and they stand in the
lexicographic order of those paths (`sitesAt_sorted`), so each stands there once.
-/

set_option autoImplicit false

namespace Settings

variable {σ : Type} {lo : Option String}

/-- A declared leaf, and the value that is given for it. -/
structure Site (σ : Type) where
  rules : LeafRules σ
  place : Place
  pos : Position
  value : Value

mutual

/-- The leaves that a value addresses at a position where a specifier may be declared. -/
def sitesAt : Option (Specifier σ) → Place → Position → Value → List (Site σ)
  | some (.leaf rules), place, pos, v => [⟨rules, place, pos, v⟩]
  | some s, place, pos, .obj fields => sitesBelow s place pos fields
  | _, _, _, _ => []
termination_by structural _ _ _ v => v

/-- The leaves that the fields of an object address inside a container. -/
def sitesBelow (s : Specifier σ) (place : Place) (pos : Position) {lo : Option String} :
    SortedMap Value lo → List (Site σ)
  | .nil => []
  | .cons name _ v rest =>
    sitesAt (s.below? name) (s.placeBelow place name) (pos.child name) v ++
      sitesBelow s place pos rest
termination_by structural fields => fields

end

/-- The position that a path of names leads to. -/
def Position.follow (pos : Position) (path : List String) : Position := path.foldl child pos

theorem Position.follow_cons (pos : Position) (name : String) (path : List String) :
    pos.follow (name :: path) = (pos.child name).follow path := rfl

theorem Position.path_follow (pos : Position) (path : List String) :
    (pos.follow path).path = pos.path ++ path := by
  induction path generalizing pos with
  | nil => exact (List.append_nil _).symm
  | cons name path ih => rw [follow_cons, ih, path_child, List.append_assoc]; rfl

/-- Whether a path of names leads to an entry of a record. Of the empty path it is told. -/
def isEntryAt : Option (Specifier σ) → (isEntry : Bool) → List String → Bool
  | some s, _, name :: path => isEntryAt (s.below? name) (s.kind = .record) path
  | _, isEntry, _ => isEntry

@[simp] theorem isEntryAt_nil (spec : Option (Specifier σ)) (isEntry : Bool) :
    isEntryAt spec isEntry [] = isEntry := by
  cases spec <;> rfl

/-- The object of a value, an empty one if it is none. -/
def objectOf (v : Option Value) : Fields Value := (v.bind Value.fields?).getD ∅

theorem get?_objectOf (v : Option Value) (name : String) :
    (objectOf v).get? name = v.bind (·.field? name) := by
  cases v with
  | none => rfl
  | some v => cases v <;> rfl

theorem exists_of_get?_objectOf {v : Option Value} {name : String} {x : Value}
    (h : (objectOf v).get? name = some x) :
    ∃ fields : Fields Value, v = some (.obj fields) ∧ fields.get? name = some x := by
  rw [get?_objectOf] at h
  obtain ⟨w, hv, hw⟩ := Option.bind_eq_some_iff.1 h
  obtain ⟨fields, hfields, hx⟩ := Option.bind_eq_some_iff.1 hw
  exact ⟨fields, hv.trans (congrArg some (Value.fields?_eq_some.1 hfields)), hx⟩

/-- What a path leads to in a value is what the rest of it leads to below the first name. -/
theorem bind_at?_cons (v : Option Value) (name : String) (path : List String) :
    v.bind (·.at? (name :: path)) = ((objectOf v).get? name).bind (·.at? path) := by
  rw [get?_objectOf, Option.bind_assoc]
  rfl

section Forms

variable {s : Specifier σ} {place : Place} {pos : Position}

@[simp] theorem sitesAt_none (v : Value) :
    sitesAt (none : Option (Specifier σ)) place pos v = [] := by
  cases v <;> rfl

@[simp] theorem sitesAt_leaf (rules : LeafRules σ) (v : Value) :
    sitesAt (some (.leaf rules)) place pos v = [⟨rules, place, pos, v⟩] := by
  cases v <;> rfl

theorem sitesAt_obj (container : containerKind? (some s) ≠ none) (fields : Fields Value) :
    sitesAt (some s) place pos (.obj fields) = sitesBelow s place pos fields := by
  cases s with
  | leaf rules => exact absurd rfl container
  | ns => rfl
  | record => rfl

end Forms

/-! ## Members -/

variable {place : Place} {pos : Position} {site : Site σ}

theorem mem_sitesBelow {s : Specifier σ} {fields : SortedMap Value lo} :
    site ∈ sitesBelow s place pos fields ↔ ∃ name v, fields.get? name = some v ∧
      site ∈ sitesAt (s.below? name) (s.placeBelow place name) (pos.child name) v := by
  induction fields with
  | nil =>
    refine ⟨?_, ?_⟩
    · rintro ⟨⟩
    · rintro ⟨_, _, ⟨⟩, -⟩
  | cons name above v rest ih =>
    rw [sitesBelow, List.mem_append, ih]
    constructor
    · rintro (h | ⟨k, x, hk, h⟩)
      · exact ⟨name, v, if_pos rfl, h⟩
      · exact ⟨k, x, SortedMap.get?_cons_of_get? hk, h⟩
    · rintro ⟨k, x, hk, h⟩
      rw [SortedMap.get?_cons] at hk
      split at hk
      · next e =>
        obtain rfl := Option.some.inj hk
        rw [e] at h
        exact .inl h
      · exact .inr ⟨k, x, hk, h⟩

private theorem exists_path {spec : Option (Specifier σ)} {v : Value}
    (h : site ∈ sitesAt spec place pos v) : ∃ path, Leads spec path (some (.leaf site.rules)) ∧
      v.at? path = some site.value ∧ site.place = placeAt spec place path ∧
      site.pos = pos.follow path := by
  induction v generalizing spec place pos with
  | obj fields ih =>
    cases spec with
    | none => cases h
    | some s =>
      by_cases container : containerKind? (some s) = none
      · cases s with
        | leaf rules =>
          obtain rfl := List.mem_singleton.1 h
          exact ⟨[], .here, rfl, rfl, rfl⟩
        | _ => cases container
      · rw [sitesAt_obj container, mem_sitesBelow] at h
        obtain ⟨name, x, hx, h⟩ := h
        obtain ⟨path, hpath, hvalue, hplace, hpos⟩ := ih name x hx h
        refine ⟨name :: path, leads_cons.2 ⟨container, hpath⟩, ?_, hplace, hpos⟩
        rw [Value.at?_cons, hx]
        exact hvalue
  | _ =>
    cases spec with
    | none => cases h
    | some s =>
      cases s with
      | leaf rules =>
        obtain rfl := List.mem_singleton.1 h
        exact ⟨[], .here, rfl, rfl, rfl⟩
      | _ => cases h

/-- A value addresses the declared leaves that the paths into it lead to. -/
theorem mem_sitesAt {spec : Option (Specifier σ)} {v : Value} :
    site ∈ sitesAt spec place pos v ↔ ∃ path, Leads spec path (some (.leaf site.rules)) ∧
      v.at? path = some site.value ∧ site.place = placeAt spec place path ∧
      site.pos = pos.follow path := by
  refine ⟨exists_path, ?_⟩
  rintro ⟨path, hpath, hvalue, hplace, hpos⟩
  induction path generalizing spec place pos v with
  | nil =>
    obtain ⟨rules, place', pos', x⟩ := site
    cases hpath
    cases hvalue
    cases hplace
    cases hpos
    rw [sitesAt_leaf]
    exact List.mem_singleton_self _
  | cons name path ih =>
    cases spec with
    | none => cases hpath
    | some s =>
      obtain ⟨container, hpath⟩ := leads_cons.1 hpath
      obtain ⟨fields, x, rfl, hx, hvalue⟩ := Value.at?_cons_eq_some.1 hvalue
      rw [sitesAt_obj container, mem_sitesBelow]
      exact ⟨name, x, hx, ih hpath hvalue hplace hpos⟩

/-! ## Order -/

/-- What is inside a field comes before what is inside a later field. -/
private theorem path_lt {s : Specifier σ} {fields : SortedMap Value lo} {name : String} {v : Value}
    {spec : Option (Specifier σ)} {place' : Place} {first : Site σ}
    (hfirst : first ∈ sitesAt spec place' (pos.child name) v) (hsite : site ∈ sitesBelow s place pos
      fields) (hlt : ∀ k x, fields.get? k = some x → name < k) :
    first.pos.path < site.pos.path := by
  obtain ⟨k, x, hk, hsite⟩ := mem_sitesBelow.1 hsite
  obtain ⟨path, -, -, -, hpos⟩ := mem_sitesAt.1 hfirst
  obtain ⟨path', -, -, -, hpos'⟩ := mem_sitesAt.1 hsite
  rw [hpos, hpos', Position.path_follow, Position.path_follow, Position.path_child,
    Position.path_child, List.append_assoc, List.append_assoc]
  exact List.append_left_lt (.rel (hlt k x hk))

/-- The leaves stand in the lexicographic order of their paths. -/
theorem sitesAt_sorted (spec : Option (Specifier σ)) (place : Place) (pos : Position) (v : Value) :
    (sitesAt spec place pos v).Pairwise fun a b => a.pos.path < b.pos.path := by
  have hbelow {s : Specifier σ} {place : Place} {pos : Position} {lo : Option String}
      {fields : SortedMap Value lo} (h : ∀ k x, fields.get? k = some x → ∀ spec place pos,
        (sitesAt (σ := σ) spec place pos x).Pairwise fun a b => a.pos.path < b.pos.path) :
      (sitesBelow s place pos fields).Pairwise fun a b => a.pos.path < b.pos.path := by
    induction fields with
    | nil => exact .nil
    | cons name above x rest ih =>
      rw [sitesBelow, List.pairwise_append]
      refine ⟨h name x (if_pos rfl) _ _ _, ih fun k y hk => h k y (SortedMap.get?_cons_of_get? hk),
        fun first hfirst site hsite => path_lt hfirst hsite fun k y hk => ?_⟩
      exact SortedMap.above_of_get? hk
  induction v generalizing spec place pos with
  | obj fields ih =>
    cases spec with
    | none => exact .nil
    | some s =>
      cases s with
      | leaf rules => exact List.pairwise_singleton _ _
      | _ => exact hbelow fun k x hk spec place pos => ih k x hk spec place pos
  | _ =>
    cases spec with
    | none => exact .nil
    | some s =>
      cases s with
      | leaf rules => exact List.pairwise_singleton _ _
      | _ => exact .nil

end Settings
