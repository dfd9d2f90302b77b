import Settings.Proofs.Alike
import Settings.Proofs.Translation

/-!
# Data that is the same but for exempt values

Two sides of a comparison may differ in data at names that are exempt, as long as no container is
declared there. Exempt names are given for each `Place`, that is for all entries of a record at
once. Everything else is the same, so both sides have the same containers at declared positions
(`SameBut`), and levels with such data have the same metadata (`Level.SameBut`). Since only data
that nothing is declared in may differ, whatever an operation decides by looking at a declared
container it decides alike on both sides.
-/

set_option autoImplicit false

namespace Settings

variable {σ σ₁ σ₂ α₁ α₂ : Type}

/-- The place of what a name below a specifier leads to. -/
def Specifier.placeBelow : Specifier σ → Place → String → Place
  | .record _ _, place, _ => place.entry
  | _, place, name => place.field name

/-- The place that a path of names leads to. -/
def placeAt : Option (Specifier σ) → Place → List String → Place
  | some s, place, name :: path => placeAt (s.below? name) (s.placeBelow place name) path
  | _, place, _ => place

/-- The data of two sides at a place is the same, except where a name is exempt. -/
inductive SameBut (exempt : Place → String → Prop) :
    Option (Specifier σ) → Place → Option Value → Option Value → Prop
  | same {spec : Option (Specifier σ)} {place : Place} {data : Option Value} :
      SameBut exempt spec place data data
  | inside {s : Specifier σ} {place : Place} {a b : Fields Value}
      (container : containerKind? (some s) ≠ none)
      (names : ∀ k, ¬ (exempt place k ∧ containerKind? (s.below? k) = none) →
        SameBut exempt (s.below? k) (s.placeBelow place k) (a.get? k) (b.get? k)) :
      SameBut exempt (some s) place (some (.obj a)) (some (.obj b))

/-- The data inside a container is the same, except where a name is exempt. Which names of the
container itself are exempt may differ from what is exempt at its place. -/
def SameFields (exempt : Place → String → Prop) (top : String → Prop) (s : Specifier σ)
    (place : Place) (a b : Fields Value) : Prop :=
  ∀ k, ¬ (top k ∧ containerKind? (s.below? k) = none) →
    SameBut exempt (s.below? k) (s.placeBelow place k) (a.get? k) (b.get? k)

/-- Two levels have the same metadata and, except at exempt names, the same data. -/
structure Level.SameBut (exempt : Place → String → Prop) (top : String → Prop) (s : Specifier σ)
    (place : Place) (a b : Level) : Prop where
  nodes : a.nodes = b.nodes
  data : SameFields exempt top s place a.data b.data

/-- Two cells have the same metadata and, except at exempt names, the same data around it. -/
structure Cell.SameBut (exempt : Place → String → Prop) (top : String → Prop) (s : Specifier σ)
    (place : Place) (a b : Cell) : Prop where
  node : a.node = b.node
  data : SameFields exempt top s place a.data b.data

/-- What a node is initialized to is the same on both sides, except at exempt names. -/
structure Initialized.SameBut (exempt : Place → String → Prop) (s : Specifier σ) (place : Place)
    (a b : Initialized) : Prop where
  node : a.node = b.node
  data : Settings.SameBut exempt (some s) place a.data b.data

variable {exempt : Place → String → Prop} {top : String → Prop} {spec : Option (Specifier σ)}
  {s parent : Specifier σ} {place : Place}

/-! ## The same data -/

namespace SameBut

/-- Where no container is declared, everything is the same. -/
theorem eq_of_terminal {a b : Option Value} (h : SameBut exempt spec place a b)
    (terminal : containerKind? spec = none) : a = b := by
  cases h with
  | same => rfl
  | inside container _ => exact absurd terminal container

/-- Both sides have data or neither, and both have an object or neither. -/
theorem isObject {a b : Option Value} (h : SameBut exempt spec place a b) :
    a.map Value.isObject = b.map Value.isObject := by
  cases h <;> rfl

theorem eq_none {b : Option Value} (h : SameBut exempt spec place none b) : b = none := by
  cases h
  rfl

/-- The objects at a container's position, empty ones where there are none. -/
theorem objects {a b : Option Value} (h : SameBut exempt (some s) place a b) :
    SameFields exempt (exempt place) s place ((a.bind Value.fields?).getD ∅)
      ((b.bind Value.fields?).getD ∅) := by
  cases h with
  | same => exact fun _ _ => .same
  | inside _ names => exact names

/-- The fields of a container's object, where there is one. -/
theorem field {a b : Option Value} (h : SameBut exempt (some s) place a b) {k : String}
    (hk : ¬ (exempt place k ∧ containerKind? (s.below? k) = none)) :
    SameBut exempt (s.below? k) (s.placeBelow place k) (a.bind (·.field? k))
      (b.bind (·.field? k)) := by
  cases h with
  | same => exact .same
  | inside _ names => exact names k hk

/-- With nothing exempt, the same but for that is the same. -/
theorem eq {a b : Option Value} (h : SameBut (fun _ _ => False) spec place a b) : a = b := by
  induction h with
  | same => rfl
  | inside _ _ ih =>
    congr 2
    apply SortedMap.ext
    intro k
    exact ih k fun hk => hk.1

end SameBut

/-! ## Along a path -/

/-- What leads to a container is a container. -/
theorem Leads.container {target : Specifier σ} {path : List String}
    (h : Leads (some s) path (some target)) (container : containerKind? (some target) ≠ none) :
    containerKind? (some s) ≠ none := by
  cases path with
  | nil =>
    cases h
    exact container
  | cons name path => exact (leads_cons.1 h).1

/-- On the way to a container nothing is exempt. -/
theorem SameBut.follow {target : Specifier σ} {path : List String} {a b : Option Value}
    (h : SameBut exempt (some s) place a b) (hpath : Leads (some s) path (some target))
    (container : containerKind? (some target) ≠ none) :
    SameBut exempt (some target) (placeAt (some s) place path) (a.bind (·.at? path))
      (b.bind (·.at? path)) := by
  induction path generalizing s place a b with
  | nil =>
    cases hpath
    have hat (c : Option Value) : c.bind (·.at? []) = c := Option.bind_fun_some c
    rw [hat, hat]
    exact h
  | cons name path ih =>
    obtain ⟨-, hrest⟩ := leads_cons.1 hpath
    have hat (c : Option Value) :
        c.bind (·.at? (name :: path)) = (c.bind (·.field? name)).bind (·.at? path) :=
      (Option.bind_assoc c (·.field? name) (·.at? path)).symm
    rw [hat, hat, placeAt]
    cases hs : s.below? name with
    | none =>
      rw [hs] at hrest
      cases hrest
    | some inner =>
      rw [hs] at hrest
      have hfield := h.field fun hk => hrest.container container (hs ▸ hk.2)
      rw [hs] at hfield
      exact ih hfield hrest

/-! ## The same fields -/

namespace SameFields

variable {a b : Fields Value}

theorem refl (fields : Fields Value) : SameFields exempt top s place fields fields :=
  fun _ _ => .same

/-- With nothing exempt, fields are the same. -/
theorem eq (h : SameFields (fun _ _ => False) (fun _ => False) s place a b) : a = b :=
  SortedMap.ext fun k => (h k fun hk => hk.1).eq

/-- Fields that are the same at every name are the same at those that are not exempt. -/
theorem of_all (h : SameFields exempt (fun _ => False) s place a b) :
    SameFields exempt top s place a b :=
  fun k _ => h k fun hk => hk.1

/-- Fields that are the same at every name are empty together. -/
theorem isEmpty (h : SameFields exempt (fun _ => False) s place a b) : a.isEmpty = b.isEmpty := by
  have hnone (k : String) : a.get? k = none ↔ b.get? k = none := by
    have hk := (h k fun hk => hk.1).isObject
    cases ha : a.get? k <;> cases hb : b.get? k <;> rw [ha, hb] at hk <;> simp_all
  rw [Bool.eq_iff_iff, SortedMap.isEmpty_iff, SortedMap.isEmpty_iff]
  constructor
  · rintro rfl
    apply SortedMap.ext
    intro k
    exact (hnone k).1 rfl
  · rintro rfl
    apply SortedMap.ext
    intro k
    exact (hnone k).2 rfl

variable {pplace : Place} {name : String}

/-- A container is declared at the name, so it is not exempt. -/
theorem at_container (h : SameFields exempt top parent pplace a b)
    (hbelow : parent.below? name = some s) (hplace : parent.placeBelow pplace name = place)
    (container : containerKind? (some s) ≠ none) :
    SameBut exempt (some s) place (a.get? name) (b.get? name) := by
  have hname := h name fun hk => container (hbelow ▸ hk.2)
  rwa [hbelow, hplace] at hname

theorem insert (h : SameFields exempt top parent pplace a b) (hbelow : parent.below? name = spec)
    (hplace : parent.placeBelow pplace name = place) {v w : Value}
    (hv : SameBut exempt spec place (some v) (some w)) :
    SameFields exempt top parent pplace (a.insert name v) (b.insert name w) := by
  intro k hk
  rw [SortedMap.get?_insert, SortedMap.get?_insert]
  split
  · next e =>
    rw [e, hbelow, hplace]
    exact hv
  · exact h k hk

/-- The object of a container with such fields. -/
theorem obj (h : SameFields exempt (exempt place) s place a b)
    (container : containerKind? (some s) ≠ none) :
    SameBut exempt (some s) place (some (.obj a)) (some (.obj b)) :=
  .inside container h

end SameFields

/-! ## The same levels -/

namespace Level.SameBut

variable {a b : Level} {pplace : Place} {name : String}

theorem refl (level : Level) : level.SameBut exempt top s place level := ⟨rfl, .refl _⟩

/-- With nothing exempt, levels are the same. -/
theorem eq (h : a.SameBut (fun _ _ => False) (fun _ => False) s place b) : a = b := by
  obtain ⟨data, nodes⟩ := a
  obtain ⟨data', nodes'⟩ := b
  obtain rfl : nodes = nodes' := h.nodes
  obtain rfl : data = data' := h.data.eq
  rfl

/-- Writing the same metadata and data that is the same. -/
theorem set (h : a.SameBut exempt top parent pplace b) (hbelow : parent.below? name = spec)
    (hplace : parent.placeBelow pplace name = place) {v w : Value}
    (hv : Settings.SameBut exempt spec place (some v) (some w)) (node : Metadata) :
    (a.set name v node).SameBut exempt top parent pplace (b.set name w node) :=
  ⟨congrArg (·.insert name node) h.nodes, h.data.insert hbelow hplace hv⟩

theorem put (h : a.SameBut exempt top parent pplace b) (hbelow : parent.below? name = some s)
    (hplace : parent.placeBelow pplace name = place)
    (container : containerKind? (some s) ≠ none) {inner inner' : Level}
    (hinner : inner.SameBut exempt (exempt place) s place inner') (c : Container) :
    (a.put name c inner).SameBut exempt top parent pplace (b.put name c inner') := by
  unfold Level.put
  rw [← hinner.nodes]
  exact h.set hbelow hplace (hinner.data.obj container) _

/-- The levels inside a container, which count as empty where there is none. -/
theorem opened (h : a.SameBut exempt top parent pplace b) (hbelow : parent.below? name = some s)
    (hplace : parent.placeBelow pplace name = place)
    (container : containerKind? (some s) ≠ none) (kind : ContainerKind) :
    ((a.slot name).opened kind).SameBut exempt (exempt place) s place
      ((b.slot name).opened kind) := by
  have hnode : (a.slot name).node = (b.slot name).node := congrArg (·.get? name) h.nodes
  refine ⟨?_, (h.data.at_container hbelow hplace container).objects⟩
  unfold Slot.opened
  rw [hnode]

variable {field field' : Initialized}

theorem overlay (h : a.SameBut exempt top parent pplace b) (hbelow : parent.below? name = some s)
    (hplace : parent.placeBelow pplace name = place)
    (hfield : field.SameBut exempt s place field') :
    (a.overlay name field).SameBut exempt top parent pplace (b.overlay name field') := by
  obtain ⟨data, node⟩ := field
  obtain ⟨data', node'⟩ := field'
  obtain ⟨hnode, hdata⟩ := hfield
  obtain rfl : node = node' := hnode
  cases data with
  | none =>
    obtain rfl : data' = none := hdata.eq_none
    exact ⟨congrArg (Metadata.mergeField · name node) h.nodes, h.data⟩
  | some v =>
    cases data' with
    | none => cases hdata.isObject
    | some w => exact h.set hbelow hplace hdata node

theorem add (h : a.SameBut exempt top parent pplace b) (hbelow : parent.below? name = some s)
    (hplace : parent.placeBelow pplace name = place)
    (hfield : field.SameBut exempt s place field') :
    (a.add name field).SameBut exempt top parent pplace (b.add name field') := by
  obtain ⟨data, node⟩ := field
  obtain ⟨data', node'⟩ := field'
  obtain ⟨hnode, hdata⟩ := hfield
  obtain rfl : node = node' := hnode
  cases data with
  | none =>
    obtain rfl : data' = none := hdata.eq_none
    exact ⟨congrArg (·.insert name node) h.nodes, h.data⟩
  | some v =>
    cases data' with
    | none => cases hdata.isObject
    | some w => exact h.set hbelow hplace hdata node

end Level.SameBut

/-! ## Going inside -/

namespace SameBut

variable {p q : Slot} {kind : ContainerKind}

/-- Containers are entered on both sides or on neither. -/
theorem enter?_none (h : SameBut exempt (some s) place p.data q.data) (hnode : p.node = q.node)
    (hp : p.enter? kind = none) : q.enter? kind = none := by
  obtain ⟨data, node⟩ := p
  obtain ⟨data', node'⟩ := q
  obtain rfl : node = node' := hnode
  dsimp only at h
  cases h with
  | same => exact hp
  | inside container names =>
    unfold Slot.enter? at hp ⊢
    dsimp only at hp ⊢
    cases hopen : node.bind (·.open? kind) with
    | none => rfl
    | some opened =>
      rw [hopen] at hp
      cases hp

theorem enter?_some (h : SameBut exempt (some s) place p.data q.data) (hnode : p.node = q.node)
    {c : Container} {inner : Level} (hp : p.enter? kind = some (c, inner)) :
    ∃ inner', q.enter? kind = some (c, inner') ∧
      inner.SameBut exempt (exempt place) s place inner' := by
  obtain ⟨data, node⟩ := p
  obtain ⟨data', node'⟩ := q
  obtain rfl : node = node' := hnode
  dsimp only at h
  cases h with
  | same => exact ⟨inner, hp, .refl inner⟩
  | inside container names =>
    unfold Slot.enter? at hp ⊢
    dsimp only at hp ⊢
    cases hopen : node.bind (·.open? kind) with
    | none =>
      rw [hopen] at hp
      cases hp
    | some opened =>
      rw [hopen] at hp
      cases hp
      exact ⟨_, rfl, rfl, names⟩

end SameBut

namespace Link

variable {link : Link σ₁ σ₂}

/-- Edits of a container, whatever is exempt at its top, taken one level up. -/
theorem edits_within {A : α₁ → α₂ → Prop} {kind : ContainerKind} {pplace : Place} {name : String}
    {r₁ : Edit σ₁ Level α₁} {r₂ : Edit σ₂ Level α₂} (hkind : containerKind? (some s) = some kind)
    (hbelow : parent.below? name = some s) (hplace : parent.placeBelow pplace name = place)
    (h : ∀ top, link.Edits (Level.SameBut exempt top s place)
      (fun a b l₁ l₂ => A a b ∧ l₁.SameBut exempt top s place l₂) r₁ r₂) :
    link.Edits (Level.SameBut exempt top parent pplace)
      (fun a b l₁ l₂ => A a b ∧ l₁.SameBut exempt top parent pplace l₂)
      (Level.within kind name r₁) (Level.within kind name r₂) := by
  have hcontainer : containerKind? (some s) ≠ none := by
    rw [hkind]
    exact Option.some_ne_none kind
  intro l₁ l₂
  unfold Level.within
  rw [Run.on_zoom, Run.on_zoom]
  have hnode (hl : l₁.SameBut exempt top parent pplace l₂) :
      (l₁.slot name).node = (l₂.slot name).node := congrArg (·.get? name) hl.nodes
  have hdata (hl : l₁.SameBut exempt top parent pplace l₂) :
      Settings.SameBut exempt (some s) place (l₁.slot name).data (l₂.slot name).data :=
    hl.data.at_container hbelow hplace hcontainer
  have hslot (l : Level) : l.enter? kind name = (l.slot name).enter? kind := rfl
  have hinside (l : Level) : (((l.slot name).enter? kind).map Prod.snd).getD ∅ =
      (l.slot name).inside kind := rfl
  simp only [hslot, hinside, Bool.true_and]
  cases hentered : (l₁.slot name).enter? kind with
  | some entered =>
    obtain ⟨c, inner⟩ := entered
    refine ((h (exempt place) _ _).when fun hl => ?_).map fun hl p q hpq => ?_
    · obtain ⟨inner', hentered', hinner⟩ := (hdata hl).enter?_some (hnode hl) hentered
      rw [(Slot.inside_eq_opened hentered).1, (Slot.inside_eq_opened hentered').1]
      exact hinner
    · obtain ⟨inner', hentered', -⟩ := (hdata hl).enter?_some (hnode hl) hentered
      rw [hentered']
      exact ⟨hpq.1, hl.put hbelow hplace hcontainer hpq.2 c⟩
  | none =>
    -- Both sides edit a scratch level. It starts without data, so nothing of it is exempt.
    refine ((h (fun _ => False) _ _).when fun hl => ?_).map fun hl p q hpq => ?_
    · have hentered' := (hdata hl).enter?_none (hnode hl) hentered
      rw [Slot.inside, Slot.inside, hentered, hentered']
      exact .refl _
    · rw [(hdata hl).enter?_none (hnode hl) hentered, ← hpq.2.data.isEmpty]
      dsimp only
      refine ⟨hpq.1, ?_⟩
      split
      · exact hl.put hbelow hplace hcontainer ⟨hpq.2.nodes, hpq.2.data.of_all⟩ _
      · exact hl

end Link

end Settings
