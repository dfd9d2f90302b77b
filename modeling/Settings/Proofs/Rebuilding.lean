import Settings.Proofs.Coherence
import Settings.Proofs.Provenance

/-!
# Rebuilding metadata from data

Initialization builds data and metadata together, step by step: seeds, fields over seeds, starters
over canonical entries. `Metadata.ofFields` builds metadata from finished data in one recursion. The
two agree, but for leaves without value and for the marks of shadow leaves, which only
initialization knows of; and the initial values in the metadata are the data
(`Namespace.defaults_rebuilt`). Whatever data it is built from, `Metadata.ofFields` records all of
it (`Metadata.initialOver_ofFields`).
-/

set_option autoImplicit false

namespace Settings

variable {σ : Type} {f : LeafNode → Option LeafNode}

/-! ## Filtering leaves -/

mutual

/-- Replaces every leaf, also those of entries and snapshots. A leaf for which there is no other is
left out, and its name with it. -/
def Metadata.filterLeaves (f : LeafNode → Option LeafNode) : Metadata → Option Metadata
  | leaf node => (f node).map .leaf
  | ns fields => some (.ns (filterFields f fields))
  | record provenance value initial =>
    some (.record provenance (filterFields f value) (filterFields f initial))
termination_by structural m => m

/-- Replaces the leaves inside every field. -/
def Metadata.filterFields (f : LeafNode → Option LeafNode) {lo : Option String} :
    SortedMap Metadata lo → SortedMap Metadata lo
  | .nil => .nil
  | .cons name above node rest =>
    match filterLeaves f node with
    | some node => .cons name above node (filterFields f rest)
    | none => (filterFields f rest).weaken fun _ h => above.trans h
termination_by structural fields => fields

end

theorem Metadata.filterFields_eq_filterMap {lo : Option String} (fields : SortedMap Metadata lo) :
    filterFields f fields = fields.filterMap fun _ node => filterLeaves f node := by
  induction fields with
  | nil => rfl
  | cons name above node rest ih =>
    rw [filterFields, SortedMap.filterMap, ih]
    cases filterLeaves f node <;> rfl

theorem Metadata.get?_filterFields {lo : Option String} (fields : SortedMap Metadata lo)
    (k : String) : (filterFields f fields).get? k = (fields.get? k).bind (filterLeaves f) := by
  rw [filterFields_eq_filterMap, SortedMap.get?_filterMap]

/-- The leaf without its shadow mark, if it has a value. -/
def LeafNode.valued? (leaf : LeafNode) : Option LeafNode :=
  leaf.value.map fun _ => { leaf with isShadow := false }

/-! ## Slots that can be rebuilt -/

/-- The metadata in the slot, its leaves filtered, is what would be rebuilt from the data. -/
def Slot.Rebuilds (f : LeafNode → Option LeafNode) (spec : Option (Specifier σ)) (slot : Slot) :
    Prop :=
  slot.node.bind (·.filterLeaves f) = slot.data.map (Metadata.ofValue spec)

namespace Level

variable {level : Level}

/-- Metadata of fields that can be rebuilt can be rebuilt. -/
theorem filterFields_eq_ofFields {specs : Fields (Specifier σ)}
    (h : ∀ k, (level.slot k).Rebuilds f (specs.get? k)) :
    Metadata.filterFields f level.nodes = Metadata.ofFields specs level.data := by
  apply SortedMap.ext
  intro k
  rw [Metadata.get?_filterFields, Metadata.get?_ofFields]
  exact h k

theorem filterFields_eq_ofEntries {entry : Specifier σ}
    (h : ∀ k, (level.slot k).Rebuilds f (some entry)) :
    Metadata.filterFields f level.nodes = Metadata.ofEntries entry level.data := by
  apply SortedMap.ext
  intro k
  rw [Metadata.get?_filterFields, Metadata.get?_ofEntries]
  exact h k

/-- The initial data of fields is the data of the level. -/
theorem initialFields_eq_data
    (h : ∀ k, (level.slot k).node.bind Metadata.initial? = (level.slot k).data) :
    Metadata.initialFields level.nodes = level.data := by
  apply SortedMap.ext
  intro k
  rw [Metadata.get?_initialFields]
  exact h k

end Level

namespace Slot.Rebuilds

theorem ns {rules : NamespaceRules σ} {specs : Fields (Specifier σ)} {inner : Level}
    (h : ∀ k, (inner.slot k).Rebuilds f (specs.get? k)) :
    (of .ns inner).Rebuilds f (some (.ns rules specs)) := by
  show some (Metadata.ns (Metadata.filterFields f inner.nodes)) =
    some (.ns (Metadata.ofFields specs inner.data))
  rw [Level.filterFields_eq_ofFields h]

/-- A record that has its entries as its snapshot. -/
theorem record {starters : Option (CallM σ Value)} {entry : Specifier σ} {inner : Level}
    (h : ∀ k, (inner.slot k).Rebuilds f (some entry)) :
    (of (.record .initial inner.nodes) inner).Rebuilds f (some (.record starters entry)) := by
  show some (Metadata.freshRecord (Metadata.filterFields f inner.nodes)) =
    some (.freshRecord (Metadata.ofEntries entry inner.data))
  rw [Level.filterFields_eq_ofEntries h]

end Slot.Rebuilds

/-- What initialization leaves in a slot: metadata that could be rebuilt from the data, but for
leaves without value and the marks of shadow leaves, and that gives the data as initial. -/
structure Slot.Restorable (spec : Option (Specifier σ)) (slot : Slot) : Prop where
  metadata : slot.Rebuilds LeafNode.valued? spec
  data : slot.node.bind Metadata.initial? = slot.data

namespace Slot.Restorable

theorem empty {spec : Option (Specifier σ)} : (⟨none, none⟩ : Slot).Restorable spec := ⟨rfl, rfl⟩

/-- A leaf whose value, if it has one, is also the initial one. -/
theorem leaf {spec : Option (Specifier σ)} (terminal : containerKind? spec = none)
    (v : Option Value) (shadow : Bool) :
    (⟨v, some (.leaf ⟨v, v, .initial, shadow, false⟩)⟩ : Slot).Restorable spec := by
  refine ⟨?_, rfl⟩
  cases v with
  | none => rfl
  | some v =>
    show some (Metadata.leaf ⟨some v, some v, .initial, false, false⟩) = some (.ofValue spec v)
    rw [Metadata.ofValue_leaf terminal]
    rfl

theorem ns {rules : NamespaceRules σ} {specs : Fields (Specifier σ)} {inner : Level}
    (h : ∀ k, (inner.slot k).Restorable (specs.get? k)) :
    (of .ns inner).Restorable (some (.ns rules specs)) where
  metadata := .ns fun k => (h k).metadata
  data := by
    show some (Value.obj (Metadata.initialFields inner.nodes)) = some (.obj inner.data)
    rw [Level.initialFields_eq_data fun k => (h k).data]

theorem record {starters : Option (CallM σ Value)} {entry : Specifier σ} {inner : Level}
    (h : ∀ k, (inner.slot k).Restorable (some entry)) :
    (of (.record .initial inner.nodes) inner).Restorable (some (.record starters entry)) where
  metadata := .record fun k => (h k).metadata
  data := by
    show some (Value.obj (Metadata.initialFields inner.nodes)) = some (.obj inner.data)
    rw [Level.initialFields_eq_data fun k => (h k).data]

end Slot.Restorable

/-- Pristine metadata can be restored from the data that it is coherent with, if no leaf in it
passes its value through. -/
theorem Coherent.restorable {spec : Option (Specifier σ)} {slot : Slot}
    (h : Coherent Tied spec slot) (hpristine : slot.Pristine)
    (hfits : slot.Fits (fun _ node => node.isPassthrough = false) spec) :
    slot.Restorable spec := by
  induction h with
  | @value spec data node terminal here =>
    cases node with
    | none =>
      rw [show data = none from here]
      exact .empty
    | some node =>
      have hdata : data = node.value := here
      have hfits : node.isPassthrough = false := by
        cases hfits (.leaf node) rfl with
        | free here => exact here
        | leaf here => exact here
      cases hpristine (.leaf node) rfl with
      | @leaf v isShadow isPassthrough =>
        rw [hdata, show isPassthrough = false from hfits]
        exact .leaf terminal v isShadow
  | @ns rules specs inner fields ih =>
    cases hpristine _ rfl with
    | ns hnodes =>
      cases hfits _ rfl with
      | ns hleaves => exact .ns fun k => ih k (fun m hm => hnodes k m hm) fun m hm => hleaves k m hm
  | @record starters entry provenance initial inner entries kind ih =>
    cases hpristine _ rfl with
    | record hnodes =>
      cases hfits _ rfl with
      | record hleaves =>
        refine .record fun k => ?_
        by_cases habsent : inner.slot k = ⟨none, none⟩
        · rw [habsent]
          exact .empty
        · exact ih k habsent (fun m hm => hnodes k m hm) fun m hm => hleaves k m hm

/-- No leaf that initialization builds passes its value through. -/
private theorem Specifier.keeps_unpassed (options : Options σ) (s : Specifier σ) :
    s.Keeps options fun _ node => node.isPassthrough = false := by
  have hleaf (rules : LeafRules σ) :
      rules.Keeps options fun _ node => node.isPassthrough = false := by
    refine ⟨fun pos v node h => ?_, fun _ _ => rfl, fun pos v w _ node hnode => ?_⟩
    · obtain rfl := LeafRules.eq_initialNode h
      rfl
    · rcases hnode with rfl | hnode
      · rfl
      · exact hnode
  induction s with
  | leaf rules => exact .leaf (hleaf rules)
  | ns rules specs ih => exact .ns ⟨fun _ _ _ _ _ _ _ => rfl, fun _ _ _ _ _ _ _ _ => rfl⟩ ih
  | record starters entry ih => exact .record trivial ih

/-- Without mappers initialization agrees with what is built from its result: its metadata, without
leaves that have no value and without the marks of shadow leaves, is the metadata that the data
gives, and the initial data in its metadata is the data. -/
theorem Namespace.defaults_rebuilt {n : Namespace σ} (hmappers : n.toSpecifier.WithoutMappers)
    {pos : Position} {isEntry : Bool} {level : Level} {s t : σ}
    (h : n.defaults pos isEntry s = (.ok level, t)) :
    Metadata.filterFields LeafNode.valued? level.nodes =
      Metadata.ofFields n.fields level.data ∧
    Metadata.initialOver level.nodes ∅ = level.data := by
  have hdefaults := Namespace.defaults_toSpecifier ⟨s, t, h⟩
  have hcoherent : Coherent Tied (some n.toSpecifier) (.of .ns level) :=
    Specifier.defaults_coherent (fun _ => rfl) hmappers.mild hdefaults
  have hpristine : (Slot.of .ns level).Pristine := by
    rintro _ ⟨⟩
    exact Specifier.defaults_pristine hdefaults
  have hfits : (Slot.of .ns level).Fits (fun _ node => node.isPassthrough = false)
      (some n.toSpecifier) := by
    rintro _ ⟨⟩
    -- The options matter to changes alone, so any will do.
    exact Specifier.defaults_fits
      (Specifier.keeps_unpassed ⟨.development, none, fun _ s => s⟩ n.toSpecifier) hdefaults
  obtain ⟨hmetadata, hdata⟩ := hcoherent.restorable hpristine hfits
  refine ⟨Metadata.ns.inj (Option.some.inj hmetadata), ?_⟩
  have hinitial : Metadata.initialFields level.nodes = level.data :=
    Value.obj.inj (Option.some.inj hdata)
  apply SortedMap.ext
  intro k
  rw [Metadata.initialOver, hinitial, SortedMap.get?_assign, SortedMap.get?_empty, Option.or_none]

namespace Depots

def free : LeafRules Unit := ⟨none, none, none, none, false⟩

/-- A leaf that starts empty and keeps its value in a list. -/
def stock : LeafRules Unit :=
  { free with initial := some (pure .emptyObject), mapType := some fun v => pure (.arr [v]) }

/-- A depot, for which its size may be given. -/
def depot : Specifier Unit :=
  .ns ⟨some fun v => pure (.obj (.ofList [("size", v)])), none, none⟩
    (.ofList [("size", .leaf free), ("stock", .leaf stock), ("owner", .leaf free),
      ("total", .leaf { free with shadow := true })])

/-- A seed for one leaf and one undeclared name, and two depots to start with. -/
def root : Namespace Unit :=
  ⟨⟨none, some (pure (.obj (.ofList [("level", .int 3), ("note", .str "draft")]))), none⟩,
    .ofList [("level", .leaf free), ("total", .leaf { free with shadow := true }),
      ("depots", .record
        (some (pure (.obj (.ofList [("a", .int 7), ("b", .emptyObject)])))) depot)]⟩

/-- The data that initialization builds. -/
def data : Fields Value :=
  .ofList [("depots", .obj (.ofList [
      ("a", .obj (.ofList [("size", .int 7), ("stock", .arr [.emptyObject])])),
      ("b", .obj (.ofList [("stock", .arr [.emptyObject])]))])),
    ("level", .int 3), ("note", .str "draft")]

theorem withoutMappers : root.toSpecifier.WithoutMappers := by
  have hleaf (rules : LeafRules Unit) : (Specifier.leaf rules).WithoutMappers := .leaf trivial
  have hempty : ∀ k s, (∅ : Fields (Specifier Unit)).get? k = some s → s.WithoutMappers := by
    rintro _ _ ⟨⟩
  have hdepot : depot.WithoutMappers :=
    .ns rfl (SortedMap.forall_insert (hleaf _) (SortedMap.forall_insert (hleaf _)
      (SortedMap.forall_insert (hleaf _) (SortedMap.forall_insert (hleaf _) hempty))))
  exact .ns rfl (SortedMap.forall_insert (.record trivial hdepot)
    (SortedMap.forall_insert (hleaf _) (SortedMap.forall_insert (hleaf _) hempty)))

end Depots

theorem Namespace.defaults_rebuilt_depots : ∃ level,
    Depots.root.defaults .root false () = (.ok level, ()) ∧ level.data = Depots.data ∧
    level.nodes.get? "total" = some (.leaf ⟨none, none, .initial, true, false⟩) ∧
    Metadata.filterFields LeafNode.valued? level.nodes =
      Metadata.ofFields Depots.root.fields level.data ∧
    Metadata.initialOver level.nodes ∅ = level.data := by
  have hdefaults : Depots.root.defaults .root false () = (.ok _, ()) := rfl
  exact ⟨_, hdefaults, rfl, rfl, Namespace.defaults_rebuilt Depots.withoutMappers hdefaults⟩

/-! ## Metadata of any data -/

private theorem Metadata.initialFields_map {fields : Fields Value} {f : String → Value → Metadata}
    (h : ∀ k v, fields.get? k = some v → (f k v).initial? = some v) :
    initialFields (fields.map f) = fields := by
  apply SortedMap.ext
  intro k
  rw [get?_initialFields, SortedMap.get?_map]
  cases hk : fields.get? k with
  | none => rfl
  | some v => exact h k v hk

/-- The initial data in the metadata of a value is the value, whatever the specifier says. -/
theorem Metadata.initial?_ofValue (spec : Option (Specifier σ)) (v : Value) :
    (ofValue spec v).initial? = some v := by
  induction v generalizing spec with
  | obj fields ih =>
    -- A container takes the object apart by its names; all else keeps it as it is.
    cases spec with
    | none => rfl
    | some s =>
      cases s with
      | leaf => rfl
      | ns rules specs =>
        rw [ofValue, ofFields_eq_map, initial?,
          initialFields_map fun k v hk => ih k v hk (specs.get? k)]
      | record starters entry =>
        rw [ofValue, ofEntries_eq_map, freshRecord, initial?,
          initialFields_map fun k v hk => ih k v hk (some entry)]
  | _ =>
    rw [ofValue_closed (.inr rfl)]
    rfl

/-- Metadata made of data writes that data over an object: every key with its value, and nothing
else. Over the empty object it gives the data back. -/
theorem Metadata.initialOver_ofFields (n : Namespace σ) (data target : Fields Value) :
    (∀ k, (initialOver (ofFields n.fields data) target).get? k =
      (data.get? k).or (target.get? k)) ∧
    initialOver (ofFields n.fields data) ∅ = data := by
  have hkeys (target : Fields Value) (k : String) :
      (initialOver (ofFields n.fields data) target).get? k =
        (data.get? k).or (target.get? k) := by
    rw [initialOver, SortedMap.get?_assign, ofFields_eq_map,
      initialFields_map fun k v _ => initial?_ofValue (n.fields.get? k) v]
  refine ⟨hkeys target, SortedMap.ext fun k => ?_⟩
  rw [hkeys, SortedMap.get?_empty, Option.or_none]

end Settings
