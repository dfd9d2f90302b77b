import Settings.Proofs.Acceptance
import Settings.Proofs.Remapping

/-!
# What a commit merges

`merged` is the value that a commit leaves at a key where no mapper adds to it: what was there and
the input, merged key by key as far as both the specifier and the input have a container, and from
there on the input alone. The metadata has no part in it. A commit without mappers makes this of the
data and leaves a leaf with the input's value wherever the merge ends, whatever data and metadata it
finds (`commitAt_merges`).
-/

set_option autoImplicit false

namespace Settings

variable {σ : Type}

/-- The merge of a value into what was there, with nothing from mappers. -/
def merged (spec : Option (Specifier σ)) (v : Value) (before : Option Value) : Value :=
  mergedAt (fun _ => .null) spec v before

/-- Where no container is declared, or none is given, the value replaces what was there. -/
theorem merged_closed {spec : Option (Specifier σ)} {v : Value}
    (closed : containerKind? spec = none ∨ v.isObject = false) (before : Option Value) :
    merged spec v before = v := (remapped_closed closed).2 _ before

/-- Into an object, an object is merged key by key; anything else that was there counts as an empty
one. -/
theorem merged_obj {s : Specifier σ} (container : containerKind? (some s) ≠ none)
    (fields : Fields Value) (before : Option Value) :
    merged (some s) (.obj fields) before = .obj ((objectOf before).assign
      (fields.map fun k v => merged (s.below? k) v ((objectOf before).get? k))) := by
  cases s with
  | leaf => exact absurd rfl container
  | record starters entry =>
    rw [merged, mergedAt, mergedBelow_eq_map]
    rfl
  | ns rules specs =>
    -- The result `null` of a mapper stands for an empty object.
    have hremapped (data : Fields Value) : rules.remapped .null data = data := by
      unfold NamespaceRules.remapped
      split <;> rfl
    rw [merged, mergedAt, hremapped, mergedBelow_eq_map]
    rfl

/-- The data of a container is the merge if it is key by key. -/
private theorem merged_eq {s : Specifier σ} (container : containerKind? (some s) ≠ none)
    {fields data : Fields Value} {before : Option Value}
    (others : ∀ k, fields.get? k = none → data.get? k = (objectOf before).get? k)
    (each : ∀ k v, fields.get? k = some v →
      data.get? k = some (merged (s.below? k) v ((objectOf before).get? k))) :
    Value.obj data = merged (some s) (.obj fields) before := by
  rw [merged_obj container]
  apply congrArg Value.obj
  apply SortedMap.ext
  intro k
  rw [SortedMap.get?_assign, SortedMap.get?_map]
  cases hk : fields.get? k with
  | none => exact others k hk
  | some v => exact each k v hk

section Commits

variable {provenance : Provenance} {isEntry : Bool} {spec target : Option (Specifier σ)}
  {pos : Position} {v w : Value} {slot slot' : Slot}

/-- A commit without mappers merges the input into the data, whatever the metadata is. -/
theorem Commits.data_eq_merged (h : Commits provenance isEntry spec pos v slot slot')
    (hspec : ∀ s, spec = some s → s.WithoutMappers) :
    slot'.data = some (merged spec v slot.data) := by
  induction h with
  | value closed => exact congrArg some (merged_closed closed _).symm
  | @ns isEntry rules specs pos fields slot inner mapped others each mapper ih =>
    obtain ⟨hmapper, hfields⟩ := Specifier.everywhere_ns.1 (hspec _ rfl)
    rw [NamespaceRules.mapped_eq_empty hmapper mapper]
    refine congrArg some (merged_eq (s := .ns rules specs) (Option.some_ne_none _) ?_ ?_)
    · exact fun k hk => congrArg Slot.data (others k hk)
    · exact fun k v hk => ih k v hk (hfields k)
  | @record isEntry starters rules specs pos entries slot inner objects others each ih =>
    obtain ⟨-, hentry⟩ := Specifier.everywhere_record.1 (hspec _ rfl)
    refine congrArg some (merged_eq (s := .record starters (.ns rules specs))
      (Option.some_ne_none _) ?_ ?_)
    · exact fun k hk => congrArg Slot.data (others k hk)
    · exact fun k v hk => ih k v hk (Specifier.forall_of_some hentry)

/-- Wherever the merge ends, the metadata is the leaf that has been written. -/
theorem Commits.leaf_at {path : List String}
    (h : Commits provenance isEntry spec pos v slot slot') (hpath : Leads spec path target)
    (hv : v.at? path = some w) (closed : containerKind? target = none ∨ w.isObject = false) :
    ∃ leaf, (slot'.follow path).node = some (.leaf leaf) ∧ leaf.value = some w ∧
      leaf.provenance = provenance ∧ (provenance = .initial → leaf.initial = some w) := by
  obtain ⟨isEntry', before, after, hcommits, hnode⟩ := h.at_path hpath hv
  rw [hnode]
  cases hcommits with
  | value => exact ⟨_, rfl, rfl, rfl, fun hinitial => if_pos hinitial⟩
  | ns => rcases closed with hkind | hobject <;> contradiction
  | record => rcases closed with hkind | hobject <;> contradiction

end Commits

/-- A commit without mappers, whatever it finds: data and metadata may be of any kinds and need not
agree. If it succeeds, the other keys of the data stay and the key of the position has the merge of
the input into what was there, which the metadata has no part in. Wherever the merge ends, at a
declared leaf, at a key without specifier or at a value that is no object, the metadata is a leaf
with the input's value and the provenance of the commit; an initial commit also makes it the leaf's
initial value. -/
theorem commitAt_merges {spec : Option (Specifier σ)}
    (hspec : ∀ s, spec = some s → s.WithoutMappers) {provenance : Provenance} {input : Value}
    {pos : Position} {cell cell' : Cell} {s t : σ}
    (h : commitAt spec provenance input pos (cell, s) = (.ok (), (cell', t))) {key : String}
    (hkey : key = pos.last?.getD rootSegment) :
    (∀ k, k ≠ key → cell'.data.get? k = cell.data.get? k) ∧
    cell'.data.get? key = some (merged spec input (cell.data.get? key)) ∧
    ∀ path target w, Leads spec path target → input.at? path = some w →
      (containerKind? target = none ∨ w.isObject = false) →
      ∃ leaf, ((cell'.slot key).follow path).node = some (.leaf leaf) ∧ leaf.value = some w ∧
        leaf.provenance = provenance ∧ (provenance = .initial → leaf.initial = some w) := by
  rw [commitAt, ← hkey] at h
  have htakes : (commit spec provenance input key pos).Takes cell () cell' := ⟨s, t, h⟩
  have hcommits := commit_takes (cell.shows_slot key) htakes
  exact ⟨fun k hk => commit_local htakes hk, hcommits.data_eq_merged hspec,
    fun path target w hpath hw closed => hcommits.leaf_at hpath hw closed⟩

namespace Hosts

/-- A cell whose data has text for a host, and whose metadata is a record with a leaf for all hosts,
where a namespace is declared. -/
def garbled : Cell where
  data := .ofList [("other", .int 1), ("settings", .obj (.ofList [("hosts",
    .obj (.ofList [("x", .str "text"), ("y", .obj ∅)]))]))]
  node := .freshRecord (.ofList [("hosts", .leaf (.fresh (some .null) .change))])

/-- One host with a field that is not declared. -/
def oneHost : Value :=
  .obj (.ofList [("hosts", .obj (.ofList [("x", .obj (.ofList [("extra", .bool true)]))]))])

end Hosts

theorem commitAt_merges_hosts : ∃ cell',
    commitAt (some Hosts.root.toSpecifier) .initial Hosts.oneHost (Position.root.child "settings")
      (Hosts.garbled, ()) = (.ok (), (cell', ())) ∧
    cell'.data.get? "other" = some (.int 1) ∧
    cell'.data.get? "settings" = some (.obj (.ofList [("hosts", .obj (.ofList [("x",
      .obj (.ofList [("extra", .bool true)])), ("y", .obj ∅)]))])) ∧
    ∃ leaf, ((cell'.slot "settings").follow ["hosts", "x", "extra"]).node = some (.leaf leaf) ∧
      leaf.value = some (.bool true) ∧ leaf.provenance = .initial ∧
      leaf.initial = some (.bool true) := by
  have hcommit : commitAt (some Hosts.root.toSpecifier) .initial Hosts.oneHost
      (Position.root.child "settings") (Hosts.garbled, ()) = (.ok (), (_, ())) := rfl
  have hkey : "settings" = (Position.root.child "settings").last?.getD rootSegment := rfl
  obtain ⟨hothers, hmerged, hleaves⟩ :=
    commitAt_merges (Specifier.forall_of_some Hosts.withoutMappers) hcommit hkey
  obtain ⟨leaf, hnode, hvalue, hprovenance, hinitial⟩ := hleaves ["hosts", "x", "extra"] none
    (.bool true) (.field (.entry (.field .here))) rfl (.inl rfl)
  exact ⟨_, hcommit, hothers "other" (by decide), hmerged, leaf, hnode, hvalue, hprovenance,
    hinitial rfl⟩

end Settings
