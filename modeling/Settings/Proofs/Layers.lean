import Settings.Layer.Merge
import Settings.Proofs.Applies

/-!
# Layers merged and layers in sequence

Merging layers knows no specification: it goes by the objects in its inputs. It does what changes
one after the other would do as long as the objects of every layer stand where the specification
has containers (`IsLayer`). Then two inputs that apply one after the other apply merged
(`Applies.merge`), which carries over to any number of layers.
-/

set_option autoImplicit false

namespace Settings

variable {σ : Type}

/-- An input in which objects stand at declared namespaces, records and their entries, and nowhere
else. -/
inductive IsLayer : Option (Specifier σ) → Value → Prop
  | value {spec : Option (Specifier σ)} {v : Value} (terminal : containerKind? spec = none)
      (plain : v.isObject = false) : IsLayer spec v
  | ns {rules : NamespaceRules σ} {specs : Fields (Specifier σ)} {fields : Fields Value}
      (each : ∀ k v, fields.get? k = some v → IsLayer (specs.get? k) v) :
      IsLayer (some (.ns rules specs)) (.obj fields)
  | record {starters : Option (CallM σ Value)} {entry : Specifier σ} {entries : Fields Value}
      (objects : ∀ k v, entries.get? k = some v → v.isObject = true)
      (each : ∀ k v, entries.get? k = some v → IsLayer (some entry) v) :
      IsLayer (some (.record starters entry)) (.obj entries)

/-! ## Merging -/

namespace Layer

/-- What is no object replaces what it is laid over. -/
theorem merge_of_plain {overlay : Value} (h : overlay.isObject = false) (base : Value) :
    merge base overlay = overlay := by
  cases overlay with
  | obj fields => cases h
  | _ => cases base <;> rfl

theorem isObject_merge {base overlay : Value} (h : overlay.isObject = true) :
    (merge base overlay).isObject = true := by
  cases overlay with
  | obj fields => cases base <;> rfl
  | _ => cases h

/-- What holds of the values of both objects, and of those that are merged, holds of all values. -/
theorem forall_mergeFields {P : String → Value → Prop} {base overlay : Fields Value}
    (hbase : ∀ k v, base.get? k = some v → P k v)
    (hoverlay : ∀ k v, overlay.get? k = some v → P k v)
    (hboth : ∀ k a b, base.get? k = some a → overlay.get? k = some b → P k (merge a b)) :
    ∀ k v, (mergeFields base overlay).get? k = some v → P k v := by
  intro k v hk
  rw [get?_mergeFields] at hk
  cases ha : base.get? k with
  | none =>
    cases hb : overlay.get? k with
    | none =>
      rw [ha, hb] at hk
      cases hk
    | some b =>
      rw [ha, hb] at hk
      exact hoverlay k v (hb.trans hk)
  | some a =>
    cases hb : overlay.get? k with
    | none =>
      rw [ha, hb] at hk
      exact hbase k v (ha.trans hk)
    | some b =>
      rw [ha, hb] at hk
      rw [← Option.some.inj hk]
      exact hboth k a b ha hb

end Layer

/-- Two layers merge into a layer. -/
theorem IsLayer.merge {spec : Option (Specifier σ)} {v v' : Value} (h : IsLayer spec v)
    (h' : IsLayer spec v') : IsLayer spec (Layer.merge v v') := by
  induction h generalizing v' with
  | value terminal plain =>
    cases h' with
    | value _ plain' =>
      rw [Layer.merge_of_plain plain']
      exact .value terminal plain'
    | ns => cases terminal
    | record => cases terminal
  | ns each ih =>
    cases h' with
    | value terminal => cases terminal
    | ns each' =>
      rw [Layer.merge]
      exact .ns (Layer.forall_mergeFields each each' fun k a b ha hb => ih k a ha (each' k b hb))
  | record objects each ih =>
    cases h' with
    | value terminal => cases terminal
    | record objects' each' =>
      rw [Layer.merge]
      exact .record
        (Layer.forall_mergeFields objects objects' fun k a b _ hb =>
          Layer.isObject_merge (objects' k b hb))
        (Layer.forall_mergeFields each each' fun k a b ha hb => ih k a ha (each' k b hb))

/-! ## Applying merged layers -/

/-- Two steps at a name are one step with what the objects merge to there, if this is so where both
have a value. -/
private theorem IfGiven.merge {step : Value → Slot → Slot → Prop} {fields fields' : Fields Value}
    {k : String} {slot mid slot' : Slot} (h : IfGiven step (fields.get? k) slot mid)
    (h' : IfGiven step (fields'.get? k) mid slot')
    (hboth : ∀ v v', fields.get? k = some v → fields'.get? k = some v' → step v slot mid →
      step v' mid slot' → step (Layer.merge v v') slot slot') :
    IfGiven step ((Layer.mergeFields fields fields').get? k) slot slot' := by
  rw [Layer.get?_mergeFields]
  cases hv : fields.get? k with
  | none =>
    obtain rfl := h.of_none hv
    cases hv' : fields'.get? k with
    | none => exact h'.of_none hv'
    | some v' => exact h'.of_some hv'
  | some v =>
    have hstep := h.of_some hv
    cases hv' : fields'.get? k with
    | none =>
      obtain rfl := h'.of_none hv'
      exact hstep
    | some v' => exact hboth v v' hv hv' hstep (h'.of_some hv')

section Merge

variable [Nonempty σ] {options : Options σ} {isEntry : Bool} {pos : Position}

/-- Without a mapper an object applies to a namespace field by field. -/
theorem applies_ns_of_obj {rules : NamespaceRules σ} {specs : Fields (Specifier σ)}
    (hmapper : rules.mapper = none) {fields : Fields Value} {slot slot' : Slot} :
    Applies options isEntry (some (.ns rules specs)) pos (.obj fields) slot slot' ↔
      ∃ inner inner' : Level, slot = .of .ns inner ∧ slot' = .of .ns inner' ∧
        ∀ k, IfGiven (Applies options false (specs.get? k) (pos.child k)) (fields.get? k)
          (inner.slot k) (inner'.slot k) := by
  rw [applies_ns_of_mapperless hmapper]
  constructor
  · rintro ⟨longhand, inner, inner', hlonghand, hslots⟩
    obtain rfl : longhand = fields := hlonghand.of_pure
    exact ⟨inner, inner', hslots⟩
  · rintro ⟨inner, inner', hslots⟩
    exact ⟨fields, inner, inner', Run.yields_pure fields, hslots⟩

/-- Without mappers, layers that apply one after the other apply merged. -/
theorem Applies.merge {spec : Option (Specifier σ)} {v v' : Value} {slot mid slot' : Slot}
    (h : Applies options isEntry spec pos v slot mid)
    (h' : Applies options isEntry spec pos v' mid slot') (hlayer : IsLayer spec v)
    (hlayer' : IsLayer spec v') (hspec : ∀ s, spec = some s → s.WithoutMappers) :
    Applies options isEntry spec pos (Layer.merge v v') slot slot' := by
  -- By induction on the first layer; the second has its objects in the same places.
  induction hlayer generalizing v' slot mid slot' isEntry pos with
  | value terminal plain =>
    cases hlayer' with
    | value _ plain' =>
      rw [Layer.merge_of_plain plain']
      -- The later value is written over the earlier one.
      obtain ⟨w, -, rfl⟩ := (applies_terminal terminal).1 h
      obtain ⟨w', hrenders, rfl⟩ := (applies_terminal terminal).1 h'
      exact (applies_terminal terminal).2 ⟨w', hrenders, Slot.write_write slot _ w w'⟩
    | ns => cases terminal
    | record => cases terminal
  | @ns rules specs fields each ih =>
    cases hlayer' with
    | value terminal => cases terminal
    | @ns _ _ fields' each' =>
      obtain ⟨hmapper, hspecs⟩ := Specifier.everywhere_ns.1 (hspec _ rfl)
      obtain ⟨inner, inner', rfl, rfl, hfields⟩ := (applies_ns_of_obj hmapper).1 h
      obtain ⟨_, inner'', hmid, rfl, hfields'⟩ := (applies_ns_of_obj hmapper).1 h'
      obtain ⟨-, rfl⟩ := Slot.of_inj.1 hmid
      rw [Layer.merge]
      refine (applies_ns_of_obj hmapper).2 ⟨inner, inner'', rfl, rfl, fun k => ?_⟩
      exact (hfields k).merge (hfields' k) fun a b ha hb hstep hstep' =>
        ih k a ha hstep hstep' (each' k b hb) fun s hs => hspecs k s hs
  | @record starters entry entries objects each ih =>
    cases hlayer' with
    | value terminal => cases terminal
    | @record _ _ entries' objects' each' =>
      obtain ⟨-, hentry⟩ := Specifier.everywhere_record.1 (hspec _ rfl)
      obtain ⟨rules, specs, rfl⟩ := h.entry_eq_ns
      obtain ⟨_, provenance, initial, inner, inner', ⟨⟩, rfl, rfl, hentries⟩ :=
        applies_record.1 h
      obtain ⟨_, _, _, _, inner'', ⟨⟩, hmid, rfl, hentries'⟩ := applies_record.1 h'
      obtain ⟨hcontainer, rfl⟩ := Slot.of_inj.1 hmid
      cases hcontainer
      rw [Layer.merge]
      refine applies_record.2 ⟨_, provenance, initial, inner, inner'', rfl, rfl, rfl, fun k => ?_⟩
      refine (hentries k).merge (hentries' k) fun a b ha hb hstep hstep' => ?_
      obtain ⟨base, hensures, happlies⟩ := hstep
      obtain ⟨base', hensures', happlies'⟩ := hstep'
      -- The first layer has left an entry, which the second finds and keeps.
      obtain rfl := happlies.ensures_iff.1 hensures'
      exact ⟨base, hensures, ih k a ha happlies happlies' (each' k b hb)
        (Specifier.forall_of_some hentry)⟩

end Merge

/-! ## Any number of layers -/

/-- The empty object applies to every namespace without mapper and changes nothing. -/
theorem applies_emptyObject [Nonempty σ] {options : Options σ} {n : Namespace σ}
    (hmapper : n.rules.mapper = none) (level : Level) :
    Applies options false (some n.toSpecifier) .root .emptyObject (.of .ns level)
      (.of .ns level) :=
  (applies_ns_of_obj hmapper).2 ⟨level, level, rfl, rfl, fun _ => rfl⟩

section Stores

variable {spec : Namespace σ} {options : Options σ} {store store' : Store σ}

/-- Layers that are applied one after the other, after an input that applies, apply merged over that
input. -/
private theorem applies_foldl_merge (hspec : spec.toSpecifier.WithoutMappers) {level : Level}
    {layers : List Value} (hlayers : ∀ v ∈ layers, IsLayer (some spec.toSpecifier) v) {acc : Value}
    (hacc : IsLayer (some spec.toSpecifier) acc) (hstore : Store.Reachable spec options store)
    (happlies : Applies options false (some spec.toSpecifier) .root acc (.of .ns level)
      (.of .ns store.level)) {s s' : σ}
    (h : layers.foldlM Store.change store s = (.ok store', s')) :
    ∃ level', store' = { store with level := level' } ∧
      Applies options false (some spec.toSpecifier) .root (layers.foldl Layer.merge acc)
        (.of .ns level) (.of .ns level') := by
  have : Nonempty σ := ⟨s⟩
  induction layers generalizing acc store s with
  | nil =>
    cases h
    exact ⟨_, rfl, happlies⟩
  | cons v layers ih =>
    rw [List.foldlM_cons] at h
    obtain ⟨next, t, hchange, h⟩ := Run.bind_eq_ok.1 h
    have hlayer : IsLayer (some spec.toSpecifier) v := hlayers v (.head layers)
    have hnext : Store.Reachable spec options next := hstore.of_change ⟨s, t, hchange⟩
    obtain ⟨mid, rfl, hmid⟩ :=
      hstore.change_applies (R := fun _ _ => True) (fun _ => trivial) hspec.mild hchange
    obtain ⟨level', hlevel, hmerged⟩ := ih (fun w hw => hlayers w (.tail v hw))
      (hacc.merge hlayer) hnext
      (happlies.merge hmid hacc hlayer (Specifier.forall_of_some hspec)) h
    exact ⟨level', hlevel, hmerged⟩

/-- Without mappers one change with all layers does what changes with each of them in turn do: if
those succeed it succeeds, and ends with the same data and metadata. Without layers nothing
changes. -/
theorem Store.Reachable.changeLayers_of_changes (h : Store.Reachable spec options store)
    (hmappers : spec.toSpecifier.WithoutMappers) (hspec : spec.toSpecifier.Determined)
    (hoptions : options.Determined) {layers : List Value}
    (hlayers : ∀ v ∈ layers, IsLayer (some spec.toSpecifier) v) {s s' : σ}
    (hchanges : layers.foldlM Store.change store s = (.ok store', s')) :
    (store.changeLayers layers).Gives store' := by
  have : Nonempty σ := ⟨s⟩
  obtain ⟨hmapper, -⟩ := Specifier.everywhere_ns.1 hmappers
  have hempty : IsLayer (some spec.toSpecifier) .emptyObject := .ns fun _ _ hk => nomatch hk
  obtain ⟨level, rfl, happlies⟩ := applies_foldl_merge hmappers hlayers hempty h
    (applies_emptyObject hmapper store.level) hchanges
  obtain ⟨hfixed, hfixedOptions⟩ := h.fixed
  rw [← hfixed] at happlies hspec
  rw [← hfixedOptions] at happlies hoptions
  exact Store.change_of_applies hspec hoptions happlies

end Stores

namespace Hosts

def port8080 : Value := .obj (.ofList [("port", .str "8080")])

/-- A layer that introduces a host, and one that sets its port and introduces another. -/
def layers : List Value :=
  [input, .obj (.ofList [("hosts", .obj (.ofList [("x", port8080), ("y", port8080)]))])]

def layered : Store Unit := ((built.step (.change input) ()).1.step (.change layers[1]) ()).1

theorem layers_isLayer : ∀ v ∈ layers, IsLayer (some root.toSpecifier) v := by
  -- A layer of one key, at a namespace that declares it.
  have hfield {rules : NamespaceRules Unit} {specs : Fields (Specifier Unit)} {k : String}
      {v : Value} (h : IsLayer (specs.get? k) v) :
      IsLayer (some (.ns rules specs)) (.obj (.ofList [(k, v)])) := by
    refine .ns fun key w hw => ?_
    obtain ⟨rfl, rfl⟩ := SortedMap.eq_of_get?_ofList hw
    exact h
  have hnone {P : Value → Prop} : ∀ k v, (∅ : Fields Value).get? k = some v → P v :=
    fun _ _ h => nomatch h
  have hport : IsLayer (some (.ns ⟨none, none, none⟩ (.ofList [("mode", .leaf mode),
      ("port", .leaf port)]))) port8080 := hfield (.value rfl rfl)
  have hmode : IsLayer (some (.ns ⟨none, none, none⟩ (.ofList [("mode", .leaf mode),
      ("port", .leaf port)]))) (.obj (.ofList [("mode", .null)])) := hfield (.value rfl rfl)
  intro v hv
  rcases List.mem_cons.1 hv with rfl | hv
  · exact hfield (.record (SortedMap.forall_insert rfl hnone) (SortedMap.forall_insert hmode hnone))
  · rw [List.mem_singleton.1 hv]
    exact hfield (.record (SortedMap.forall_insert rfl (SortedMap.forall_insert rfl hnone))
      (SortedMap.forall_insert hport (SortedMap.forall_insert hport hnone)))

end Hosts

/-- Two layers that introduce hosts and refine one of them, in sequence and merged. -/
theorem Store.Reachable.changeLayers_of_changes_hosts :
    Hosts.layered.data.get? "hosts" = some (.obj (.ofList [
      ("x", .obj (.ofList [("mode", .arr [.str "auto"]), ("port", .str "8080")])),
      ("y", Hosts.port8080)])) ∧
    (Hosts.built.changeLayers Hosts.layers).Gives Hosts.layered :=
  ⟨rfl, Store.Reachable.changeLayers_of_changes Hosts.built_reachable Hosts.withoutMappers
    (Specifier.determined_of_subsingleton _) (Options.determined_of_subsingleton _)
    Hosts.layers_isLayer (rfl : Hosts.layers.foldlM Store.change Hosts.built () =
      (.ok Hosts.layered, ()))⟩

end Settings
