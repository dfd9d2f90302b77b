import Settings.Proofs.Applies
import Settings.Proofs.Longhand

/-!
# Changes that commute

Two inputs are apart if no leaf and no undeclared key is addressed by both, once they are written
out; which containers they name does not matter. Without mappers such inputs apply in either order
and end with the same (`Applies.commute`). The step that does the work is that of a record entry
which both name and which is missing: whichever input comes first makes sure of it, and the other
finds it and keeps it.
-/

set_option autoImplicit false

namespace Settings

variable {σ : Type}

/-! ## What an input addresses -/

/-- The path leads to a leaf or an undeclared key, and the value, written out, has something
there. -/
structure Addresses (t : σ) (spec : Option (Specifier σ)) (v : Value) (path : List String) :
    Prop where
  terminal : ∃ target, Leads spec path target ∧ containerKind? target = none
  given : ((expandAt t spec v).at? path).isSome = true

/-- No leaf and no undeclared key is addressed by both. -/
def Apart (t : σ) (spec : Option (Specifier σ)) (v w : Value) : Prop :=
  ∀ path, ¬ (Addresses t spec v path ∧ Addresses t spec w path)

section Addresses

variable {t : σ} {v w : Value} {name : String} {path : List String}

/-- A value at a leaf or an undeclared key addresses it. -/
theorem addresses_here {spec : Option (Specifier σ)} (terminal : containerKind? spec = none) :
    Addresses t spec v [] :=
  ⟨⟨spec, .here, terminal⟩, rfl⟩

/-- So two values at one leaf or undeclared key are never apart. -/
theorem Apart.not_terminal {spec : Option (Specifier σ)} (h : Apart t spec v w) :
    containerKind? spec ≠ none :=
  fun terminal => h [] ⟨addresses_here terminal, addresses_here terminal⟩

section Below

variable {s : Specifier σ} {fields fields' : Fields Value}

/-- An input that is written out as an object addresses what the fields of the object address. -/
theorem addresses_cons (container : containerKind? (some s) ≠ none)
    (hv : s.expand t v = .obj (fields.map fun k x => expandAt t (s.below? k) x)) :
    Addresses t (some s) v (name :: path) ↔
      ∃ x, fields.get? name = some x ∧ Addresses t (s.below? name) x path := by
  have hat : (expandAt t (some s) v).at? (name :: path) =
      (fields.get? name).bind fun x => (expandAt t (s.below? name) x).at? path := by
    show (s.expand t v).at? (name :: path) = _
    rw [hv]
    show ((fields.map _).get? name).bind _ = _
    rw [SortedMap.get?_map]
    cases fields.get? name <;> rfl
  constructor
  · rintro ⟨⟨target, hleads, hterminal⟩, hgiven⟩
    rw [hat] at hgiven
    cases hx : fields.get? name with
    | none =>
      rw [hx] at hgiven
      cases hgiven
    | some x =>
      rw [hx] at hgiven
      exact ⟨x, rfl, ⟨target, (leads_cons.1 hleads).2, hterminal⟩, hgiven⟩
  · rintro ⟨x, hx, ⟨target, hleads, hterminal⟩, hgiven⟩
    refine ⟨⟨target, leads_cons.2 ⟨container, hleads⟩, hterminal⟩, ?_⟩
    rw [hat, hx]
    exact hgiven

/-- An input that is written out as an object of one field addresses what the field addresses. -/
theorem Addresses.of_one {x : Value} (h : Addresses t (some s) v path)
    (container : containerKind? (some s) ≠ none)
    (hv : s.expand t v = .obj ((SortedMap.ofList [(name, x)]).map fun k x =>
      expandAt t (s.below? k) x)) :
    ∃ rest, path = name :: rest ∧ Addresses t (s.below? name) x rest := by
  cases path with
  | nil =>
    obtain ⟨target, hleads, hterminal⟩ := h.terminal
    cases hleads
    exact absurd hterminal container
  | cons k rest =>
    obtain ⟨y, hy, hrest⟩ := (addresses_cons container hv).1 h
    obtain ⟨rfl, rfl⟩ := SortedMap.eq_of_get?_ofList hy
    exact ⟨rest, rfl, hrest⟩

/-- Inputs that are apart have fields that are apart. -/
theorem Apart.below (h : Apart t (some s) v w)
    (hv : s.expand t v = .obj (fields.map fun k x => expandAt t (s.below? k) x))
    (hw : s.expand t w = .obj (fields'.map fun k x => expandAt t (s.below? k) x)) {x x' : Value}
    (hx : fields.get? name = some x) (hx' : fields'.get? name = some x') :
    Apart t (s.below? name) x x' := by
  rintro path ⟨haddresses, haddresses'⟩
  exact h (name :: path) ⟨(addresses_cons h.not_terminal hv).2 ⟨x, hx, haddresses⟩,
    (addresses_cons h.not_terminal hw).2 ⟨x', hx', haddresses'⟩⟩

end Below

end Addresses

/-! ## Applying in either order -/

/-- Two steps at a name can change places if they can where both have a value. -/
private theorem IfGiven.commute {step : Value → Slot → Slot → Prop} {v v' : Option Value}
    {slot mid slot' : Slot} (h : IfGiven step v slot mid) (h' : IfGiven step v' mid slot')
    (hboth : ∀ x x', v = some x → v' = some x' → step x slot mid → step x' mid slot' →
      ∃ mid', step x' slot mid' ∧ step x mid' slot') :
    ∃ mid', IfGiven step v' slot mid' ∧ IfGiven step v mid' slot' := by
  cases v with
  | none =>
    obtain rfl : mid = slot := h
    exact ⟨slot', h', rfl⟩
  | some x =>
    cases v' with
    | none =>
      obtain rfl : slot' = mid := h'
      exact ⟨slot, rfl, h⟩
    | some x' => exact hboth x x' rfl rfl h h'

/-- Slots between two levels that exist at every name are those of one level. -/
private theorem Level.exists_between {step : String → Value → Slot → Slot → Prop}
    {given : Fields Value} {level : Level} {P : String → Slot → Prop}
    (h : ∀ k, ∃ slot, IfGiven (step k) (given.get? k) (level.slot k) slot ∧ P k slot) :
    ∃ mid : Level, ∀ k,
      IfGiven (step k) (given.get? k) (level.slot k) (mid.slot k) ∧ P k (mid.slot k) := by
  obtain ⟨f, hf⟩ := Classical.axiomOfChoice h
  obtain ⟨mid, hmid⟩ := Level.exists_slots given level f
  refine ⟨mid, fun k => ?_⟩
  -- Where nothing is given the slot is that of the level.
  have hslot : mid.slot k = f k := by
    rw [hmid k]
    cases hk : given.get? k with
    | none => exact ((hf k).1.of_none hk).symm
    | some v => rfl
  rw [hslot]
  exact hf k

section Commute

variable {options : Options σ} {t : σ}

/-- Steps at an entry that both inputs name can change places if the inputs can. -/
private theorem Namespace.AppliesToEntry.commute {n : Namespace σ} {pos : Position}
    {v v' : Value} {slot mid slot' : Slot} (h : n.AppliesToEntry options pos v slot mid)
    (h' : n.AppliesToEntry options pos v' mid slot')
    (hcommute : ∀ base, Applies options true (some n.toSpecifier) pos v base mid →
      Applies options true (some n.toSpecifier) pos v' mid slot' →
      ∃ mid', Applies options true (some n.toSpecifier) pos v' base mid' ∧
        Applies options true (some n.toSpecifier) pos v mid' slot') :
    ∃ mid', n.AppliesToEntry options pos v' slot mid' ∧
      n.AppliesToEntry options pos v mid' slot' := by
  obtain ⟨base, hensures, happlies⟩ := h
  obtain ⟨base', hensures', happlies'⟩ := h'
  -- The first input has left an entry, which the second keeps; so it is the other way round.
  obtain rfl := happlies.ensures_iff.1 hensures'
  obtain ⟨mid', hfirst, hsecond⟩ := hcommute base happlies happlies'
  exact ⟨mid', ⟨base, hensures, hfirst⟩, mid', hfirst.ensures_iff.2 rfl, hsecond⟩

/-- Inputs that are apart and apply one after the other apply in the other order too, and end with
the same. -/
theorem Applies.commute [Nonempty σ] {s : Specifier σ} (hmappers : s.WithoutMappers)
    (hs : s.Determined) {isEntry : Bool} {pos : Position} {v v' : Value} {slot mid slot' : Slot}
    (h : Applies options isEntry (some s) pos v slot mid)
    (h' : Applies options isEntry (some s) pos v' mid slot') (hapart : Apart t (some s) v v') :
    ∃ mid', Applies options isEntry (some s) pos v' slot mid' ∧
      Applies options isEntry (some s) pos v mid' slot' := by
  -- By induction on the specifier. At a leaf the inputs would not be apart.
  induction s generalizing isEntry pos v v' slot mid slot' with
  | leaf rules => exact absurd rfl hapart.not_terminal
  | ns rules specs ih =>
    obtain ⟨hmapper, hmappers⟩ := Specifier.everywhere_ns.1 hmappers
    obtain ⟨hrules, hspecs⟩ := Specifier.everywhere_ns.1 hs
    obtain ⟨fields, inner, inner', hlonghand, rfl, rfl, hfields⟩ :=
      (applies_ns_of_mapperless hmapper).1 h
    obtain ⟨fields', _, inner'', hlonghand', hmid, rfl, hfields'⟩ :=
      (applies_ns_of_mapperless hmapper).1 h'
    obtain ⟨-, rfl⟩ := Slot.of_inj.1 hmid
    have hv := Specifier.expand_ns specs (hrules.expanded_of_longhand hlonghand t)
    have hv' := Specifier.expand_ns specs (hrules.expanded_of_longhand hlonghand' t)
    obtain ⟨between, hbetween⟩ := Level.exists_between fun k =>
      (hfields k).commute (hfields' k) fun x x' hx hx' hstep hstep' => by
        have hk : Apart t (specs.get? k) x x' := hapart.below hv hv' hx hx'
        cases hspec : specs.get? k with
        | none => exact absurd (congrArg containerKind? hspec) hk.not_terminal
        | some s =>
          rw [hspec] at hk hstep hstep'
          exact ih k s hspec (hmappers k s hspec) (hspecs k s hspec) hstep hstep' hk
    exact ⟨.of .ns between,
      (applies_ns_of_mapperless hmapper).2
        ⟨fields', inner, between, hlonghand', rfl, rfl, fun k => (hbetween k).1⟩,
      (applies_ns_of_mapperless hmapper).2
        ⟨fields, between, inner'', hlonghand, rfl, rfl, fun k => (hbetween k).2⟩⟩
  | record starters entry ih =>
    obtain ⟨-, hmappers⟩ := Specifier.everywhere_record.1 hmappers
    obtain ⟨-, hentry⟩ := Specifier.everywhere_record.1 hs
    obtain ⟨rules, specs, rfl⟩ := h.entry_eq_ns
    obtain ⟨entries, provenance, initial, inner, inner', rfl, rfl, rfl, hentries⟩ :=
      applies_record.1 h
    obtain ⟨entries', _, _, _, inner'', rfl, hmid, rfl, hentries'⟩ := applies_record.1 h'
    obtain ⟨⟨⟩, rfl⟩ := Slot.of_inj.1 hmid
    have hv := Specifier.expand_record starters (.ns rules specs) t
    obtain ⟨between, hbetween⟩ := Level.exists_between fun k =>
      (hentries k).commute (hentries' k) fun x x' hx hx' hstep hstep' =>
        hstep.commute hstep' fun base happlies happlies' =>
          ih hmappers hentry happlies happlies' (hapart.below (hv _) (hv _) hx hx')
    -- Whichever input comes first marks the record as changed.
    exact ⟨.of (.record .change initial) between,
      applies_record.2 ⟨entries', provenance, initial, inner, between, rfl, rfl, rfl,
        fun k => (hbetween k).1⟩,
      applies_record.2 ⟨entries, .change, initial, between, inner'', rfl, rfl, rfl,
        fun k => (hbetween k).2⟩⟩

end Commute

/-! ## Stores -/

/-- Without mappers, changes with two inputs that are apart can change places: if they succeed in
one order they succeed in the other, and the store ends with the same data and metadata. -/
theorem Store.Reachable.changes_commute {spec : Namespace σ} {options : Options σ}
    {store store₁ store₂ : Store σ} (h : Store.Reachable spec options store)
    (hmappers : spec.toSpecifier.WithoutMappers) (hspec : spec.toSpecifier.Determined)
    (hoptions : options.Determined) {a b : Value} {t : σ}
    (hapart : Apart t (some spec.toSpecifier) a b) (ha : (store.change a).Yields store₁)
    (hb : (store₁.change b).Yields store₂) :
    ∃ store', (store.change b).Gives store' ∧ (store'.change a).Gives store₂ := by
  have : Nonempty σ := ⟨t⟩
  have h₁ : Store.Reachable spec options store₁ := h.of_change ha
  obtain ⟨s, s', ha⟩ := ha
  obtain ⟨s₁, s₁', hb⟩ := hb
  obtain ⟨level₁, rfl, happlies⟩ :=
    h.change_applies (R := fun _ _ => True) (fun _ => trivial) hmappers.mild ha
  obtain ⟨level₂, rfl, happlies'⟩ :=
    h₁.change_applies (R := fun _ _ => True) (fun _ => trivial) hmappers.mild hb
  obtain ⟨slot, hfirst, hsecond⟩ := happlies.commute hmappers hspec happlies' hapart
  obtain ⟨level', rfl⟩ := hfirst.exists_of_ns
  obtain ⟨hfixed, hfixedOptions⟩ := h.fixed
  rw [← hfixed] at hspec hfirst hsecond
  rw [← hfixedOptions] at hoptions hfirst hsecond
  have hfirst : (store.change b).Gives { store with level := level' } :=
    Store.change_of_applies hspec hoptions hfirst
  have hsecond :
      (Store.change { store with level := level' } a).Gives { store with level := level₂ } :=
    Store.change_of_applies hspec hoptions hsecond
  exact ⟨_, hfirst, hsecond⟩

namespace Hosts

/-- An input that gives one field of a host. -/
def given (field : String) (v : Value) : Value :=
  .obj (.ofList [("hosts", .obj (.ofList [("x", .obj (.ofList [(field, v)]))]))])

def ported : Store Unit := (changed.step (.change (given "port" (.str "8080"))) ()).1

theorem addresses_given {field : String} {v : Value} {path : List String}
    (h : Addresses () (some root.toSpecifier) (given field v) path) :
    ∃ rest, path = "hosts" :: "x" :: field :: rest := by
  obtain ⟨_, rfl, hhosts⟩ := h.of_one nofun (Specifier.expand_ns _ rfl)
  obtain ⟨_, rfl, hhost⟩ := Addresses.of_one hhosts nofun (Specifier.expand_record _ _ _ _)
  obtain ⟨rest, rfl, -⟩ := Addresses.of_one hhost nofun (Specifier.expand_ns _ rfl)
  exact ⟨rest, rfl⟩

end Hosts

/-- One input gives the mode and the other the port of a host that neither finds. -/
theorem Store.Reachable.changes_commute_hosts :
    Hosts.ported.data.get? "hosts" = some (.obj (.ofList [("x", .obj (.ofList
      [("mode", .arr [.str "auto"]), ("port", .str "8080")]))])) ∧
    ∃ store', (Hosts.built.change (Hosts.given "port" (.str "8080"))).Gives store' ∧
      (store'.change (Hosts.given "mode" .null)).Gives Hosts.ported := by
  have hapart : Apart () (some Hosts.root.toSpecifier) (Hosts.given "mode" .null)
      (Hosts.given "port" (.str "8080")) := by
    rintro path ⟨hmode, hport⟩
    obtain ⟨_, rfl⟩ := Hosts.addresses_given hmode
    obtain ⟨_, hpath⟩ := Hosts.addresses_given hport
    simp at hpath
  have hmode : (Hosts.built.change (Hosts.given "mode" .null)).Yields Hosts.changed :=
    ⟨(), (), rfl⟩
  exact ⟨rfl, Store.Reachable.changes_commute Hosts.built_reachable Hosts.withoutMappers
    (Specifier.determined_of_subsingleton _) (Options.determined_of_subsingleton _) hapart
    hmode ⟨(), (), rfl⟩⟩

end Settings
