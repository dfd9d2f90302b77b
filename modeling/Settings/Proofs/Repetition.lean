import Settings.Proofs.Applies
import Settings.Proofs.Derived

/-!
# Repeating a change

A change that is made again finds other settings than the first time: entries are there, records
and leaves are marked as changed, and mappers have left their keys. It adds nothing all the same, as
long as the mappers derive their keys from what is declared (`Specifier.DerivesInPlace`): a slot
that an input has been applied to is a fixed point of the input (`Applies.again`).
-/

set_option autoImplicit false

namespace Settings

variable {σ : Type}

/-- The mapper gives undeclared keys alone, and what it returns depends on where it is called and on
the declared part of its input alone. -/
structure NamespaceRules.DerivesInPlace (rules : NamespaceRules σ)
    (specs : Fields (Specifier σ)) : Prop where
  undeclared : ∀ data pos isEntry mapped, (rules.runMapper data pos isEntry).Yields mapped →
    ∀ k v, mapped.get? k = some v → specs.get? k = none
  reads : ∀ mapper, rules.mapper = some mapper → ∀ data pos s s',
    (mapper (.obj data) pos s).1 = (mapper (.obj (declaredFields specs data)) pos s').1

def Specifier.DerivesInPlace : Specifier σ → Prop :=
  Specifier.Everywhere (fun _ => True) NamespaceRules.DerivesInPlace fun _ => True

theorem Specifier.DerivesInPlace.mild {s : Specifier σ} (h : s.DerivesInPlace) :
    s.Mild fun _ _ => True := by
  refine h.imp (fun _ _ => trivial) (fun rules specs hrules => ?_) (fun _ _ => trivial)
  intro data pos isEntry mapped hmapped k v hk
  rw [hrules.undeclared data pos isEntry mapped hmapped k v hk]
  exact ⟨rfl, fun _ => trivial⟩

/-- What a mapper has given it gives again in the same place, on all data with the same declared
part. -/
theorem NamespaceRules.DerivesInPlace.gives {rules : NamespaceRules σ}
    {specs : Fields (Specifier σ)} (h : rules.DerivesInPlace specs) {data data' : Fields Value}
    (hsame : declaredFields specs data' = declaredFields specs data) {pos : Position}
    {isEntry : Bool} {mapped : Fields Value}
    (hmapped : (rules.runMapper data pos isEntry).Yields mapped) :
    (rules.runMapper data' pos isEntry).Gives mapped := by
  refine NamespaceRules.runMapper_gives (fun mapper hmapper s t => ?_) hmapped
  rw [h.reads mapper hmapper data' _ t t, hsame, ← h.reads mapper hmapper data _ s t]

section Again

variable {options : Options σ}

/-- An input leaves the same when it is applied again, also if a value has been laid over what it
left at an undeclared key. -/
private theorem Applies.again_below {spec : Option (Specifier σ)} {pos : Position} {v : Value}
    {slot slot' : Slot} (h : Applies options false spec pos v slot slot')
    (ih : ∀ s, spec = some s → Applies options false (some s) pos v slot' slot')
    {laid : Option Value} (hlaid : ∀ w, laid = some w → spec = none) :
    Applies options false spec pos v ⟨laid.or slot'.data, slot'.node⟩ slot' := by
  cases spec with
  | none =>
    obtain ⟨w, hrenders, rfl⟩ := (applies_terminal rfl).1 h
    exact (applies_terminal rfl).2 ⟨w, hrenders, rfl⟩
  | some s =>
    obtain rfl : laid = none := Option.eq_none_iff_forall_ne_some.2 fun w hw => nomatch hlaid w hw
    exact ih s rfl

/-- An input that was applied applies again, and changes nothing. -/
theorem Applies.again [Nonempty σ] {s : Specifier σ} (hs : s.DerivesInPlace) {isEntry : Bool}
    {pos : Position} {v : Value} {slot slot' : Slot}
    (h : Applies options isEntry (some s) pos v slot slot') :
    Applies options isEntry (some s) pos v slot' slot' := by
  induction s generalizing isEntry pos v slot slot' with
  | leaf rules =>
    obtain ⟨w, hrenders, rfl⟩ := (applies_terminal rfl).1 h
    exact (applies_terminal rfl).2 ⟨w, hrenders, (Slot.write_write slot _ w w).symm⟩
  | ns rules specs ih =>
    obtain ⟨hrules, hspecs⟩ := Specifier.everywhere_ns.1 hs
    obtain ⟨fields, mapped, inner, inner', hlonghand, rfl, rfl, hfields, hmapped⟩ :=
      applies_ns.1 h
    have hundeclared := hrules.undeclared _ _ _ _ hmapped
    -- The second time the mapper's keys are there already. Those that the input gives too are
    -- written once more, and then the mapper gives them again.
    have hafter (k : String) := Level.slot_assign inner' mapped k
    generalize (⟨inner'.data.assign mapped, inner'.nodes⟩ : Level) = after at hafter ⊢
    obtain ⟨again, hagain⟩ := Level.exists_slots fields after inner'.slot
    have hstep (k : String) : IfGiven (Applies options false (specs.get? k) (pos.child k))
        (fields.get? k) (after.slot k) (again.slot k) := by
      rw [hagain k]
      cases hk : fields.get? k with
      | none => rfl
      | some x =>
        rw [hafter k]
        have hbefore := (hfields k).of_some hk
        refine hbefore.again_below (fun s hs => ?_) (hundeclared k)
        rw [hs] at hbefore
        exact ih k s hs (hspecs k s hs) hbefore
    have hdeclared : declaredFields specs again.data = declaredFields specs inner'.data := by
      apply SortedMap.ext
      intro k
      rw [get?_declaredFields, get?_declaredFields]
      cases hs : specs.get? k with
      | none => rfl
      | some s =>
        have hmapped : mapped.get? k = none :=
          Option.eq_none_iff_forall_ne_some.2 fun w hw => nomatch hs.symm.trans (hundeclared k w hw)
        have hslot : again.slot k = inner'.slot k := by
          rw [hagain, hafter, hmapped]
          exact ite_self _
        have hdata : again.data.get? k = inner'.data.get? k := congrArg Slot.data hslot
        rw [hdata]
    have hend : after = ⟨again.data.assign mapped, again.nodes⟩ := by
      apply Level.ext_slot
      intro k
      rw [Level.slot_assign, hagain, hafter]
      split
      · rfl
      · cases mapped.get? k <;> rfl
    have hgives := hrules.gives hdeclared hmapped
    exact applies_ns.2 ⟨fields, mapped, after, again, hlonghand, rfl, congrArg _ hend, hstep,
      hgives.yields⟩
  | record starters entry ih =>
    obtain ⟨-, hentry⟩ := Specifier.everywhere_record.1 hs
    obtain ⟨rules, specs, rfl⟩ := h.entry_eq_ns
    obtain ⟨entries, provenance, initial, inner, inner', rfl, rfl, rfl, hentries⟩ :=
      applies_record.1 h
    refine applies_record.2 ⟨entries, .change, initial, inner', inner', rfl, rfl, rfl,
      fun k => ?_⟩
    cases hk : entries.get? k with
    | none => rfl
    | some x =>
      -- The entry is there now, so it is kept.
      obtain ⟨base, -, happlies⟩ := (hentries k).of_some hk
      exact ⟨_, happlies.ensures_iff.2 rfl, ih hentry happlies⟩

end Again

/-- A change that succeeds succeeds again right after, and leaves the store as it is. -/
theorem Store.Reachable.change_repeats {spec : Namespace σ} {options : Options σ}
    {store store' : Store σ} (h : Store.Reachable spec options store)
    (hmappers : spec.toSpecifier.DerivesInPlace) (hspec : spec.toSpecifier.Determined)
    (hoptions : options.Determined) {input : Value} (hchange : (store.change input).Yields store') :
    (store'.change input).Gives store' := by
  obtain ⟨s, s', hchange⟩ := hchange
  have : Nonempty σ := ⟨s⟩
  obtain ⟨level, rfl, happlies⟩ :=
    h.change_applies (R := fun _ _ => True) (fun _ => trivial) hmappers.mild hchange
  obtain ⟨rfl, rfl⟩ := h.fixed
  exact Store.change_of_applies hspec hoptions (happlies.again hmappers)

namespace Labels

/-- Every person gets a badge, with the key of the entry and the name. -/
def badge : NamespaceRules Unit :=
  ⟨none, none, some fun v pos => pure (.obj (.ofList [("badge",
    .arr [.str (pos.key.getD ""), (v.field? "name").getD .null])]))⟩

def badges : Namespace Unit :=
  ⟨⟨none, none, none⟩, .ofList [("people", .record none (.ns badge specs))]⟩

/-- An input that gives a badge of its own. -/
def forged : Value :=
  .obj (.ofList [("people", .obj (.ofList [("x", .obj (.ofList
    [("badge", .null), ("name", .str "lead")]))]))])

def bare : Store Unit := { built with spec := badges }

def badged : Store Unit := (bare.step (.change forged) ()).1

theorem badge_derivesInPlace : badge.DerivesInPlace specs where
  undeclared data pos isEntry mapped hmapped k v hk := by
    rw [key_eq_of_mapped rfl hmapped hk]
    rfl
  reads mapper hmapper data pos s s' := by
    cases hmapper
    dsimp only
    rw [name_declaredFields]

theorem badges_derivesInPlace : badges.toSpecifier.DerivesInPlace := by
  have hname : ∀ k s, specs.get? k = some s → s.DerivesInPlace :=
    SortedMap.forall_insert (.leaf trivial) nofun
  have hnone : (⟨none, none, none⟩ : NamespaceRules Unit).DerivesInPlace badges.fields := by
    refine ⟨fun data pos isEntry mapped hmapped k v hk => ?_, nofun⟩
    rw [NamespaceRules.mapped_eq_empty rfl hmapped] at hk
    cases hk
  exact .ns hnone (SortedMap.forall_insert (.record trivial (.ns badge_derivesInPlace hname)) nofun)

end Labels

/-- The input's own badge is overwritten by the mapper, and again when the input comes again. -/
theorem Store.Reachable.change_repeats_labels :
    (Value.obj Labels.badged.data).at? ["people", "x", "badge"] =
      some (.arr [.str "x", .str "lead"]) ∧
    (Labels.bare.change Labels.forged).Yields Labels.badged ∧
    (Labels.badged.change Labels.forged).Gives Labels.badged := by
  have hbare : Store.Reachable Labels.badges Hosts.quiet Labels.bare := .create ⟨(), (), rfl⟩
  have hchange : (Labels.bare.change Labels.forged).Yields Labels.badged := ⟨(), (), rfl⟩
  exact ⟨rfl, hchange, Store.Reachable.change_repeats hbare Labels.badges_derivesInPlace
    (Specifier.determined_of_subsingleton _) (Options.determined_of_subsingleton _) hchange⟩

end Settings
