import Settings.Proofs.Coherence
import Settings.Proofs.Notices

/-!
# What mappers have an influence on

A specification is compared with what is left of it without its mappers. As long as no mapper fails
or gives the key of a declared container, both play alike: the only data that may differ is data
that some mapper gave, and nothing that is done later looks at it. Metadata, initial data, errors
and notices of repairs are the same. The comparison is that of two recorded runs
(`mapperless_agree`): a mapper's call either spoils it, because the mapper failed or gave a key that
was not expected, or leaves data the same but for the expected keys.
-/

set_option autoImplicit false

namespace Settings

variable {σ : Type}

/-! ## Without mappers -/

/-- Leaves every mapper out. -/
def mapperless (σ : Type) : Translation σ σ where
  leaf _ rules := rules
  ns _ rules := { rules with mapper := none }
  starters _ starters := starters

def Namespace.withoutMappers (n : Namespace σ) : Namespace σ := n.translate (mapperless σ)

theorem Specifier.translate_mapperless (s : Specifier σ) (place : Place) :
    (s.translate (mapperless σ) place).WithoutMappers := by
  induction s generalizing place with
  | leaf rules =>
    rw [Specifier.translate]
    exact .leaf trivial
  | ns rules specs ih =>
    rw [Specifier.translate]
    refine .ns rfl fun k s hk => ?_
    rw [get?_translateFields] at hk
    obtain ⟨s, hs, rfl⟩ := Option.map_eq_some_iff.1 hk
    exact ih k s hs _
  | record starters entry ih =>
    rw [Specifier.translate]
    exact .record trivial (ih _)

/-! ## What a mapper's call came to -/

/-- The place of a mapper and the keys with values that it gave when called, if it did not fail. -/
def Call.mapped? : Call → Option (Place × Option (Fields Value))
  | .mapper place _ _ result => some (place, result.toOption.bind objectOrNull?)
  | _ => none

/-- The call is one of a mapper that failed, or returned something that is no object. -/
def Call.isFailedMapper (call : Call) : Bool :=
  match call.mapped? with
  | some (_, none) => true
  | _ => false

/-- The call is one of a mapper at the place, and gave the key. -/
def Call.Gives (call : Call) (place : Place) (k : String) : Prop :=
  ∃ mapped v, call.mapped? = some (place, some mapped) ∧ mapped.get? k = some v

/-- While the store was built and took the steps, a mapper at the place gave the key. -/
def Namespace.Mapped (spec : Namespace σ) (options : Options σ) (steps : List Step) (s : σ)
    (place : Place) (k : String) : Prop :=
  ∃ call ∈ spec.calls options steps s, call.Gives place k

/-! ## Comparing the recorded runs -/

variable {exempt : Place → String → Prop}

/-- A mapper failed, or gave a key that is not exempt. -/
def Call.Spoils (exempt : Place → String → Prop) (call : Call) : Prop :=
  call.isFailedMapper = true ∨ ∃ place k, call.Gives place k ∧ ¬ exempt place k

/-- The hosts have been handed the same notices. The comparison is lost with a mapper that failed or
gave a key that is not exempt. -/
def influence (σ : Type) (exempt : Place → String → Prop) :
    Link (List Call × σ) (List Call × σ) := noting σ (Call.Spoils exempt)

/-- What a mapper gives leaves the data the same but for its keys, as long as no container is
declared at them. -/
theorem sameFields_assign {rules : NamespaceRules σ} {specs : Fields (Specifier σ)} {place : Place}
    {d₁ d₂ mapped : Fields Value}
    (h : SameFields exempt (exempt place) (.ns rules specs) place d₁ d₂)
    (hmapped : ∀ k v, mapped.get? k = some v →
      exempt place k ∧ containerKind? (specs.get? k) = none) :
    SameFields exempt (exempt place) (.ns rules specs) place (d₁.assign mapped) d₂ := by
  intro k hk
  have hnone : mapped.get? k = none := by
    cases hm : mapped.get? k with
    | none => rfl
    | some v => exact absurd (hmapped k v hm) hk
  rw [SortedMap.get?_assign, hnone, Option.none_or]
  exact h k hk

/-- A recorded mapper ends as it does by itself, and its call tells with what. -/
theorem runMapper_recorded {rules : NamespaceRules σ} (hmapper : rules.mapper ≠ none)
    (place : Place) (data : Fields Value) (pos : Position) (isEntry : Bool) (p : List Call × σ) :
    ∃ call : Call, call.notice? = none ∧
      call.mapped? = some (place, (rules.runMapper data pos isEntry p.2).1.toOption) ∧
      (rules.recorded place).runMapper data pos isEntry p =
        ((rules.runMapper data pos isEntry p.2).1,
          (p.1 ++ [call], (rules.runMapper data pos isEntry p.2).2)) := by
  obtain ⟨mapper, hmapper⟩ := Option.ne_none_iff_exists'.1 hmapper
  let context := if isEntry then pos.asEntry else pos
  refine ⟨.mapper place (.obj data) context (mapper (.obj data) context p.2).1, rfl, ?_⟩
  unfold NamespaceRules.runMapper NamespaceRules.recorded
  rw [hmapper]
  dsimp only [Option.map_some]
  rw [Run.bind_apply, Run.bind_apply]
  unfold Run.mapError Run.logged
  rcases mapper (.obj data) context p.2 with ⟨text | v, s⟩
  · exact ⟨rfl, rfl⟩
  · dsimp only [Call.mapped?, Except.toOption, Option.bind_some]
    cases objectOrNull? v with
    | none => exact ⟨rfl, rfl⟩
    | some mapped => exact ⟨rfl, rfl⟩

/-- A mapper's call beside none: it spoils the comparison or gives exempt keys alone. -/
theorem mapper_alike {rules : NamespaceRules σ} {specs : Fields (Specifier σ)}
    (hmild : rules.Mild (fun _ _ => True) specs) (place : Place) (d₁ d₂ : Fields Value)
    (pos : Position) (isEntry : Bool) :
    (influence σ exempt).Alike (SameFields exempt (exempt place) (.ns rules specs) place d₁ d₂)
      (fun m₁ m₂ => SameFields exempt (exempt place) (.ns rules specs) place (d₁.assign m₁)
        (d₂.assign m₂))
      ((rules.recorded place).runMapper d₁ pos isEntry)
      ((NamespaceRules.recorded { rules with mapper := none } place).runMapper d₂ pos isEntry) := by
  show (influence σ exempt).Alike _ _ _ (pure ∅)
  by_cases hmapper : rules.mapper = none
  · unfold NamespaceRules.runMapper NamespaceRules.recorded
    rw [hmapper]
    exact Link.alike_pure id
  constructor
  · rintro p ⟨spoiling, hmem, hspoils⟩
    obtain ⟨call, -, -, hrun⟩ := runMapper_recorded hmapper place d₁ pos isEntry p
    rw [hrun]
    exact ⟨spoiling, List.mem_append_left _ hmem, hspoils⟩
  · intro hd p q hpq
    obtain ⟨call, hnotice, hmapped, hrun⟩ := runMapper_recorded hmapper place d₁ pos isEntry p
    rcases hplain : rules.runMapper d₁ pos isEntry p.2 with ⟨e | mapped, s⟩ <;>
      rw [hplain] at hmapped hrun <;> rw [hrun]
    · have hfailed : call.isFailedMapper = true := by
        unfold Call.isFailedMapper
        rw [hmapped]
        rfl
      exact .lost ⟨call, List.mem_append_right _ List.mem_cons_self, .inl hfailed⟩
    · by_cases hexempt : ∀ k v, mapped.get? k = some v → exempt place k
      · refine .ok (sameFields_assign hd fun k v hk => ⟨hexempt k v hk, ?_⟩) ?_
        · exact (hmild d₁ pos isEntry mapped ⟨p.2, s, hplain⟩ k v hk).1
        · show (p.1 ++ [call]).filterMap Call.notice? = _
          rw [List.filterMap_append, List.filterMap_cons_none hnotice, List.filterMap_nil,
            List.append_nil]
          exact hpq
      · obtain ⟨k, hk⟩ := Classical.not_forall.1 hexempt
        obtain ⟨v, hv⟩ := Classical.not_forall.1 hk
        obtain ⟨hgiven, hne⟩ := Classical.not_imp.1 hv
        exact .lost ⟨call, List.mem_append_right _ List.mem_cons_self,
          .inr ⟨place, k, ⟨mapped, v, hmapped, hgiven⟩, hne⟩⟩

theorem NamespaceRules.Determined.recorded_agree {rules : NamespaceRules σ}
    {specs : Fields (Specifier σ)} (h : rules.Determined)
    (hmild : rules.Mild (fun _ _ => True) specs) (place : Place) :
    (rules.recorded place).Agree (influence σ exempt) exempt (.ns rules specs) place
      (NamespaceRules.recorded { rules with mapper := none } place) where
  shorthand := rel_map fun f hf v => logged_same _ (h.shorthand f hf v)
  seed := rel_map fun r hr => logged_same _ (h.seed r hr)
  mapper := mapper_alike hmild place

theorem Specifier.mapperless_agree (exempt : Place → String → Prop) {s : Specifier σ}
    (hs : s.Determined) (hmild : s.Mild fun _ _ => True) (place : Place) :
    s.Agree (influence σ exempt) exempt (recorder σ) ((recorder σ).comp (mapperless σ)) place := by
  induction s generalizing place with
  | leaf rules => exact .leaf ((Specifier.everywhere_leaf.1 hs).recorded_agree place)
  | ns rules specs ih =>
    obtain ⟨hrules, hspecs⟩ := Specifier.everywhere_ns.1 hs
    obtain ⟨hmapper, hfields⟩ := Specifier.everywhere_ns.1 hmild
    exact .ns (hrules.recorded_agree hmapper place) fun k s hk =>
      ih k s hk (hspecs k s hk) (hfields k s hk) _
  | record starters entry ih =>
    obtain ⟨hstarters, hentry⟩ := Specifier.everywhere_record.1 hs
    exact .record (rel_map fun r hr => logged_same _ (hstarters r hr))
      (ih hentry (Specifier.everywhere_record.1 hmild).2 _)

/-! ## Stores with and without mappers -/

/-- Two stores of a specification, one of them without mappers, differ at most in data at leaves
that a mapper gave. -/
structure Store.SameApartFrom (given : Place → String → Prop) (spec : Namespace σ)
    (a b : Store σ) : Prop where
  metadata : a.metadata = b.metadata
  initialData : a.initialData = b.initialData
  containers : ∀ (path : List String) (s : Specifier σ),
    Leads (some spec.toSpecifier) path (some s) → containerKind? (some s) ≠ none →
      ((Value.obj a.data).at? path).map Value.isObject =
        ((Value.obj b.data).at? path).map Value.isObject
  leaves : ∀ (path : List String) (s : Specifier σ) (name : String) (rules : LeafRules σ),
    Leads (some spec.toSpecifier) path (some s) → s.below? name = some (.leaf rules) →
      ¬ given (placeAt (some spec.toSpecifier) [] path) name →
        ((Value.obj a.data).at? path).bind (·.field? name) =
          ((Value.obj b.data).at? path).bind (·.field? name)

theorem Level.SameBut.sameApartFrom {spec : Namespace σ} {a b : Store σ}
    (h : a.level.SameBut exempt (exempt []) spec.toSpecifier [] b.level) :
    a.SameApartFrom exempt spec b where
  metadata := congrArg Metadata.ns h.nodes
  initialData := congrArg (Metadata.initialOver · ∅) h.nodes
  containers path s hpath hs := ((h.data.obj nofun).follow hpath hs).isObject
  leaves path s name rules hpath hname hgiven := by
    have hs : containerKind? (some s) ≠ none := by
      cases s with
      | leaf => cases hname
      | _ => exact nofun
    have hfield := ((h.data.obj nofun).follow hpath hs).field fun hk => hgiven hk.1
    rw [hname] at hfield
    exact hfield.eq_of_terminal rfl

/-- The recorded runs with and without mappers are alike, but for what mappers gave. -/
private theorem Namespace.recorded_alike (exempt : Place → String → Prop) {spec : Namespace σ}
    {options : Options σ} (hspec : spec.toSpecifier.Determined) (hoptions : options.Determined)
    (hmild : spec.toSpecifier.Mild fun _ _ => True) (steps : List Step) (s s' : σ) :
    (influence σ exempt).Ends (SameVisits exempt spec.toSpecifier)
      ((spec.translate (recorder σ)).play options.recorded steps ([], s))
      ((spec.withoutMappers.translate (recorder σ)).play options.recorded steps ([], s')) := by
  have h := (Namespace.play_alike (Specifier.mapperless_agree exempt hspec hmild [])
    hoptions.recorded_report rfl steps).ends trivial ([], s) ([], s') rfl
  rwa [← Namespace.translate_translate] at h

/-! ## Sites with addresses -/

namespace Sites

def name : LeafRules Unit := ⟨none, none, none, none, false⟩

/-- A port that is `null` is repaired. -/
def port : LeafRules Unit where
  initial := none
  validate := none
  fixup := some fun v => pure (if v.isNull then some ⟨.int 80, ["no port"]⟩ else none)
  mapType := none
  shadow := false

/-- Every site gets its name as address, which is a declared leaf, and a tag, which is not. -/
def site : NamespaceRules Unit where
  shorthand := none
  seed := none
  mapper := some fun v _ =>
    pure (.obj (.ofList [("address", (v.field? "name").getD .null), ("tag", .str "new")]))

def specs : Fields (Specifier Unit) :=
  .ofList [("address", .leaf name), ("name", .leaf name), ("port", .leaf port)]

def root : Namespace Unit :=
  ⟨⟨none, none, none⟩, .ofList [("sites", .record none (.ns site specs))]⟩

/-- A site is added, an input that stands for no object is refused, and all is reset. -/
def steps : List Step :=
  [.change (.obj (.ofList [("sites", .obj (.ofList [("a", .obj (.ofList
      [("name", .str "x"), ("port", .null)]))]))])),
    .change (.int 1), .reset]

theorem site_mild : site.Mild (fun _ _ => True) specs := by
  intro data pos isEntry mapped hmapped k v hk
  obtain ⟨u, hcall, hobject⟩ := hmapped.of_bind
  obtain rfl := hcall.of_mapError.of_pure
  obtain rfl := Option.some.inj hobject.of_ofOption
  refine ⟨?_, fun _ => trivial⟩
  rcases List.mem_cons.1 (SortedMap.mem_of_get?_ofList hk) with ⟨⟨⟩⟩ | hk
  · rfl
  · obtain ⟨⟨⟩⟩ := List.mem_singleton.1 hk
    rfl

theorem root_mild : root.toSpecifier.Mild fun _ _ => True := by
  have hleaves : ∀ k s, specs.get? k = some s → s.Mild fun _ _ => True :=
    SortedMap.forall_insert (.leaf trivial) (SortedMap.forall_insert (.leaf trivial)
      (SortedMap.forall_insert (.leaf trivial) nofun))
  have hnone : (⟨none, none, none⟩ : NamespaceRules Unit).Mild (fun _ _ => True) root.fields := by
    intro data pos isEntry mapped hmapped k v hk
    rw [NamespaceRules.mapped_eq_empty rfl hmapped] at hk
    cases hk
  exact .ns hnone (SortedMap.forall_insert (.record trivial (.ns site_mild hleaves)) nofun)

end Sites

/-! ## Every run -/

/-- As long as no mapper fails, a specification and what is left of it without its mappers hand on
the same notices, come to the same errors at the same steps, and go through the same stores, apart
from data at leaves that some mapper gave. -/
theorem Namespace.mappers_confined {spec : Namespace σ} {options : Options σ}
    (hspec : spec.toSpecifier.Determined) (hoptions : options.Determined)
    (hmild : spec.toSpecifier.Mild fun _ _ => True) {steps : List Step} {s : σ}
    (hcalls : ∀ call ∈ spec.calls options steps s, call.isFailedMapper = false) (s' : σ) :
    spec.withoutMappers.notices options steps s' = spec.notices options steps s ∧
    (∀ e, (spec.withoutMappers.play options steps s').1 = .error e ↔
      (spec.play options steps s).1 = .error e) ∧
    ∀ visits visits', (spec.play options steps s).1 = .ok visits →
      (spec.withoutMappers.play options steps s').1 = .ok visits' →
        ∀ i : Nat, Option.Rel
          (fun v w => v.1.SameApartFrom (spec.Mapped options steps s) spec w.1 ∧ v.2 = w.2)
          visits[i]? visits'[i]? := by
  have halike := Namespace.recorded_alike (spec.Mapped options steps s) hspec hoptions hmild
    steps s s'
  have hnot : ¬ (influence σ (spec.Mapped options steps s)).lost
      ((spec.translate (recorder σ)).play options.recorded steps ([], s)).2 := by
    rintro ⟨call, hmem, hfailed | ⟨place, k, hgives, hunmapped⟩⟩
    · rw [hcalls call hmem] at hfailed
      cases hfailed
    · exact hunmapped ⟨call, hmem, hgives⟩
  refine ⟨(halike.results hnot).1.symm, ?_⟩
  obtain ⟨as, bs, ha, hb, hvisits⟩ | ⟨e, ha, hb⟩ := Namespace.play_of_recorded halike hnot
  · rw [ha, hb]
    refine ⟨fun e => ⟨nofun, nofun⟩, ?_⟩
    rintro _ _ ⟨⟩ ⟨⟩ i
    obtain ⟨hv, hw⟩ | ⟨v, w, hv, hw, hlevel, herror⟩ := rel_cases (hvisits i)
    · rw [hv, hw]
      exact .none
    · rw [hv, hw]
      exact .some ⟨hlevel.sameApartFrom, herror⟩
  · rw [ha, hb]
    exact ⟨fun _ => Iff.rfl, fun _ _ h => nomatch h⟩

/-- No mapper fails while a site is added and dropped. Without mappers there is the same one notice,
and the same one input is refused. -/
theorem Namespace.mappers_confined_sites :
    (Sites.root.notices Hosts.quiet Sites.steps ()).map (·.path) = ["sites.a.port"] ∧
    Sites.root.withoutMappers.notices Hosts.quiet Sites.steps () =
      Sites.root.notices Hosts.quiet Sites.steps () ∧
    ∃ visits visits', (Sites.root.play Hosts.quiet Sites.steps ()).1 = .ok visits ∧
      (Sites.root.withoutMappers.play Hosts.quiet Sites.steps ()).1 = .ok visits' ∧
      visits.map (·.2.isSome) = [false, false, true, false] ∧
      ∀ i : Nat, Option.Rel
        (fun v w =>
          v.1.SameApartFrom (Sites.root.Mapped Hosts.quiet Sites.steps ()) Sites.root w.1 ∧
            v.2 = w.2) visits[i]? visits'[i]? := by
  have hcalls : ∀ call ∈ Sites.root.calls Hosts.quiet Sites.steps (),
      call.isFailedMapper = false := by decide
  obtain ⟨hnotices, -, hvisits⟩ := Namespace.mappers_confined
    (Specifier.determined_of_subsingleton _) (Options.determined_of_subsingleton _)
    Sites.root_mild hcalls ()
  exact ⟨rfl, hnotices, _, _, rfl, rfl, rfl, hvisits _ _ rfl rfl⟩

end Settings
