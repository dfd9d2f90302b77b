import Settings.Proofs.Change

/-!
# Derived data is up to date

A mapper that gives undeclared keys alone, and reads nothing but the declared part of its
namespace's data, derives further data from what is declared. `Fresh` says that everything derived
is what the mappers give on the data as it is now. The proof has one idea: assigning undeclared keys
leaves the declared part alone (`declaredFields_assign`), here and in all that lies around, so what
a mapper has just assigned is also what it would give again. Initialization and changes run the
mapper of every namespace whose declared part they touch, the inner ones first.
-/

set_option autoImplicit false

namespace Settings

variable {σ : Type}

/-! ## The declared part of data -/

mutual

/-- The declared part of a value: in namespaces the keys without specifier are left out, at every
level. -/
def declaredPart : Option (Specifier σ) → Value → Value
  | some (.ns _ specs), .obj fields => .obj (declaredFields specs fields)
  | some (.record _ entry), .obj entries => .obj (declaredEntries entry entries)
  | _, v => v
termination_by structural _ v => v

/-- The declared part of a namespace's data. -/
def declaredFields {lo : Option String} (specs : Fields (Specifier σ)) :
    SortedMap Value lo → SortedMap Value lo
  | .nil => .nil
  | .cons name above v rest =>
    if (specs.get? name).isSome then
      .cons name above (declaredPart (specs.get? name) v) (declaredFields specs rest)
    else (declaredFields specs rest).weaken fun _ h => above.trans h
termination_by structural fields => fields

/-- The declared part of a record's data: that of every entry. -/
def declaredEntries {lo : Option String} (entry : Specifier σ) :
    SortedMap Value lo → SortedMap Value lo
  | .nil => .nil
  | .cons name above v rest =>
    .cons name above (declaredPart (some entry) v) (declaredEntries entry rest)
termination_by structural entries => entries

end

theorem get?_declaredFields {lo : Option String} (specs : Fields (Specifier σ))
    (fields : SortedMap Value lo) (k : String) :
    (declaredFields specs fields).get? k =
      if (specs.get? k).isSome then (fields.get? k).map (declaredPart (specs.get? k))
      else none := by
  have hfilter : declaredFields specs fields = fields.filterMap fun name v =>
      if (specs.get? name).isSome then some (declaredPart (specs.get? name) v) else none := by
    induction fields with
    | nil => rfl
    | cons name above v rest ih =>
      rw [declaredFields, SortedMap.filterMap, ih]
      cases (specs.get? name).isSome <;> rfl
  rw [hfilter, SortedMap.get?_filterMap]
  cases (specs.get? k).isSome <;> cases fields.get? k <;> rfl

/-- Assigning undeclared keys leaves the declared part alone. -/
theorem declaredFields_assign {specs : Fields (Specifier σ)} {mapped : Fields Value}
    (h : ∀ k v, mapped.get? k = some v → specs.get? k = none) (data : Fields Value) :
    declaredFields specs (data.assign mapped) = declaredFields specs data := by
  apply SortedMap.ext
  intro k
  rw [get?_declaredFields, get?_declaredFields, SortedMap.get?_assign]
  cases hk : mapped.get? k with
  | none => rfl
  | some v =>
    rw [h k v hk]
    rfl

/-! ## Mappers that derive -/

/-- The mapper gives undeclared keys alone, and what it returns depends on the declared part of its
input alone. -/
structure NamespaceRules.Derives (rules : NamespaceRules σ) (specs : Fields (Specifier σ)) :
    Prop where
  undeclared : ∀ data pos isEntry mapped, (rules.runMapper data pos isEntry).Yields mapped →
    ∀ k v, mapped.get? k = some v → specs.get? k = none
  reads : ∀ mapper, rules.mapper = some mapper → ∀ data pos pos' s s',
    (mapper (.obj data) pos s).1 = (mapper (.obj (declaredFields specs data)) pos' s').1

def Specifier.Derives : Specifier σ → Prop :=
  Specifier.Everywhere (fun _ => True) NamespaceRules.Derives fun _ => True

theorem Specifier.Derives.mild {s : Specifier σ} (h : s.Derives) : s.Mild fun _ _ => True := by
  refine h.imp (fun _ _ => trivial) (fun rules specs hrules => ?_) (fun _ _ => trivial)
  intro data pos isEntry mapped hmapped k v hk
  rw [hrules.undeclared data pos isEntry mapped hmapped k v hk]
  exact ⟨rfl, fun _ => trivial⟩

/-- What a mapper has given once it gives again where its answer is the same. -/
theorem NamespaceRules.runMapper_gives {rules : NamespaceRules σ} {data data' : Fields Value}
    {pos pos' : Position} {isEntry isEntry' : Bool}
    (hsame : ∀ mapper, rules.mapper = some mapper → ∀ s t,
      (mapper (.obj data') (if isEntry' then pos'.asEntry else pos') t).1 =
        (mapper (.obj data) (if isEntry then pos.asEntry else pos) s).1)
    {mapped : Fields Value} (hmapped : (rules.runMapper data pos isEntry).Yields mapped) :
    (rules.runMapper data' pos' isEntry').Gives mapped := by
  unfold runMapper at hmapped ⊢
  cases hmapper : rules.mapper with
  | none =>
    rw [hmapper] at hmapped
    rw [hmapped.of_pure]
    exact Run.gives_pure ∅
  | some mapper =>
    rw [hmapper] at hmapped
    obtain ⟨v, hcall, hobject⟩ := hmapped.of_bind
    obtain ⟨s, s', hcall⟩ := hcall.of_mapError
    have hagain : (mapper (.obj data') (if isEntry' then pos'.asEntry else pos')).Gives v :=
      fun t => (hsame mapper hmapper s t).trans (congrArg Prod.fst hcall)
    refine (hagain.mapError _).bind ?_
    rw [hobject.of_ofOption]
    exact Run.gives_pure mapped

/-- What a mapper has given once it gives again, wherever it is called, on all data with the same
declared part. -/
theorem NamespaceRules.Derives.gives {rules : NamespaceRules σ} {specs : Fields (Specifier σ)}
    (h : rules.Derives specs) {data data' : Fields Value}
    (hsame : declaredFields specs data' = declaredFields specs data) {pos : Position}
    {isEntry : Bool} {mapped : Fields Value}
    (hmapped : (rules.runMapper data pos isEntry).Yields mapped) (pos' : Position)
    (isEntry' : Bool) : (rules.runMapper data' pos' isEntry').Gives mapped := by
  refine NamespaceRules.runMapper_gives (fun mapper hmapper s t => ?_) hmapped
  -- Both inputs are the same to the mapper, as the declared part that they share is.
  rw [h.reads mapper hmapper data' _ pos' t t, hsame, ← h.reads mapper hmapper data _ pos' s t]

/-! ## Data that is up to date -/

/-- Everything derived in the data is what the mappers give on the data as it is. -/
inductive Fresh : Option (Specifier σ) → Option Value → Prop
  | value {spec : Option (Specifier σ)} {v : Option Value} (terminal : containerKind? spec = none) :
      Fresh spec v
  | ns {rules : NamespaceRules σ} {specs : Fields (Specifier σ)} {data mapped : Fields Value}
      (fields : ∀ k, Fresh (specs.get? k) (data.get? k))
      (current : ∀ pos isEntry, (rules.runMapper data pos isEntry).Gives mapped)
      (assigned : ∀ k v, mapped.get? k = some v → data.get? k = some v) :
      Fresh (some (.ns rules specs)) (some (.obj data))
  | record {starters : Option (CallM σ Value)} {entry : Specifier σ} {data : Fields Value}
      (entries : ∀ k v, data.get? k = some v → Fresh (some entry) (some v)) :
      Fresh (some (.record starters entry)) (some (.obj data))

namespace Fresh

theorem of_ns {rules : NamespaceRules σ} {specs : Fields (Specifier σ)} {v : Option Value}
    (h : Fresh (some (.ns rules specs)) v) :
    ∃ data mapped, v = some (.obj data) ∧ (∀ k, Fresh (specs.get? k) (data.get? k)) ∧
      (∀ pos isEntry, (rules.runMapper data pos isEntry).Gives mapped) ∧
      ∀ k v, mapped.get? k = some v → data.get? k = some v := by
  cases h with
  | value terminal => cases terminal
  | ns fields current assigned => exact ⟨_, _, rfl, fields, current, assigned⟩

theorem of_record {starters : Option (CallM σ Value)} {entry : Specifier σ} {v : Option Value}
    (h : Fresh (some (.record starters entry)) v) :
    ∃ data, v = some (.obj data) ∧ ∀ k v, data.get? k = some v → Fresh (some entry) (some v) := by
  cases h with
  | value terminal => cases terminal
  | record entries => exact ⟨_, rfl, entries⟩

/-- Only a leaf, or an undeclared key, can be up to date without data. -/
theorem terminal_of_none {spec : Option (Specifier σ)} (h : Fresh spec none) :
    containerKind? spec = none := by
  cases h with
  | value terminal => exact terminal

/-- A namespace is up to date once its mapper has run over fields that are. -/
theorem mapped {rules : NamespaceRules σ} {specs : Fields (Specifier σ)}
    (hrules : rules.Derives specs) {data mapped : Fields Value} {pos : Position} {isEntry : Bool}
    (hmapped : (rules.runMapper data pos isEntry).Yields mapped)
    (h : ∀ k, Fresh (specs.get? k) (data.get? k)) :
    Fresh (some (.ns rules specs)) (some (.obj (data.assign mapped))) := by
  have hundeclared := hrules.undeclared _ _ _ _ hmapped
  refine .ns (fun k => ?_) (hrules.gives (declaredFields_assign hundeclared data) hmapped)
    fun k v hk => ?_
  · rw [SortedMap.get?_assign]
    cases hk : mapped.get? k with
    | none => exact h k
    | some v =>
      rw [hundeclared k v hk]
      exact .value rfl
  · rw [SortedMap.get?_assign, hk, Option.some_or]

/-- The fields of a namespace that is up to date are. -/
theorem opened {rules : NamespaceRules σ} {specs : Fields (Specifier σ)} {slot : Slot}
    (h : Fresh (some (.ns rules specs)) slot.data) (k : String) :
    Fresh (specs.get? k) ((slot.opened .ns).slot k).data := by
  obtain ⟨data, mapped, hdata, hfields, -⟩ := h.of_ns
  rw [Level.data_opened, Slot.child, hdata]
  exact hfields k

end Fresh

/-! ## Initialization -/

/-- The fields of a namespace's slot are up to date; the namespace's own mapper may not have run. -/
private def FreshInside (s : Specifier σ) (slot : Slot) : Prop :=
  ∀ rules specs, s = .ns rules specs → ∀ k, Fresh (specs.get? k) ((slot.opened .ns).slot k).data

private theorem Fresh.inside {s : Specifier σ} {slot : Slot} (h : Fresh (some s) slot.data) :
    FreshInside s slot := by
  rintro rules specs rfl
  exact h.opened

/-- Entries made from starters are up to date if fields that are built are, and so is every
namespace that a value is laid over. -/
private theorem fresh_stitched {starters : Option (CallM σ Value)} {entry : Specifier σ}
    {given : Fields Value} {pos : Position} {level : Level}
    (h : IsStitched (fun s _ _ field => s.Derives → Fresh (some s) field.data)
      (fun s _ _ _ before after => s.Derives → FreshInside s before → Fresh (some s) after.data)
      entry given pos level)
    (hentry : entry.Derives) : Fresh (some (.record starters entry)) (some (.obj level.data)) := by
  cases h with
  | none => exact .record fun k v hk => nomatch hk
  | @some rules specs _ _ canonical _ hcanonical others entries =>
    obtain ⟨-, hspecs⟩ := Specifier.everywhere_ns.1 hentry
    have hbase : FreshInside (.ns rules specs) (.of .ns canonical) := by
      rintro _ _ ⟨⟩ k
      show Fresh (specs.get? k) (canonical.slot k).data
      obtain ⟨hskip, hbuild⟩ := hcanonical k
      cases hs : specs.get? k with
      | none => exact .value rfl
      | some s =>
        cases hshadow : s.isShadow with
        | false =>
          obtain ⟨field, hfield, hslot⟩ := hbuild s hs hshadow
          rw [hslot]
          exact hfield (hspecs k s hs)
        | true =>
          -- What is left out is a leaf.
          cases s with
          | leaf => exact .value rfl
          | ns => cases hshadow
          | record => cases hshadow
    refine .record fun k v hk => ?_
    cases hgiven : given.get? k with
    | none =>
      have hdata : level.data.get? k = none := congrArg Slot.data (others k hgiven)
      rw [hdata] at hk
      cases hk
    | some starter =>
      obtain ⟨inner, hslot, hlaid⟩ := entries k starter hgiven
      have hdata : level.data.get? k = some (.obj inner.data) := congrArg Slot.data hslot
      rw [hdata] at hk
      cases hk
      exact hlaid hentry hbase

/-- Whatever initialization builds is up to date. -/
theorem Specifier.defaults_fresh {s : Specifier σ} (hs : s.Derives) {pos : Position}
    {isEntry : Bool} {field : Initialized} (h : (s.defaults pos isEntry).Yields field) :
    Fresh (some s) field.data := by
  refine Specifier.defaults_induction
    (D := fun s _ _ field => s.Derives → Fresh (some s) field.data)
    (G := fun s _ _ _ before after => s.Derives → FreshInside s before →
      Fresh (some s) after.data) ?leaf ?ns ?record ?givenLeaf ?givenNs ?givenRecord h hs
  case leaf => exact fun _ _ _ _ _ _ => .value rfl
  case ns =>
    intro rules specs pos isEntry seed level mapped _ _ hfields hmapped hs
    obtain ⟨hrules, hspecs⟩ := Specifier.everywhere_ns.1 hs
    refine .mapped hrules hmapped fun k => ?_
    cases hk : specs.get? k with
    | none => exact .value rfl
    | some s =>
      obtain ⟨field, hfield, hslot⟩ := hfields k s hk
      have hfresh := hfield (hspecs k s hk)
      show Fresh (some s) (level.slot k).data
      rw [hslot]
      -- A field without data is a leaf, and there the seed may have anything.
      unfold Slot.overlay
      cases hdata : field.data with
      | none =>
        rw [hdata] at hfresh
        exact .value hfresh.terminal_of_none
      | some v =>
        rw [hdata] at hfresh
        exact hfresh
  case record =>
    intro starters entry pos isEntry given level _ hstitched hs
    exact fresh_stitched hstitched (Specifier.everywhere_record.1 hs).2
  case givenLeaf => exact fun _ _ _ _ _ _ _ => .value rfl
  case givenNs =>
    intro rules specs pos isEntry given before fields inner mapped _ hothers hgiven hmapped hs
      hbefore
    obtain ⟨hrules, hspecs⟩ := Specifier.everywhere_ns.1 hs
    refine .mapped hrules hmapped fun k => ?_
    have hslot := hbefore rules specs rfl k
    show Fresh (specs.get? k) (inner.slot k).data
    cases hk : givenFor? specs fields k with
    | none =>
      rw [hothers k hk]
      exact hslot
    | some p =>
      obtain ⟨s, v⟩ := p
      have hdeclared := (specs_of_givenFor? hk).1
      rw [hdeclared] at hslot ⊢
      exact hgiven k s v hk (hspecs k s hdeclared) hslot.inside
  case givenRecord =>
    intro starters entry pos given before level hstitched hs _
    exact fresh_stitched hstitched (Specifier.everywhere_record.1 hs).2

/-! ## A change -/

/-- An entry that has been made sure of is up to date. -/
theorem Namespace.Ensures.fresh {rules : NamespaceRules σ} {specs : Fields (Specifier σ)}
    {pos : Position} {slot slot' : Slot} (h : (Namespace.mk rules specs).Ensures pos slot slot')
    (hentry : (Specifier.ns rules specs).Derives)
    (hslot : ∀ v, slot.data = some v → Fresh (some (.ns rules specs)) (some v)) :
    Fresh (some (.ns rules specs)) slot'.data := by
  cases h with
  | created missing build =>
    exact Specifier.defaults_fresh hentry (Namespace.defaults_toSpecifier build)
  | kept present notNull =>
    obtain ⟨v, hv⟩ := Option.ne_none_iff_exists'.1 present
    rw [hv]
    exact hslot v hv

/-- A change leaves everything up to date: it runs the mapper of every namespace that it goes
through. -/
theorem Changes.fresh {isEntry : Bool} {spec : Option (Specifier σ)} {pos : Position}
    {slot slot' : Slot} {v : Value} (h : Changes isEntry spec pos slot v slot')
    (hspec : ∀ s, spec = some s → s.Derives) (hslot : Fresh spec slot.data) :
    Fresh spec slot'.data := by
  induction h with
  | value terminal => exact .value terminal
  | @ns isEntry rules specs pos c inner inner' mapped others each mapper ih =>
    obtain ⟨hrules, hspecs⟩ := Specifier.everywhere_ns.1 (hspec _ rfl)
    obtain ⟨data, _, hdata, hfields, -⟩ := hslot.of_ns
    obtain rfl : inner.data = data := Value.obj.inj (Option.some.inj hdata)
    refine .mapped hrules mapper fun k => ?_
    show Fresh (specs.get? k) (inner'.slot k).data
    cases hk : c.get? k with
    | none =>
      rw [others k hk]
      exact hfields k
    | some v => exact ih k v hk (fun s hs => hspecs k s hs) (hfields k)
  | @record isEntry starters rules specs pos provenance initial c inner inner' base others ensured
      each ih =>
    obtain ⟨-, hentry⟩ := Specifier.everywhere_record.1 (hspec _ rfl)
    obtain ⟨data, hdata, hentries⟩ := hslot.of_record
    obtain rfl : inner.data = data := Value.obj.inj (Option.some.inj hdata)
    refine .record fun k v hk => ?_
    have hafter : (inner'.slot k).data = some v := hk
    cases hc : c.get? k with
    | none =>
      rw [others k hc] at hafter
      exact hentries k v hafter
    | some w =>
      rw [← hafter]
      have hbase := (ensured k w hc).fresh hentry (hentries k)
      exact ih k w hc (Specifier.forall_of_some hentry) hbase

/-! ## A store of labels -/

namespace Labels

/-- Every person gets the name as a label. -/
def person : NamespaceRules Unit :=
  ⟨none, none, some fun v _ => pure (.obj (.ofList [("label", (v.field? "name").getD .null)]))⟩

def specs : Fields (Specifier Unit) := .ofList [("name", .leaf ⟨none, none, none, none, false⟩)]

def root : Namespace Unit :=
  ⟨⟨none, none, none⟩, .ofList [("people", .record none (.ns person specs))]⟩

def built : Store Unit :=
  ⟨root, Hosts.quiet, ⟨.ofList [("people", .obj ∅)], .ofList [("people", .freshRecord ∅)]⟩⟩

def input (name : String) : Value :=
  .obj (.ofList [("people", .obj (.ofList [("x", .obj (.ofList [("name", .str name)]))]))])

/-- A person is added and then renamed. -/
def renamed : Store Unit :=
  ((built.step (.change (input "Ada")) ()).1.step (.change (input "Grace")) ()).1

theorem renamed_reachable : Store.Reachable root Hosts.quiet renamed :=
  .step (.step (.create ⟨(), (), rfl⟩) _ ()) _ ()

/-- A mapper whose result is an object of one key gives that key alone. -/
theorem key_eq_of_mapped {rules : NamespaceRules Unit} {name : String}
    {f : Value → Position → Value}
    (hmapper : rules.mapper = some fun v pos => pure (.obj (.ofList [(name, f v pos)])))
    {data mapped : Fields Value} {pos : Position} {isEntry : Bool}
    (hmapped : (rules.runMapper data pos isEntry).Yields mapped) {k : String} {v : Value}
    (hk : mapped.get? k = some v) : k = name := by
  unfold NamespaceRules.runMapper at hmapped
  rw [hmapper] at hmapped
  obtain ⟨u, hcall, hobject⟩ := hmapped.of_bind
  obtain rfl := hcall.of_mapError.of_pure
  obtain rfl := Option.some.inj hobject.of_ofOption
  exact (SortedMap.eq_of_get?_ofList hk).1

/-- The name is declared. -/
theorem name_declaredFields (data : Fields Value) :
    (Value.obj (declaredFields specs data)).field? "name" = (Value.obj data).field? "name" := by
  show (declaredFields specs data).get? "name" = data.get? "name"
  have hspec : specs.get? "name" = some (.leaf ⟨none, none, none, none, false⟩) := rfl
  rw [get?_declaredFields, hspec, Option.isSome_some, if_pos rfl]
  cases data.get? "name" with
  | none => rfl
  | some v => cases v <;> rfl

theorem person_derives : person.Derives specs where
  undeclared data pos isEntry mapped hmapped k v hk := by
    rw [key_eq_of_mapped rfl hmapped hk]
    rfl
  reads mapper hmapper data pos pos' s s' := by
    cases hmapper
    dsimp only
    rw [name_declaredFields]

theorem root_derives : root.toSpecifier.Derives := by
  have hname : ∀ k s, specs.get? k = some s → s.Derives :=
    SortedMap.forall_insert (.leaf trivial) nofun
  have hnone : (⟨none, none, none⟩ : NamespaceRules Unit).Derives root.fields := by
    refine ⟨fun data pos isEntry mapped hmapped k v hk => ?_, nofun⟩
    rw [NamespaceRules.mapped_eq_empty rfl hmapped] at hk
    cases hk
  exact .ns hnone (SortedMap.forall_insert (.record trivial (.ns person_derives hname)) nofun)

end Labels

/-! ## Every store -/

/-- Where a path finds data in data that is up to date, that is up to date too. -/
theorem Fresh.at_path {spec target : Option (Specifier σ)} {path : List String}
    (hpath : Leads spec path target) {v w : Value} (h : Fresh spec (some v))
    (hw : v.at? path = some w) : Fresh target (some w) := by
  induction hpath generalizing v with
  | here =>
    cases hw
    exact h
  | @field rules specs name path target _ ih =>
    obtain ⟨data, _, hdata, hfields, -⟩ := h.of_ns
    cases hdata
    obtain ⟨u, hu, hw⟩ := Option.bind_eq_some_iff.1 hw
    have hfield : data.get? name = some u := hu
    exact ih (hfield ▸ hfields name) hw
  | @entry starters entry name path target _ ih =>
    obtain ⟨data, hdata, hentries⟩ := h.of_record
    cases hdata
    obtain ⟨u, hu, hw⟩ := Option.bind_eq_some_iff.1 hw
    exact ih (hentries name u hu) hw

theorem Store.Reachable.fresh {spec : Namespace σ} {options : Options σ} {store : Store σ}
    (h : Store.Reachable spec options store) (hspec : spec.toSpecifier.Derives) :
    Fresh (some spec.toSpecifier) (some (.obj store.data)) := by
  have hroot : Coherent (fun _ _ => True) (some spec.toSpecifier) (.of .ns store.level) ∧
      Fresh (some spec.toSpecifier) (some (.obj store.level.data)) := by
    refine h.level_induction (P := fun level =>
      Coherent (fun _ _ => True) (some spec.toSpecifier) (.of .ns level) ∧
        Fresh (some spec.toSpecifier) (some (.obj level.data)))
      (fun level hbuilt => ?_) (fun input c level mid level' hlevel hresolves hcommits => ?_)
    · exact ⟨Specifier.defaults_coherent (fun _ => trivial) hspec.mild hbuilt,
        Specifier.defaults_fresh hspec hbuilt⟩
    · -- Data and metadata agree on the containers, so resolving and committing are one pass.
      have hchanges := hresolves.changes (fun _ => trivial) hcommits
        (Specifier.forall_of_some hspec.mild) hlevel.1
      exact ⟨hchanges.coherent (fun _ => trivial) (Specifier.forall_of_some hspec.mild) hlevel.1,
        hchanges.fresh (Specifier.forall_of_some hspec) hlevel.2⟩
  exact hroot.2

/-- In every store, wherever the data of a namespace is found, it is an object, and its mapper gives
nothing on it that is not there already. -/
theorem Store.Reachable.derived_current {spec : Namespace σ} {options : Options σ} {store : Store σ}
    (h : Store.Reachable spec options store) (hspec : spec.toSpecifier.Derives)
    {path : List String} {rules : NamespaceRules σ} {specs : Fields (Specifier σ)}
    (hpath : Leads (some spec.toSpecifier) path (some (.ns rules specs))) {v : Value}
    (hv : (Value.obj store.data).at? path = some v) :
    ∃ data mapped, v = .obj data ∧
      (∀ pos isEntry, (rules.runMapper data pos isEntry).Gives mapped) ∧
      ∀ k w, mapped.get? k = some w → data.get? k = some w := by
  obtain ⟨data, mapped, hdata, -, hcurrent, hassigned⟩ :=
    ((h.fresh hspec).at_path hpath hv).of_ns
  exact ⟨data, mapped, Option.some.inj hdata, hcurrent, hassigned⟩

/-- The renamed person has the new name as a label. -/
theorem Store.Reachable.derived_current_labels :
    (Value.obj Labels.renamed.data).at? ["people", "x", "label"] = some (.str "Grace") ∧
    ∃ data mapped, (Value.obj Labels.renamed.data).at? ["people", "x"] = some (.obj data) ∧
      (∀ pos isEntry, (Labels.person.runMapper data pos isEntry).Gives mapped) ∧
      ∀ k w, mapped.get? k = some w → data.get? k = some w := by
  have hpath : Leads (some Labels.root.toSpecifier) ["people", "x"]
      (some (.ns Labels.person Labels.specs)) := .field (.entry .here)
  obtain ⟨data, mapped, hdata, hcurrent, hassigned⟩ := Store.Reachable.derived_current
    Labels.renamed_reachable Labels.root_derives hpath (rfl : _ = some _)
  exact ⟨rfl, data, mapped, congrArg some hdata, hcurrent, hassigned⟩

end Settings
