import Settings.Proofs.Lockstep

/-!
# Two stores in lockstep

Resolving and committing go in step for two translations of a specification whose callbacks run
alike, and so do whole runs of stores. Resolving comes to the same candidate on both sides, so both
sides commit the same values; exempt data may differ before and after, and nothing else.
-/

set_option autoImplicit false

namespace Settings

variable {σ σ₁ σ₂ : Type} {link : Link σ₁ σ₂} {exempt : Place → String → Prop}
  {t₁ : Translation σ σ₁} {t₂ : Translation σ σ₂} {o₁ : Options σ₁} {o₂ : Options σ₂}

/-! ## Resolving -/

/-- Whether the entry of a record has to be initialized: its data is missing or `null`. -/
def entryMissing : Option Value → Bool
  | none | some .null => true
  | some _ => false

theorem SameBut.entryMissing {spec : Option (Specifier σ)} {place : Place} {a b : Option Value}
    (h : SameBut exempt spec place a b) : entryMissing a = entryMissing b := by
  cases h <;> rfl

/-- Making sure of an entry, as a run that ends with the level it leaves. -/
theorem Namespace.on_ensureEntry (entry : Namespace σ) (name : String) (pos : Position)
    (level : Level) :
    (entry.ensureEntry name pos).on level =
      if entryMissing (level.data.get? name) then
        (fun inner => ((), level.put name .ns inner)) <$> entry.defaults pos true
      else pure ((), level) := by
  have hmade : Run.on (do
      let inner ← (entry.defaults pos true).beside
      Run.update fun p : Level × σ => (p.1.put name .ns inner, p.2)) level =
      (fun inner => ((), level.put name .ns inner)) <$> entry.defaults pos true := by
    rw [Run.on_bind, Run.on_beside, map_eq_pure_bind, map_eq_pure_bind, bind_assoc]
    rfl
  show Run.on (match level.data.get? name with
    | none | some .null => do
      let inner ← (entry.defaults pos true).beside
      Run.update fun p : Level × σ => (p.1.put name .ns inner, p.2)
    | some _ => pure ()) level = _
  cases level.data.get? name with
  | none => exact hmade
  | some v =>
    cases v with
    | null => exact hmade
    | _ => rfl

variable {rules : NamespaceRules σ} {specs : Fields (Specifier σ)} {place : Place}

/-- Resolving the value of a node and the entries made by it run alike. -/
structure ResolvesAlike (link : Link σ₁ σ₂) (exempt : Place → String → Prop)
    (t₁ : Translation σ σ₁) (t₂ : Translation σ σ₂) (o₁ : Options σ₁) (o₂ : Options σ₂)
    (s : Specifier σ) (place : Place) : Prop where
  value : ∀ (parent : Specifier σ) (pplace : Place) (name : String),
    parent.below? name = some s → parent.placeBelow pplace name = place →
    ∀ (top : String → Prop) (pos : Position) (input : Value),
      link.Keeps (Level.SameBut exempt top parent pplace)
        ((s.translate t₁ place).resolve o₁ pos name input)
        ((s.translate t₂ place).resolve o₂ pos name input)
  entries : ∀ (starters : Option (CallM σ Value)) (rplace : Place), rplace.entry = place →
    ∀ (top : String → Prop) (pos : Position) (input : Value),
      link.Keeps (Level.SameBut exempt top (.record starters s) rplace)
        ((s.translate t₁ place).resolveEntries o₁ pos input)
        ((s.translate t₂ place).resolveEntries o₂ pos input)

theorem ensureEntry_keeps
    (here : (t₁.ns place rules).Agree link exempt (.ns rules specs) place (t₂.ns place rules))
    (hfields : ∀ k s, specs.get? k = some s →
      InitializesAlike link exempt t₁ t₂ s (place.field k))
    {starters : Option (CallM σ Value)} {rplace : Place} (hplace : rplace.entry = place)
    (top : String → Prop) (name : String) (pos : Position) :
    link.Keeps (Level.SameBut exempt top (.record starters (.ns rules specs)) rplace)
      ((Namespace.mk (t₁.ns place rules) (translateFields t₁ specs place)).ensureEntry name pos)
      ((Namespace.mk (t₂.ns place rules) (translateFields t₂ specs place)).ensureEntry name
        pos) := by
  intro l₁ l₂
  rw [Namespace.on_ensureEntry, Namespace.on_ensureEntry]
  have hdefaults := here.defaultsWith hfields pos true
  cases hmissing : entryMissing (l₁.data.get? name) with
  | false =>
    refine .under (fun s hs => hs) fun hl => ?_
    rw [← (hl.data.at_container rfl hplace (Option.some_ne_none _)).entryMissing, hmissing]
    exact Link.alike_pure fun _ => ⟨rfl, hl⟩
  | true =>
    refine .under (Link.stays_map hdefaults.stays _) fun hl => ?_
    rw [← (hl.data.at_container rfl hplace (Option.some_ne_none _)).entryMissing, hmissing]
    exact hdefaults.map fun _ _ _ hinner =>
      ⟨rfl, hl.put rfl hplace (Option.some_ne_none _) hinner _⟩

section Fields

variable (hfields : ∀ k s, specs.get? k = some s →
  ResolvesAlike link exempt t₁ t₂ o₁ o₂ s (place.field k))
include hfields

theorem resolveField_keeps (top : String → Prop) (pos : Position) (name : String) (input : Value) :
    link.Keeps (Level.SameBut exempt top (.ns rules specs) place)
      (resolveField (translateFields t₁ specs place) o₁ pos name input)
      (resolveField (translateFields t₂ specs place) o₂ pos name input) := by
  rw [resolveField_eq, resolveField_eq, get?_translateFields, get?_translateFields]
  cases hs : specs.get? name with
  | none => exact Link.edits_pure fun _ _ hl => ⟨rfl, hl⟩
  | some s => exact (hfields name s hs).value (.ns rules specs) place name hs rfl _ _ _

theorem resolveWith_keeps
    (here : (t₁.ns place rules).Agree link exempt (.ns rules specs) place (t₂.ns place rules))
    (top : String → Prop) (input : Value) (pos : Position) :
    link.Keeps (Level.SameBut exempt top (.ns rules specs) place)
      ((t₁.ns place rules).resolveWith
        (fun name v => resolveField (translateFields t₁ specs place) o₁ pos name v) input pos)
      ((t₂.ns place rules).resolveWith
        (fun name v => resolveField (translateFields t₂ specs place) o₂ pos name v) input pos) :=
  (Link.Edits.beside (here.longhand input pos)).bind_same fun input =>
    resolveEach_keeps (resolveField_keeps hfields top pos) input ∅

end Fields

private theorem resolvesAlike_leaf {rules : LeafRules σ}
    (here : (t₁.leaf place rules).Agree link (t₂.leaf place rules))
    (hreport : ∀ notice, link.Same (o₁.report notice) (o₂.report notice)) :
    ResolvesAlike link exempt t₁ t₂ o₁ o₂ (.leaf rules) place where
  value parent pplace name hbelow hplace top pos input := by
    rw [Specifier.translate, Specifier.translate, Specifier.resolve, Specifier.resolve]
    exact .beside (here.resolve hreport input pos)
  entries starters rplace hplace top pos input := by
    rw [Specifier.translate, Specifier.translate, Specifier.resolveEntries,
      Specifier.resolveEntries]
    exact Link.edits_fail _

private theorem resolvesAlike_ns
    (here : (t₁.ns place rules).Agree link exempt (.ns rules specs) place (t₂.ns place rules))
    (hinit : ∀ k s, specs.get? k = some s → InitializesAlike link exempt t₁ t₂ s (place.field k))
    (hfields : ∀ k s, specs.get? k = some s →
      ResolvesAlike link exempt t₁ t₂ o₁ o₂ s (place.field k)) :
    ResolvesAlike link exempt t₁ t₂ o₁ o₂ (.ns rules specs) place where
  value parent pplace name hbelow hplace top pos input := by
    rw [Specifier.translate, Specifier.translate, Specifier.resolve, Specifier.resolve]
    exact (Link.edits_within rfl hbelow hplace fun top =>
      resolveWith_keeps hfields here top input pos).map fun _ _ _ _ h =>
        ⟨congrArg Value.obj h.1, h.2⟩
  entries starters rplace hplace top pos input := by
    rw [Specifier.translate, Specifier.translate]
    cases input with
    | obj entries =>
      rw [Specifier.resolveEntries, Specifier.resolveEntries]
      refine resolveEach_keeps (fun k v => ?_) entries ∅
      refine (ensureEntry_keeps here hinit hplace top k (pos.child k)).bind_same fun _ => ?_
      have hbelow : (Specifier.record starters (.ns rules specs)).below? k =
        some (.ns rules specs) := rfl
      exact (Link.edits_within rfl hbelow hplace fun top =>
        resolveWith_keeps hfields here top v (pos.child k)).map fun _ _ _ _ h =>
          ⟨congrArg Value.obj h.1, h.2⟩
    | _ => exact Link.edits_fail _

private theorem resolvesAlike_record {starters : Option (CallM σ Value)} {entry : Specifier σ}
    (hentry : ResolvesAlike link exempt t₁ t₂ o₁ o₂ entry place.entry) :
    ResolvesAlike link exempt t₁ t₂ o₁ o₂ (.record starters entry) place where
  value parent pplace name hbelow hplace top pos input := by
    rw [Specifier.translate, Specifier.translate, Specifier.resolve, Specifier.resolve]
    exact (Link.edits_within rfl hbelow hplace fun top =>
      hentry.entries starters place rfl top pos input).map fun _ _ _ _ h =>
        ⟨congrArg Value.obj h.1, h.2⟩
  entries starters rplace hplace top pos input := by
    rw [Specifier.translate, Specifier.translate, Specifier.resolveEntries,
      Specifier.resolveEntries]
    exact Link.edits_fail _

theorem Specifier.Agree.resolvesAlike {s : Specifier σ} (h : s.Agree link exempt t₁ t₂ place)
    (hreport : ∀ notice, link.Same (o₁.report notice) (o₂.report notice)) :
    ResolvesAlike link exempt t₁ t₂ o₁ o₂ s place := by
  induction h with
  | leaf here => exact resolvesAlike_leaf here hreport
  | ns here fields ih =>
    exact resolvesAlike_ns here (fun k s hk => (fields k s hk).initializesAlike) ih
  | record _ _ ih => exact resolvesAlike_record ih

/-! ## Committing -/

section Cells

variable {s parent : Specifier σ} {pplace : Place} {top : String → Prop} {name : String}

theorem onCell_keeps {r₁ : Edit σ₁ Cell Unit} {r₂ : Edit σ₂ Cell Unit}
    (h : link.Keeps (Cell.SameBut exempt top parent pplace) r₁ r₂) (declared : Bool)
    (provenance : Provenance) :
    link.Keeps (Level.SameBut exempt top parent pplace)
      (Level.onCell name declared provenance r₁) (Level.onCell name declared provenance r₂) := by
  refine Link.Edits.zoom h (fun l₁ l₂ hl => ⟨?_, hl.data⟩) fun l₁ l₂ hl _ _ c₁ c₂ hc => ?_
  · show (l₁.nodes.get? name).getD _ = (l₂.nodes.get? name).getD _
    rw [hl.nodes]
  · refine ⟨hc.1, ?_, hc.2.data⟩
    show l₁.nodes.insert name c₁.node = l₂.nodes.insert name c₂.node
    rw [hl.nodes, hc.2.node]

variable (hbelow : parent.below? name = some s) (hplace : parent.placeBelow pplace name = place)
  (container : containerKind? (some s) ≠ none)
include hbelow hplace container

theorem Cell.SameBut.level {c₁ c₂ : Cell} (h : c₁.SameBut exempt top parent pplace c₂)
    (kind : ContainerKind) :
    (c₁.level kind name).SameBut exempt (exempt place) s place (c₂.level kind name) := by
  refine ⟨?_, (h.data.at_container hbelow hplace container).objects⟩
  show (c₁.node.opened kind).2 = (c₂.node.opened kind).2
  rw [h.node]

theorem Cell.SameBut.put {c₁ c₂ : Cell} (h : c₁.SameBut exempt top parent pplace c₂)
    {inner₁ inner₂ : Level} (hinner : inner₁.SameBut exempt (exempt place) s place inner₂)
    (c : Container) :
    (c₁.put name c inner₁).SameBut exempt top parent pplace (c₂.put name c inner₂) :=
  ⟨congrArg c.node hinner.nodes, h.data.insert hbelow hplace (hinner.data.obj container)⟩

theorem onNamespace_keeps {r₁ : Edit σ₁ Level Unit} {r₂ : Edit σ₂ Level Unit}
    (h : link.Keeps (Level.SameBut exempt (exempt place) s place) r₁ r₂) :
    link.Keeps (Cell.SameBut exempt top parent pplace) (Cell.onNamespace name r₁)
      (Cell.onNamespace name r₂) :=
  Link.Edits.zoom h (fun _ _ hc => hc.level hbelow hplace container .ns)
    fun _ _ hc _ _ _ _ hinner => ⟨hinner.1, hc.put hbelow hplace container hinner.2 _⟩

theorem onRecord_keeps {r₁ : Edit σ₁ Level Unit} {r₂ : Edit σ₂ Level Unit}
    (h : link.Keeps (Level.SameBut exempt (exempt place) s place) r₁ r₂)
    (provenance : Provenance) :
    link.Keeps (Cell.SameBut exempt top parent pplace) (Cell.onRecord name provenance r₁)
      (Cell.onRecord name provenance r₂) := by
  refine Link.Edits.zoom h (fun _ _ hc => hc.level hbelow hplace container .record)
    fun c₁ c₂ hc _ _ _ _ hinner => ⟨hinner.1, ?_⟩
  rw [hc.node, hinner.2.nodes]
  exact hc.put hbelow hplace container hinner.2 _

theorem onEntry_keeps {r₁ : Edit σ₁ Level Unit} {r₂ : Edit σ₂ Level Unit}
    (h : link.Keeps (Level.SameBut exempt (exempt place) s place) r₁ r₂) :
    link.Keeps (Level.SameBut exempt top parent pplace) (Level.onEntry name r₁)
      (Level.onEntry name r₂) := by
  refine Link.Edits.zoom h (fun l₁ l₂ hl => ?_)
    fun _ _ hl _ _ _ _ hinner => ⟨hinner.1, hl.put hbelow hplace container hinner.2 _⟩
  refine ⟨?_, (hl.data.at_container hbelow hplace container).objects⟩
  rw [hl.nodes]

end Cells

/-- Committing the value to the cell of a key runs alike, whatever is declared there. -/
def CommitsAlike (link : Link σ₁ σ₂) (exempt : Place → String → Prop) (t₁ : Translation σ σ₁)
    (t₂ : Translation σ σ₂) (v : Value) : Prop :=
  ∀ (spec : Option (Specifier σ)) (place : Place),
    (∀ s, spec = some s → s.Agree link exempt t₁ t₂ place) →
    ∀ (parent : Specifier σ) (pplace : Place) (key : String),
      parent.below? key = spec → parent.placeBelow pplace key = place →
      ∀ (top : String → Prop) (provenance : Provenance) (pos : Position),
        link.Keeps (Cell.SameBut exempt top parent pplace)
          (commit (spec.map fun s => s.translate t₁ place) provenance v key pos)
          (commit (spec.map fun s => s.translate t₂ place) provenance v key pos)

section Fields

variable (hfields : ∀ k s, specs.get? k = some s → s.Agree link exempt t₁ t₂ (place.field k))
include hfields

theorem commitFields_keeps {fields : Fields Value}
    (h : ∀ k v, fields.get? k = some v → CommitsAlike link exempt t₁ t₂ v) (top : String → Prop)
    (provenance : Provenance) (pos : Position) :
    link.Keeps (Level.SameBut exempt top (.ns rules specs) place)
      (commitFields (translateFields t₁ specs place) provenance fields pos)
      (commitFields (translateFields t₂ specs place) provenance fields pos) := by
  rw [commitFields_eq_sweepEdit, commitFields_eq_sweepEdit]
  refine sweepEdit_keeps fun k v hv => ?_
  rw [get?_translateFields, get?_translateFields, Option.isSome_map, Option.isSome_map]
  exact onCell_keeps (h k v hv (specs.get? k) _ (hfields k) (.ns rules specs) place k rfl rfl
    top provenance (pos.child k)) _ _

theorem commitNamespace_keeps
    (here : (t₁.ns place rules).Agree link exempt (.ns rules specs) place (t₂.ns place rules))
    {fields : Fields Value} (h : ∀ k v, fields.get? k = some v → CommitsAlike link exempt t₁ t₂ v)
    (provenance : Provenance) (pos : Position) (isEntry : Bool) :
    link.Keeps (Level.SameBut exempt (exempt place) (.ns rules specs) place)
      (do
        commitFields (translateFields t₁ specs place) provenance fields pos
        (t₁.ns place rules).remap pos isEntry)
      (do
        commitFields (translateFields t₂ specs place) provenance fields pos
        (t₂.ns place rules).remap pos isEntry) :=
  (commitFields_keeps hfields h _ provenance pos).bind_same fun _ => here.remap pos isEntry

end Fields

private theorem putLeaf_keeps {spec : Option (Specifier σ)} {parent : Specifier σ}
    {pplace : Place} {key : String} (hbelow : parent.below? key = spec)
    (hplace : parent.placeBelow pplace key = place) (top : String → Prop) (provenance : Provenance)
    (v : Value) :
    link.Keeps (Cell.SameBut exempt top parent pplace)
      (Run.update fun p => (p.1.putLeaf key provenance v, p.2) : Edit σ₁ Cell Unit)
      (Run.update fun p => (p.1.putLeaf key provenance v, p.2) : Edit σ₂ Cell Unit) := by
  intro c₁ c₂
  rw [Run.on_update (Cell.putLeaf · key provenance v),
    Run.on_update (Cell.putLeaf · key provenance v)]
  refine Link.alike_pure fun hc => ⟨rfl, ?_, hc.data.insert hbelow hplace .same⟩
  show Metadata.leaf ((c₁.node.leaf?.getD _).write provenance v) =
    .leaf ((c₂.node.leaf?.getD _).write provenance v)
  rw [hc.node]

/-- A record whose entries are no namespaces takes nothing in. -/
private theorem refuse_keeps {I : Cell → Cell → Prop} (key : String) (e : SettingsError) :
    link.Keeps I
      (do
        Run.update fun p => (p.1.ensureRecord key, p.2)
        Run.fail e : Edit σ₁ Cell Unit)
      (do
        Run.update fun p => (p.1.ensureRecord key, p.2)
        Run.fail e : Edit σ₂ Cell Unit) := by
  intro c₁ c₂
  rw [Run.on_bind, Run.on_bind, Run.on_update (Cell.ensureRecord · key),
    Run.on_update (Cell.ensureRecord · key), pure_bind, pure_bind]
  exact Link.alike_fail e

private theorem commitEntries_keeps {starters : Option (CallM σ Value)}
    {entries : Fields Value}
    (here : (t₁.ns place rules).Agree link exempt (.ns rules specs) place (t₂.ns place rules))
    (hfields : ∀ k s, specs.get? k = some s → s.Agree link exempt t₁ t₂ (place.field k))
    (h : ∀ k fields, entries.get? k = some (.obj fields) →
      ∀ j w, fields.get? j = some w → CommitsAlike link exempt t₁ t₂ w)
    {rplace : Place} (hplace : rplace.entry = place) (provenance : Provenance) (whole : Value)
    (pos : Position) :
    link.Keeps (Level.SameBut exempt (exempt rplace) (.record starters (.ns rules specs)) rplace)
      (commitEntries ⟨t₁.ns place rules, translateFields t₁ specs place⟩ provenance whole entries
        pos)
      (commitEntries ⟨t₂.ns place rules, translateFields t₂ specs place⟩ provenance whole entries
        pos) := by
  rw [commitEntries_eq_sweepEdit, commitEntries_eq_sweepEdit]
  refine sweepEdit_keeps fun k v hv => ?_
  cases v with
  | obj fields =>
    have hbelow : (Specifier.record starters (.ns rules specs)).below? k =
      some (.ns rules specs) := rfl
    exact onEntry_keeps hbelow hplace (Option.some_ne_none _)
      (commitNamespace_keeps hfields here (h k fields hv) provenance (pos.child k) true)
  | _ => exact Link.edits_fail _

private theorem commitsAlike_and_fields (v : Value) : CommitsAlike link exempt t₁ t₂ v ∧
    ∀ fields, v = .obj fields → ∀ k w, fields.get? k = some w →
      CommitsAlike link exempt t₁ t₂ w := by
  -- By induction on the value. An entry of a record is committed field by field without a cell of
  -- its own, so the fields of an object are carried along.
  induction v with
  | obj fields ih =>
    have hfields (k : String) (w : Value) (hk : fields.get? k = some w) := (ih k w hk).1
    refine ⟨?_, fun _ e => Value.obj.inj e ▸ hfields⟩
    intro spec place hspec parent pplace key hbelow hplace top provenance pos
    cases spec with
    | none => exact putLeaf_keeps hbelow hplace top provenance _
    | some s =>
      have hs := hspec s rfl
      rw [Option.map_some, Option.map_some]
      cases hs with
      | leaf here =>
        rw [Specifier.translate, Specifier.translate]
        exact putLeaf_keeps hbelow hplace top provenance _
      | ns here hspecs =>
        rw [Specifier.translate, Specifier.translate, commit, commit]
        exact onNamespace_keeps hbelow hplace (Option.some_ne_none _)
          (commitNamespace_keeps hspecs here hfields provenance pos false)
      | record here hentry =>
        cases hentry with
        | ns here hspecs =>
          rw [Specifier.translate, Specifier.translate, Specifier.translate, Specifier.translate,
            commit, commit]
          have hentryFields (k : String) (inner : Fields Value)
              (hk : fields.get? k = some (.obj inner)) := (ih k _ hk).2 inner rfl
          exact onRecord_keeps hbelow hplace (Option.some_ne_none _)
            (commitEntries_keeps here hspecs hentryFields rfl provenance _ pos) provenance
        | _ =>
          rw [Specifier.translate, Specifier.translate, Specifier.translate, Specifier.translate]
          exact refuse_keeps key _
  | _ =>
    refine ⟨?_, by rintro _ ⟨⟩⟩
    intro spec place hspec parent pplace key hbelow hplace top provenance pos
    rw [commit.eq_def, commit.eq_def]
    cases spec with
    | none => exact putLeaf_keeps hbelow hplace top provenance _
    | some s =>
      rw [Option.map_some, Option.map_some]
      cases s <;> rw [Specifier.translate, Specifier.translate] <;>
        exact putLeaf_keeps hbelow hplace top provenance _

/-! ## Namespaces -/

section Namespaces

variable {n : Namespace σ} (h : n.toSpecifier.Agree link exempt t₁ t₂ [])
include h

theorem Namespace.defaults_alike (pos : Position) (isEntry : Bool) :
    link.Alike True (Level.SameBut exempt (exempt []) n.toSpecifier [])
      ((n.translate t₁).defaults pos isEntry) ((n.translate t₂).defaults pos isEntry) := by
  cases h with
  | ns here hspecs =>
    exact here.defaultsWith (fun k s hk => (hspecs k s hk).initializesAlike) pos isEntry

theorem Namespace.resolve_keeps
    (hreport : ∀ notice, link.Same (o₁.report notice) (o₂.report notice)) (top : String → Prop)
    (input : Value) (pos : Position) :
    link.Keeps (Level.SameBut exempt top n.toSpecifier [])
      ((n.translate t₁).resolve o₁ input pos) ((n.translate t₂).resolve o₂ input pos) := by
  cases h with
  | ns here hspecs =>
    exact resolveWith_keeps (fun k s hk => (hspecs k s hk).resolvesAlike hreport) here top input pos

theorem Namespace.commit_keeps (provenance : Provenance) (input : Fields Value) (pos : Position)
    (isEntry : Bool) :
    link.Keeps (Level.SameBut exempt (exempt []) n.toSpecifier [])
      ((n.translate t₁).commit provenance input pos isEntry)
      ((n.translate t₂).commit provenance input pos isEntry) := by
  cases h with
  | ns here hspecs =>
    exact commitNamespace_keeps hspecs here (fun k v _ => (commitsAlike_and_fields v).1)
      provenance pos isEntry

theorem applyInput_keeps (hreport : ∀ notice, link.Same (o₁.report notice) (o₂.report notice))
    (input : Value) :
    link.Keeps (Level.SameBut exempt (exempt []) n.toSpecifier [])
      (Store.applyInput (n.translate t₁) o₁ input) (Store.applyInput (n.translate t₂) o₂ input) :=
  (Namespace.resolve_keeps h hreport (exempt []) input .root).bind_same fun candidate =>
    Namespace.commit_keeps h .change candidate .root false

end Namespaces

end Settings
