import Settings.Proofs.Admission
import Settings.Proofs.Commit
import Settings.Proofs.Defaults
import Settings.Proofs.Likeness

/-!
# A specification with two sets of callbacks

Two translations of one specification are compared. If the callbacks of both run alike at every
place, up to exempt names for what mappers give (`Specifier.Agree`), then so does everything that is
done with the two specifications: initialization, resolving and committing, on levels that are the
same but for exempt names. Each loop of the one goes in step with the loop of the other, so the
proofs follow the program, with one rule for every way that runs are put together.
-/

set_option autoImplicit false

namespace Settings

variable {σ σ₁ σ₂ : Type} {link : Link σ₁ σ₂} {exempt : Place → String → Prop}
  {o₁ : Options σ₁} {o₂ : Options σ₂}

/-! ## Callbacks that run alike -/

/-- The callbacks of two leaves run alike. -/
structure LeafRules.Agree (link : Link σ₁ σ₂) (a : LeafRules σ₁) (b : LeafRules σ₂) : Prop where
  initial : Option.Rel link.Same a.initial b.initial
  validate : Option.Rel (fun f g => ∀ v, link.Same (f v) (g v)) a.validate b.validate
  fixup : Option.Rel (fun f g => ∀ v, link.Same (f v) (g v)) a.fixup b.fixup
  mapType : Option.Rel (fun f g => ∀ v, link.Same (f v) (g v)) a.mapType b.mapType
  shadow : a.shadow = b.shadow

/-- The callbacks of two namespaces run alike, as far as the data that they leave is not exempt. -/
structure NamespaceRules.Agree (link : Link σ₁ σ₂) (exempt : Place → String → Prop)
    (s : Specifier σ) (place : Place) (a : NamespaceRules σ₁) (b : NamespaceRules σ₂) : Prop where
  shorthand : Option.Rel (fun f g => ∀ v, link.Same (f v) (g v)) a.shorthand b.shorthand
  seed : Option.Rel link.Same a.seed b.seed
  mapper : ∀ (d₁ d₂ : Fields Value) (pos : Position) (isEntry : Bool),
    link.Alike (SameFields exempt (exempt place) s place d₁ d₂)
      (fun m₁ m₂ => SameFields exempt (exempt place) s place (d₁.assign m₁) (d₂.assign m₂))
      (a.runMapper d₁ pos isEntry) (b.runMapper d₂ pos isEntry)

/-- At every place of the specification the callbacks of both translations run alike. -/
inductive Specifier.Agree (link : Link σ₁ σ₂) (exempt : Place → String → Prop)
    (t₁ : Translation σ σ₁) (t₂ : Translation σ σ₂) : Specifier σ → Place → Prop
  | leaf {rules : LeafRules σ} {place : Place}
      (here : (t₁.leaf place rules).Agree link (t₂.leaf place rules)) :
      Agree link exempt t₁ t₂ (.leaf rules) place
  | ns {rules : NamespaceRules σ} {specs : Fields (Specifier σ)} {place : Place}
      (here : (t₁.ns place rules).Agree link exempt (.ns rules specs) place (t₂.ns place rules))
      (fields : ∀ k s, specs.get? k = some s → Agree link exempt t₁ t₂ s (place.field k)) :
      Agree link exempt t₁ t₂ (.ns rules specs) place
  | record {starters : Option (CallM σ Value)} {entry : Specifier σ} {place : Place}
      (here : Option.Rel link.Same (t₁.starters place starters) (t₂.starters place starters))
      (inside : Agree link exempt t₁ t₂ entry place.entry) :
      Agree link exempt t₁ t₂ (.record starters entry) place

/-- Related options are both there or both missing. -/
theorem rel_cases {α β : Type} {R : α → β → Prop} {a : Option α} {b : Option β}
    (h : Option.Rel R a b) : (a = none ∧ b = none) ∨ ∃ x y, a = some x ∧ b = some y ∧ R x y := by
  cases h with
  | none => exact .inl ⟨rfl, rfl⟩
  | some h => exact .inr ⟨_, _, rfl, rfl, h⟩

theorem rel_map {α β γ : Type} {R : β → γ → Prop} {o : Option α} {f : α → β} {g : α → γ}
    (h : ∀ a, o = some a → R (f a) (g a)) : Option.Rel R (o.map f) (o.map g) := by
  cases o with
  | none => exact .none
  | some a => exact .some (h a rfl)

/-! ## Calls -/

theorem runSeed_same {a : Option (CallM σ₁ Value)} {b : Option (CallM σ₂ Value)}
    (h : Option.Rel link.Same a b) (pos : Position) :
    link.Same (runSeed a pos) (runSeed b pos) := by
  obtain ⟨rfl, rfl⟩ | ⟨f, g, rfl, rfl, hfg⟩ := rel_cases h
  · exact Link.alike_pure fun _ => rfl
  · exact (hfg.mapError _).bind_same fun v => Link.alike_ofOption _ _

namespace LeafRules.Agree

variable {a : LeafRules σ₁} {b : LeafRules σ₂}

theorem runInitial (h : a.Agree link b) (pos : Position) :
    link.Same (a.runInitial pos) (b.runInitial pos) := by
  unfold LeafRules.runInitial
  obtain ⟨ha, hb⟩ | ⟨f, g, ha, hb, hfg⟩ := rel_cases h.initial
  · rw [ha, hb]
    exact Link.alike_pure fun _ => rfl
  · rw [ha, hb]
    exact (hfg.mapError _).bind_same fun v => Link.alike_pure fun _ => rfl

theorem coerce (h : a.Agree link b) (v : Value) (pos : Position) :
    link.Same (a.coerce v pos) (b.coerce v pos) := by
  unfold LeafRules.coerce
  obtain ⟨ha, hb⟩ | ⟨f, g, ha, hb, hfg⟩ := rel_cases h.mapType
  · rw [ha, hb]
    exact Link.alike_pure fun _ => rfl
  · rw [ha, hb]
    exact (hfg v).mapError _

theorem repair (h : a.Agree link b) (hreport : ∀ notice, link.Same (o₁.report notice)
    (o₂.report notice)) (v : Value) (pos : Position) :
    link.Same (a.repair o₁ v pos) (b.repair o₂ v pos) := by
  unfold LeafRules.repair
  obtain ⟨ha, hb⟩ | ⟨f, g, ha, hb, hfg⟩ := rel_cases h.fixup
  · rw [ha, hb]
    exact Link.alike_pure fun _ => rfl
  · rw [ha, hb]
    refine ((hfg v).mapError _).bind_same fun fix => ?_
    cases fix with
    | none => exact Link.alike_pure fun _ => rfl
    | some fix => exact (hreport _).bind_same fun _ => Link.alike_pure fun _ => rfl

theorem check (h : a.Agree link b) (v : Value) (pos : Position) :
    link.Same (a.check v pos) (b.check v pos) := by
  unfold LeafRules.check
  obtain ⟨ha, hb⟩ | ⟨f, g, ha, hb, hfg⟩ := rel_cases h.validate
  · rw [ha, hb]
    exact Link.alike_pure fun _ => rfl
  · rw [ha, hb]
    refine ((hfg v).mapError _).bind_same fun violation => ?_
    cases violation with
    | none => exact Link.alike_pure fun _ => rfl
    | some violation => exact Link.alike_fail _

theorem resolve (h : a.Agree link b) (hreport : ∀ notice, link.Same (o₁.report notice)
    (o₂.report notice)) (v : Value) (pos : Position) :
    link.Same (a.resolve o₁ v pos) (b.resolve o₂ v pos) := by
  rw [resolve_eq, resolve_eq]
  exact (h.repair hreport v pos).bind_same fun w =>
    (h.check w pos).bind_same fun _ => h.coerce w pos

theorem defaults (h : a.Agree link b) (pos : Position) :
    link.Same (a.defaults pos) (b.defaults pos) := by
  unfold LeafRules.defaults
  rw [h.shadow]
  refine (h.runInitial pos).bind_same fun v => ?_
  cases v with
  | none => exact Link.alike_pure fun _ => rfl
  | some v =>
    refine Link.Alike.bind_same ?_ fun v => Link.alike_pure fun _ => rfl
    exact (h.coerce v pos).map fun _ _ _ e => congrArg some e

end LeafRules.Agree

/-- Running the mapper again, as a run that ends with the level it leaves. -/
theorem on_remap (rules : NamespaceRules σ) (pos : Position) (isEntry : Bool) (level : Level) :
    (rules.remap pos isEntry).on level =
      (fun mapped => ((), { level with data := level.data.assign mapped })) <$>
        rules.runMapper level.data pos isEntry := by
  show Run.on ((rules.runMapper level.data pos isEntry).beside >>= fun mapped =>
    Run.update fun p : Level × σ => ({ p.1 with data := p.1.data.assign mapped }, p.2)) level = _
  rw [Run.on_bind, Run.on_beside, map_eq_pure_bind, map_eq_pure_bind, bind_assoc]
  rfl

namespace NamespaceRules.Agree

variable {s : Specifier σ} {place : Place} {a : NamespaceRules σ₁} {b : NamespaceRules σ₂}

theorem longhand (h : a.Agree link exempt s place b) (input : Value) (pos : Position) :
    link.Same (a.longhand input pos) (b.longhand input pos) := by
  unfold NamespaceRules.longhand
  cases input with
  | obj fields => exact Link.alike_pure fun _ => rfl
  | _ =>
    obtain ⟨ha, hb⟩ | ⟨f, g, ha, hb, hfg⟩ := rel_cases h.shorthand
    · rw [ha, hb]
      exact Link.alike_fail _
    · rw [ha, hb]
      exact ((hfg _).mapError _).bind_same fun v => Link.alike_ofOption _ _

theorem withMapper (h : a.Agree link exempt s place b) (pos : Position) (isEntry : Bool)
    (l₁ l₂ : Level) :
    link.Alike (l₁.SameBut exempt (exempt place) s place l₂)
      (Level.SameBut exempt (exempt place) s place)
      (l₁.withMapper a pos isEntry) (l₂.withMapper b pos isEntry) := by
  unfold Level.withMapper
  refine ((h.mapper l₁.data l₂.data pos isEntry).when Level.SameBut.data).map
    fun hl m₁ m₂ hm => ?_
  exact ⟨hl.nodes, hm⟩

theorem remap (h : a.Agree link exempt s place b) (pos : Position) (isEntry : Bool) :
    link.Keeps (Level.SameBut exempt (exempt place) s place) (a.remap pos isEntry)
      (b.remap pos isEntry) := by
  intro l₁ l₂
  rw [on_remap, on_remap]
  refine ((h.mapper l₁.data l₂.data pos isEntry).when Level.SameBut.data).map
    fun hl m₁ m₂ hm => ?_
  exact ⟨rfl, hl.nodes, hm⟩

end NamespaceRules.Agree

/-! ## Loops -/

instance : Inhabited Level := ⟨∅⟩

theorem sweep_map {α β : Type} {step : String → β → Level → Attempt σ Level} (f : String → α → β)
    {lo : Option String} (m : SortedMap α lo) (level : Level) :
    sweep step (m.map f) level = sweep (fun k a => step k (f k a)) m level := by
  induction m generalizing level with
  | nil => rfl
  | cons k above a rest ih => rw [SortedMap.map, sweep, sweep, funext fun mid => ih mid]

/-- Loops whose steps run alike on related levels run alike. -/
theorem sweep_alike {α : Type} {I : Level → Level → Prop}
    {step₁ : String → α → Level → Attempt σ₁ Level} {step₂ : String → α → Level → Attempt σ₂ Level}
    {lo : Option String} {m : SortedMap α lo}
    (h : ∀ k a, m.get? k = some a → ∀ l₁ l₂,
      link.Alike (I l₁ l₂) I (step₁ k a l₁) (step₂ k a l₂)) (l₁ l₂ : Level) :
    link.Alike (I l₁ l₂) I (sweep step₁ m l₁) (sweep step₂ m l₂) := by
  induction m generalizing l₁ l₂ with
  | nil => exact Link.alike_pure id
  | cons k above a rest ih =>
    refine (h k a (if_pos rfl) l₁ l₂).bind fun mid₁ mid₂ => ?_
    exact (ih (fun j b hj => h j b (SortedMap.get?_cons_of_get? hj)) mid₁ mid₂).when
      And.right

theorem sweepEdit_keeps {α : Type} {I : Level → Level → Prop}
    {step₁ : String → α → Edit σ₁ Level Unit} {step₂ : String → α → Edit σ₂ Level Unit}
    {lo : Option String} {m : SortedMap α lo}
    (h : ∀ k a, m.get? k = some a → link.Keeps I (step₁ k a) (step₂ k a)) :
    link.Keeps I (sweepEdit step₁ m) (sweepEdit step₂ m) := by
  induction m with
  | nil => exact Link.edits_pure fun _ _ hI => ⟨rfl, hI⟩
  | cons k above a rest ih =>
    exact (h k a (if_pos rfl)).bind_same fun _ =>
      ih fun j b hj => h j b (SortedMap.get?_cons_of_get? hj)

theorem resolveEach_keeps {τ : Type} {I : τ → τ → Prop} [Nonempty τ]
    {field₁ : String → Value → Edit σ₁ τ Value} {field₂ : String → Value → Edit σ₂ τ Value}
    (h : ∀ k v, link.Keeps I (field₁ k v) (field₂ k v)) {lo : Option String}
    (fields : SortedMap Value lo) (candidate : Fields Value) :
    link.Keeps I (resolveEach field₁ fields candidate) (resolveEach field₂ fields candidate) := by
  induction fields generalizing candidate with
  | nil => exact Link.edits_pure fun _ _ hI => ⟨rfl, hI⟩
  | cons k above v rest ih => exact (h k v).bind_same fun _ => ih _

/-! ## Initialization -/

section Initialization

variable {t₁ : Translation σ σ₁} {t₂ : Translation σ σ₂}

/-- Initializing a node, making entries by it and laying a given value over it run alike. -/
structure InitializesAlike (link : Link σ₁ σ₂) (exempt : Place → String → Prop)
    (t₁ : Translation σ σ₁) (t₂ : Translation σ σ₂) (s : Specifier σ) (place : Place) : Prop where
  shadow : (s.translate t₁ place).isShadow = (s.translate t₂ place).isShadow
  defaults : ∀ (pos : Position) (isEntry : Bool),
    link.Alike True (Initialized.SameBut exempt s place)
      ((s.translate t₁ place).defaults pos isEntry) ((s.translate t₂ place).defaults pos isEntry)
  stitch : ∀ (starters : Option (CallM σ Value)) (rplace : Place), rplace.entry = place →
    ∀ (given : Fields Value) (pos : Position),
      link.Alike True (Level.SameBut exempt (exempt rplace) (.record starters s) rplace)
        ((s.translate t₁ place).stitch given pos) ((s.translate t₂ place).stitch given pos)
  reconcile : ∀ (parent : Specifier σ) (pplace : Place) (name : String),
    parent.below? name = some s → parent.placeBelow pplace name = place →
    ∀ (given : Value) (pos : Position) (l₁ l₂ : Level),
      link.Alike (l₁.SameBut exempt (exempt pplace) parent pplace l₂)
        (Level.SameBut exempt (exempt pplace) parent pplace)
        ((s.translate t₁ place).reconcile name given pos l₁)
        ((s.translate t₂ place).reconcile name given pos l₂)

variable (rules : NamespaceRules σ) {specs : Fields (Specifier σ)} {place : Place}
  (hfields : ∀ k s, specs.get? k = some s →
    InitializesAlike link exempt t₁ t₂ s (place.field k))
include hfields

theorem defaultFields_alike (pos : Position) (l₁ l₂ : Level) :
    link.Alike (l₁.SameBut exempt (exempt place) (.ns rules specs) place l₂)
      (Level.SameBut exempt (exempt place) (.ns rules specs) place)
      (defaultFields (translateFields t₁ specs place) pos l₁)
      (defaultFields (translateFields t₂ specs place) pos l₂) := by
  rw [defaultFields_eq_sweep, defaultFields_eq_sweep, translateFields_eq_map,
    translateFields_eq_map, sweep_map, sweep_map]
  refine sweep_alike (fun k s hk l₁ l₂ => ?_) l₁ l₂
  refine (((hfields k s hk).defaults (pos.child k) false).when fun _ => trivial).map
    fun hl field₁ field₂ hfield => ?_
  exact hl.overlay hk rfl hfield

theorem canonicalFields_alike (pos : Position) (l₁ l₂ : Level) :
    link.Alike (l₁.SameBut exempt (exempt place) (.ns rules specs) place l₂)
      (Level.SameBut exempt (exempt place) (.ns rules specs) place)
      (canonicalFields (translateFields t₁ specs place) pos l₁)
      (canonicalFields (translateFields t₂ specs place) pos l₂) := by
  rw [canonicalFields_eq_sweep, canonicalFields_eq_sweep, translateFields_eq_map,
    translateFields_eq_map, sweep_map, sweep_map]
  refine sweep_alike (fun k s hk l₁ l₂ => ?_) l₁ l₂
  have hs := hfields k s hk
  rw [hs.shadow]
  split
  · exact Link.alike_pure id
  · refine ((hs.defaults (pos.child k) false).when fun _ => trivial).map
      fun hl field₁ field₂ hfield => ?_
    exact hl.add hk rfl hfield

theorem reconcileFields_alike (given : Fields Value) (pos : Position) (l₁ l₂ : Level) :
    link.Alike (l₁.SameBut exempt (exempt place) (.ns rules specs) place l₂)
      (Level.SameBut exempt (exempt place) (.ns rules specs) place)
      (reconcileFields (translateFields t₁ specs place) given pos l₁)
      (reconcileFields (translateFields t₂ specs place) given pos l₂) := by
  rw [reconcileFields_eq_sweep, reconcileFields_eq_sweep, translateFields_eq_map,
    translateFields_eq_map, sweep_map, sweep_map]
  refine sweep_alike (fun k s hk l₁ l₂ => ?_) l₁ l₂
  have hs := hfields k s hk
  rw [hs.shadow]
  split
  · exact Link.alike_pure id
  · exact Link.alike_pure id
  · split
    · exact Link.alike_pure id
    · exact hs.reconcile (.ns rules specs) place k hk rfl _ _ l₁ l₂

variable {rules}

theorem NamespaceRules.Agree.defaultsWith {a : NamespaceRules σ₁} {b : NamespaceRules σ₂}
    (h : a.Agree link exempt (.ns rules specs) place b) (pos : Position) (isEntry : Bool) :
    link.Alike True (Level.SameBut exempt (exempt place) (.ns rules specs) place)
      (a.defaultsWith (translateFields t₁ specs place)
        (fun level => defaultFields (translateFields t₁ specs place) pos level) pos isEntry)
      (b.defaultsWith (translateFields t₂ specs place)
        (fun level => defaultFields (translateFields t₂ specs place) pos level) pos isEntry) := by
  unfold NamespaceRules.defaultsWith
  refine (runSeed_same h.seed pos).bind_same fun data => ?_
  rw [Level.ofSeed_translate, Level.ofSeed_translate]
  refine ((defaultFields_alike rules hfields pos _ _).when fun _ => .refl _).bind fun l₁ l₂ => ?_
  exact (h.withMapper pos isEntry l₁ l₂).when And.right

theorem NamespaceRules.Agree.reconcileWith {a : NamespaceRules σ₁} {b : NamespaceRules σ₂}
    (h : a.Agree link exempt (.ns rules specs) place b) (given : Value) (pos : Position)
    (isEntry : Bool) (l₁ l₂ : Level) :
    link.Alike (l₁.SameBut exempt (exempt place) (.ns rules specs) place l₂)
      (Level.SameBut exempt (exempt place) (.ns rules specs) place)
      (a.reconcileWith (fun given level =>
        reconcileFields (translateFields t₁ specs place) given pos level) given pos isEntry l₁)
      (b.reconcileWith (fun given level =>
        reconcileFields (translateFields t₂ specs place) given pos level) given pos isEntry
        l₂) := by
  unfold NamespaceRules.reconcileWith
  refine ((h.longhand given pos).when fun _ => trivial).bind_same fun given => ?_
  refine (reconcileFields_alike rules hfields given pos l₁ l₂).bind fun l₁ l₂ => ?_
  exact (h.withMapper pos isEntry l₁ l₂).when And.right

end Initialization

section Initialization

variable {t₁ : Translation σ σ₁} {t₂ : Translation σ σ₂} {place : Place}

private theorem initializesAlike_leaf {rules : LeafRules σ}
    (h : (t₁.leaf place rules).Agree link (t₂.leaf place rules)) :
    InitializesAlike link exempt t₁ t₂ (.leaf rules) place where
  shadow := by
    rw [Specifier.translate, Specifier.translate]
    exact h.shadow
  defaults pos isEntry := by
    rw [Specifier.translate, Specifier.translate, Specifier.defaults, Specifier.defaults]
    refine (h.defaults pos).imp id ?_
    rintro - field _ rfl
    exact ⟨rfl, .same⟩
  stitch starters rplace hplace given pos := by
    rw [Specifier.translate, Specifier.translate, Specifier.stitch, Specifier.stitch]
    split
    · exact Link.alike_pure fun _ => .refl ∅
    · exact Link.alike_fail _
  reconcile parent pplace name hbelow hplace given pos l₁ l₂ := by
    rw [Specifier.translate, Specifier.translate, Specifier.reconcile, Specifier.reconcile]
    exact Link.alike_pure fun hl => hl.set hbelow hplace .same _

private theorem initializesAlike_ns {rules : NamespaceRules σ} {specs : Fields (Specifier σ)}
    (h : (t₁.ns place rules).Agree link exempt (.ns rules specs) place (t₂.ns place rules))
    (hfields : ∀ k s, specs.get? k = some s →
      InitializesAlike link exempt t₁ t₂ s (place.field k)) :
    InitializesAlike link exempt t₁ t₂ (.ns rules specs) place where
  shadow := by
    rw [Specifier.translate, Specifier.translate]
    rfl
  defaults pos isEntry := by
    rw [Specifier.translate, Specifier.translate, Specifier.defaults, Specifier.defaults]
    refine (h.defaultsWith hfields pos isEntry).map fun _ l₁ l₂ hl => ?_
    exact ⟨congrArg Metadata.ns hl.nodes, hl.data.obj (Option.some_ne_none _)⟩
  stitch starters rplace hplace given pos := by
    rw [Specifier.translate, Specifier.translate, Specifier.stitch, Specifier.stitch]
    split
    · exact Link.alike_pure fun _ => .refl ∅
    · refine ((canonicalFields_alike rules hfields (pos.child "*") ∅ ∅).when
        fun _ => .refl ∅).bind fun c₁ c₂ => ?_
      rw [stitchEntries_eq_sweep, stitchEntries_eq_sweep]
      -- Each entry is made from the canonical one, so that it is the same stays known on the way.
      refine (sweep_alike (I := fun l₁ l₂ => c₁.SameBut exempt _ _ place c₂ ∧
        l₁.SameBut exempt _ _ rplace l₂) (fun k v _ l₁ l₂ => ?_) ∅ ∅).imp
        (fun hc => ⟨hc.2, .refl ∅⟩) fun _ _ _ hl => hl.2
      refine ((h.reconcileWith hfields v (pos.child k) true c₁ c₂).when And.left).map
        fun hl inner₁ inner₂ hinner => ?_
      exact ⟨hl.1, hl.2.put rfl hplace (Option.some_ne_none _) hinner _⟩
  reconcile parent pplace name hbelow hplace given pos l₁ l₂ := by
    rw [Specifier.translate, Specifier.translate, Specifier.reconcile, Specifier.reconcile]
    refine ((h.reconcileWith hfields given pos false _ _).when fun hl => ?_).bind
      fun inner₁ inner₂ => ?_
    · rw [Level.namespaceAt_eq, Level.namespaceAt_eq]
      exact hl.opened hbelow hplace (Option.some_ne_none _) .ns
    · exact Link.alike_pure fun hl => hl.1.put hbelow hplace (Option.some_ne_none _) hl.2 _

private theorem initializesAlike_record {starters : Option (CallM σ Value)} {entry : Specifier σ}
    (h : Option.Rel link.Same (t₁.starters place starters) (t₂.starters place starters))
    (hentry : InitializesAlike link exempt t₁ t₂ entry place.entry) :
    InitializesAlike link exempt t₁ t₂ (.record starters entry) place where
  shadow := by
    rw [Specifier.translate, Specifier.translate]
    rfl
  defaults pos isEntry := by
    rw [Specifier.translate, Specifier.translate, Specifier.defaults, Specifier.defaults]
    refine (runSeed_same h pos).bind_same fun given => ?_
    refine (hentry.stitch starters place rfl given pos).map fun _ l₁ l₂ hl => ?_
    exact ⟨congrArg Metadata.freshRecord hl.nodes, hl.data.obj (Option.some_ne_none _)⟩
  stitch starters rplace hplace given pos := by
    rw [Specifier.translate, Specifier.translate, Specifier.stitch, Specifier.stitch]
    split
    · exact Link.alike_pure fun _ => .refl ∅
    · exact Link.alike_fail _
  reconcile parent pplace name hbelow hplace given pos l₁ l₂ := by
    rw [Specifier.translate, Specifier.translate]
    cases given with
    | obj given =>
      rw [Specifier.reconcile, Specifier.reconcile]
      refine ((hentry.stitch starters place rfl given pos).when fun _ => trivial).bind
        fun inner₁ inner₂ => Link.alike_pure fun hl => ?_
      rw [hl.2.nodes]
      exact hl.1.set hbelow hplace (hl.2.data.obj (Option.some_ne_none _)) _
    | _ => exact Link.alike_fail _

theorem Specifier.Agree.initializesAlike {s : Specifier σ} (h : s.Agree link exempt t₁ t₂ place) :
    InitializesAlike link exempt t₁ t₂ s place := by
  induction h with
  | leaf here => exact initializesAlike_leaf here
  | ns here _ ih => exact initializesAlike_ns here ih
  | record here _ ih => exact initializesAlike_record here ih

end Initialization

end Settings
