import Settings.Proofs.Longhand
import Settings.Proofs.Notices
import Settings.Proofs.Silence

/-!
# Shorthands are transparent

Changing a store with an input and with the input written out come to the same: the same store or
the same error, and the same notices of repairs. Two recorded runs are compared that are in step but
for the calls of shorthands, which the input that is written out does not need. Resolving comes to
one candidate on both sides, and from there on the runs are the same.
-/

set_option autoImplicit false

namespace Settings

variable {σ : Type} {Lost : Call → Prop}

/-- Silent runs are compared by their results. -/
theorem Link.alike_of_silent {ε α₁ α₂ : Type} {A : α₁ → α₂ → Prop}
    {r₁ : Run ε (List Call × σ) α₁} {r₂ : Run ε (List Call × σ) α₂}
    (h₁ : (Limits.silent Prod.fst).Moved r₁) (h₂ : (Limits.silent Prod.fst).Moved r₂)
    (h : ∀ p q, (∃ a b, (r₁ p).1 = .ok a ∧ (r₂ q).1 = .ok b ∧ A a b) ∨
      ∃ e, (r₁ p).1 = .error e ∧ (r₂ q).1 = .error e) :
    (noting σ Lost).Alike True A r₁ r₂ := by
  constructor
  · rintro p ⟨call, hmem, hlost⟩
    obtain ⟨calls, hcalls, -⟩ := h₁ p
    refine ⟨call, ?_, hlost⟩
    rw [hcalls]
    exact List.mem_append_left _ hmem
  · intro _ p q hpq
    have hhosts : (noting σ Lost).hosts (r₁ p).2 (r₂ q).2 := by
      obtain ⟨calls₁, hcalls₁, hnone₁⟩ := h₁ p
      obtain ⟨calls₂, hcalls₂, hnone₂⟩ := h₂ q
      show (r₁ p).2.1.filterMap Call.notice? = (r₂ q).2.1.filterMap Call.notice?
      rw [hcalls₁, hcalls₂, List.filterMap_append, List.filterMap_append,
        Call.notices_eq_nil hnone₁, Call.notices_eq_nil hnone₂]
      exact congrArg (· ++ []) hpq
    have hresults := h p q
    rcases hp : r₁ p with ⟨a, p'⟩
    rcases hq : r₂ q with ⟨b, q'⟩
    rw [hp, hq] at hresults hhosts
    obtain ⟨a, b, rfl, rfl, hA⟩ | ⟨e, rfl, rfl⟩ := hresults
    · exact .ok hA hhosts
    · exact .error hhosts

/-! ## Shorthands -/

namespace NamespaceRules

variable {rules : NamespaceRules σ} {place : Place}

theorem longhand_silent (rules : NamespaceRules σ) (place : Place) (v : Value) (pos : Position) :
    (Limits.silent Prod.fst).Heeded ((rules.recorded place).longhand v pos) :=
  (rules.recorded_uses place).longhand (Limits.silent Prod.fst).closed v pos

/-- A recorded shorthand ends as it does by itself. -/
theorem longhand_recorded (rules : NamespaceRules σ) (place : Place) (v : Value) (pos : Position)
    (p : List Call × σ) :
    ((rules.recorded place).longhand v pos p).1 = (rules.longhand v pos p.2).1 :=
  (((rules.recorded_agree (.ns rules ∅) place).longhand v pos).ends trivial p p.2 rfl).fst_eq id

/-- The object that a value stands for is that of the value written out, but for its fields. -/
theorem Determined.longhand_alike (h : rules.Determined) (t : σ) (f : String → Value → Value)
    (v : Value) (pos : Position) :
    (noting σ Lost).Alike True (fun a b => b = a.map f)
      ((rules.recorded place).longhand v pos)
      ((rules.recorded place).longhand ((rules.expanded t v).mapFields f) pos) := by
  refine Link.alike_of_silent (fun p => (longhand_silent rules place _ pos p).1)
    (fun p => (longhand_silent rules place _ pos p).1) fun p q => ?_
  rw [longhand_recorded, longhand_recorded]
  obtain ⟨fields, hok, hexpanded⟩ | ⟨e, herror, hexpanded, hplain⟩ := h.longhand_cases v pos p.2 t
  · rw [hexpanded]
    exact .inl ⟨fields, _, hok, rfl, rfl⟩
  · rw [hexpanded, Value.mapFields_of_plain hplain]
    exact .inr ⟨e, herror, (h.longhand v pos q.2 p.2).trans herror⟩

end NamespaceRules

/-! ## Resolving -/

/-- Resolving an input whose fields are replaced replaces each of them first. -/
theorem resolveEach_map {τ : Type} (field : String → Value → Edit σ τ Value)
    (f : String → Value → Value) {lo : Option String} (fields : SortedMap Value lo)
    (candidate : Fields Value) :
    resolveEach field (fields.map f) candidate =
      resolveEach (fun k v => field k (f k v)) fields candidate := by
  induction fields generalizing candidate with
  | nil => rfl
  | cons name above v rest ih =>
    rw [SortedMap.map, resolveEach, resolveEach]
    simp only [ih]

/-- Resolving the value of a node, and the entries made by it, comes to the same for what is given
and for what that is written out as. -/
structure ResolvesExpanded (Lost : Call → Prop) (options : Options σ) (t : σ) (s : Specifier σ)
    (place : Place) : Prop where
  value : ∀ (parent : Specifier σ) (pplace : Place) (name : String),
    parent.below? name = some s → parent.placeBelow pplace name = place →
    ∀ (top : String → Prop) (pos : Position) (v : Value),
      (noting σ Lost).Keeps (Level.SameBut (fun _ _ => False) top parent pplace)
        ((s.translate (recorder σ) place).resolve options.recorded pos name v)
        ((s.translate (recorder σ) place).resolve options.recorded pos name (s.expand t v))
  entries : ∀ (starters : Option (CallM σ Value)) (rplace : Place), rplace.entry = place →
    ∀ (top : String → Prop) (pos : Position) (v : Value),
      (noting σ Lost).Keeps (Level.SameBut (fun _ _ => False) top (.record starters s) rplace)
        ((s.translate (recorder σ) place).resolveEntries options.recorded pos v)
        ((s.translate (recorder σ) place).resolveEntries options.recorded pos
          (v.mapFields fun _ v => s.expand t v))

section Resolving

variable {options : Options σ} {t : σ} {rules : NamespaceRules σ} {specs : Fields (Specifier σ)}
  {place : Place}

section Fields

variable (hfields : ∀ k s, specs.get? k = some s →
  ResolvesExpanded Lost options t s (place.field k))
include hfields

theorem resolveField_expanded (top : String → Prop) (pos : Position) (name : String) (v : Value) :
    (noting σ Lost).Keeps (Level.SameBut (fun _ _ => False) top (.ns rules specs) place)
      (resolveField (translateFields (recorder σ) specs place) options.recorded pos name v)
      (resolveField (translateFields (recorder σ) specs place) options.recorded pos name
        (expandField t specs name v)) := by
  rw [resolveField_eq, resolveField_eq, expandField_eq, get?_translateFields]
  cases hs : specs.get? name with
  | none => exact Link.edits_pure fun _ _ hl => ⟨rfl, hl⟩
  | some s => exact (hfields name s hs).value (.ns rules specs) place name hs rfl top _ v

theorem resolveWith_expanded (hrules : rules.Determined) (top : String → Prop) (v : Value)
    (pos : Position) :
    (noting σ Lost).Keeps (Level.SameBut (fun _ _ => False) top (.ns rules specs) place)
      ((rules.recorded place).resolveWith (fun name v =>
        resolveField (translateFields (recorder σ) specs place) options.recorded pos name v) v pos)
      ((rules.recorded place).resolveWith (fun name v =>
        resolveField (translateFields (recorder σ) specs place) options.recorded pos name v)
        ((Specifier.ns rules specs).expand t v) pos) := by
  rw [Specifier.expand]
  refine (Link.Edits.beside (hrules.longhand_alike t _ v pos)).bind_image fun fields => ?_
  rw [resolveEach_map]
  exact resolveEach_keeps (resolveField_expanded hfields top pos) fields ∅

end Fields

private theorem resolvesExpanded_leaf {rules : LeafRules σ} (hrules : rules.Determined)
    (hoptions : options.Determined) : ResolvesExpanded Lost options t (.leaf rules) place where
  value parent pplace name hbelow hplace top pos v := by
    rw [Specifier.translate, Specifier.resolve, Specifier.resolve, Specifier.expand]
    exact .beside ((hrules.recorded_agree place).resolve hoptions.recorded_report v pos)
  entries starters rplace hplace top pos v := by
    rw [Specifier.translate, Specifier.resolveEntries, Specifier.resolveEntries]
    unfold wrongEntries
    cases v <;> exact Link.edits_fail _

private theorem resolvesExpanded_ns
    (hspec : (Specifier.ns rules specs).Determined)
    (hfields : ∀ k s, specs.get? k = some s →
      ResolvesExpanded Lost options t s (place.field k)) :
    ResolvesExpanded Lost options t (.ns rules specs) place := by
  obtain ⟨hrules, hspecs⟩ := Specifier.everywhere_ns.1 hspec
  refine ⟨fun parent pplace name hbelow hplace top pos v => ?_,
    fun starters rplace hplace top pos v => ?_⟩
  · rw [Specifier.translate, Specifier.resolve, Specifier.resolve]
    exact (Link.edits_within rfl hbelow hplace fun top =>
      resolveWith_expanded hfields hrules top v pos).map fun _ _ _ _ h =>
        ⟨congrArg Value.obj h.1, h.2⟩
  · rw [Specifier.translate]
    cases v with
    | obj entries =>
      rw [Value.mapFields_obj, Specifier.resolveEntries, Specifier.resolveEntries, resolveEach_map]
      refine resolveEach_keeps (fun k v => ?_) entries ∅
      have hinit (k s) (hk : specs.get? k = some s) :
          InitializesAlike (noting σ Lost) (fun _ _ => False) (recorder σ) (recorder σ) s
            (place.field k) :=
        (Specifier.Determined.recorded_agree (hspecs k s hk) _).initializesAlike
      refine (ensureEntry_keeps (hrules.recorded_agree_self _ place) hinit hplace top k
        (pos.child k)).bind_same fun _ => ?_
      have hbelow : (Specifier.record starters (.ns rules specs)).below? k =
        some (.ns rules specs) := rfl
      exact (Link.edits_within rfl hbelow hplace fun top =>
        resolveWith_expanded hfields hrules top v (pos.child k)).map fun _ _ _ _ h =>
          ⟨congrArg Value.obj h.1, h.2⟩
    | _ => exact Link.edits_fail _

private theorem resolvesExpanded_record {starters : Option (CallM σ Value)} {entry : Specifier σ}
    (hentry : ResolvesExpanded Lost options t entry place.entry) :
    ResolvesExpanded Lost options t (.record starters entry) place where
  value parent pplace name hbelow hplace top pos v := by
    rw [Specifier.translate, Specifier.resolve, Specifier.resolve, Specifier.expand]
    exact (Link.edits_within rfl hbelow hplace fun top =>
      hentry.entries starters place rfl top pos v).map fun _ _ _ _ h =>
        ⟨congrArg Value.obj h.1, h.2⟩
  entries starters rplace hplace top pos v := by
    rw [Specifier.translate, Specifier.resolveEntries, Specifier.resolveEntries]
    unfold wrongEntries
    cases v <;> exact Link.edits_fail _

theorem Specifier.Determined.resolvesExpanded {s : Specifier σ} (h : s.Determined)
    (hoptions : options.Determined) (t : σ) (place : Place) :
    ResolvesExpanded Lost options t s place := by
  induction s generalizing place with
  | leaf rules => exact resolvesExpanded_leaf (Specifier.everywhere_leaf.1 h) hoptions
  | ns rules specs ih =>
    exact resolvesExpanded_ns h fun k s hk => ih k s hk ((Specifier.everywhere_ns.1 h).2 k s hk) _
  | record starters entry ih =>
    exact resolvesExpanded_record (ih (Specifier.everywhere_record.1 h).2 _)

/-- Applying an input and applying it written out are edits that run alike. -/
theorem Namespace.applyInput_expanded {n : Namespace σ} (hspec : n.toSpecifier.Determined)
    (hoptions : options.Determined) (t : σ) (v : Value) :
    (noting σ Lost).Keeps
      (Level.SameBut (fun _ _ => False) (fun _ => False) n.toSpecifier [])
      (Store.applyInput (n.translate (recorder σ)) options.recorded v)
      (Store.applyInput (n.translate (recorder σ)) options.recorded
        (n.toSpecifier.expand t v)) := by
  obtain ⟨hrules, hspecs⟩ := Specifier.everywhere_ns.1 hspec
  have hfields (k s) (hk : n.fields.get? k = some s) :
      ResolvesExpanded Lost options t s (Place.field [] k) :=
    Specifier.Determined.resolvesExpanded (hspecs k s hk) hoptions t _
  refine Link.Edits.bind_same ?_ fun candidate =>
    Namespace.commit_keeps (hspec.recorded_agree []) .change candidate .root false
  exact resolveWith_expanded hfields hrules (fun _ => False) v .root

end Resolving

/-! ## Stores -/

/-- Changing a store with an input and with the input written out comes to the same store or to the
same error, whatever the states of the host, and hands on the same notices of repairs. -/
theorem Store.change_expand (store : Store σ) (hspec : store.spec.toSpecifier.Determined)
    (hoptions : store.options.Determined) (input : Value) (s s' t : σ) :
    (store.change (store.spec.toSpecifier.expand t input) s').1 = (store.change input s).1 ∧
      store.notices (store.spec.toSpecifier.expand t input) s' = store.notices input s := by
  have halike : (noting σ fun _ => False).Keeps _ _ _ :=
    Namespace.applyInput_expanded hspec hoptions t input
  have hends := (halike.same store.level).ends trivial ([], s) ([], s') rfl
  have hnot (p : List Call × σ) : ¬ (noting σ fun _ => False).lost p := by
    rintro ⟨_, _, hlost⟩
    exact hlost
  -- The recorded edits come to the same, and each of them comes to what it does unrecorded.
  have hrecorded (v : Value) (s : σ) := ((store.spec.applyInput_recorded store.options v
    store.level).ends trivial ([], s) s rfl).fst_eq id
  have hresult := (hrecorded _ s').symm.trans ((hends.fst_eq (hnot _)).symm.trans (hrecorded _ s))
  constructor
  · rw [change_apply, change_apply, hresult]
  · unfold notices
    rw [change_apply, change_apply]
    exact (hends.results (hnot _)).1.symm

/-! ## Sites in short -/

namespace Brief

/-- A name that is `null` is repaired. -/
def name : LeafRules Unit where
  initial := none
  validate := none
  fixup := some fun v => pure (if v.isNull then some ⟨.str "anon", ["no name"]⟩ else none)
  mapType := none
  shadow := false

/-- What is given for a site in short is its name. -/
def site : NamespaceRules Unit :=
  ⟨some fun v => pure (.obj (.ofList [("name", v)])), none, none⟩

/-- What is given for all in short is one site. -/
def root : Namespace Unit :=
  ⟨⟨some fun v => pure (.obj (.ofList [("sites", .obj (.ofList [("a", v)]))])), none, none⟩,
    .ofList [("sites", .record none (.ns site (.ofList [("name", .leaf name)])))]⟩

def built : Store Unit :=
  ⟨root, Hosts.quiet, ⟨.ofList [("sites", .obj ∅)], .ofList [("sites", .freshRecord ∅)]⟩⟩

/-- `null`, written out. -/
def written : Value :=
  .obj (.ofList [("sites", .obj (.ofList [("a", .obj (.ofList [("name", .null)]))]))])

end Brief

/-- The site is added and its name repaired, whether the input is `null` or what that is written out
as. -/
theorem Store.change_expand_brief :
    Brief.built.spec.toSpecifier.expand () .null = Brief.written ∧
      (Brief.built.change Brief.written ()).1 = (Brief.built.change .null ()).1 ∧
      Brief.built.notices Brief.written () = Brief.built.notices .null () ∧
      (Brief.built.notices .null ()).map (·.path) = ["sites.a.name"] := by
  obtain ⟨hresult, hnotices⟩ := Store.change_expand Brief.built
    (Specifier.determined_of_subsingleton _) (Options.determined_of_subsingleton _) .null () () ()
  exact ⟨rfl, hresult, hnotices, rfl⟩

end Settings
