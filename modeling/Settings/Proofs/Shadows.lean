import Settings.Proofs.Change
import Settings.Proofs.Marks
import Settings.Proofs.Provenance

/-!
# Shadow leaves without a mark

An entry that is made from starters has no shadow leaves, so a change that names one there finds
none. Where mappers keep away from the keys of declared containers, these are all the shadow leaves
without a mark (`Shaded`): every other one is there before a change can write to it, with its mark.
-/

set_option autoImplicit false

namespace Settings

variable {σ : Type}

/-- Shadow leaves are there and marked, but for those of entries that were made from starters: there
a leaf may be missing, and has no mark. The flag says whether the slot is that of such an entry, or
of a leaf in one. -/
inductive Shaded : Bool → Option (Specifier σ) → Option Metadata → Prop
  | free {started : Bool} {node : Option Metadata} : Shaded started none node
  | plain {started : Bool} {rules : LeafRules σ} {node : Option Metadata}
      (plain : rules.shadow = false) : Shaded started (some (.leaf rules)) node
  | marked {rules : LeafRules σ} {leaf : LeafNode} (mark : leaf.isShadow = true) :
      Shaded false (some (.leaf rules)) (some (.leaf leaf))
  | bare {rules : LeafRules σ} {node : Option Metadata}
      (bare : ∀ leaf, node = some (.leaf leaf) → leaf.isShadow = false) :
      Shaded true (some (.leaf rules)) node
  | ns {started : Bool} {rules : NamespaceRules σ} {specs : Fields (Specifier σ)}
      {nodes : Fields Metadata}
      (fields : ∀ k, Shaded (started && (containerKind? (specs.get? k)).isNone) (specs.get? k)
        (nodes.get? k)) :
      Shaded started (some (.ns rules specs)) (some (.ns nodes))
  | record {started : Bool} {starters : Option (CallM σ Value)} {entry : Specifier σ}
      {provenance : Provenance} {nodes initial : Fields Metadata}
      (entries : ∀ k m, nodes.get? k = some m →
        Shaded (initial.get? k).isSome (some entry) (some m))
      (kind : ∀ k m, nodes.get? k = some m → containerKind? (some entry) = some .ns)
      (kept : ∀ k, initial.get? k ≠ none → nodes.get? k ≠ none) :
      Shaded started (some (.record starters entry)) (some (.record provenance nodes initial))

namespace Shaded

variable {started : Bool} {node : Option Metadata}

/-- Only of a shadow leaf does it matter where it is a field. -/
theorem field_iff {s : Specifier σ} (plain : s.isShadow = false) :
    Shaded (started && (containerKind? (some s)).isNone) (some s) node ↔
      Shaded false (some s) node := by
  cases s with
  | leaf => exact iff_of_true (.plain plain) (.plain plain)
  | ns => rw [containerKind?_ns, Option.isNone_some, Bool.and_false]
  | record => rw [containerKind?_record, Option.isNone_some, Bool.and_false]

theorem initialNode (rules : LeafRules σ) (v : Option Value) :
    Shaded false (some (.leaf rules)) (some (.leaf (rules.initialNode v))) := by
  cases hshadow : rules.shadow with
  | true => exact .marked hshadow
  | false => exact .plain hshadow

end Shaded

/-! ## Initialization -/

/-- The entry about which nothing is given has no shadow leaves. -/
private theorem shaded_canonical {rules : NamespaceRules σ} {specs : Fields (Specifier σ)}
    {pos : Position} {level : Level}
    (h : IsCanonical (fun s _ _ field => Shaded false (some s) (some field.node) ∧
      field.WithData s) specs pos level) :
    Shaded true (some (.ns rules specs)) (some (.ns level.nodes)) := by
  refine .ns fun k => ?_
  obtain ⟨hskip, hbuild⟩ := h k
  show Shaded _ _ (level.slot k).node
  cases hs : specs.get? k with
  | none => exact .free
  | some s =>
    cases hshadow : s.isShadow with
    | false =>
      obtain ⟨field, ⟨hfield, -⟩, hslot⟩ := hbuild s hs hshadow
      rw [hslot]
      exact (Shaded.field_iff hshadow).2 hfield
    | true =>
      rw [hskip (fun s' hs' => by rw [hs] at hs'; cases hs'; exact hshadow)]
      cases s with
      | leaf => exact .bare (by rintro leaf ⟨⟩)
      | ns => cases hshadow
      | record => cases hshadow

/-- At first all entries of a record are those made from starters. -/
private theorem shaded_stitched {starters : Option (CallM σ Value)} {entry : Specifier σ}
    {given : Fields Value} {pos : Position} {level : Level} {started : Bool}
    (h : IsStitched
      (fun s _ _ field => Shaded false (some s) (some field.node) ∧ field.WithData s)
      (fun s _ isEntry _ before after => Shaded isEntry (some s) before.node →
        Shaded isEntry (some s) after.node) entry given pos level) :
    Shaded started (some (.record starters entry)) (some (.freshRecord level.nodes)) := by
  cases h with
  | none => exact .record (by rintro k m ⟨⟩) (by rintro k m ⟨⟩) fun k hk => hk
  | @some rules specs _ _ canonical _ hcanonical others entries =>
    refine .record (fun k m hk => ?_) (fun _ _ _ => rfl) fun k hk => hk
    change (level.slot k).node = some m at hk
    cases hgiven : given.get? k with
    | none =>
      rw [others k hgiven] at hk
      cases hk
    | some starter =>
      obtain ⟨inner, hslot, hlaid⟩ := entries k starter hgiven
      have hstarted : (level.nodes.get? k).isSome = true := by
        show (level.slot k).node.isSome = true
        rw [hk]
        rfl
      rw [hstarted, ← hk, hslot]
      exact hlaid (shaded_canonical hcanonical)

/-- What initialization builds is shaded, whether it is an entry that a change adds or not. -/
theorem Specifier.defaults_shaded {s : Specifier σ} {pos : Position} {isEntry : Bool}
    {field : Initialized} (h : (s.defaults pos isEntry).Yields field) :
    Shaded false (some s) (some field.node) := by
  refine (Specifier.defaults_induction
    (D := fun s _ _ field => Shaded false (some s) (some field.node) ∧ field.WithData s)
    (G := fun s _ isEntry _ before after => Shaded isEntry (some s) before.node →
      Shaded isEntry (some s) after.node)
    ?leaf ?ns ?record ?givenLeaf ?givenNs ?givenRecord h).1
  case leaf =>
    intro rules pos isEntry field h
    refine ⟨?_, LeafRules.withData_of_defaults h⟩
    rw [LeafRules.node_of_defaults h]
    exact .initialNode rules _
  case ns =>
    intro rules specs pos isEntry seed level mapped _ _ hfields _
    refine ⟨.ns fun k => ?_, by rintro ⟨⟩⟩
    rw [Bool.false_and]
    show Shaded false _ (level.slot k).node
    cases hs : specs.get? k with
    | none => exact .free
    | some s =>
      obtain ⟨field, ⟨hfield, hdata⟩, hslot⟩ := hfields k s hs
      rw [hslot]
      obtain hbuilt | ⟨rules, v, rfl, -, hgiven⟩ := Level.overlay_ofSeed hs hdata seed
      · rw [hbuilt]
        exact hfield
      · rw [hgiven]
        exact .initialNode rules _
  case record =>
    intro starters entry pos isEntry given level _ hstitched
    exact ⟨shaded_stitched hstitched, by rintro ⟨⟩⟩
  case givenLeaf =>
    intro rules pos given before hshadow _
    exact .plain hshadow
  case givenNs =>
    intro rules specs pos isEntry given before fields inner mapped _ hothers hgiven _ hbefore
    obtain ⟨data, node⟩ := before
    cases hbefore with
    | @ns _ _ _ nodes hnodes =>
      refine .ns fun k => ?_
      show Shaded _ _ (inner.slot k).node
      -- A value is given for fields that are no shadow leaves; the others stay as they are.
      have hslot : ((Slot.mk data (some (.ns nodes))).opened .ns).slot k =
          (Slot.mk data (some (.ns nodes))).child k := Slot.opened_slot rfl k
      cases hk : givenFor? specs fields k with
      | none =>
        rw [hothers k hk, hslot]
        exact hnodes k
      | some p =>
        obtain ⟨s, v⟩ := p
        obtain ⟨hdeclared, hshadow⟩ := specs_of_givenFor? hk
        have hfield := hnodes k
        rw [hdeclared, Shaded.field_iff hshadow] at hfield
        rw [hdeclared, Shaded.field_iff hshadow]
        refine hgiven k s v hk ?_
        rw [hslot]
        exact hfield
  case givenRecord =>
    intro starters entry pos given before level hstitched _
    exact shaded_stitched hstitched

/-! ## A change -/

section Change

variable {isEntry started : Bool} {spec : Option (Specifier σ)} {pos : Position} {v : Value}
  {slot slot' : Slot}

theorem Changes.node_ne_none (h : Changes isEntry spec pos slot v slot') : slot'.node ≠ none := by
  cases h <;> exact Option.some_ne_none _

/-- A leaf has a mark after a change if it had one before. -/
private theorem shaded_write {rules : LeafRules σ}
    (h : Shaded started (some (.leaf rules)) slot.node) (v : Value) :
    Shaded started (some (.leaf rules)) (slot.write true .change v).node := by
  obtain ⟨data, node⟩ := slot
  cases h with
  | plain plain => exact .plain plain
  | marked mark => exact .marked mark
  | bare bare =>
    refine .bare ?_
    rintro _ ⟨⟩
    cases node with
    | none => rfl
    | some m =>
      cases m with
      | leaf leaf => exact bare leaf rfl
      | ns => rfl
      | record => rfl

/-- An entry that a change makes sure of is built if it was not there, and then it does not count as
made from starters. -/
private theorem Namespace.Ensures.shaded {rules : NamespaceRules σ} {specs : Fields (Specifier σ)}
    (h : (Namespace.mk rules specs).Ensures pos slot slot')
    (hslot : slot ≠ ⟨none, none⟩ → Coherent (fun _ _ => True) (some (.ns rules specs)) slot)
    (present : ∀ m, slot.node = some m → Shaded started (some (.ns rules specs)) (some m))
    (absent : slot.node = none → started = false) :
    Shaded started (some (.ns rules specs)) slot'.node := by
  rcases Classical.em (slot = ⟨none, none⟩) with rfl | hsome
  · cases h with
    | created _ build =>
      rw [absent rfl]
      exact Specifier.defaults_shaded (Namespace.defaults_toSpecifier build)
    | kept hdata => exact absurd rfl hdata
  · -- An entry that is there has data, so it is kept.
    obtain ⟨inner, rfl, -⟩ := (hslot hsome).of_ns
    cases h with
    | created missing => rcases missing with hdata | hdata <;> cases hdata
    | kept => exact present _ rfl

/-- A change keeps the shading: entries made from starters stay, and a new entry is none of them. -/
theorem Changes.shaded (h : Changes isEntry spec pos slot v slot')
    (hspec : ∀ s, spec = some s → s.Mild fun _ _ => True)
    (hslot : Coherent (fun _ _ => True) spec slot) (hshaded : Shaded started spec slot.node) :
    Shaded started spec slot'.node := by
  induction h generalizing started with
  | @value isEntry spec pos slot v terminal =>
    cases spec with
    | none => exact .free
    | some s =>
      cases s with
      | leaf => exact shaded_write hshaded v
      | ns => cases terminal
      | record => cases terminal
  | @ns isEntry rules specs pos c inner inner' mapped others each mapper ih =>
    obtain ⟨-, hspecs⟩ := Specifier.everywhere_ns.1 (hspec _ rfl)
    obtain ⟨level, hlevel, hinner⟩ := hslot.of_ns
    obtain ⟨-, rfl⟩ := Slot.of_inj.1 hlevel
    cases hshaded with
    | ns fields =>
      refine .ns fun k => ?_
      show Shaded _ _ (inner'.slot k).node
      cases hk : c.get? k with
      | none =>
        rw [others k hk]
        exact fields k
      | some v => exact ih k v hk (fun s hs => hspecs k s hs) (hinner k) (fields k)
  | @record isEntry starters rules specs pos provenance initial c inner inner' base others ensured
      each ih =>
    obtain ⟨-, hentry⟩ := Specifier.everywhere_record.1 (hspec _ rfl)
    obtain ⟨_, _, level, hlevel, hinner⟩ := hslot.of_record
    obtain ⟨-, rfl⟩ := Slot.of_inj.1 hlevel
    cases hshaded with
    | record entries kind kept =>
      refine .record (fun k m hk => ?entries) (fun _ _ _ => rfl) fun k hk => ?kept
      case entries =>
        change (inner'.slot k).node = some m at hk
        rw [← hk]
        cases hv : c.get? k with
        | none =>
          rw [others k hv] at hk ⊢
          rw [hk]
          exact entries k m hk
        | some v =>
          -- An entry that is missing is not in the snapshot either.
          have habsent : (inner.slot k).node = none → (initial.get? k).isSome = false := by
            intro hnone
            cases hinitial : initial.get? k with
            | none => rfl
            | some m => exact absurd hnone (kept k (by rw [hinitial]; exact Option.some_ne_none m))
          have hbase := (ensured k v hv).shaded (fun hk => (hinner k hk).1) (entries k) habsent
          have hcoherent := (ensured k v hv).coherent (fun _ => trivial) hentry
            fun hk => (hinner k hk).1
          exact ih k v hv (Specifier.forall_of_some hentry) hcoherent hbase
      case kept =>
        show (inner'.slot k).node ≠ none
        cases hv : c.get? k with
        | none =>
          rw [others k hv]
          exact kept k hk
        | some v => exact (each k v hv).node_ne_none

end Change

/-! ## Where a mark is missing -/

/-- The path leads to a field of an entry that is in the snapshot of its record. -/
def Slot.InStarter (slot : Slot) (path : List String) : Prop :=
  ∃ outer key name, path = outer ++ [key, name] ∧ (slot.follow outer).snapshot.get? key ≠ none

theorem Slot.inStarter_cons {slot : Slot} {name : String} {path : List String} :
    slot.InStarter (name :: path) ↔
      (∃ field, path = [field]) ∧ slot.snapshot.get? name ≠ none ∨
        (slot.child name).InStarter path := by
  constructor
  · rintro ⟨outer, key, field, hpath, hkey⟩
    cases outer with
    | nil =>
      cases hpath
      exact .inl ⟨⟨field, rfl⟩, hkey⟩
    | cons first outer =>
      cases hpath
      exact .inr ⟨outer, key, field, rfl, hkey⟩
  · rintro (⟨⟨field, rfl⟩, hname⟩ | ⟨outer, key, field, rfl, hkey⟩)
    · exact ⟨[], name, field, rfl, hname⟩
    · exact ⟨name :: outer, key, field, rfl, hkey⟩

/-- A path to a leaf ends where no container is declared. -/
theorem Leads.isNone_containerKind? {spec : Option (Specifier σ)} {path : List String}
    {rules : LeafRules σ} (h : Leads spec path (some (.leaf rules))) :
    (containerKind? spec).isNone = path.isEmpty := by
  cases h <;> rfl

/-- Of the shadow leaves that are there, those without a mark are fields of entries that were made
from starters. -/
theorem Shaded.unmarked_iff {started : Bool} {spec : Option (Specifier σ)} {slot : Slot}
    (h : Shaded started spec slot.node) {path : List String} {rules : LeafRules σ}
    (hpath : Leads spec path (some (.leaf rules))) (hshadow : rules.shadow = true)
    {leaf : LeafNode} (hleaf : (slot.follow path).node = some (.leaf leaf)) :
    leaf.isShadow = false ↔ started = true ∧ path.length ≤ 1 ∨ slot.InStarter path := by
  induction path generalizing started spec slot with
  | nil =>
    have hnode : slot.node = some (.leaf leaf) := hleaf
    have hnot : ¬ slot.InStarter [] := by
      rintro ⟨outer, key, name, hnil, -⟩
      simp at hnil
    rw [hnode] at h
    cases hpath
    cases h with
    | plain plain => rw [hshadow] at plain; cases plain
    | marked mark => simp [mark, hnot]
    | bare bare => simp [bare leaf rfl]
  | cons name path ih =>
    obtain ⟨data, node⟩ := slot
    rw [Slot.follow_cons] at hleaf
    rw [Slot.inStarter_cons]
    cases hpath with
    | field rest =>
      cases h with
      | @ns _ _ _ nodes fields =>
        have hsnapshot : (Slot.mk data (some (.ns nodes))).snapshot.get? name = none := rfl
        rw [ih (fields name) rest hleaf, rest.isNone_containerKind?, hsnapshot]
        cases path <;> simp
    | entry rest =>
      cases h with
      | @record _ _ _ provenance nodes initial entries kind kept =>
        -- The entry is there, and it is a namespace.
        obtain ⟨m, hm⟩ : ∃ m, nodes.get? name = some m := by
          cases hm : nodes.get? name with
          | some m => exact ⟨m, rfl⟩
          | none =>
            rw [Slot.node_follow_congr (b := ⟨none, none⟩) hm, Slot.follow_none] at hleaf
            cases hleaf
        have hentry : Shaded (initial.get? name).isSome (some _) (nodes.get? name) :=
          hm ▸ entries name m hm
        have hnonempty := rest.isNone_containerKind?
        rw [kind name m hm] at hnonempty
        rw [ih hentry rest hleaf]
        show _ ↔ _ ∨ (∃ field, path = [field]) ∧ initial.get? name ≠ none ∨ _
        cases path with
        | nil => cases hnonempty
        | cons field path => cases path <;> simp [Option.isSome_iff_ne_none]

/-! ## Stores -/

section Reachable

variable {spec : Namespace σ} {options : Options σ} {store visited : Store σ}

/-- A leaf is marked where it is declared to be a shadow, or a change has made it. -/
private theorem Specifier.keeps_marked_or_made (s : Specifier σ) : s.Keeps options fun rules leaf =>
    Marked rules leaf ∨ ∃ v, leaf = (LeafNode.fresh none .change).write .change v := by
  refine s.builds_marked.imp (fun rules h => ⟨?built, ?given, ?changed⟩)
    (fun rules specs h => ⟨?undeclared, ?declared⟩) fun _ => id
  case built => exact fun pos v leaf hleaf => .inl (h.built pos v leaf hleaf)
  case given => exact fun hplain v => .inl (h.given hplain v)
  case undeclared =>
    exact fun pos seed k v hseed hv hk => .inl (h.undeclared pos seed k v hseed hv hk)
  case declared =>
    exact fun pos seed k v rules hseed hv hk => .inl (h.declared pos seed k v rules hseed hv hk)
  case changed =>
    rintro pos v w - leaf (rfl | hmarked | ⟨v, rfl⟩)
    · exact .inr ⟨w, rfl⟩
    · exact .inl hmarked
    · exact .inr ⟨w, rfl⟩

/-- A leaf without a mark is as a change makes it where there was none. -/
theorem Store.Reachable.eq_write_of_unmarked (h : Store.Reachable spec options store)
    {path : List String} {rules : LeafRules σ} {leaf : LeafNode}
    (hpath : Leads (some spec.toSpecifier) path (some (.leaf rules)))
    (hshadow : rules.shadow = true) (hreach : store.metadata.Reaches path (.leaf leaf))
    (hunmarked : leaf.isShadow = false) :
    ∃ v, leaf = (LeafNode.fresh none .change).write .change v := by
  have hfits := h.fits (fun _ _ _ => .inl trivial) (Specifier.keeps_marked_or_made _)
  cases hfits.of_reaches hpath hreach with
  | leaf here =>
    rcases here with hmarked | hmade
    · rw [hmarked hshadow] at hunmarked
      cases hunmarked
    · exact hmade

/-- In every store of a specification with mild mappers the metadata is shaded. -/
theorem Store.Reachable.shaded (h : Store.Reachable spec options store)
    (hmild : spec.toSpecifier.Mild fun _ _ => True) :
    Shaded false (some spec.toSpecifier) (some store.metadata) := by
  have hspec : ∀ s, some spec.toSpecifier = some s → s.Mild fun _ _ => True :=
    Specifier.forall_of_some hmild
  -- What a change does is known where data and metadata are coherent, so both are carried along.
  have hboth := h.level_induction
    (P := fun level => Coherent (fun _ _ => True) (some spec.toSpecifier) (.of .ns level) ∧
      Shaded false (some spec.toSpecifier) (Slot.of .ns level).node)
    (fun level hbuilt => ?_) (fun input c level mid level' hlevel hresolves hcommits => ?_)
  · exact hboth.2
  · exact ⟨Specifier.defaults_coherent (fun _ => trivial) hmild hbuilt,
      Specifier.defaults_shaded hbuilt⟩
  · have hchanges := hresolves.changes (fun _ => trivial) hcommits hspec hlevel.1
    exact ⟨hchanges.coherent (fun _ => trivial) hspec hlevel.1,
      hchanges.shaded hspec hlevel.1 hlevel.2⟩

/-- A shadow leaf has no mark exactly if it is present as a field of an entry that was made from
starters. -/
theorem Store.Reachable.unmarked_iff (h : Store.Reachable spec options store)
    (hmild : spec.toSpecifier.Mild fun _ _ => True) {path : List String} {rules : LeafRules σ}
    {leaf : LeafNode} (hpath : Leads (some spec.toSpecifier) path (some (.leaf rules)))
    (hshadow : rules.shadow = true) (hreach : store.metadata.Reaches path (.leaf leaf)) :
    leaf.isShadow = false ↔ (store.slotAt path).node = some (.leaf leaf) ∧
      (Slot.of .ns store.level).InStarter path := by
  have hshaded : Shaded false (some spec.toSpecifier) (Slot.of .ns store.level).node :=
    h.shaded hmild
  have hpresent (hleaf : (store.slotAt path).node = some (.leaf leaf)) :
      leaf.isShadow = false ↔ (Slot.of .ns store.level).InStarter path := by
    rw [hshaded.unmarked_iff hpath hshadow hleaf]
    simp
  refine ⟨fun hunmarked => ?_, fun ⟨hleaf, hstarter⟩ => (hpresent hleaf).2 hstarter⟩
  obtain ⟨v, rfl⟩ := h.eq_write_of_unmarked hpath hshadow hreach hunmarked
  -- What a change has made is not in a snapshot.
  have hroot : (Slot.of .ns store.level).node = some store.metadata := rfl
  rcases h.metadata_awaits.present_or_pristine hreach hroot with hleaf | hpristine
  · exact ⟨hleaf, (hpresent hleaf).1 hunmarked⟩
  · cases hpristine

/-- From the start of a store on, all shadow leaves are marked exactly as long as every change finds
those that it writes to. A leaf without a mark is one that a change has made; and where mappers keep
away from declared containers, the leaves without a mark are the fields present in entries that were
made from starters. -/
theorem Store.shadows_marked_iff (hbuilt : (Store.create spec options).Yields store)
    (steps : List (Step × σ)) :
    ((∀ visited ∈ store :: store.trail steps, visited.MarksShadows) ↔
      store.FindsShadowsAll steps) ∧
    ∀ visited ∈ store :: store.trail steps, ∀ path rules leaf,
      Leads (some spec.toSpecifier) path (some (.leaf rules)) → rules.shadow = true →
      visited.metadata.Reaches path (.leaf leaf) →
      (leaf.isShadow = false → ∃ v, leaf = (LeafNode.fresh none .change).write .change v) ∧
      (spec.toSpecifier.Mild (fun _ _ => True) →
        (leaf.isShadow = false ↔ (visited.slotAt path).node = some (.leaf leaf) ∧
          (Slot.of .ns visited.level).InStarter path)) := by
  have hstore : Store.Reachable spec options store := .create hbuilt
  have hmarks := Store.create_marks hbuilt
  constructor
  · rw [List.forall_mem_cons, hstore.marks_trail_iff hmarks steps]
    exact and_iff_right hmarks
  · intro visited hvisited path rules leaf hpath hshadow hreach
    have hreachable : Store.Reachable spec options visited := by
      rcases List.mem_cons.1 hvisited with rfl | hrest
      · exact hstore
      · exact hstore.of_mem_trail hrest
    exact ⟨hreachable.eq_write_of_unmarked hpath hshadow hreach,
      fun hmild => hreachable.unmarked_iff hmild hpath hshadow hreach⟩

end Reachable

/-! ## A label without a mark -/

namespace Parcels

def label : LeafRules Unit := ⟨none, none, none, none, true⟩

/-- A record of parcels with one starter. -/
def root : Namespace Unit :=
  ⟨⟨none, none, none⟩, .ofList [("r", .record (some (pure (.obj (.ofList [("x", .obj ∅)]))))
    (.ns ⟨none, none, none⟩ (.ofList [("label", .leaf label)])))]⟩

def built : Store Unit :=
  ⟨root, Hosts.quiet, ⟨.ofList [("r", .obj (.ofList [("x", .obj ∅)]))],
    .ofList [("r", .freshRecord (.ofList [("x", .ns ∅)]))]⟩⟩

/-- An input that labels the entry that is there and a new one. -/
def input : Value :=
  .obj (.ofList [("r", .obj (.ofList [("x", .obj (.ofList [("label", .str "a")])),
    ("y", .obj (.ofList [("label", .str "b")]))]))])

def changed : Store Unit := (built.step (.change input) ()).1

/-- The label of the entry that was made from the starter. -/
def bare : LeafNode := (LeafNode.fresh none .change).write .change (.str "a")

theorem create_built : (Store.create root Hosts.quiet).Yields built := ⟨(), (), rfl⟩

theorem leads (key : String) :
    Leads (some root.toSpecifier) ["r", key, "label"] (some (.leaf label)) :=
  .field (.entry (.field .here))

theorem reaches_bare : changed.metadata.Reaches ["r", "x", "label"] (.leaf bare) :=
  .field rfl (.entry rfl (.field rfl .here))

theorem withoutMappers : root.toSpecifier.WithoutMappers := by
  have hempty : ∀ k s, (∅ : Fields (Specifier Unit)).get? k = some s → s.WithoutMappers := by
    rintro k s ⟨⟩
  have hlabel : (Specifier.leaf label).WithoutMappers := .leaf trivial
  have hparcel : (Specifier.ns ⟨none, none, none⟩
      (.ofList [("label", .leaf label)])).WithoutMappers :=
    .ns rfl (SortedMap.forall_insert hlabel hempty)
  exact .ns rfl (SortedMap.forall_insert (.record trivial hparcel) hempty)

end Parcels

/-- One change labels two parcels, and the label of the one that was made from a starter has no
mark. -/
theorem Store.shadow_unmarked :
    Store.Reachable Parcels.root Hosts.quiet Parcels.changed ∧
      Parcels.changed.metadata.Reaches ["r", "x", "label"]
        (.leaf ⟨some (.str "a"), none, .change, false, false⟩) ∧
      Parcels.changed.metadata.Reaches ["r", "y", "label"]
        (.leaf ⟨some (.str "b"), none, .change, true, false⟩) ∧
      ¬ Parcels.changed.MarksShadows := by
  refine ⟨.step (.create Parcels.create_built) _ _, Parcels.reaches_bare,
    .field rfl (.entry rfl (.field rfl .here)), fun hmarks => ?_⟩
  cases hmarks _ _ _ (Parcels.leads "x") rfl Parcels.reaches_bare

/-- So the change does not find all that it writes to. -/
theorem Store.shadows_marked_iff_parcels :
    ¬ Parcels.built.FindsShadowsAll [(.change Parcels.input, ())] ∧
      (∃ v, Parcels.bare = (LeafNode.fresh none .change).write .change v) ∧
      (Slot.of .ns Parcels.changed.level).InStarter ["r", "x", "label"] := by
  obtain ⟨hiff, hleaves⟩ := Store.shadows_marked_iff Parcels.create_built
    [(.change Parcels.input, ())]
  have hvisited : Parcels.changed ∈
      Parcels.built :: Parcels.built.trail [(.change Parcels.input, ())] := .tail _ (.head _)
  obtain ⟨hmade, hstarter⟩ :=
    hleaves _ hvisited _ _ _ (Parcels.leads "x") rfl Parcels.reaches_bare
  refine ⟨fun hfinds => ?_, hmade rfl, ((hstarter Parcels.withoutMappers.mild).1 rfl).2⟩
  cases hiff.2 hfinds _ hvisited _ _ _ (Parcels.leads "x") rfl Parcels.reaches_bare

end Settings
