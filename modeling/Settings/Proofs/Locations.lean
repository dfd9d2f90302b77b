import Settings.Proofs.Derived
import Settings.Proofs.MapperCalls

/-!
# Where initialization calls mappers

Initialization calls the mapper of a namespace at the namespace's own position, and what the mapper
gives stays there, with one exception: the fields of a canonical entry are initialized once for all
starters, with `"*"` for the name of the entry, and copied. `Situates` states both for a value and
the calls that went into it, and is put together along the recursion of `Specifier.defaults`. If
mappers give undeclared keys alone, it holds of every store that is built
(`Namespace.initialization_situated`).
-/

set_option autoImplicit false

namespace Settings

variable {σ α : Type} {lo : Option String}

/-- The mapper gives undeclared keys alone. -/
def NamespaceRules.MapsUndeclared (rules : NamespaceRules σ) (specs : Fields (Specifier σ)) :
    Prop :=
  ∀ data pos isEntry mapped, (rules.runMapper data pos isEntry).Yields mapped →
    ∀ k v, mapped.get? k = some v → specs.get? k = none

def Specifier.MapsUndeclared : Specifier σ → Prop :=
  Specifier.Everywhere (fun _ => True) NamespaceRules.MapsUndeclared fun _ => True

/-! ## Paths through canonical entries -/

/-- The path goes through a canonical entry: somewhere it has the placeholder for the name of an
entry, and goes on inside. -/
inductive Starred : Option (Specifier σ) → List String → Prop
  | here {starters : Option (CallM σ Value)} {entry : Specifier σ} {name : String}
      {path : List String} : Starred (some (.record starters entry)) ("*" :: name :: path)
  | inside {s : Specifier σ} {name : String} {path : List String}
      (rest : Starred (s.below? name) path) : Starred (some s) (name :: path)

/-- The first path is the second one, but may have the placeholder for names of entries that it
goes through. -/
inductive Stands : Option (Specifier σ) → List String → List String → Prop
  | here {spec : Option (Specifier σ)} : Stands spec [] []
  | same {s : Specifier σ} {name : String} {p q : List String}
      (rest : Stands (s.below? name) p q) : Stands (some s) (name :: p) (name :: q)
  | star {starters : Option (CallM σ Value)} {entry : Specifier σ} {name field : String}
      {p q : List String} (rest : Stands (some entry) (field :: p) (field :: q)) :
      Stands (some (.record starters entry)) ("*" :: field :: p) (name :: field :: q)

/-! ## Calls and what they leave -/

section Situated

variable (spec : Option (Specifier σ)) (isEntry : Bool) (place : Place) (pos : Position)

/-- A call of the mapper of the namespace that the path leads to, with the context that belongs to
the path, and what it gives. -/
inductive CalledAt (path : List String) (rules : NamespaceRules σ) (mapped : Fields Value) :
    Call → Prop
  | intro {specs : Fields (Specifier σ)} {data : Fields Value} {r : Value}
      (leads : Leads spec path (some (.ns rules specs))) (rule : rules.mapper.isSome)
      (object : objectOrNull? r = some mapped) :
      CalledAt path rules mapped (.mapper (placeAt spec place path) (.obj data)
        (contextAt spec isEntry pos path) (.ok r))

/-- Where the value of a key of a namespace comes from: the namespace's seed, a call of its mapper
at a path that stands for its own, or what was there before. -/
inductive Arises (before : Option Value) (calls : List Call) (path : List String)
    (rules : NamespaceRules σ) (k : String) (v : Value) : Prop
  | seed {p : Position} {seed : Fields Value} (yields : (runSeed rules.seed p).Yields seed)
      (key : seed.get? k = some v)
  | mapper {path' : List String} {mapped : Fields Value} {call : Call} (mem : call ∈ calls)
      (stands : Stands spec path' path)
      (called : CalledAt spec isEntry place pos path' rules mapped call)
      (key : mapped.get? k = some v)
  | kept (key : (objectOf (before.bind (·.at? path))).get? k = some v)

/-- Every call is one at a path to an object of the value, or at one through a canonical entry; and
the undeclared keys of namespaces in the value arise from the calls, from seeds or from what was
there before. -/
structure Situates (before : Option Value) (calls : List Call) (after : Option Value) : Prop where
  called : ∀ call ∈ calls, ∃ path rules mapped,
    CalledAt spec isEntry place pos path rules mapped call ∧
      ((∃ fields, after.bind (·.at? path) = some (.obj fields)) ∨ Starred spec path)
  arises : ∀ path rules specs fields k v, Leads spec path (some (.ns rules specs)) →
    after.bind (·.at? path) = some (.obj fields) → specs.get? k = none →
    fields.get? k = some v → Arises spec isEntry place pos before calls path rules k v

end Situated

/-- The same for every name below a container. -/
def SituatesBelow (s : Specifier σ) (place : Place) (pos : Position)
    (before : String → Option Value) (calls : List Call) (after : Fields Value) : Prop :=
  ∃ made : String → List Call, (∀ call, call ∈ calls ↔ ∃ name, call ∈ made name) ∧
    ∀ name, Situates (s.below? name) (s.kind = .record) (s.placeBelow place name)
      (pos.child name) (before name) (made name) (after.get? name)

section Composition

variable {s : Specifier σ} {spec : Option (Specifier σ)} {isEntry : Bool} {place : Place}
  {pos : Position} {before after : Option Value} {calls cs ds : List Call} {call : Call}
  {path : List String} {name k : String} {rules : NamespaceRules σ} {specs : Fields (Specifier σ)}
  {mapped : Fields Value} {v : Value}

/-- What a path leads to below a name is below the container. -/
private theorem container_of_below {target : Specifier σ}
    (h : Leads (s.below? name) path (some target)) : containerKind? (some s) ≠ none := by
  cases s with
  | leaf rules => cases h
  | _ => exact Option.some_ne_none _

theorem CalledAt.below
    (h : CalledAt (s.below? name) (s.kind = .record) (s.placeBelow place name) (pos.child name)
      path rules mapped call) :
    CalledAt (some s) isEntry place pos (name :: path) rules mapped call := by
  cases h with
  | intro leads rule object =>
    rw [← contextAt_cons s isEntry pos name path]
    exact .intro (leads_cons.2 ⟨container_of_below leads, leads⟩) rule object

theorem Arises.below (hmem : ∀ call ∈ cs, call ∈ calls)
    (h : Arises (s.below? name) (s.kind = .record) (s.placeBelow place name) (pos.child name)
      ((objectOf before).get? name) cs path rules k v) :
    Arises (some s) isEntry place pos before calls (name :: path) rules k v := by
  cases h with
  | seed yields key => exact .seed yields key
  | mapper mem stands called key => exact .mapper (hmem _ mem) (.same stands) called.below key
  | kept key =>
    rw [← bind_at?_cons] at key
    exact .kept key

/-- Where nothing is called, everything is as before. -/
theorem Situates.same : Situates spec isEntry place pos before [] before where
  called := by rintro _ ⟨⟩
  arises path rules specs fields k v _ hfields _ hv := by
    refine .kept ?_
    rw [hfields]
    exact hv

theorem Situates.absent : Situates spec isEntry place pos before [] none where
  called := by rintro _ ⟨⟩
  arises path rules specs fields k v _ := by rintro ⟨⟩

/-- Where no container is declared, there is nothing to say. -/
theorem Situates.closed (h : containerKind? spec = none) :
    Situates spec isEntry place pos before [] after where
  called := by rintro _ ⟨⟩
  arises path rules specs fields k v hleads := by
    cases spec with
    | none => cases hleads
    | some s =>
      cases s with
      | leaf => cases hleads
      | _ => cases h

/-- What comes from calls and seeds alone does so whatever was there. -/
theorem Situates.anew (h : Situates spec isEntry place pos none calls after) :
    Situates spec isEntry place pos before calls after where
  called := h.called
  arises path rules specs fields k v hleads hfields hk hv := by
    cases h.arises path rules specs fields k v hleads hfields hk hv with
    | seed yields key => exact .seed yields key
    | mapper mem stands called key => exact .mapper mem stands called key
    | kept key => cases key

/-- Writing a value at a name leaves the other names alone. -/
theorem Situates.inserted (h : Situates spec isEntry place pos before calls (some v))
    (data : Fields Value) (name : String) :
    (∀ k, k ≠ name → (data.insert name v).get? k = data.get? k) ∧
      Situates spec isEntry place pos before calls ((data.insert name v).get? name) := by
  rw [SortedMap.get?_insert_self]
  exact ⟨fun _ hk => SortedMap.get?_insert_of_ne hk, h⟩

/-- The call of a mapper is one at the namespace's own position. -/
theorem NamespaceRules.Maps.calledAt {mid : Fields Value} (hpos : pos.key = none)
    (h : rules.Maps place mid (if isEntry then pos.asEntry else pos) ds mapped)
    (hcall : call ∈ ds) :
    CalledAt (some (.ns rules specs)) isEntry place pos [] rules mapped call := by
  cases h with
  | absent => cases hcall
  | called rule object =>
    obtain rfl := List.mem_singleton.1 hcall
    rw [← contextAt_nil hpos (some (.ns rules specs)) isEntry]
    exact .intro .here rule object

theorem NamespaceRules.Maps.exists_call {mid : Fields Value} {context : Position}
    (h : rules.Maps place mid context ds mapped) (hk : mapped.get? k = some v) :
    ∃ call, call ∈ ds := by
  cases h with
  | absent => cases hk
  | called => exact ⟨_, List.mem_cons_self⟩

/-- What a mapper gives is beside the declared fields, and leaves alone what is inside them. -/
private theorem bind_at?_assign {mid : Fields Value} {target : Specifier σ}
    (hmapped : ∀ k v, mapped.get? k = some v → specs.get? k = none)
    (hleads : Leads (specs.get? name) path (some target)) :
    (some (Value.obj (mid.assign mapped))).bind (·.at? (name :: path)) =
      (mid.get? name).bind (·.at? path) := by
  have hname : mapped.get? name = none := by
    refine Option.eq_none_iff_forall_ne_some.2 fun v hv => ?_
    rw [hmapped name v hv] at hleads
    cases hleads
  have hfield : (mid.assign mapped).get? name = mid.get? name := by
    rw [SortedMap.get?_assign, hname, Option.none_or]
  rw [bind_at?_cons]
  exact congrArg (Option.bind · (·.at? path)) hfield

/-- A namespace whose fields are done runs its mapper, if it has one. -/
theorem SituatesBelow.ns {mid : Fields Value} (hpos : pos.key = none)
    (hbelow : SituatesBelow (.ns rules specs) place pos (objectOf before).get? cs mid)
    (hown : ∀ k v, specs.get? k = none → mid.get? k = some v →
      (∃ p seed, (runSeed rules.seed p).Yields seed ∧ seed.get? k = some v) ∨
        (objectOf before).get? k = some v)
    (hmaps : rules.Maps place mid (if isEntry then pos.asEntry else pos) ds mapped)
    (hmapped : ∀ k v, mapped.get? k = some v → specs.get? k = none) :
    Situates (some (.ns rules specs)) isEntry place pos before (cs ++ ds)
      (some (.obj (mid.assign mapped))) := by
  obtain ⟨made, hmade, hnames⟩ := hbelow
  constructor
  · intro call hcall
    rw [List.mem_append] at hcall
    obtain hcall | hcall := hcall
    · obtain ⟨name, hname⟩ := (hmade call).1 hcall
      obtain ⟨path, rules', mapped', hcalled, hthere⟩ := (hnames name).called call hname
      refine ⟨name :: path, rules', mapped', hcalled.below, ?_⟩
      obtain ⟨fields, hfields⟩ | hstarred := hthere
      · cases hcalled with
        | intro leads => exact .inl ⟨fields, (bind_at?_assign hmapped leads).trans hfields⟩
      · exact .inr (.inside hstarred)
    · exact ⟨[], rules, mapped, hmaps.calledAt hpos hcall, .inl ⟨_, rfl⟩⟩
  · intro path rules' specs' fields k v hleads hfields hk hv
    cases path with
    | nil =>
      cases hleads
      obtain rfl := Value.obj.inj (Option.some.inj hfields)
      rw [SortedMap.get?_assign] at hv
      obtain hkey | ⟨-, hkey⟩ := Option.or_eq_some_iff.1 hv
      · obtain ⟨call, hcall⟩ := hmaps.exists_call hkey
        exact .mapper (List.mem_append_right _ hcall) .here (hmaps.calledAt hpos hcall) hkey
      · obtain ⟨p, seed, hyields, hseed⟩ | hold := hown k v hk hkey
        · exact .seed hyields hseed
        · cases before with
          | none => cases hold
          | some old => exact .kept hold
    | cons name path =>
      obtain ⟨-, hleads⟩ := leads_cons.1 hleads
      rw [bind_at?_assign hmapped hleads] at hfields
      exact ((hnames name).arises path rules' specs' fields k v hleads hfields hk hv).below
        fun call hcall => List.mem_append_left _ ((hmade call).2 ⟨name, hcall⟩)

/-- Entries that are laid over a canonical entry. -/
theorem SituatesBelow.record {starters : Option (CallM σ Value)} {canonical entries : Fields Value}
    (hcanonical : SituatesBelow (.ns rules specs) place.entry (pos.child "*") (fun _ => none) cs
      canonical)
    (hown : ∀ k, specs.get? k = none → canonical.get? k = none)
    (hentries : SituatesBelow (.record starters (.ns rules specs)) place pos
      (fun _ => some (.obj canonical)) ds entries) :
    Situates (some (.record starters (.ns rules specs))) isEntry place pos none (cs ++ ds)
      (some (.obj entries)) := by
  obtain ⟨made, hmade, hnames⟩ := hcanonical
  obtain ⟨made', hmade', hnames'⟩ := hentries
  -- A field of the canonical entry, seen from the record.
  have hstar {field : String} {path : List String} {rules' : NamespaceRules σ}
      {mapped : Fields Value} {call : Call}
      (h : CalledAt (specs.get? field) false (place.entry.field field)
        ((pos.child "*").child field) path rules' mapped call) :
      CalledAt (some (.record starters (.ns rules specs))) isEntry place pos ("*" :: field :: path)
        rules' mapped call := by
    have hentry : CalledAt (some (.ns rules specs)) true place.entry (pos.child "*")
        (field :: path) rules' mapped call := CalledAt.below (s := .ns rules specs) h
    exact CalledAt.below (s := .record starters (.ns rules specs)) hentry
  constructor
  · intro call hcall
    rw [List.mem_append] at hcall
    obtain hcall | hcall := hcall
    · obtain ⟨field, hfield⟩ := (hmade call).1 hcall
      obtain ⟨path, rules', mapped', hcalled, -⟩ := (hnames field).called call hfield
      exact ⟨"*" :: field :: path, rules', mapped', hstar hcalled, .inr .here⟩
    · obtain ⟨name, hname⟩ := (hmade' call).1 hcall
      obtain ⟨path, rules', mapped', hcalled, hthere⟩ := (hnames' name).called call hname
      exact ⟨name :: path, rules', mapped', hcalled.below,
        hthere.imp id .inside⟩
  · intro path rules' specs' fields k v hleads hfields hk hv
    cases hleads with
    | @entry _ _ name path _ hleads =>
      have harises := (hnames' name).arises path rules' specs' fields k v hleads hfields hk hv
      cases harises with
      | seed yields key => exact .seed yields key
      | mapper mem stands called key =>
        exact .mapper (List.mem_append_right _ ((hmade' _).2 ⟨name, mem⟩)) (.same stands)
          called.below key
      | kept key =>
        -- It was copied, so it comes from the canonical entry, which has declared fields alone.
        cases hleads with
        | here =>
          have hnone := hown k hk
          rw [show canonical.get? k = some v from key] at hnone
          cases hnone
        | @field _ _ field path _ hleads =>
          obtain ⟨copied, hcopied, hkey⟩ := exists_of_get?_objectOf key
          cases (hnames field).arises path rules' specs' copied k v hleads hcopied hk hkey with
          | seed yields key => exact .seed yields key
          | mapper mem stands called key =>
            exact .mapper (List.mem_append_left _ ((hmade _).2 ⟨field, mem⟩))
              (.star (.same stands)) (hstar called) key
          | kept key => cases key

/-- A record without entries. -/
theorem situates_no_entries {starters : Option (CallM σ Value)} {entry : Specifier σ} :
    Situates (some (.record starters entry)) isEntry place pos before [] (some (.obj ∅)) where
  called := by rintro _ ⟨⟩
  arises path rules specs fields k v hleads hfields := by
    cases hleads with
    | entry => cases hfields

end Composition

/-! ## Recorded initialization -/

/-- A loop over names makes the calls of each name, and each name finds the data that was there at
the start and leaves what is there at the end. -/
theorem sweep_calls {step : String → α → Level → Attempt (List Call × σ) Level}
    {m : SortedMap α lo} {Q : String → α → List Call → Option Value → Option Value → Prop}
    (h : ∀ k a, m.get? k = some a → ∀ level, (step k a level).Calls Call.isMapper
      fun calls level' => (∀ j, j ≠ k → level'.data.get? j = level.data.get? j) ∧
        Q k a calls (level.data.get? k) (level'.data.get? k)) (level : Level) :
    (sweep step m level).Calls Call.isMapper fun calls level' => ∃ made : String → List Call,
      (∀ call, call ∈ calls ↔ ∃ k, call ∈ made k) ∧
      ∀ k, (m.get? k = none → made k = [] ∧ level'.data.get? k = level.data.get? k) ∧
        ∀ a, m.get? k = some a → Q k a (made k) (level.data.get? k) (level'.data.get? k) := by
  induction m generalizing level with
  | nil =>
    refine .pure ⟨fun _ => [], fun call => ⟨?_, ?_⟩, fun k => ⟨fun _ => ⟨rfl, rfl⟩, ?_⟩⟩
    · rintro ⟨⟩
    · rintro ⟨_, ⟨⟩⟩
    · rintro _ ⟨⟩
  | cons name above a rest ih =>
    refine (h name a (if_pos rfl) level).bind fun cs mid _ hstep => ?_
    obtain ⟨hothers, hname⟩ := hstep
    refine (ih (fun k b hk => h k b (SortedMap.get?_cons_of_get? hk)) mid).imp
      fun ds level' _ hrest => ?_
    obtain ⟨made, hmade, hslots⟩ := hrest
    -- The rest does not come back to the name.
    obtain ⟨hmadeName, hdataName⟩ := (hslots name).1 (SortedMap.get?_self_bound rest)
    refine ⟨fun k => if k = name then cs else made k, fun call => ?_, fun k => ?_⟩
    · rw [List.mem_append, hmade]
      dsimp only
      constructor
      · rintro (hcall | ⟨k, hcall⟩)
        · refine ⟨name, ?_⟩
          rw [if_pos rfl]
          exact hcall
        · refine ⟨k, ?_⟩
          rw [if_neg]
          · exact hcall
          · rintro rfl
            rw [hmadeName] at hcall
            cases hcall
      · rintro ⟨k, hcall⟩
        split at hcall
        · exact .inl hcall
        · exact .inr ⟨k, hcall⟩
    · rw [SortedMap.get?_cons]
      dsimp only
      by_cases hk : k = name
      · subst hk
        rw [if_pos rfl, if_pos rfl, hdataName]
        refine ⟨?_, ?_⟩
        · rintro ⟨⟩
        · rintro _ ⟨⟩
          exact hname
      · rw [if_neg hk, if_neg hk, ← hothers k hk]
        exact hslots k

/-- Initialization calls mappers in place: of a node, of a record's entries, which have the
specifier, and of a field over which a value is laid. -/
structure Specifier.InPlace (s : Specifier σ) : Prop where
  defaults : ∀ (place : Place) (pos : Position) (isEntry : Bool), pos.key = none →
    ((s.translate (recorder σ) place).defaults pos isEntry).Calls Call.isMapper
      fun calls field => ∀ old, Situates (some s) isEntry place pos none calls (field.data.or old)
  stitch : ∀ (place : Place) (starters : Fields Value) (pos : Position),
    ((s.translate (recorder σ) place.entry).stitch starters pos).Calls Call.isMapper
      fun calls level => ∀ (seed : Option (CallM σ Value)) (isEntry : Bool),
        Situates (some (.record seed s)) isEntry place pos none calls (some (.obj level.data))
  reconcile : ∀ (place : Place) (name : String) (given : Value) (pos : Position) (level : Level),
    pos.key = none →
    ((s.translate (recorder σ) place).reconcile name given pos level).Calls Call.isMapper
      fun calls level' => (∀ k, k ≠ name → level'.data.get? k = level.data.get? k) ∧
        Situates (some s) false place pos (level.data.get? name) calls (level'.data.get? name)

section Recorded

variable {rules : NamespaceRules σ} {specs : Fields (Specifier σ)} {place : Place} {pos : Position}
  {isEntry : Bool}

/-- Once the fields are done, the mapper runs. -/
private theorem withMapper_situated (hrules : rules.MapsUndeclared specs) (hpos : pos.key = none)
    {before : Option Value} {cs : List Call} {mid : Level}
    (hbelow : SituatesBelow (.ns rules specs) place pos (objectOf before).get? cs mid.data)
    (hown : ∀ k v, specs.get? k = none → mid.data.get? k = some v →
      (∃ p seed, (runSeed rules.seed p).Yields seed ∧ seed.get? k = some v) ∨
        (objectOf before).get? k = some v) :
    (mid.withMapper (rules.recorded place) pos isEntry).Calls Call.isMapper fun ds level =>
      Situates (some (.ns rules specs)) isEntry place pos before (cs ++ ds)
        (some (.obj level.data)) := by
  unfold Level.withMapper
  refine (rules.runMapper_calls place mid.data pos isEntry).bind fun ds mapped _ hmaps => .pure ?_
  rw [List.append_nil]
  exact hbelow.ns hpos hown hmaps.1 (hrules _ _ _ _ hmaps.2)

/-- Only leaves are shadows. -/
private theorem closed_of_isShadow {s : Specifier σ}
    (h : (s.translate (recorder σ) place).isShadow = true) : containerKind? (some s) = none := by
  cases s with
  | leaf => rfl
  | _ =>
    rw [Specifier.translate] at h
    cases h

/-- A loop over the fields of a namespace, each of which calls mappers in place, does so as a whole.
Undeclared names stay as they are. -/
private theorem sweep_situated
    {step : String → Specifier σ → Level → Attempt (List Call × σ) Level}
    (before : Option Value → Option Value)
    (h : ∀ k s, specs.get? k = some s → ∀ level, (step k s level).Calls Call.isMapper
      fun calls level' => (∀ j, j ≠ k → level'.data.get? j = level.data.get? j) ∧
        Situates (some s) false (place.field k) (pos.child k) (before (level.data.get? k)) calls
          (level'.data.get? k)) (level : Level) :
    (sweep step specs level).Calls Call.isMapper fun calls level' =>
      SituatesBelow (.ns rules specs) place pos (fun k => before (level.data.get? k)) calls
          level'.data ∧
        ∀ k, specs.get? k = none → level'.data.get? k = level.data.get? k := by
  refine (sweep_calls (Q := fun k s calls b a =>
    Situates (some s) false (place.field k) (pos.child k) (before b) calls a) h level).imp
      fun calls level' _ hloop => ?_
  obtain ⟨made, hmade, hslots⟩ := hloop
  refine ⟨⟨made, hmade, fun k => ?_⟩, fun k hk => ((hslots k).1 hk).2⟩
  show Situates (specs.get? k) false (place.field k) (pos.child k) _ (made k) _
  cases hk : specs.get? k with
  | none =>
    rw [((hslots k).1 hk).1]
    exact .closed rfl
  | some s => exact (hslots k).2 s hk

section Fields

variable (hfields : ∀ k s, specs.get? k = some s → s.InPlace)
include hfields

private theorem defaultFields_situated (rules : NamespaceRules σ) (level : Level) :
    (defaultFields (translateFields (recorder σ) specs place) pos level).Calls Call.isMapper
      fun calls level' => SituatesBelow (.ns rules specs) place pos (fun _ => none) calls
        level'.data ∧ ∀ k, specs.get? k = none → level'.data.get? k = level.data.get? k := by
  rw [defaultFields_eq_sweep, translateFields_eq_map, sweep_map]
  refine sweep_situated (fun _ => none) (fun k s hs level => ?_) level
  refine ((hfields k s hs).defaults (place.field k) (pos.child k) false rfl).map
    fun calls field _ hcalls => ⟨fun j hj => ?_, ?_⟩
  · rw [Level.get?_data_overlay, if_neg hj]
  · rw [Level.get?_data_overlay, if_pos rfl]
    exact hcalls _

private theorem canonicalFields_situated (rules : NamespaceRules σ) (level : Level) :
    (canonicalFields (translateFields (recorder σ) specs place) pos level).Calls Call.isMapper
      fun calls level' => SituatesBelow (.ns rules specs) place pos (fun _ => none) calls
        level'.data ∧ ∀ k, specs.get? k = none → level'.data.get? k = level.data.get? k := by
  rw [canonicalFields_eq_sweep, translateFields_eq_map, sweep_map]
  refine sweep_situated (fun _ => none) (fun k s hs level => ?_) level
  split
  · next hshadow => exact .pure ⟨fun _ _ => rfl, .closed (closed_of_isShadow hshadow)⟩
  · refine ((hfields k s hs).defaults (place.field k) (pos.child k) false rfl).map
      fun calls field _ hcalls => ⟨fun j hj => ?_, ?_⟩
    · rw [Level.get?_data_add, if_neg hj]
    · rw [Level.get?_data_add, if_pos rfl]
      exact hcalls _

private theorem reconcileFields_situated (rules : NamespaceRules σ) (given : Fields Value)
    (level : Level) :
    (reconcileFields (translateFields (recorder σ) specs place) given pos level).Calls
      Call.isMapper fun calls level' =>
        SituatesBelow (.ns rules specs) place pos level.data.get? calls level'.data ∧
          ∀ k, specs.get? k = none → level'.data.get? k = level.data.get? k := by
  rw [reconcileFields_eq_sweep, translateFields_eq_map, sweep_map]
  refine sweep_situated id (fun k s hs level => ?_) level
  have hsame : (pure level : Attempt (List Call × σ) Level).Calls Call.isMapper
      fun calls level' => (∀ j, j ≠ k → level'.data.get? j = level.data.get? j) ∧
        Situates (some s) false (place.field k) (pos.child k) (id (level.data.get? k)) calls
          (level'.data.get? k) := .pure ⟨fun _ _ => rfl, .same⟩
  split
  · exact hsame
  · exact hsame
  · split
    · exact hsame
    · exact (hfields k s hs).reconcile _ _ _ _ _ rfl

/-- The level of a namespace: fields over the seed, then the mapper. -/
private theorem defaultsWith_situated (hrules : rules.MapsUndeclared specs)
    (hpos : pos.key = none) (isEntry : Bool) :
    ((rules.recorded place).defaultsWith (translateFields (recorder σ) specs place)
      (fun level => defaultFields (translateFields (recorder σ) specs place) pos level) pos
      isEntry).Calls Call.isMapper fun calls level =>
        Situates (some (.ns rules specs)) isEntry place pos none calls
          (some (.obj level.data)) := by
  refine (runSeed_calls (fun _ => rfl) rules.seed pos).bind fun cs seed _ hseed => ?_
  obtain ⟨rfl, hseed⟩ := hseed
  refine (defaultFields_situated hfields rules _).bind fun cs mid _ hmid => ?_
  refine withMapper_situated hrules hpos hmid.1 fun k v hk hv => .inl ⟨pos, seed, hseed, ?_⟩
  rw [← hv]
  exact (hmid.2 k hk).symm

/-- A value that is laid over the level of a namespace. -/
private theorem reconcileWith_situated (hrules : rules.MapsUndeclared specs)
    (hpos : pos.key = none) (isEntry : Bool) (given : Value) {before : Option Value}
    {level : Level} (hlevel : level.data = objectOf before) :
    ((rules.recorded place).reconcileWith (fun given level => reconcileFields
      (translateFields (recorder σ) specs place) given pos level) given pos isEntry level).Calls
      Call.isMapper fun calls level' =>
        Situates (some (.ns rules specs)) isEntry place pos before calls
          (some (.obj level'.data)) := by
  refine (rules.longhand_quiet place given pos).then_calls fun fields _ => ?_
  refine (reconcileFields_situated hfields rules fields level).bind fun cs mid _ hmid => ?_
  rw [hlevel] at hmid
  exact withMapper_situated hrules hpos hmid.1 fun k v hk hv =>
    .inr ((hmid.2 k hk).symm.trans hv)

private theorem stitch_situated (hrules : rules.MapsUndeclared specs) (starters : Fields Value)
    (pos : Position) :
    (((Specifier.ns rules specs).translate (recorder σ) place.entry).stitch starters pos).Calls
      Call.isMapper fun calls level => ∀ (seed : Option (CallM σ Value)) (isEntry : Bool),
        Situates (some (.record seed (.ns rules specs))) isEntry place pos none calls
          (some (.obj level.data)) := by
  rw [Specifier.translate, Specifier.stitch]
  split
  · exact .pure fun _ _ => situates_no_entries
  · refine (canonicalFields_situated hfields rules ∅).bind fun cs canonical _ hcanonical => ?_
    rw [stitchEntries_eq_sweep]
    refine (sweep_calls (Q := fun k _ calls _ after => Situates (some (.ns rules specs)) true
      place.entry (pos.child k) (some (.obj canonical.data)) calls after)
        (fun k starter _ level => ?_) ∅).imp fun ds entries _ hloop => ?_
    · have hbefore : canonical.data = objectOf (some (.obj canonical.data)) := rfl
      exact (reconcileWith_situated hfields hrules rfl true starter hbefore).map
        fun calls inner _ hcalls => hcalls.inserted level.data k
    · obtain ⟨made, hmade, hslots⟩ := hloop
      intro seed isEntry
      refine hcanonical.1.record hcanonical.2 ⟨made, hmade, fun k => ?_⟩
      cases hk : starters.get? k with
      | none =>
        obtain ⟨hnone, hdata⟩ := (hslots k).1 hk
        rw [hnone, hdata]
        exact .absent
      | some starter => exact (hslots k).2 starter hk

theorem Specifier.InPlace.ns (hrules : rules.MapsUndeclared specs) :
    (Specifier.ns rules specs).InPlace where
  defaults place pos isEntry hpos := by
    rw [Specifier.translate, Specifier.defaults]
    exact (defaultsWith_situated hfields hrules hpos isEntry).map fun _ _ _ hcalls _ => hcalls
  stitch _ starters pos := stitch_situated hfields hrules starters pos
  reconcile place name given pos level hpos := by
    rw [Specifier.translate, Specifier.reconcile]
    have hbefore : (level.namespaceAt name).data = objectOf (level.data.get? name) := rfl
    refine (reconcileWith_situated hfields hrules hpos false given hbefore).bind
      fun cs inner _ hcalls => .pure ?_
    rw [List.append_nil]
    exact hcalls.inserted level.data name

end Fields

/-- Entries that are no namespaces are made from no starters. -/
private theorem no_entries_calls {entry : Specifier σ} {starters : Fields Value}
    {e : SettingsError} :
    (if starters.isEmpty then pure ∅ else Run.fail e : Attempt (List Call × σ) Level).Calls
      Call.isMapper fun calls level => ∀ (seed : Option (CallM σ Value)) (isEntry : Bool),
        Situates (some (.record seed entry)) isEntry place pos none calls
          (some (.obj level.data)) := by
  split
  · exact .pure fun _ _ => situates_no_entries
  · exact .fail

theorem Specifier.InPlace.leaf (rules : LeafRules σ) : (Specifier.leaf rules).InPlace where
  defaults place pos isEntry _ := by
    rw [Specifier.translate, Specifier.defaults]
    refine (rules.defaults_quiet place pos).imp fun calls field _ hcalls old => ?_
    rw [hcalls]
    exact .closed rfl
  stitch place starters pos := by
    rw [Specifier.translate, Specifier.stitch]
    exact no_entries_calls
  reconcile place name given pos level _ := by
    rw [Specifier.translate, Specifier.reconcile]
    refine .pure ⟨fun k hk => ?_, .closed rfl⟩
    exact SortedMap.get?_insert_of_ne hk

theorem Specifier.InPlace.record (starters : Option (CallM σ Value)) {entry : Specifier σ}
    (hentry : entry.InPlace) : (Specifier.record starters entry).InPlace where
  defaults place pos isEntry _ := by
    rw [Specifier.translate, Specifier.defaults]
    refine (runSeed_calls (fun _ => rfl) starters pos).bind fun cs given _ hgiven => ?_
    rw [hgiven.1]
    exact (hentry.stitch place given pos).map fun _ _ _ hcalls _ => hcalls starters isEntry
  stitch place starters pos := by
    rw [Specifier.translate, Specifier.stitch]
    exact no_entries_calls
  reconcile place name given pos level _ := by
    rw [Specifier.translate, Specifier.reconcile.eq_def]
    dsimp only
    split
    · next given =>
      refine (hentry.stitch place given pos).bind fun cs inner _ hcalls => .pure ?_
      rw [List.append_nil]
      exact (hcalls starters false).anew.inserted level.data name
    · exact .fail

end Recorded

/-! ## Stores that are built -/

section Built

variable {spec : Namespace σ} {options : Options σ}

end Built

/-! ## A record with starters -/

namespace Doors

/-- Tells the path that the mapper is called at. -/
def door : NamespaceRules Unit :=
  ⟨none, none, some fun _ pos => pure (.obj (.ofList [("at", .str pos.render)]))⟩

/-- Tells the name of the entry that the mapper is called for. -/
def room : NamespaceRules Unit :=
  ⟨none, none, some fun _ pos => pure (.obj (.ofList [("key", .str (pos.key.getD ""))]))⟩

def fields : Fields (Specifier Unit) := .ofList [("door", .ns door ∅)]

/-- Two rooms, the door of one of which is mentioned. -/
def root : Namespace Unit :=
  ⟨⟨none, none, none⟩, .ofList [("rooms", .record (some (pure (.obj (.ofList
    [("x", .obj ∅), ("y", .obj (.ofList [("door", .obj ∅)]))])))) (.ns room fields))]⟩

def built : Store Unit := ⟨root, Hosts.quiet, (root.defaults .root false ()).1.toOption.getD ∅⟩

end Doors

end Settings
