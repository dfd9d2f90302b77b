import Settings.Proofs.Pipeline

/-!
# Candidates do not depend on the settings

Resolving reads the live data and metadata to find out which entries exist, and it adds those that
are new; nothing of that gets into the candidate. With determined callbacks the candidate is a
function of the input and its position (`Renders.unique`), and so are the calls of repairs, notices
and checks on the way to it (`Pipelined.unique`). Inside a container the candidate has the names
that the input, written out, has there (`Renders.sameKeys`).
-/

set_option autoImplicit false

namespace Settings

variable {σ α β : Type}

/-! ## Names -/

/-- Two results for the names of one input are the same if they agree at every name. -/
theorem eq_of_names {c c' fields : Fields Value}
    (names : ∀ k, c.get? k = none ↔ fields.get? k = none)
    (names' : ∀ k, c'.get? k = none ↔ fields.get? k = none)
    (h : ∀ k x y y', fields.get? k = some x → c.get? k = some y → c'.get? k = some y' → y' = y) :
    c' = c := by
  apply SortedMap.ext
  intro k
  cases hx : fields.get? k with
  | none => rw [(names k).2 hx, (names' k).2 hx]
  | some x =>
    obtain ⟨y, hy⟩ := exists_of_names (fun k => (names k).symm) hx
    obtain ⟨y', hy'⟩ := exists_of_names (fun k => (names' k).symm) hx
    rw [hy, hy', h k x y y' hx hy hy']

/-- Two values are both absent, or they are objects with the same names. -/
inductive SameKeys : Option Value → Option Value → Prop
  | absent : SameKeys none none
  | objects {a b : Fields Value} (keys : a.keys = b.keys) : SameKeys (some (.obj a)) (some (.obj b))

/-- A path into objects with the same names starts with a name that neither or both have. -/
theorem SameKeys.cons {c fields : Fields Value}
    (names : ∀ k, c.get? k = none ↔ fields.get? k = none) {f : String → Value → Value}
    {name : String} {path : List String}
    (h : ∀ x y, fields.get? name = some x → c.get? name = some y →
      SameKeys (y.at? path) ((f name x).at? path)) :
    SameKeys ((Value.obj c).at? (name :: path))
      ((Value.obj (fields.map f)).at? (name :: path)) := by
  rw [Value.at?_cons, Value.at?_cons, SortedMap.get?_map]
  cases hc : c.get? name with
  | none =>
    rw [(names name).1 hc]
    exact .absent
  | some y =>
    obtain ⟨x, hx⟩ := exists_of_names names hc
    rw [hx]
    exact h x y hx hc

/-! ## The calls of pipelines that end well -/

namespace Site

variable {t : σ} {site : Site σ} {cs ds : List Call} {v w : Value}

theorem Repairs.unique (h : site.Repairs t cs (.ok v)) (h' : site.Repairs t ds (.ok w)) :
    ds = cs ∧ w = v := by
  cases h <;> cases h' <;> simp_all

theorem Checks.unique {u : Value} (h : site.Checks t u cs (.ok ()))
    (h' : site.Checks t u ds (.ok ())) : ds = cs := by
  cases h <;> cases h' <;> simp_all

theorem Runs.unique (h : site.Runs t cs (.ok v)) (h' : site.Runs t ds (.ok w)) :
    ds = cs ∧ w = v := by
  cases h with
  | passed repairs checks =>
    cases h' with
    | passed repairs' checks' =>
      obtain ⟨rfl, rfl⟩ := repairs.unique repairs'
      obtain rfl := checks.unique checks'
      exact ⟨rfl, rfl⟩

end Site

/-- Leaves that are all worked off are worked off with the same calls. -/
theorem Pipelined.unique {t : σ} {sites : List (Site σ)} {cs ds : List Call} {a : α} {b : β}
    (h : Pipelined t sites cs (.ok a)) (h' : Pipelined t sites ds (.ok b)) : ds = cs := by
  generalize hok : Except.ok a = ended at h
  induction h generalizing ds with
  | done =>
    cases h'
    rfl
  | stopped => cases hok
  | failed => cases hok
  | passed here rest ih =>
    cases h' with
    | passed here' rest' =>
      obtain ⟨rfl, rfl⟩ := here.unique here'
      rw [ih rest' hok]

/-! ## Candidates -/

/-- A leaf makes one candidate of a value. The hook is told of a repair but has no say in it. -/
theorem LeafRules.Determined.resolve_unique {rules : LeafRules σ} (h : rules.Determined)
    {options : Options σ} {v x y : Value} {pos : Position}
    (hx : (rules.resolve options v pos).Yields x) (hy : (rules.resolve options v pos).Yields y) :
    y = x := by
  have ⟨t, _⟩ := hx
  have : Nonempty σ := ⟨t⟩
  obtain ⟨cs, w, hruns, hgives⟩ := h.runs_of_resolve options t [] pos hx
  obtain ⟨ds, w', hruns', hgives'⟩ := h.runs_of_resolve options t [] pos hy
  obtain ⟨-, rfl⟩ := hruns.unique hruns'
  exact hgives'.unique hgives

section Renderings

variable {options : Options σ} {spec : Option (Specifier σ)} {pos : Position} {v w w' : Value}

/-- With determined callbacks a value has one candidate. -/
theorem Renders.unique (h : Renders options spec pos v w) (h' : Renders options spec pos v w')
    (hspec : ∀ s, spec = some s → s.Determined) : w' = w := by
  induction h generalizing w' with
  | free =>
    cases h'
    rfl
  | leaf value =>
    cases h' with
    | leaf value' => exact (Specifier.everywhere_leaf.1 (hspec _ rfl)).resolve_unique value value'
  | @ns rules specs pos v fields c longhand names each ih =>
    obtain ⟨hrules, hspecs⟩ := Specifier.everywhere_ns.1 (hspec _ rfl)
    cases h' with
    | @ns _ _ _ _ fields' c' longhand' names' each' =>
      obtain rfl := (hrules.longhand v pos).unique longhand longhand'
      have hsame : c' = c := eq_of_names names names' fun k x y y' hx hy hy' =>
        ih k x y hx hy (each' k x y' hx hy') fun s hs => hspecs k s hs
      rw [hsame]
  | @record starters rules specs pos entries c names each ih =>
    have hentry := (Specifier.everywhere_record.1 (hspec _ rfl)).2
    cases h' with
    | @record _ _ _ _ _ c' names' each' =>
      have hsame : c' = c := eq_of_names names names' fun k x y y' hx hy hy' =>
        ih k x y hx hy (each' k x y' hx hy') (Specifier.forall_of_some hentry)
      rw [hsame]

/-- At every container a candidate and the value that it was made of, written out, have objects
with the same names, or nothing. -/
theorem Renders.sameKeys (h : Renders options spec pos v w)
    (hspec : ∀ s, spec = some s → s.Determined) {path : List String} {target : Specifier σ}
    (hpath : Leads spec path (some target)) (container : containerKind? (some target) ≠ none)
    (t : σ) : SameKeys (w.at? path) ((expandAt t spec v).at? path) := by
  induction h generalizing path with
  | free => cases hpath
  | leaf =>
    cases hpath
    exact absurd rfl container
  | @ns rules specs pos v fields c longhand names each ih =>
    obtain ⟨hrules, hspecs⟩ := Specifier.everywhere_ns.1 (hspec _ rfl)
    have hexpand : expandAt t (some (.ns rules specs)) v = _ :=
      Specifier.expand_ns specs (hrules.expanded_of_longhand longhand t)
    rw [hexpand]
    cases hpath with
    | here =>
      refine .objects ?_
      rw [SortedMap.keys_map, SortedMap.keys_eq_of_names names]
    | @field _ _ name path _ rest =>
      exact .cons names fun x y hx hy => ih name x y hx hy (fun s hs => hspecs name s hs) rest
  | @record starters rules specs pos entries c names each ih =>
    have hentry := (Specifier.everywhere_record.1 (hspec _ rfl)).2
    have hexpand : expandAt t (some (.record starters (.ns rules specs))) (.obj entries) = _ :=
      Specifier.expand_record starters (.ns rules specs) t entries
    rw [hexpand]
    cases hpath with
    | here =>
      refine .objects ?_
      rw [SortedMap.keys_map, SortedMap.keys_eq_of_names names]
    | @entry _ _ name path _ rest =>
      exact .cons names fun x y hx hy => ih name x y hx hy (Specifier.forall_of_some hentry) rest

end Renderings

/-! ## Namespaces -/

namespace Namespace

/-- The notices of repairs that are handed on while an input is resolved, in order. -/
def resolveNotices (n : Namespace σ) (options : Options σ) (input : Value) (pos : Position)
    (level : Level) (s : σ) : List FixupNotice :=
  ((n.translate (recorder σ)).resolve options.recorded input pos
    (level, [], s)).2.2.1.filterMap Call.notice?

/-- The notices are told by the calls of pipelines. -/
theorem resolveNotices_eq (n : Namespace σ) (options : Options σ) (input : Value) (pos : Position)
    (level : Level) (s : σ) : n.resolveNotices options input pos level s =
      (n.pipelineCalls options input pos level s).filterMap Call.notice? := by
  unfold resolveNotices pipelineCalls
  rw [List.filterMap_filter]
  congr 1
  funext call
  cases call <;> rfl

/-- Whatever data and metadata it finds, and in whatever states of the host, resolving an input
gives the same candidate, if it gives one, and hands on the same notices. The candidate has the
names of the input, written out, at every container, and an object at each that it has. -/
theorem resolve_independent {n : Namespace σ} (hspec : n.toSpecifier.Determined)
    {options : Options σ} {input : Value} {pos : Position} {level level' : Level} {s s' : σ}
    {c c' : Fields Value} (h : (n.resolve options input pos (level, s)).1 = .ok c)
    (h' : (n.resolve options input pos (level', s')).1 = .ok c') (t : σ) :
    c' = c ∧
    n.resolveNotices options input pos level' s' = n.resolveNotices options input pos level s ∧
    ∀ path target, Leads (some n.toSpecifier) path (some target) →
      containerKind? (some target) ≠ none →
      SameKeys ((Value.obj c).at? path) ((n.toSpecifier.expand t input).at? path) := by
  have hrenders {level : Level} {s : σ} {c : Fields Value}
      (h : (n.resolve options input pos (level, s)).1 = .ok c) :
      Renders options (some n.toSpecifier) pos input (.obj c) := by
    have htakes : (n.resolve options input pos).Takes level c _ := ⟨s, _, Prod.ext h rfl⟩
    exact (resolve_takes htakes).renders
  refine ⟨?_, ?_, fun path target hpath container => ?_⟩
  · exact Value.obj.inj ((hrenders h).unique (hrenders h') (Specifier.forall_of_some hspec))
  · have hpipelined := resolve_pipelined hspec options input pos level s t
    have hpipelined' := resolve_pipelined hspec options input pos level' s' t
    rw [h] at hpipelined
    rw [h'] at hpipelined'
    rw [resolveNotices_eq, resolveNotices_eq, hpipelined.unique hpipelined']
  · exact (hrenders h).sameKeys (Specifier.forall_of_some hspec) hpath container t

end Namespace

/-- A level whose sites are none at all, with metadata of a namespace around them. -/
def Brief.damaged : Level := ⟨.ofList [("sites", .int 5)], .ofList [("sites", .ns ∅)]⟩

/-- The site that `null` stands for is added to the record that was built, and to a scratch level
where there is no record. -/
theorem Namespace.resolve_independent_brief :
    ((Brief.built.level.slot "sites").enter? .record).isSome ∧
    ((Brief.damaged.slot "sites").enter? .record).isNone ∧
    ∃ c c', (Brief.root.resolve Hosts.quiet .null .root (Brief.built.level, ())).1 = .ok c ∧
      (Brief.root.resolve Hosts.quiet .null .root (Brief.damaged, ())).1 = .ok c' ∧ c' = c ∧
      Brief.root.resolveNotices Hosts.quiet .null .root Brief.damaged () =
        Brief.root.resolveNotices Hosts.quiet .null .root Brief.built.level () ∧
      (Brief.root.resolveNotices Hosts.quiet .null .root Brief.built.level ()).map (·.path) =
        ["sites.a.name"] ∧
      SameKeys ((Value.obj c).at? ["sites", "a"]) (Brief.written.at? ["sites", "a"]) := by
  have hpath : Leads (some Brief.root.toSpecifier) ["sites", "a"] (some (.ns Brief.site
      (.ofList [("name", .leaf Brief.name)]))) := .field (.entry .here)
  have hbuilt : (Brief.root.resolve Hosts.quiet .null .root (Brief.built.level, ())).1 = .ok _ :=
    rfl
  have hdamaged : (Brief.root.resolve Hosts.quiet .null .root (Brief.damaged, ())).1 = .ok _ := rfl
  obtain ⟨hsame, hnotices, hkeys⟩ := Namespace.resolve_independent
    (Specifier.determined_of_subsingleton Brief.root.toSpecifier) hbuilt hdamaged ()
  exact ⟨rfl, rfl, _, _, rfl, rfl, hsame, hnotices, rfl, hkeys _ _ hpath nofun⟩

end Settings
