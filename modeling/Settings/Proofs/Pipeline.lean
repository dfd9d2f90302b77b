import Settings.Proofs.Applies
import Settings.Proofs.Sites
import Settings.Proofs.Transparency

/-!
# The pipeline of leaves

Resolving an input works off the leaves that the input, written out, addresses (`sitesAt`), one
after the other: the value is repaired, a repair is told, the repaired value is checked. The first
leaf with a call that fails ends it (`Pipelined`). Which calls a run makes is read off the recorded
run, and `Run.Logs` relates them to what the run ends with. All other parts of the engine are
silent: they make no such call.
-/

set_option autoImplicit false

namespace Settings

open Limits

variable {σ τ α β γ : Type}

/-- The value that a leaf's repair or check is given. -/
def Call.given? : Call → Option Value
  | fixup _ v _ | validate _ v _ => some v
  | _ => none

/-! ## What the pipeline of a leaf does -/

namespace Site

variable {t : σ} {site : Site σ} {calls : List Call}

def notice (site : Site σ) (fix : Fix) : FixupNotice :=
  ⟨site.pos.render, site.value, fix.value, fix.messages⟩

/-- The calls of a repair, and the repaired value or the error: the repair is called on the value,
and a notice is given exactly if there is a fix. -/
inductive Repairs (t : σ) (site : Site σ) : List Call → Except SettingsError Value → Prop
  | absent (rule : site.rules.fixup = none) : Repairs t site [] (.ok site.value)
  | clean {fixup : Value → CallM σ (Option Fix)} (rule : site.rules.fixup = some fixup)
      (result : (fixup site.value t).1 = .ok none) :
      Repairs t site [.fixup site.place site.value (.ok none)] (.ok site.value)
  | fixed {fixup : Value → CallM σ (Option Fix)} {fix : Fix} (rule : site.rules.fixup = some fixup)
      (result : (fixup site.value t).1 = .ok (some fix)) :
      Repairs t site
        [.fixup site.place site.value (.ok (some fix)), .notice (site.notice fix) (.ok ())]
        (.ok fix.value)
  | failed {fixup : Value → CallM σ (Option Fix)} {text : String}
      (rule : site.rules.fixup = some fixup) (result : (fixup site.value t).1 = .error text) :
      Repairs t site [.fixup site.place site.value (.error text)]
        (.error (.fixup site.pos.render site.value (.failed text)))
  | untold {fixup : Value → CallM σ (Option Fix)} {fix : Fix} {text : String}
      (rule : site.rules.fixup = some fixup) (result : (fixup site.value t).1 = .ok (some fix)) :
      Repairs t site
        [.fixup site.place site.value (.ok (some fix)), .notice (site.notice fix) (.error text)]
        (.error (.onFixup site.pos.render (.failed text)))

/-- The calls of the check of a value, and the error if it fails or objects. -/
inductive Checks (t : σ) (site : Site σ) (w : Value) :
    List Call → Except SettingsError Unit → Prop
  | absent (rule : site.rules.validate = none) : Checks t site w [] (.ok ())
  | accepted {validate : Value → CallM σ (Option Violation)}
      (rule : site.rules.validate = some validate) (result : (validate w t).1 = .ok none) :
      Checks t site w [.validate site.place w (.ok none)] (.ok ())
  | refused {validate : Value → CallM σ (Option Violation)} {violation : Violation}
      (rule : site.rules.validate = some validate)
      (result : (validate w t).1 = .ok (some violation)) :
      Checks t site w [.validate site.place w (.ok (some violation))]
        (.error (.validation site.pos.render w violation.reasons))
  | failed {validate : Value → CallM σ (Option Violation)} {text : String}
      (rule : site.rules.validate = some validate) (result : (validate w t).1 = .error text) :
      Checks t site w [.validate site.place w (.error text)]
        (.error (.validationRun site.pos.render w (.failed text)))

/-- The calls of a leaf's pipeline, and the repaired value or the error: the repaired value is what
is checked. -/
inductive Runs (t : σ) (site : Site σ) : List Call → Except SettingsError Value → Prop
  | passed {cs ds : List Call} {w : Value} (repairs : site.Repairs t cs (.ok w))
      (checks : site.Checks t w ds (.ok ())) : Runs t site (cs ++ ds) (.ok w)
  | unrepaired {cs : List Call} {e : SettingsError} (repairs : site.Repairs t cs (.error e)) :
      Runs t site cs (.error e)
  | unchecked {cs ds : List Call} {w : Value} {e : SettingsError}
      (repairs : site.Repairs t cs (.ok w)) (checks : site.Checks t w ds (.error e)) :
      Runs t site (cs ++ ds) (.error e)

/-- An error of the pipeline is about the leaf, and about the value, if it tells one, that the last
call was given. -/
theorem Runs.of_error {e : SettingsError} (h : site.Runs t calls (.error e)) :
    e.kind.isPipeline ∧ e.path = site.pos.render ∧
      ∃ call, calls.getLast? = some call ∧ e.value? = call.given? := by
  cases h with
  | unrepaired repairs =>
    cases repairs with
    | failed => exact ⟨rfl, rfl, _, rfl, rfl⟩
    | untold => exact ⟨rfl, rfl, _, rfl, rfl⟩
  | unchecked repairs checks =>
    cases checks with
    | refused => exact ⟨rfl, rfl, _, List.getLast?_concat, rfl⟩
    | failed => exact ⟨rfl, rfl, _, List.getLast?_concat, rfl⟩

end Site

/-! ## One leaf after the other -/

/-- Leaves are worked off in order. The first with a call that fails ends the run, and so does an
error that is none of theirs, after any of them. -/
inductive Pipelined (t : σ) : List (Site σ) → List Call → Except SettingsError α → Prop
  | done {a : α} : Pipelined t [] [] (.ok a)
  | stopped {sites : List (Site σ)} {e : SettingsError} (other : e.kind.isPipeline = false) :
      Pipelined t sites [] (.error e)
  | failed {site : Site σ} {sites : List (Site σ)} {calls : List Call} {e : SettingsError}
      (here : site.Runs t calls (.error e)) : Pipelined t (site :: sites) calls (.error e)
  | passed {site : Site σ} {sites : List (Site σ)} {cs ds : List Call} {w : Value}
      {result : Except SettingsError α} (here : site.Runs t cs (.ok w))
      (rest : Pipelined t sites ds result) : Pipelined t (site :: sites) (cs ++ ds) result

namespace Pipelined

variable {t : σ} {sites more : List (Site σ)} {calls : List Call}

/-- What follows on leaves that were all worked off follows on their calls. -/
theorem append {a : α} (h : Pipelined t sites calls (.ok a)) {ds : List Call}
    {result : Except SettingsError β} (hmore : Pipelined t more ds result) :
    Pipelined t (sites ++ more) (calls ++ ds) result := by
  generalize hok : Except.ok a = ended at h
  induction h with
  | done => exact hmore
  | stopped => cases hok
  | failed => cases hok
  | passed here rest ih =>
    rw [List.append_assoc]
    exact .passed here (ih hok)

/-- An error leaves all later leaves alone. -/
theorem stop {e : SettingsError} (h : Pipelined (α := α) t sites calls (.error e))
    (more : List (Site σ)) : Pipelined (α := β) t (sites ++ more) calls (.error e) := by
  generalize herror : Except.error e = ended at h
  induction h with
  | done => cases herror
  | stopped other =>
    cases herror
    exact .stopped other
  | failed here =>
    cases herror
    exact .failed here
  | passed here rest ih => exact .passed here (ih herror)

theorem map {result : Except SettingsError α} (h : Pipelined t sites calls result) (f : α → β) :
    Pipelined t sites calls (result.map f) := by
  induction h with
  | done => exact .done
  | stopped other => exact .stopped other
  | failed here => exact .failed here
  | passed here rest ih => exact .passed here ih

/-- An error of a pipeline is that of a leaf, before which all others passed. -/
theorem exists_failed {e : SettingsError} (h : Pipelined (α := α) t sites calls (.error e))
    (he : e.kind.isPipeline) : ∃ before site after cs ds, sites = before ++ site :: after ∧
      Pipelined t before cs (.ok ()) ∧ site.Runs t ds (.error e) ∧ calls = cs ++ ds := by
  generalize herror : Except.error e = ended at h
  induction h with
  | done => cases herror
  | stopped other =>
    cases herror
    rw [other] at he
    cases he
  | @failed site sites calls e here =>
    cases herror
    exact ⟨[], site, sites, [], calls, rfl, .done, here, rfl⟩
  | @passed site sites cs ds w result here rest ih =>
    obtain ⟨before, site', after, cs', ds', rfl, hbefore, hsite, rfl⟩ := ih herror
    exact ⟨site :: before, site', after, cs ++ cs', ds', rfl, .passed here hbefore, hsite,
      (List.append_assoc _ _ _).symm⟩

/-- A leaf after whose pipeline nothing fails but with other errors. -/
theorem of_runs {site : Site σ} {w : Value} (h : site.Runs t calls (.ok w))
    {result : Except SettingsError α}
    (hresult : ∀ e, result = .error e → e.kind.isPipeline = false) :
    Pipelined t [site] calls result := by
  rw [← List.append_nil calls]
  refine .passed h ?_
  cases result with
  | error e => exact .stopped (hresult e rfl)
  | ok a => exact .done

end Pipelined

/-! ## Resolving a leaf -/

/-- A recorded notice is that of the hook or of the default handler. -/
theorem Options.recorded_report_eq (options : Options σ) (notice : FixupNotice) :
    options.recorded.report notice = ((options.handle notice).logged (.notice notice)).mapError
      fun text => .onFixup notice.path (.failed text) := rfl

section Leaves

variable {rules : LeafRules σ} (hrules : rules.Determined) (options : Options σ) (t : σ)
  (place : Place) (pos : Position)
include hrules

theorem LeafRules.Determined.repair_logs (v : Value) :
    ((rules.recorded place).repair options.recorded v pos).Logs Prod.fst Call.isPipeline
      (Site.Repairs t ⟨rules, place, pos, v⟩) := by
  rintro ⟨calls, s⟩
  unfold LeafRules.repair LeafRules.recorded
  cases hfixup : rules.fixup with
  | none => exact ⟨[], (List.append_nil _).symm, .absent hfixup⟩
  | some fixup =>
    have hresult := hrules.fixup fixup hfixup v t s
    dsimp only [Option.map_some]
    rw [Run.bind_apply, Run.logged_mapError]
    rcases hs : fixup v s with ⟨text | fix, s'⟩ <;> rw [hs] at hresult
    · exact ⟨[.fixup place v (.error text)], rfl, .failed hfixup hresult⟩
    · cases fix with
      | none => exact ⟨[.fixup place v (.ok none)], rfl, .clean hfixup hresult⟩
      | some fix =>
        dsimp only [Except.mapError]
        rw [Run.bind_apply, Options.recorded_report_eq, Run.logged_mapError]
        -- The hook may look at the host, and only what it returned here counts.
        rcases options.handle _ s' with ⟨text | ⟨⟩, s''⟩
        · exact ⟨[.fixup place v (.ok (some fix)), .notice _ (.error text)],
            List.append_assoc _ _ _, .untold hfixup hresult⟩
        · exact ⟨[.fixup place v (.ok (some fix)), .notice _ (.ok ())],
            List.append_assoc _ _ _, .fixed hfixup hresult⟩

theorem LeafRules.Determined.check_logs (v w : Value) :
    ((rules.recorded place).check w pos).Logs Prod.fst Call.isPipeline
      (Site.Checks t ⟨rules, place, pos, v⟩ w) := by
  rintro ⟨calls, s⟩
  unfold LeafRules.check LeafRules.recorded
  cases hvalidate : rules.validate with
  | none => exact ⟨[], (List.append_nil _).symm, .absent hvalidate⟩
  | some validate =>
    have hresult := hrules.validate validate hvalidate w t s
    dsimp only [Option.map_some]
    rw [Run.bind_apply, Run.logged_mapError]
    rcases hs : validate w s with ⟨text | violation, s'⟩ <;> rw [hs] at hresult
    · exact ⟨[.validate place w (.error text)], rfl, .failed hvalidate hresult⟩
    · cases violation with
      | none => exact ⟨[.validate place w (.ok none)], rfl, .accepted hvalidate hresult⟩
      | some violation =>
        exact ⟨[.validate place w (.ok (some violation))], rfl, .refused hvalidate hresult⟩

/-- Resolving a leaf works it off. -/
theorem LeafRules.Determined.resolve_logs (v : Value) :
    ((rules.recorded place).resolve options.recorded v pos).Logs Prod.fst Call.isPipeline
      (Pipelined t [⟨rules, place, pos, v⟩]) := by
  let site : Site σ := ⟨rules, place, pos, v⟩
  -- After the repair, either the check ends the run, or the check passes and nothing of the
  -- pipeline follows.
  have hrest (w : Value) : Run.Logs Prod.fst Call.isPipeline
      (fun (ds : List Call) (result : Except SettingsError Value) =>
        (∃ e, result = .error e ∧ site.Checks t w ds (.error e)) ∨
          site.Checks t w ds (.ok ()) ∧ ∀ e, result = .error e → e.kind.isPipeline = false)
      (do
        (rules.recorded place).check w pos
        (rules.recorded place).coerce w pos : Attempt (List Call × σ) Value) := by
    refine (hrules.check_logs t place pos v w).bind
      (fun _ => ((rules.recorded_uses place).coerce (silent Prod.fst).closed w pos).logs)
      (fun cs a ds result hchecks hquiet => ?_) fun cs e hchecks => ?_
    · obtain ⟨rfl, herror⟩ := hquiet
      rw [List.append_nil]
      exact .inr ⟨hchecks, herror⟩
    · exact .inl ⟨e, rfl, hchecks⟩
  rw [LeafRules.resolve_eq]
  refine (hrules.repair_logs options t place pos v).bind hrest
    (fun cs w ds result hrepairs hresult => ?_) fun cs e hrepairs => ?_
  · obtain ⟨e, rfl, hchecks⟩ | ⟨hchecks, herror⟩ := hresult
    · exact .failed (.unchecked hrepairs hchecks)
    · exact .of_runs (.passed hrepairs hchecks) herror
  · exact .failed (.unrepaired hrepairs)

/-- A leaf that gives a value was worked off without an error, and gives the data representation of
the repaired value. -/
theorem LeafRules.Determined.runs_of_resolve {v y : Value}
    (h : (rules.resolve options v pos).Yields y) : ∃ calls w,
      (Site.mk rules place pos v).Runs t calls (.ok w) ∧ (rules.coerce w pos).Gives y := by
  rw [LeafRules.resolve_eq] at h
  obtain ⟨w, hrepair, h⟩ := h.of_bind
  obtain ⟨_, hcheck, hcoerce⟩ := h.of_bind
  have hrepairs : ∃ cs, (Site.mk rules place pos v).Repairs t cs (.ok w) := by
    have hrepairs := hrules.repairs hrepair
    unfold LeafRules.Repairs at hrepairs
    cases hfixup : rules.fixup with
    | none =>
      rw [hfixup] at hrepairs
      rw [hrepairs]
      exact ⟨_, .absent hfixup⟩
    | some fixup =>
      rw [hfixup] at hrepairs
      obtain ⟨hclean, rfl⟩ | ⟨fix, hfix, rfl⟩ := hrepairs
      · exact ⟨_, .clean hfixup (hclean t)⟩
      · exact ⟨_, .fixed hfixup (hfix t)⟩
  have hchecks : ∃ ds, (Site.mk rules place pos v).Checks t w ds (.ok ()) := by
    cases hvalidate : rules.validate with
    | none => exact ⟨_, .absent hvalidate⟩
    | some validate => exact ⟨_, .accepted hvalidate (hrules.accepts hcheck validate hvalidate t)⟩
  obtain ⟨cs, hrepairs⟩ := hrepairs
  obtain ⟨ds, hchecks⟩ := hchecks
  exact ⟨cs ++ ds, w, .passed hrepairs hchecks, (hrules.coerce w pos).gives hcoerce⟩

end Leaves

/-! ## Resolving an input -/

/-- A recorded edit works leaves off. -/
def WorksOff (t : σ) (sites : List (Site σ)) (r : Edit (List Call × σ) τ α) : Prop :=
  r.Logs (fun p => p.2.1) Call.isPipeline (Pipelined t sites)

namespace WorksOff

variable {t : σ} {sites more : List (Site σ)} {r : Edit (List Call × σ) τ α}

theorem map (h : WorksOff t sites r) (f : α → β) : WorksOff t sites (f <$> r) :=
  Run.Logs.map h fun _ _ h => h.map f

theorem zoom {r : Edit (List Call × σ) γ α} (h : WorksOff t sites r) (part : τ → γ)
    (leave : Bool → γ → τ → τ) : WorksOff t sites (Run.zoom part leave r) :=
  Run.Logs.zoom h part leave

theorem bind (h : WorksOff t sites r) {f : α → Edit (List Call × σ) τ β}
    (hf : ∀ a, WorksOff t more (f a)) : WorksOff t (sites ++ more) (r >>= f) :=
  Run.Logs.bind h hf (fun _ _ _ _ h hmore => h.append hmore) fun _ _ h => h.stop more

theorem of_silent (h : (silent Prod.fst).beside.Heeded r) : WorksOff t [] r := by
  have h : (silent fun p : τ × List Call × σ => p.2.1).Heeded r := h
  intro p
  obtain ⟨made, hmade, hcalls, herror⟩ := h.logs p
  refine ⟨made, hmade, ?_⟩
  rw [hcalls]
  cases hr : (r p).1 with
  | error e => exact .stopped (herror e hr)
  | ok a => exact .done

theorem fail {e : SettingsError} (h : e.kind.isPipeline = false) (sites : List (Site σ)) :
    WorksOff t sites (Run.fail e : Edit (List Call × σ) τ α) :=
  fun _ => ⟨[], (List.append_nil _).symm, .stopped h⟩

/-- The fields of an object are worked off one after the other. -/
theorem resolveEach {field : String → Value → Edit (List Call × σ) τ Value} {s : Specifier σ}
    {place : Place} {pos : Position} {f : String → Value → Value}
    (h : ∀ name v, WorksOff t
      (sitesAt (s.below? name) (s.placeBelow place name) (pos.child name) (f name v))
      (field name v)) {lo : Option String} (m : SortedMap Value lo) (c : Fields Value) :
    WorksOff t (sitesBelow s place pos (m.map f)) (resolveEach field m c) := by
  induction m generalizing c with
  | nil => exact of_silent ((silent Prod.fst).beside.closed.pure c)
  | cons name above v rest ih => exact (h name v).bind fun w => ih (c.insert name w)

end WorksOff

/-- Resolving the value of a node, and the entries made by it, works off the leaves that what is
given, written out, addresses. -/
private structure ResolvesInOrder (options : Options σ) (t : σ) (s : Specifier σ) (place : Place) :
    Prop where
  value : ∀ (pos : Position) (name : String) (v : Value),
    WorksOff t (sitesAt (some s) place pos (s.expand t v))
      ((s.translate (recorder σ) place).resolve options.recorded pos name v)
  entries : ∀ (starters : Option (CallM σ Value)) (rplace : Place), rplace.entry = place →
    ∀ (pos : Position) (v : Value),
      WorksOff t
        (sitesAt (some (.record starters s)) rplace pos (v.mapFields fun _ v => s.expand t v))
        ((s.translate (recorder σ) place).resolveEntries options.recorded pos v)

section Resolving

variable {options : Options σ} {t : σ} {rules : NamespaceRules σ} {specs : Fields (Specifier σ)}
  {place : Place}

/-- A recorded shorthand is silent, and makes the object that the value is written out as, or none
at all. -/
private theorem longhand_logs (hrules : rules.Determined) (t : σ) (v : Value) (pos : Position) :
    ((rules.recorded place).longhand v pos).Logs Prod.fst Call.isPipeline fun calls result =>
      calls = [] ∧ ((∃ fields, result = .ok fields ∧ rules.expanded t v = .obj fields) ∨
        ∃ e, result = .error e ∧ e.kind.isPipeline = false) := by
  intro p
  obtain ⟨made, hmade, hcalls, herror⟩ := (rules.longhand_silent place v pos).logs p
  refine ⟨made, hmade, hcalls, ?_⟩
  have hresult := NamespaceRules.longhand_recorded rules place v pos p
  obtain ⟨fields, hok, hexpanded⟩ | ⟨e, hfail, -⟩ := hrules.longhand_cases v pos p.2 t
  · exact .inl ⟨fields, hresult.trans hok, hexpanded⟩
  · exact .inr ⟨e, hresult.trans hfail, herror e (hresult.trans hfail)⟩

private theorem resolveWith_worksOff (hrules : rules.Determined)
    (hfields : ∀ k s, specs.get? k = some s → ResolvesInOrder options t s (place.field k))
    (v : Value) (pos : Position) :
    WorksOff t (sitesAt (some (.ns rules specs)) place pos ((Specifier.ns rules specs).expand t v))
      ((rules.recorded place).resolveWith (fun name v =>
        resolveField (translateFields (recorder σ) specs place) options.recorded pos name v)
        v pos) := by
  have hfield (name : String) (v : Value) :
      WorksOff t
        (sitesAt (specs.get? name) (place.field name) (pos.child name)
          (expandAt t (specs.get? name) v))
        (resolveField (translateFields (recorder σ) specs place) options.recorded pos name v) := by
    rw [resolveField_eq, get?_translateFields]
    cases hs : specs.get? name with
    | none =>
      rw [sitesAt_none]
      exact .of_silent ((silent Prod.fst).beside.closed.pure v)
    | some s => exact (hfields name s hs).value _ name v
  have heach (fields : Fields Value) := WorksOff.resolveEach (s := .ns rules specs) hfield fields ∅
  refine Run.Logs.bind (longhand_logs hrules t v pos).beside heach
    (fun cs fields ds result hlonghand hrest => ?_) fun cs e hlonghand => ?_
  · obtain ⟨rfl, ⟨fields', hok, hexpanded⟩ | ⟨e, hfail, -⟩⟩ := hlonghand
    · obtain rfl := Except.ok.inj hok
      rw [Specifier.expand_ns specs hexpanded,
        sitesAt_obj (s := .ns rules specs) (Option.some_ne_none _)]
      exact hrest
    · cases hfail
  · obtain ⟨rfl, ⟨fields, hok, -⟩ | ⟨e', hfail, hother⟩⟩ := hlonghand
    · cases hok
    · obtain rfl := Except.error.inj hfail
      exact .stopped hother

private theorem resolvesInOrder_leaf {rules : LeafRules σ} (hrules : rules.Determined) :
    ResolvesInOrder options t (.leaf rules) place where
  value pos name v := by
    rw [Specifier.translate, Specifier.resolve, Specifier.expand, sitesAt_leaf]
    exact (hrules.resolve_logs options t place pos v).beside
  entries starters rplace hplace pos v := by
    rw [Specifier.translate, Specifier.resolveEntries]
    unfold wrongEntries
    split <;> exact .fail rfl _

private theorem resolvesInOrder_ns (hrules : rules.Determined)
    (hfields : ∀ k s, specs.get? k = some s → ResolvesInOrder options t s (place.field k)) :
    ResolvesInOrder options t (.ns rules specs) place where
  value pos name v := by
    rw [Specifier.translate, Specifier.resolve]
    exact ((resolveWith_worksOff hrules hfields v pos).zoom _ _).map _
  entries starters rplace hplace pos v := by
    subst hplace
    rw [Specifier.translate]
    cases v with
    | obj entries =>
      rw [Value.mapFields_obj, Specifier.resolveEntries,
        sitesAt_obj (s := .record starters (.ns rules specs)) (Option.some_ne_none _)]
      refine WorksOff.resolveEach (fun name v => ?_) entries ∅
      let entry : Namespace (List Call × σ) :=
        ⟨rules.recorded rplace.entry, translateFields (recorder σ) specs rplace.entry⟩
      have hentry : entry.toSpecifier.Uses (silent Prod.fst).Moved (silent Prod.fst).Heeded := by
        have h := (Specifier.ns rules specs).recorded_uses rplace.entry
        rwa [Specifier.translate] at h
      exact (WorksOff.of_silent (Namespace.ensureEntry_heeded hentry name _)).bind fun _ =>
        ((resolveWith_worksOff hrules hfields v (pos.child name)).zoom _ _).map _
    | _ => exact .fail rfl _

private theorem resolvesInOrder_record {starters : Option (CallM σ Value)} {entry : Specifier σ}
    (hentry : ResolvesInOrder options t entry place.entry) :
    ResolvesInOrder options t (.record starters entry) place where
  value pos name v := by
    rw [Specifier.translate, Specifier.resolve, Specifier.expand]
    exact ((hentry.entries starters place rfl pos v).zoom _ _).map _
  entries starters rplace hplace pos v := by
    rw [Specifier.translate, Specifier.resolveEntries]
    unfold wrongEntries
    split <;> exact .fail rfl _

private theorem Specifier.Determined.resolvesInOrder {s : Specifier σ} (h : s.Determined)
    (options : Options σ) (t : σ) (place : Place) : ResolvesInOrder options t s place := by
  induction s generalizing place with
  | leaf rules => exact resolvesInOrder_leaf (Specifier.everywhere_leaf.1 h)
  | ns rules specs ih =>
    obtain ⟨hrules, hspecs⟩ := Specifier.everywhere_ns.1 h
    exact resolvesInOrder_ns hrules fun k s hk => ih k s hk (hspecs k s hk) _
  | record starters entry ih =>
    exact resolvesInOrder_record (ih (Specifier.everywhere_record.1 h).2 _)

end Resolving

/-! ## Candidates -/

/-- A path into an object whose values are replaced starts with a name that every object with the
same names has. -/
private theorem exists_of_at? {fields c : Fields Value} {f : String → Value → Value} {name : String}
    {path : List String} {x : Value} (names : ∀ k, c.get? k = none ↔ fields.get? k = none)
    (h : (Value.obj (fields.map f)).at? (name :: path) = some x) :
    ∃ v w, fields.get? name = some v ∧ c.get? name = some w ∧ (f name v).at? path = some x := by
  rw [Value.at?_cons, SortedMap.get?_map] at h
  obtain ⟨_, hname, hx⟩ := Option.bind_eq_some_iff.1 h
  obtain ⟨v, hv, rfl⟩ := Option.map_eq_some_iff.1 hname
  obtain ⟨w, hw⟩ := exists_of_names (fun k => (names k).symm) hv
  exact ⟨v, w, hv, hw, hx⟩

/-- Where the written out input addresses a leaf, the candidate has what the leaf makes of it. -/
theorem Renders.at_leaf {options : Options σ} {spec : Option (Specifier σ)} {pos : Position}
    {v c : Value} (h : Renders options spec pos v c) (hspec : ∀ s, spec = some s → s.Determined)
    {path : List String} {rules : LeafRules σ} (hpath : Leads spec path (some (.leaf rules)))
    {t : σ} {x : Value} (hx : (expandAt t spec v).at? path = some x) :
    rules.Determined ∧ ∃ y, c.at? path = some y ∧
      (rules.resolve options x (pos.follow path)).Yields y := by
  have hbelow {c : Fields Value} {name : String} {path : List String} {w y : Value}
      (hw : c.get? name = some w) (hy : w.at? path = some y) :
      (Value.obj c).at? (name :: path) = some y := by
    rw [Value.at?_cons, hw]
    exact hy
  induction h generalizing path with
  | free => cases hpath
  | @leaf rules pos v w value =>
    cases hpath
    obtain rfl := Option.some.inj hx
    exact ⟨Specifier.everywhere_leaf.1 (hspec _ rfl), w, rfl, value⟩
  | @ns rules specs pos v fields c longhand names each ih =>
    obtain ⟨hrules, hspecs⟩ := Specifier.everywhere_ns.1 (hspec _ rfl)
    cases hpath with
    | @field _ _ name path _ rest =>
      have hexpand := Specifier.expand_ns specs (hrules.expanded_of_longhand longhand t)
      have hx : ((Specifier.ns rules specs).expand t v).at? (name :: path) = some x := hx
      rw [hexpand] at hx
      obtain ⟨v', w, hv, hw, hx⟩ := exists_of_at? names hx
      obtain ⟨hleaf, y, hy, hyields⟩ := ih name v' w hv hw (fun s hs => hspecs name s hs) rest hx
      exact ⟨hleaf, y, hbelow hw hy, hyields⟩
  | @record starters rules specs pos entries c names each ih =>
    have hentry := (Specifier.everywhere_record.1 (hspec _ rfl)).2
    cases hpath with
    | @entry _ _ name path _ rest =>
      have hx : ((Specifier.record starters (.ns rules specs)).expand t (.obj entries)).at?
          (name :: path) = some x := hx
      rw [Specifier.expand_record] at hx
      obtain ⟨v', w, hv, hw, hx⟩ := exists_of_at? names hx
      obtain ⟨hleaf, y, hy, hyields⟩ :=
        ih name v' w hv hw (Specifier.forall_of_some hentry) rest hx
      exact ⟨hleaf, y, hbelow hw hy, hyields⟩

/-! ## Namespaces -/

namespace Namespace

/-- The leaves that an input of a namespace addresses once it is written out, in the order in which
resolving comes to them. -/
def sites (n : Namespace σ) (t : σ) (input : Value) (pos : Position) : List (Site σ) :=
  sitesAt (some n.toSpecifier) [] pos (n.toSpecifier.expand t input)

/-- The calls of leaves' pipelines that resolving an input makes, in order. -/
def pipelineCalls (n : Namespace σ) (options : Options σ) (input : Value) (pos : Position)
    (level : Level) (s : σ) : List Call :=
  ((n.translate (recorder σ)).resolve options.recorded input pos
    (level, [], s)).2.2.1.filter Call.isPipeline

/-- A recorded resolution ends as the resolution does by itself. -/
theorem resolve_recorded (n : Namespace σ) (options : Options σ) (input : Value) (pos : Position)
    (level : Level) (calls : List Call) (s : σ) :
    ((n.translate (recorder σ)).resolve options.recorded input pos (level, calls, s)).1 =
      (n.resolve options input pos (level, s)).1 := by
  have h := resolve_keeps (n.toSpecifier.recorder_agree []) options.recorded_report (fun _ => False)
    input pos
  rw [translate_id] at h
  have hends := ((h.same level).ends trivial (calls, s) s rfl).fst_eq id
  rw [← Run.on_fst, hends, Run.on_fst]

theorem resolve_pipelined {n : Namespace σ} (hspec : n.toSpecifier.Determined)
    (options : Options σ) (input : Value) (pos : Position) (level : Level) (s t : σ) :
    Pipelined t (n.sites t input pos) (n.pipelineCalls options input pos level s)
      (n.resolve options input pos (level, s)).1 := by
  obtain ⟨hrules, hspecs⟩ := Specifier.everywhere_ns.1 hspec
  have hworks : WorksOff t (n.sites t input pos)
      ((n.translate (recorder σ)).resolve options.recorded input pos) :=
    resolveWith_worksOff hrules (fun k s hk =>
      Specifier.Determined.resolvesInOrder (hspecs k s hk) options t _) input pos
  obtain ⟨made, hmade, hpipelined⟩ := hworks (level, [], s)
  obtain rfl : _ = made := hmade
  rw [resolve_recorded] at hpipelined
  exact hpipelined

/-- The calls of repairs, of the hook and of checks that resolving makes follow the declared leaves
that the input, written out, addresses, in the order of their paths. A candidate has at each of them
the data representation of the repaired value; an error of a pipeline is that of the first leaf with
a call that fails, and no later leaf has a call. Initialization and commits are silent. -/
theorem resolve_pipeline {n : Namespace σ} (hspec : n.toSpecifier.Determined)
    (options : Options σ) (input : Value) (pos : Position) (level : Level) (s t : σ) :
    (∀ site, site ∈ n.sites t input pos ↔ ∃ path,
      Leads (some n.toSpecifier) path (some (.leaf site.rules)) ∧
        (n.toSpecifier.expand t input).at? path = some site.value ∧
        site.place = placeAt (some n.toSpecifier) [] path ∧ site.pos = pos.follow path) ∧
    (n.sites t input pos).Pairwise (fun a b => a.pos.path < b.pos.path) ∧
    Pipelined t (n.sites t input pos) (n.pipelineCalls options input pos level s)
      (n.resolve options input pos (level, s)).1 ∧
    (∀ c, (n.resolve options input pos (level, s)).1 = .ok c → ∀ site ∈ n.sites t input pos,
      ∃ path calls w y, site.pos = pos.follow path ∧ site.Runs t calls (.ok w) ∧
        (site.rules.coerce w site.pos).Gives y ∧ (Value.obj c).at? path = some y) ∧
    (∀ e, (n.resolve options input pos (level, s)).1 = .error e → e.kind.isPipeline →
      ∃ before site after cs ds, n.sites t input pos = before ++ site :: after ∧
        n.pipelineCalls options input pos level s = cs ++ ds ∧
        Pipelined t before cs (.ok ()) ∧ site.Runs t ds (.error e) ∧
        e.path = site.pos.render ∧ ∃ call, ds.getLast? = some call ∧ e.value? = call.given?) ∧
    (∀ pos isEntry,
      (silent Prod.fst).Heeded ((n.translate (recorder σ)).defaults pos isEntry)) ∧
    ∀ provenance fields pos isEntry, (silent Prod.fst).beside.Heeded
      ((n.translate (recorder σ)).commit provenance fields pos isEntry) := by
  have hpipelined := resolve_pipelined hspec options input pos level s t
  refine ⟨fun site => mem_sitesAt, sitesAt_sorted _ _ _ _, hpipelined, fun c hc site hsite => ?_,
    fun e he hkind => ?_, fun pos isEntry => defaults_heeded n.recorded_uses pos isEntry,
    fun provenance => (n.recorded_uses.commit provenance).2 _ rfl⟩
  · obtain ⟨path, hpath, hvalue, -, hpos⟩ := mem_sitesAt.1 hsite
    have htakes : (n.resolve options input pos).Takes level c _ :=
      ⟨s, _, Prod.ext hc rfl⟩
    obtain ⟨hrules, y, hy, hyields⟩ := (resolve_takes htakes).renders.at_leaf
      (Specifier.forall_of_some hspec) hpath hvalue
    rw [← hpos] at hyields
    obtain ⟨calls, w, hruns, hcoerce⟩ := hrules.runs_of_resolve options t site.place _ hyields
    exact ⟨path, calls, w, y, hpos, hruns, hcoerce, hy⟩
  · rw [he] at hpipelined
    obtain ⟨before, site, after, cs, ds, hsites, hbefore, hsite, hcalls⟩ :=
      hpipelined.exists_failed hkind
    obtain ⟨-, hpath, hvalue⟩ := hsite.of_error
    exact ⟨before, site, after, cs, ds, hsites, hcalls, hbefore, hsite, hpath, hvalue⟩

end Namespace

/-- Three hosts, of which the mode of the first is repaired, that of the second is refused, and that
of the third is not looked at. -/
def Hosts.mixed : Value :=
  .obj (.ofList [("hosts", .obj (.ofList [("x", .obj (.ofList [("mode", .null)])),
    ("y", .obj (.ofList [("mode", .int 1)])), ("z", .obj (.ofList [("mode", .str "a")]))]))])

theorem Namespace.resolve_pipeline_hosts :
    (Hosts.root.sites () Hosts.mixed .root).map (·.pos.render) =
      ["hosts.x.mode", "hosts.y.mode", "hosts.z.mode"] ∧
    (Hosts.root.pipelineCalls Hosts.quiet Hosts.mixed .root Hosts.built.level ()).map
      Call.given? = [some .null, none, some (.str "auto"), some (.int 1), some (.int 1)] ∧
    ∃ e before site after cs ds,
      (Hosts.root.resolve Hosts.quiet Hosts.mixed .root (Hosts.built.level, ())).1 = .error e ∧
      Hosts.root.sites () Hosts.mixed .root = before ++ site :: after ∧
      Hosts.root.pipelineCalls Hosts.quiet Hosts.mixed .root Hosts.built.level () = cs ++ ds ∧
      Pipelined () before cs (.ok ()) ∧ site.Runs () ds (.error e) ∧
      e.path = "hosts.y.mode" := by
  obtain ⟨-, -, -, -, hfailed, -⟩ := Namespace.resolve_pipeline
    (Specifier.determined_of_subsingleton Hosts.root.toSpecifier) Hosts.quiet Hosts.mixed .root
    Hosts.built.level () ()
  obtain ⟨before, site, after, cs, ds, hsites, hcalls, hbefore, hsite, -⟩ :=
    hfailed (.validation "hosts.y.mode" (.int 1) ["not a string"]) rfl rfl
  exact ⟨rfl, rfl, _, before, site, after, cs, ds, rfl, hsites, hcalls, hbefore, hsite, rfl⟩

end Settings
