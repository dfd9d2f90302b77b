import Settings.Proofs.Play

/-!
# The calls of a run

A recorded specification keeps a list of calls beside the state of its host: every callback appends
what it was called for, what it was given and what came of it, and recorded options append every
notice of a repair that they hand on. Recording leaves everything else as it is
(`Namespace.play_recorded`), so `Namespace.calls` lists the calls of the run itself.
-/

set_option autoImplicit false

namespace Settings

variable {σ : Type}

/-- A call of a callback at a place, with its arguments and its result, or a notice of a repair and
what came of handing it on. -/
inductive Call
  | initial (place : Place) (result : Except String Value)
  | fixup (place : Place) (input : Value) (result : Except String (Option Fix))
  | validate (place : Place) (input : Value) (result : Except String (Option Violation))
  | mapType (place : Place) (input : Value) (result : Except String Value)
  | shorthand (place : Place) (input : Value) (result : Except String Value)
  | seed (place : Place) (result : Except String Value)
  | mapper (place : Place) (data : Value) (context : Position) (result : Except String Value)
  | starters (place : Place) (result : Except String Value)
  | notice (handed : FixupNotice) (result : Except String Unit)

/-- A run beside a list of calls, to which it appends itself. -/
def Run.logged {ε α κ : Type} (call : Except ε α → κ) (r : Run ε σ α) : Run ε (List κ × σ) α :=
  fun p =>
    match r p.2 with
    | (result, s) => (result, (p.1 ++ [call result], s))

def LeafRules.recorded (rules : LeafRules σ) (place : Place) : LeafRules (List Call × σ) where
  initial := rules.initial.map (Run.logged (.initial place))
  validate := rules.validate.map fun f v => (f v).logged (.validate place v)
  fixup := rules.fixup.map fun f v => (f v).logged (.fixup place v)
  mapType := rules.mapType.map fun f v => (f v).logged (.mapType place v)
  shadow := rules.shadow

def NamespaceRules.recorded (rules : NamespaceRules σ) (place : Place) :
    NamespaceRules (List Call × σ) where
  shorthand := rules.shorthand.map fun f v => (f v).logged (.shorthand place v)
  seed := rules.seed.map (Run.logged (.seed place))
  mapper := rules.mapper.map fun f v pos => (f v pos).logged (.mapper place v pos)

/-- Records the calls of every callback. -/
def recorder (σ : Type) : Translation σ (List Call × σ) where
  leaf place rules := rules.recorded place
  ns place rules := rules.recorded place
  starters place starters := starters.map (Run.logged (.starters place))

namespace Options

/-- What becomes of a notice: it goes to the hook, or else to the default handler. -/
def handle (options : Options σ) (notice : FixupNotice) : CallM σ Unit :=
  match options.onFixup with
  | some hook => hook notice options.logFixup
  | none => options.logFixup notice

theorem report_eq (options : Options σ) (notice : FixupNotice) : options.report notice =
    (options.handle notice).mapError fun text => .onFixup notice.path (.failed text) := rfl

/-- Options that note every notice. -/
def recorded (options : Options σ) : Options (List Call × σ) where
  mode := options.mode
  onFixup := some fun notice _ => (options.handle notice).logged (.notice notice)
  warn warning p := (p.1, options.warn warning p.2)

end Options

/-- The calls that are made while a store is built and takes steps, in order. -/
def Namespace.calls (spec : Namespace σ) (options : Options σ) (steps : List Step) (s : σ) :
    List Call :=
  ((spec.translate (recorder σ)).play options.recorded steps ([], s)).2.1

/-- The notice of a repair, if that is what was noted. -/
def Call.notice? : Call → Option FixupNotice
  | .notice handed _ => some handed
  | _ => none

/-- The notices of repairs that are handed on while a store is built and takes steps, in order. -/
def Namespace.notices (spec : Namespace σ) (options : Options σ) (steps : List Step) (s : σ) :
    List FixupNotice :=
  (spec.calls options steps s).filterMap Call.notice?

/-- A store with callbacks and options that are recorded. -/
def Store.recorded (store : Store σ) : Store (List Call × σ) :=
  ⟨store.spec.translate (recorder σ), store.options.recorded, store.level⟩

/-- The notices of repairs that are handed on while a store is changed, in order. -/
def Store.notices (store : Store σ) (input : Value) (s : σ) : List FixupNotice :=
  (store.recorded.change input ([], s)).2.1.filterMap Call.notice?

/-! ## What a run adds to a list -/

section Logs

variable {ε κ ρ τ α β γ : Type}

/-- A recorded callback appends its call and ends as it does by itself. -/
theorem Run.logged_mapError {ε' : Type} (call : Except ε α → κ) (r : Run ε σ α) (f : ε → ε')
    (p : List κ × σ) : (r.logged call).mapError f p =
      ((r p.2).1.mapError f, (p.1 ++ [call (r p.2).1], (r p.2).2)) := by
  unfold Run.mapError Run.logged
  rcases r p.2 with ⟨e | a, s⟩ <;> rfl

/-- The calls of some sort that a run adds to a list, and what the run ends with, are related. -/
def Run.Logs (log : ρ → List κ) (sort : κ → Bool) (P : List κ → Except ε α → Prop)
    (r : Run ε ρ α) : Prop :=
  ∀ p, ∃ made, log (r p).2 = log p ++ made ∧ P (made.filter sort) (r p).1

namespace Run.Logs

variable {log : ρ → List κ} {sort : κ → Bool} {P : List κ → Except ε α → Prop}

theorem map {Q : List κ → Except ε β → Prop} {r : Run ε ρ α} (h : r.Logs log sort P) {f : α → β}
    (hPQ : ∀ calls result, P calls result → Q calls (result.map f)) :
    (f <$> r).Logs log sort Q := by
  intro p
  obtain ⟨made, hmade, hP⟩ := h p
  rw [Run.map_apply]
  exact ⟨made, hmade, hPQ _ _ hP⟩

/-- The calls of a sequence are those of its first part and, if that succeeds, those of its
second. -/
theorem bind {Q : α → List κ → Except ε β → Prop} {R : List κ → Except ε β → Prop}
    {r : Run ε ρ α} {f : α → Run ε ρ β} (hr : r.Logs log sort P)
    (hf : ∀ a, (f a).Logs log sort (Q a))
    (hok : ∀ cs a ds result, P cs (.ok a) → Q a ds result → R (cs ++ ds) result)
    (herror : ∀ cs e, P cs (.error e) → R cs (.error e)) : (r >>= f).Logs log sort R := by
  intro p
  obtain ⟨made, hmade, hP⟩ := hr p
  rw [Run.bind_apply]
  rcases h : r p with ⟨e | a, q⟩ <;> rw [h] at hmade hP
  · exact ⟨made, hmade, herror _ _ hP⟩
  · obtain ⟨made', hmade', hQ⟩ := hf a q
    dsimp only at hmade hmade' ⊢
    refine ⟨made ++ made', ?_, ?_⟩
    · rw [hmade', hmade, List.append_assoc]
    · rw [List.filter_append]
      exact hok _ a _ _ hP hQ

theorem beside {r : Run ε ρ α} (h : r.Logs log sort P) :
    (r.beside : Run ε (τ × ρ) α).Logs (fun p => log p.2) sort P :=
  fun p => h p.2

theorem zoom {r : Run ε (γ × ρ) α} (h : r.Logs (fun p => log p.2) sort P) (part : τ → γ)
    (leave : Bool → γ → τ → τ) :
    (Run.zoom part leave r : Run ε (τ × ρ) α).Logs (fun p => log p.2) sort P := by
  intro p
  obtain ⟨made, hmade, hP⟩ := h (part p.1, p.2)
  unfold Run.zoom
  dsimp only
  rcases hr : r (part p.1, p.2) with ⟨e | a, q⟩ <;> rw [hr] at hmade hP <;>
    exact ⟨made, hmade, hP⟩

end Run.Logs

end Logs

/-! ## Recording leaves everything else as it is -/

/-- A host with a list of calls beside its state is compared with the host by itself. -/
def recording (σ : Type) : Link (List Call × σ) σ where
  hosts p s := p.2 = s
  lost _ := False

private theorem same_logged {ε α : Type} (call : Except ε α → Call) (r : Run ε σ α) :
    (recording σ).Same (r.logged call) r := by
  refine ⟨fun _ h => h.elim, ?_⟩
  rintro - ⟨calls, s⟩ _ rfl
  unfold Run.logged
  rcases r s with ⟨e | a, s'⟩
  · exact .error rfl
  · exact .ok rfl rfl

private theorem rel_logged {ε α : Type} (call : Except ε α → Call) (o : Option (Run ε σ α)) :
    Option.Rel (recording σ).Same (o.map (Run.logged call)) o := by
  cases o with
  | none => exact .none
  | some r => exact .some (same_logged call r)

private theorem rel_logged_each {ε α : Type} (call : Value → Except ε α → Call)
    (o : Option (Value → Run ε σ α)) :
    Option.Rel (fun f g => ∀ v, (recording σ).Same (f v) (g v))
      (o.map fun f v => (f v).logged (call v)) o := by
  cases o with
  | none => exact .none
  | some f => exact .some fun v => same_logged (call v) (f v)

theorem LeafRules.recorded_agree (rules : LeafRules σ) (place : Place) :
    (rules.recorded place).Agree (recording σ) rules where
  initial := rel_logged _ _
  validate := rel_logged_each _ _
  fixup := rel_logged_each _ _
  mapType := rel_logged_each _ _
  shadow := rfl

private theorem runMapper_recorded_same (rules : NamespaceRules σ) (place : Place)
    (data : Fields Value) (pos : Position) (isEntry : Bool) :
    (recording σ).Same ((rules.recorded place).runMapper data pos isEntry)
      (rules.runMapper data pos isEntry) := by
  unfold NamespaceRules.runMapper NamespaceRules.recorded
  cases rules.mapper with
  | none => exact Link.alike_pure fun _ => rfl
  | some f => exact ((same_logged _ _).mapError _).bind_same fun v => Link.alike_ofOption _ _

theorem NamespaceRules.recorded_agree (rules : NamespaceRules σ) (s : Specifier σ) (place : Place) :
    (rules.recorded place).Agree (recording σ) (fun _ _ => False) s place rules where
  shorthand := rel_logged_each _ _
  seed := rel_logged _ _
  mapper d₁ d₂ pos isEntry := by
    refine .under (fun _ h => h.elim) fun hd => ?_
    rw [hd.eq]
    refine (runMapper_recorded_same rules place d₂ pos isEntry).imp id ?_
    rintro - m _ rfl
    exact .refl _

theorem Specifier.recorder_agree (s : Specifier σ) (place : Place) :
    s.Agree (recording σ) (fun _ _ => False) (recorder σ) (.id σ) place := by
  induction s generalizing place with
  | leaf rules => exact .leaf (rules.recorded_agree place)
  | ns rules specs ih => exact .ns (rules.recorded_agree _ place) fun k s hk => ih k s hk _
  | record starters entry ih => exact .record (rel_logged _ _) (ih _)

theorem Options.recorded_report (options : Options σ) (notice : FixupNotice) :
    (recording σ).Same (options.recorded.report notice) (options.report notice) := by
  rw [report_eq, report_eq]
  exact (same_logged _ _).mapError _

/-- A recorded edit of a level comes to the same as the edit itself. -/
theorem Namespace.applyInput_recorded (spec : Namespace σ) (options : Options σ) (input : Value)
    (level : Level) :
    (recording σ).Same
      ((Store.applyInput (spec.translate (recorder σ)) options.recorded input).on level)
      ((Store.applyInput spec options input).on level) := by
  have h := applyInput_keeps (spec.toSpecifier.recorder_agree []) options.recorded_report input
  rw [Namespace.translate_id] at h
  exact h.same level

/-- A recorded run visits the same levels with the same errors as the run itself, and leaves the
host in the same state. -/
theorem Namespace.play_recorded (spec : Namespace σ) (options : Options σ) (steps : List Step)
    (calls : List Call) (s : σ) :
    (recording σ).Ends (SameVisits (fun _ _ => False) spec.toSpecifier)
      ((spec.translate (recorder σ)).play options.recorded steps (calls, s))
      (spec.play options steps s) := by
  have h := (Namespace.play_alike (spec.toSpecifier.recorder_agree []) options.recorded_report rfl
    steps).ends trivial (calls, s) s rfl
  rwa [Namespace.translate_id] at h

/-- What two recorded runs come to, the runs themselves come to. -/
theorem Namespace.play_of_recorded {spec spec' : Namespace σ} {options : Options σ}
    {steps : List Step} {s s' : σ} {exempt : Place → String → Prop} {link : Link (List Call × σ)
      (List Call × σ)}
    (h : link.Ends (SameVisits exempt spec.toSpecifier)
      ((spec.translate (recorder σ)).play options.recorded steps ([], s))
      ((spec'.translate (recorder σ)).play options.recorded steps ([], s')))
    (hnot : ¬ link.lost ((spec.translate (recorder σ)).play options.recorded steps ([], s)).2) :
    (∃ as bs, (spec.play options steps s).1 = .ok as ∧ (spec'.play options steps s').1 = .ok bs ∧
      SameVisits exempt spec.toSpecifier as bs) ∨
    ∃ e, (spec.play options steps s).1 = .error e ∧ (spec'.play options steps s').1 = .error e := by
  obtain ⟨-, hleft⟩ := (spec.play_recorded options steps [] s).results id
  obtain ⟨-, hright⟩ := (spec'.play_recorded options steps [] s').results id
  obtain ⟨-, ⟨as, bs, ha, hb, hvisits⟩ | ⟨e, ha, hb⟩⟩ := h.results hnot
  · rw [ha] at hleft
    rw [hb] at hright
    obtain ⟨_, cs, ⟨⟩, hc, hac⟩ | ⟨_, ⟨⟩, -⟩ := hleft
    obtain ⟨_, ds, ⟨⟩, hd, hbd⟩ | ⟨_, ⟨⟩, -⟩ := hright
    exact .inl ⟨cs, ds, hc, hd, hvisits.congr hac hbd⟩
  · rw [ha] at hleft
    rw [hb] at hright
    obtain ⟨_, _, ⟨⟩, -, -⟩ | ⟨_, ⟨⟩, hc⟩ := hleft
    obtain ⟨_, _, ⟨⟩, -, -⟩ | ⟨_, ⟨⟩, hd⟩ := hright
    exact .inr ⟨e, hc, hd⟩

end Settings
