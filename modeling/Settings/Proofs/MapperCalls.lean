import Settings.Proofs.Silence
import Settings.Proofs.Sites

/-!
# The calls of mappers

What a recorded run adds to the list of calls and what it ends with, if it succeeds, are stated
together (`Run.Calls`), and the statement about a sequence is put together from those about its
parts. Here the calls that count are those of mappers: running a mapper is one call
(`NamespaceRules.runMapper_calls`), and every other callback is none (`Run.Quiet`).
-/

set_option autoImplicit false

namespace Settings

variable {ε ε' σ τ ρ κ α β : Type}

/-- The calls of some sort that a run adds to the list and the value that it ends with, if it
succeeds, are related. -/
def Run.Calls (sort : κ → Bool) (P : List κ → α → Prop) (r : Run ε (List κ × σ) α) : Prop :=
  r.Logs Prod.fst sort fun calls result => ∀ a, result = .ok a → P calls a

namespace Run.Calls

variable {sort : κ → Bool} {P Q : List κ → α → Prop}

theorem pure {a : α} (h : P [] a) : (pure a : Run ε (List κ × σ) α).Calls sort P := by
  refine fun p => ⟨[], (List.append_nil _).symm, ?_⟩
  rintro _ ⟨⟩
  exact h

theorem fail {e : ε} : (Run.fail e : Run ε (List κ × σ) α).Calls sort P := by
  refine fun p => ⟨[], (List.append_nil _).symm, ?_⟩
  rintro _ ⟨⟩

theorem imp {r : Run ε (List κ × σ) α} (h : r.Calls sort P)
    (hPQ : ∀ calls a, r.Yields a → P calls a → Q calls a) : r.Calls sort Q := by
  intro p
  obtain ⟨made, hmade, hP⟩ := h p
  exact ⟨made, hmade, fun a ha => hPQ _ a ⟨p, _, Prod.ext ha rfl⟩ (hP a ha)⟩

/-- What follows on a run adds its calls to those of the run. -/
theorem bind {R : List κ → β → Prop} {r : Run ε (List κ × σ) α}
    {f : α → Run ε (List κ × σ) β} (hr : r.Calls sort P)
    (hf : ∀ cs a, r.Yields a → P cs a → (f a).Calls sort fun ds b => R (cs ++ ds) b) :
    (r >>= f).Calls sort R := by
  intro p
  obtain ⟨made, hmade, hP⟩ := hr p
  rw [Run.bind_apply]
  rcases h : r p with ⟨e | a, q⟩ <;> rw [h] at hmade hP
  · refine ⟨made, hmade, ?_⟩
    rintro _ ⟨⟩
  · obtain ⟨made', hmade', hR⟩ := hf _ a ⟨p, q, h⟩ (hP a rfl) q
    dsimp only at hmade hmade' ⊢
    refine ⟨made ++ made', ?_, ?_⟩
    · rw [hmade', hmade, List.append_assoc]
    · rw [List.filter_append]
      exact hR

theorem map {R : List κ → β → Prop} {r : Run ε (List κ × σ) α} {f : α → β} (hr : r.Calls sort P)
    (hf : ∀ calls a, r.Yields a → P calls a → R calls (f a)) : (f <$> r).Calls sort R := by
  rw [map_eq_pure_bind]
  refine hr.bind fun cs a ha hP => pure ?_
  rw [List.append_nil]
  exact hf cs a ha hP

end Run.Calls

/-- What is known of a recorded run that runs like another one is known of the other one. -/
theorem Run.Calls.of_recorded {sort : Call → Bool} {P : List Call → α → Prop}
    {A : α → β → Prop} {r : Run ε (List Call × σ) α} {r' : Run ε σ β} (h : r.Calls sort P)
    (hlink : (recording σ).Alike True A r r') {s s' : σ} {b : β} (hends : r' s = (.ok b, s')) :
    ∃ a, A a b ∧ P ((r ([], s)).2.1.filter sort) a := by
  obtain ⟨made, hmade, hP⟩ := h ([], s)
  obtain ⟨-, ⟨a, b', ha, hb, hab⟩ | ⟨e, -, he⟩⟩ := (hlink.ends trivial ([], s) s rfl).results id
  · rw [hends] at hb
    obtain rfl := Except.ok.inj hb
    refine ⟨a, hab, ?_⟩
    rw [hmade]
    exact hP a ha
  · rw [hends] at he
    cases he

/-! ## Mappers and other callbacks -/

def Call.isMapper : Call → Bool
  | mapper .. => true
  | _ => false

/-- The context that a mapper is called with. -/
def Call.context? : Call → Option Position
  | mapper _ _ context _ => some context
  | _ => none

/-- The context of the mapper of a namespace that a path leads to: where it is and, for an entry of
a record, its name. -/
def contextAt (spec : Option (Specifier σ)) (isEntry : Bool) (pos : Position)
    (path : List String) : Position :=
  ⟨pos.path ++ path, if isEntryAt spec isEntry path then (pos.path ++ path).getLast? else none⟩

theorem contextAt_cons (s : Specifier σ) (isEntry : Bool) (pos : Position) (name : String)
    (path : List String) :
    contextAt (some s) isEntry pos (name :: path) =
      contextAt (s.below? name) (s.kind = .record) (pos.child name) path := by
  have hpath : pos.path ++ name :: path = (pos.child name).path ++ path := by
    rw [Position.path_child, List.append_assoc]
    rfl
  unfold contextAt
  rw [← hpath]
  rfl

/-- A namespace that is not inside another one is called at its own position. -/
theorem contextAt_nil {pos : Position} (hpos : pos.key = none) (spec : Option (Specifier σ))
    (isEntry : Bool) :
    contextAt spec isEntry pos [] = if isEntry then pos.asEntry else pos := by
  obtain ⟨path, key⟩ := pos
  obtain rfl : key = none := hpos
  unfold contextAt
  rw [isEntryAt_nil, List.append_nil]
  cases isEntry <;> rfl

/-- A recorded run without calls of mappers. -/
def Run.Quiet (r : Run ε (List Call × σ) α) : Prop :=
  r.Calls Call.isMapper fun calls _ => calls = []

/-- A recorded callback adds its call. -/
theorem Run.calls_logged (call : Except ε α → Call) (r : Run ε σ α) (f : ε → ε') :
    ((r.logged call).mapError f).Calls Call.isMapper fun calls a =>
      calls = [call (.ok a)].filter Call.isMapper ∧ r.Yields a := by
  intro p
  rw [logged_mapError]
  refine ⟨[call (r p.2).1], rfl, fun a ha => ?_⟩
  rcases hr : r p.2 with ⟨e | b, s⟩ <;> rw [hr] at ha <;> cases ha
  exact ⟨rfl, p.2, s, hr⟩

namespace Run.Quiet

theorem logged {call : Except ε α → Call} (h : ∀ result, (call result).isMapper = false)
    (r : Run ε σ α) (f : ε → ε') : ((r.logged call).mapError f).Quiet := by
  refine (calls_logged call r f).imp fun calls a _ hcalls => ?_
  rw [hcalls.1, List.filter_cons, h]
  rfl

theorem bind {r : Run ε (List Call × σ) α} {f : α → Run ε (List Call × σ) β} (hr : r.Quiet)
    (hf : ∀ a, (f a).Quiet) : (r >>= f).Quiet := by
  refine Calls.bind hr fun cs a _ hcs => (hf a).imp fun ds b _ hds => ?_
  rw [hcs, hds]
  rfl

/-- A run without calls before another one adds none. -/
theorem then_calls {P : List Call → β → Prop} {r : Run ε (List Call × σ) α}
    {f : α → Run ε (List Call × σ) β} (hr : r.Quiet)
    (hf : ∀ a, r.Yields a → (f a).Calls Call.isMapper P) :
    (r >>= f).Calls Call.isMapper P := by
  refine Calls.bind hr fun cs a ha hcs => ?_
  rw [hcs]
  exact hf a ha

end Run.Quiet

/-- What is put together from calls of other callbacks makes no calls of mappers. -/
theorem Run.quiet_closed :
    Run.Closed (σ := List Call × σ) (fun r => ∀ f : String → SettingsError, (r.mapError f).Quiet)
      fun r => r.Quiet where
  pure _ := Calls.pure rfl
  fail _ := Calls.fail
  call h _ := h _
  bind := Quiet.bind

theorem LeafRules.defaults_quiet (rules : LeafRules σ) (place : Place) (pos : Position) :
    ((rules.recorded place).defaults pos).Quiet := by
  have huses : (rules.recorded place).Uses
      fun r => ∀ f : String → SettingsError, (r.mapError f).Quiet := by
    refine ⟨fun r hr => ?_, fun g hg v => ?_⟩
    · obtain ⟨r, -, rfl⟩ := Option.map_eq_some_iff.1 hr
      exact Run.Quiet.logged (fun _ => rfl) r
    · obtain ⟨g, -, rfl⟩ := Option.map_eq_some_iff.1 hg
      exact Run.Quiet.logged (fun _ => rfl) (g v)
  exact huses.defaults Run.quiet_closed pos

/-- A recorded callback that has to return an object. -/
theorem Run.object_calls (call : Except String Value → Call) (r : CallM σ Value)
    (f : String → SettingsError) (e : Value → SettingsError) :
    ((r.logged call).mapError f >>= fun v => Run.ofOption (e v) (objectOrNull? v)).Calls
      Call.isMapper fun calls fields => ∃ v, calls = [call (.ok v)].filter Call.isMapper ∧
        objectOrNull? v = some fields ∧
        (r.mapError f >>= fun v => Run.ofOption (e v) (objectOrNull? v)).Yields fields := by
  refine (Run.calls_logged call r f).bind fun cs v _ hcs => ?_
  obtain ⟨rfl, s, s', hv⟩ := hcs
  cases hobject : objectOrNull? v with
  | none => exact Run.Calls.fail
  | some fields =>
    refine Run.Calls.pure ⟨v, List.append_nil _, hobject, s, s', ?_⟩
    rw [Run.bind_apply]
    unfold Run.mapError
    rw [hv]
    dsimp only
    rw [hobject]
    rfl

theorem runSeed_calls {call : Except String Value → Call}
    (h : ∀ result, (call result).isMapper = false) (seed : Option (CallM σ Value))
    (pos : Position) :
    (runSeed (seed.map (Run.logged call)) pos).Calls Call.isMapper fun calls fields =>
      calls = [] ∧ (runSeed seed pos).Yields fields := by
  cases seed with
  | none =>
    refine fun p => ⟨[], (List.append_nil _).symm, ?_⟩
    rintro _ ⟨⟩
    exact ⟨rfl, p.2, p.2, rfl⟩
  | some seed =>
    refine (Run.object_calls call seed _ _).imp fun calls fields _ hcalls => ?_
    obtain ⟨v, rfl, -, hyields⟩ := hcalls
    rw [List.filter_cons, h]
    exact ⟨rfl, hyields⟩

namespace NamespaceRules

theorem longhand_quiet (rules : NamespaceRules σ) (place : Place) (v : Value) (pos : Position) :
    ((rules.recorded place).longhand v pos).Quiet := by
  -- The mapper has no part in this.
  let silent : NamespaceRules (List Call × σ) := ⟨(rules.recorded place).shorthand, none, none⟩
  have huses : silent.Uses fun r => ∀ f : String → SettingsError, (r.mapError f).Quiet := by
    refine ⟨fun g hg v => ?_, by rintro _ ⟨⟩, by rintro _ ⟨⟩⟩
    obtain ⟨g, -, rfl⟩ := Option.map_eq_some_iff.1 hg
    exact Run.Quiet.logged (fun _ => rfl) (g v)
  exact huses.longhand Run.quiet_closed v pos

/-- The call of a mapper, if there is one, and what it gives. -/
inductive Maps (rules : NamespaceRules σ) (place : Place) (data : Fields Value)
    (context : Position) : List Call → Fields Value → Prop
  | absent (rule : rules.mapper = none) : Maps rules place data context [] ∅
  | called {r : Value} {mapped : Fields Value} (rule : rules.mapper.isSome)
      (object : objectOrNull? r = some mapped) :
      Maps rules place data context [.mapper place (.obj data) context (.ok r)] mapped

theorem runMapper_calls (rules : NamespaceRules σ) (place : Place) (data : Fields Value)
    (pos : Position) (isEntry : Bool) :
    ((rules.recorded place).runMapper data pos isEntry).Calls Call.isMapper fun calls mapped =>
      rules.Maps place data (if isEntry then pos.asEntry else pos) calls mapped ∧
        (rules.runMapper data pos isEntry).Yields mapped := by
  unfold runMapper recorded
  cases hmapper : rules.mapper with
  | none =>
    refine fun p => ⟨[], (List.append_nil _).symm, ?_⟩
    rintro _ ⟨⟩
    exact ⟨.absent hmapper, p.2, p.2, rfl⟩
  | some mapper =>
    refine (Run.object_calls _ _ _ _).imp fun calls mapped _ hcalls => ?_
    obtain ⟨v, rfl, hobject, hyields⟩ := hcalls
    exact ⟨.called (hmapper ▸ rfl) hobject, hyields⟩

end NamespaceRules

end Settings
