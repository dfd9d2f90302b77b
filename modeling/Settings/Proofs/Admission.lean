import Settings.Proofs.Shape

/-!
# What a change lets in

A change writes a declared leaf only with what the leaf's rules make of an input: repaired if the
repair has something to put in its place, not objected to by the check, and mapped to its data
representation. Every leaf of a candidate has gone through the three steps (`IsCandidate`), and a
change writes leaves from its candidate alone, so the condition is one that every write keeps
(`LeafRules.Keeps`).
-/

set_option autoImplicit false

namespace Settings

variable {σ : Type}

namespace LeafRules

/-- The repair puts the second value in the place of the first, or has nothing to repair. -/
def Repairs (rules : LeafRules σ) (i w : Value) : Prop :=
  match rules.fixup with
  | none => w = i
  | some fixup => (fixup i).Gives none ∧ w = i ∨ ∃ fix, (fixup i).Gives (some fix) ∧ w = fix.value

/-- The check, if there is one, has nothing to object to. -/
def Accepts (rules : LeafRules σ) (w : Value) : Prop :=
  ∀ validate, rules.validate = some validate → (validate w).Gives none

/-- The second value is the data representation of the first. -/
def Maps (rules : LeafRules σ) (w v : Value) : Prop :=
  match rules.mapType with
  | none => v = w
  | some mapType => (mapType w).Gives v

/-- The value is what the rules make of some input. -/
def Admits (rules : LeafRules σ) (v : Value) : Prop :=
  ∃ i w, rules.Repairs i w ∧ rules.Accepts w ∧ rules.Maps w v

/-- The first step of resolving: the value is repaired, and a repair is reported. -/
def repair (rules : LeafRules σ) (options : Options σ) (i : Value) (pos : Position) :
    Attempt σ Value :=
  match rules.fixup with
  | none => pure i
  | some fixup => do
    match ← (fixup i).mapError fun text => .fixup pos.render i (.failed text) with
    | none => pure i
    | some fix => do
      options.report ⟨pos.render, i, fix.value, fix.messages⟩
      pure fix.value

def check (rules : LeafRules σ) (w : Value) (pos : Position) : Attempt σ Unit :=
  match rules.validate with
  | none => pure ()
  | some validate => do
    match ← (validate w).mapError fun text => .validationRun pos.render w (.failed text) with
    | none => pure ()
    | some violation => Run.fail (.validation pos.render w violation.reasons)

theorem resolve_eq (rules : LeafRules σ) (options : Options σ) (i : Value) (pos : Position) :
    rules.resolve options i pos = (do
      let w ← rules.repair options i pos
      rules.check w pos
      rules.coerce w pos) := by
  have hcheck (w : Value) : (do
      rules.check w pos
      rules.coerce w pos) = (match rules.validate with
        | none => rules.coerce w pos
        | some validate => do
          match ← (validate w).mapError fun text =>
            .validationRun pos.render w (.failed text) with
          | none => rules.coerce w pos
          | some violation => do
            Run.fail (.validation pos.render w violation.reasons)
            rules.coerce w pos : Attempt σ Value) := by
    unfold check
    cases rules.validate with
    | none => rfl
    | some validate =>
      -- The check and what follows it stand under the same call, whatever it answers.
      dsimp only
      rw [bind_assoc]
      congr 1
      funext violation
      cases violation <;> rfl
  simp only [hcheck]
  unfold resolve repair
  cases rules.fixup with
  | none => rfl
  | some fixup =>
    dsimp only
    rw [bind_assoc]
    congr 1
    funext fix
    cases fix with
    | none => rfl
    | some fix => exact (bind_assoc (m := Attempt σ) (options.report _) _ _).symm

variable {rules : LeafRules σ} {options : Options σ} {pos : Position}

theorem Determined.maps (hd : rules.Determined) {w v : Value}
    (h : (rules.coerce w pos).Yields v) : rules.Maps w v := by
  unfold LeafRules.coerce at h
  unfold Maps
  cases hmap : rules.mapType with
  | none =>
    rw [hmap] at h
    exact h.of_pure
  | some mapType =>
    rw [hmap] at h
    exact (hd.mapType mapType hmap w).gives h.of_mapError

theorem Determined.repairs (hd : rules.Determined) {i w : Value}
    (h : (rules.repair options i pos).Yields w) : rules.Repairs i w := by
  unfold repair at h
  unfold Repairs
  cases hfixup : rules.fixup with
  | none =>
    rw [hfixup] at h
    exact h.of_pure
  | some fixup =>
    rw [hfixup] at h
    obtain ⟨fix, hfix, hrest⟩ := h.of_bind
    have hgives := (hd.fixup fixup hfixup i).gives hfix.of_mapError
    cases fix with
    | none => exact .inl ⟨hgives, hrest.of_pure⟩
    | some fix =>
      obtain ⟨_, _, hrest⟩ := hrest.of_bind
      exact .inr ⟨fix, hgives, hrest.of_pure⟩

theorem Determined.accepts (hd : rules.Determined) {w : Value} {u : Unit}
    (h : (rules.check w pos).Yields u) : rules.Accepts w := by
  intro validate hvalidate
  unfold check at h
  rw [hvalidate] at h
  obtain ⟨violation, hviolation, hrest⟩ := h.of_bind
  cases violation with
  | none => exact (hd.validate validate hvalidate w).gives hviolation.of_mapError
  | some violation => exact absurd hrest Run.not_yields_fail

/-- Resolving gives nothing but values that the rules admit. -/
theorem Determined.admits (hd : rules.Determined) {i v : Value}
    (h : (rules.resolve options i pos).Yields v) : rules.Admits v := by
  rw [resolve_eq] at h
  obtain ⟨w, hrepair, h⟩ := h.of_bind
  obtain ⟨u, hcheck, hcoerce⟩ := h.of_bind
  exact ⟨i, w, hd.repairs hrepair, hd.accepts hcheck, hd.maps hcoerce⟩

end LeafRules

/-- The condition on leaves: where a declared leaf was last written by a change, its value is one
that its rules admit. -/
private def Admitted : Option (LeafRules σ) → LeafNode → Prop
  | none, _ => True
  | some rules, node => node.provenance = .change → ∃ v, node.value = some v ∧ rules.Admits v

private theorem LeafRules.Determined.keeps_admitted {options : Options σ} {rules : LeafRules σ}
    (hd : rules.Determined) : rules.Keeps options Admitted where
  built pos v node h := by
    obtain rfl := LeafRules.eq_initialNode h
    -- Neither initialization nor a seed marks a leaf as changed.
    exact nofun
  given _ v := nofun
  changed pos v w h node _ _ := ⟨w, rfl, hd.admits h⟩

/-- Whatever the history of a store, a declared leaf whose value came from a change has a value that
its rules admit. -/
theorem Store.Reachable.change_admitted {spec : Namespace σ} {options : Options σ}
    {store : Store σ} (h : Store.Reachable spec options store) (hd : spec.toSpecifier.Determined)
    {path : List String} {rules : LeafRules σ} {node : LeafNode}
    (hdeclared : Leads (some spec.toSpecifier) path (some (.leaf rules)))
    (hnode : store.metadata.Reaches path (.leaf node)) (hchange : node.provenance = .change) :
    ∃ v, node.value = some v ∧ rules.Admits v := by
  have hkeeps : spec.toSpecifier.Keeps options Admitted :=
    hd.imp (fun rules hrules => hrules.keeps_admitted)
      (fun rules specs _ => ⟨fun _ _ _ _ _ _ _ => trivial, fun _ _ _ _ _ _ _ _ => nofun⟩)
      (fun _ _ => trivial)
  have hfits := (h.fits (fun _ _ _ => trivial) hkeeps).of_reaches hdeclared hnode
  cases hfits with
  | leaf here => exact here hchange

theorem Store.Reachable.change_admitted_hosts :
    ∃ v, (LeafNode.mk (some (.arr [.str "auto"])) none .change false false).value = some v ∧
      Hosts.mode.Admits v := by
  have hdeclared : Leads (some Hosts.root.toSpecifier) ["hosts", "x", "mode"]
      (some (.leaf Hosts.mode)) := .field (.entry (.field .here))
  have hnode : Hosts.changed.metadata.Reaches ["hosts", "x", "mode"]
      (.leaf ⟨some (.arr [.str "auto"]), none, .change, false, false⟩) :=
    .field rfl (.entry rfl (.field rfl .here))
  exact Store.Reachable.change_admitted Hosts.changed_reachable
    (Specifier.determined_of_subsingleton _) hdeclared hnode rfl

end Settings
