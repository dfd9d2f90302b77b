import Settings.Proofs.Limits
import Settings.Proofs.Recording

/-!
# What is silent

Leaves are repaired and checked while an input is resolved, and at no other time. A recorded run is
silent if it makes no such call, and no call of the hook, and does not fail for one. Of the recorded
callbacks those that are not of a leaf's pipeline are silent (`Specifier.recorded_uses`), so
initialization and commits are.
-/

set_option autoImplicit false

namespace Settings

variable {σ ρ α : Type}

/-- Whether the call belongs to the pipeline of a leaf: its repair, the notice of it, or its
check. -/
def Call.isPipeline : Call → Bool
  | fixup .. | validate .. | notice .. => true
  | _ => false

/-- Where no call belongs to a leaf's pipeline there is no notice. -/
theorem Call.notices_eq_nil {calls : List Call} (h : calls.filter Call.isPipeline = []) :
    calls.filterMap Call.notice? = [] := by
  rw [List.filter_eq_nil_iff] at h
  rw [List.filterMap_eq_nil_iff]
  intro call hcall
  cases call with
  | notice => exact absurd rfl (h _ hcall)
  | _ => rfl

namespace Limits

/-- No call and no error of a leaf's pipeline. -/
def silent (log : ρ → List Call) : Limits ρ where
  errors e := e.kind.isPipeline = false
  moves p q := ∃ made, log q = log p ++ made ∧ made.filter Call.isPipeline = []
  error e h := by
    unfold ErrorKind.isPlain at h
    split at h
    · cases h
    · simpa using h
  refl p := ⟨[], (List.append_nil _).symm, rfl⟩
  trans := by
    rintro p q r ⟨made, hmade, hsilent⟩ ⟨made', hmade', hsilent'⟩
    refine ⟨made ++ made', ?_, ?_⟩
    · rw [hmade', hmade, List.append_assoc]
    · rw [List.filter_append, hsilent, hsilent', List.append_nil]

theorem Heeded.logs {log : ρ → List Call} {r : Run SettingsError ρ α} (h : (silent log).Heeded r) :
    r.Logs log Call.isPipeline fun calls result =>
      calls = [] ∧ ∀ e, result = .error e → e.kind.isPipeline = false := by
  intro p
  obtain ⟨⟨made, hmade, hsilent⟩, herror⟩ := h p
  exact ⟨made, hmade, hsilent, herror⟩

theorem moved_logged {ε : Type} {call : Except ε α → Call} (h : ∀ r, (call r).isPipeline = false)
    (r : Run ε σ α) : (silent Prod.fst).Moved (r.logged call) := by
  refine fun p => ⟨[call (r p.2).1], rfl, ?_⟩
  rw [List.filter_cons, h]
  rfl

end Limits

open Limits

private theorem forall_map {α β : Type} {o : Option α} {f : α → β} {P : β → Prop}
    (h : ∀ a, P (f a)) : ∀ b, o.map f = some b → P b := by
  intro b hb
  obtain ⟨a, -, rfl⟩ := Option.map_eq_some_iff.1 hb
  exact h a

theorem LeafRules.recorded_uses (rules : LeafRules σ) (place : Place) :
    (rules.recorded place).Uses (silent Prod.fst).Moved where
  initial := forall_map fun f => moved_logged (fun _ => rfl) f
  mapType := forall_map fun f v => moved_logged (fun _ => rfl) (f v)

theorem NamespaceRules.recorded_uses (rules : NamespaceRules σ) (place : Place) :
    (rules.recorded place).Uses (silent Prod.fst).Moved where
  shorthand := forall_map fun f v => moved_logged (fun _ => rfl) (f v)
  seed := forall_map fun f => moved_logged (fun _ => rfl) f
  mapper := forall_map fun f v pos => moved_logged (fun _ => rfl) (f v pos)

/-- All callbacks of a recorded specification but those of leaves' pipelines are silent. -/
theorem Specifier.recorded_uses (s : Specifier σ) (place : Place) :
    (s.translate (recorder σ) place).Uses (silent Prod.fst).Moved (silent Prod.fst).Heeded := by
  induction s generalizing place with
  | leaf rules => exact .leaf (rules.recorded_uses place)
  | ns rules specs ih =>
    refine .ns (rules.recorded_uses place) fun k s hk => ?_
    rw [get?_translateFields] at hk
    obtain ⟨s, hs, rfl⟩ := Option.map_eq_some_iff.1 hk
    exact ih k s hs _
  | record starters entry ih =>
    exact .record (forall_map fun f => moved_logged (fun _ => rfl) f)
      (fun _ _ path => heeded_fail rfl) (ih _)

theorem Namespace.recorded_uses (n : Namespace σ) :
    (n.translate (recorder σ)).toSpecifier.Uses (silent Prod.fst).Moved
      (silent Prod.fst).Heeded := by
  rw [Namespace.translate_toSpecifier]
  exact n.toSpecifier.recorded_uses []

end Settings
