import Settings.Proofs.Completeness
import Settings.Proofs.Recording

/-!
# The notices of recorded runs

Two recorded runs are compared by the notices of repairs that they hand on, and otherwise their
hosts may be in any states: with determined callbacks the host has no say in a result. Calls that
are no notices may differ. A comparison may also name calls with which it is lost.
-/

set_option autoImplicit false

namespace Settings

variable {σ : Type} {Lost : Call → Prop}

/-- The hosts have been handed the same notices. The comparison is lost with certain calls. -/
def noting (σ : Type) (Lost : Call → Prop) : Link (List Call × σ) (List Call × σ) where
  hosts p q := p.1.filterMap Call.notice? = q.1.filterMap Call.notice?
  lost p := ∃ call ∈ p.1, Lost call

theorem logged_stays {ε α : Type} (call : Except ε α → Call) (r : Run ε σ α)
    (p : List Call × σ) (hp : (noting σ Lost).lost p) :
    (noting σ Lost).lost (r.logged call p).2 := by
  obtain ⟨losing, hmem, hlost⟩ := hp
  exact ⟨losing, List.mem_append_left _ hmem, hlost⟩

theorem logged_same {ε α : Type} (call : Except ε α → Call) {r : Run ε σ α}
    (h : r.Determined) : (noting σ Lost).Same (r.logged call) (r.logged call) := by
  refine ⟨logged_stays call r, ?_⟩
  intro _ p q hpq
  have hresult := h p.2 q.2
  have hnotices : (noting σ Lost).hosts (r.logged call p).2 (r.logged call q).2 := by
    show (p.1 ++ [call (r p.2).1]).filterMap Call.notice? =
      (q.1 ++ [call (r q.2).1]).filterMap Call.notice?
    rw [List.filterMap_append, List.filterMap_append, hresult]
    exact congrArg (· ++ _) hpq
  have hfirst : (r.logged call p).1 = (r.logged call q).1 := hresult
  rcases hp : r.logged call p with ⟨e | a, p'⟩ <;> rcases hq : r.logged call q with ⟨e' | b, q'⟩ <;>
    rw [hp, hq] at hnotices hfirst <;> cases hfirst
  · exact .error hnotices
  · exact .ok rfl hnotices

theorem LeafRules.Determined.recorded_agree {rules : LeafRules σ} (h : rules.Determined)
    (place : Place) :
    (rules.recorded place).Agree (noting σ Lost) (rules.recorded place) where
  initial := rel_map fun r hr => logged_same _ (h.initial r hr)
  validate := rel_map fun f hf v => logged_same _ (h.validate f hf v)
  fixup := rel_map fun f hf v => logged_same _ (h.fixup f hf v)
  mapType := rel_map fun f hf v => logged_same _ (h.mapType f hf v)
  shadow := rfl

/-- Data that is the same is mapped alike. -/
theorem NamespaceRules.Determined.recorded_agree_self {rules : NamespaceRules σ}
    (h : rules.Determined) (s : Specifier σ) (place : Place) :
    (rules.recorded place).Agree (noting σ Lost) (fun _ _ => False) s place
      (rules.recorded place) where
  shorthand := rel_map fun f hf v => logged_same _ (h.shorthand f hf v)
  seed := rel_map fun r hr => logged_same _ (h.seed r hr)
  mapper d₁ d₂ pos isEntry := by
    have hsame : (noting σ Lost).Same ((rules.recorded place).runMapper d₁ pos isEntry)
        ((rules.recorded place).runMapper d₁ pos isEntry) := by
      unfold NamespaceRules.runMapper NamespaceRules.recorded
      cases hmapper : rules.mapper with
      | none => exact Link.alike_pure fun _ => rfl
      | some f =>
        exact ((logged_same _ (h.mapper f hmapper _ _)).mapError _).bind_same fun v =>
          Link.alike_ofOption _ _
    refine .under hsame.stays fun hd => ?_
    obtain rfl := hd.eq
    refine hsame.imp id ?_
    rintro - m _ rfl
    exact .refl _

/-- Recorded twice, a specification with determined callbacks runs alike. -/
theorem Specifier.Determined.recorded_agree {s : Specifier σ} (h : s.Determined) (place : Place) :
    s.Agree (noting σ Lost) (fun _ _ => False) (recorder σ) (recorder σ) place := by
  induction s generalizing place with
  | leaf rules => exact .leaf ((Specifier.everywhere_leaf.1 h).recorded_agree place)
  | ns rules specs ih =>
    obtain ⟨hrules, hspecs⟩ := Specifier.everywhere_ns.1 h
    exact .ns (hrules.recorded_agree_self _ place) fun k s hk => ih k s hk (hspecs k s hk) _
  | record starters entry ih =>
    obtain ⟨hstarters, hentry⟩ := Specifier.everywhere_record.1 h
    exact .record (rel_map fun r hr => logged_same _ (hstarters r hr)) (ih hentry _)

theorem Options.Determined.recorded_report {options : Options σ} (h : options.Determined)
    (notice : FixupNotice) :
    (noting σ Lost).Same (options.recorded.report notice)
      (options.recorded.report notice) := by
  have hhandle : (options.handle notice).Determined := by
    unfold Options.handle
    split
    · next hook hhook => exact h hook hhook notice
    · exact options.logFixup_determined notice
  rw [Options.report_eq]
  exact (logged_same (.notice notice) hhandle).mapError _

end Settings
