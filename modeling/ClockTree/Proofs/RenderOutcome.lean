import ClockTree.Proofs.Rows

/-! Where a table cannot be rendered. Annotation can stop at two PLL outputs only, that of the
configuration and the nominal one, and a table stops exactly where the annotation of one of its
configurations does. Dividers are no part of it: a divider of zero makes a clock infinite or NaN, and
such clocks are compared and written like any other. -/
namespace ClockTree.Table

/-- Annotation fails on a PLL output that does not fit, or past the first rule on a nominal one. A
table fails with one of its configurations, whatever the dividers, and is never without a header. -/
theorem render_fault_iff (l : Limits) :
    (∀ f fault, l.classify f = .error fault ↔
      fault = .pllOverflow ∧ (¬ f.PllFits ∨ ¬ l.nominal.PllFits ∧ ¬ l.FlagsRamDivider f)) ∧
    (∀ configs fault, ofConfigs l configs = .error fault ↔
      ∃ f ∈ configs, l.classify f = .error fault) ∧
    (∀ configs, (∀ f ∈ configs, f.PllFits) → l.nominal.PllFits →
      (∀ f ∈ configs, ∃ note, l.classify f = .ok note) ∧
        ∃ table, ofConfigs l configs = .ok table) ∧
    (ofConfigs l []).map text = .ok (header ++ "\n") := by
  refine ⟨fun f fault => Limits.classify_eq_error_iff, fun configs fault => ofConfigs_eq_error_iff,
    ?fitting, ?empty⟩
  case fitting =>
    intro configs fits nominal_fits
    have classified : ∀ f ∈ configs, ∃ note, l.classify f = .ok note :=
      fun f mem => ⟨l.note f, Limits.classify_eq_ok (fits f mem) nominal_fits⟩
    exact ⟨classified, exists_ofConfigs classified⟩
  case empty =>
    rfl

/-- Under a nominal configuration that does not fit, a flagged configuration is still annotated, and
the next one stops the table. Under the built-in nominal configuration zero dividers stop nothing. -/
theorem render_fault_iff_at_unfit_nominal :
    let unfit := { Limits.standard with nominal := ⟨400000000, 1, 3⟩ }
    let flagged : Config := ⟨400, 0, 1⟩
    let stopped : Config := ⟨0, 0, 0⟩
    let running : Config := ⟨30, 0, 0⟩
    (∃ table, ofConfigs unfit [flagged] = .ok table) ∧
      ofConfigs unfit [flagged, running] = .error .pllOverflow ∧
      ∃ table, ofConfigs .standard [stopped, running] = .ok table := by
  intro unfit flagged stopped running
  have unfit_nominal : ¬ unfit.nominal.PllFits := by decide
  have first_rule : unfit.FlagsRamDivider flagged := by decide
  have no_rule : ¬ unfit.FlagsRamDivider running := by decide
  have fits : ∀ f ∈ [stopped, running], f.PllFits := by decide
  obtain ⟨classify_iff, render_iff, -, -⟩ := render_fault_iff unfit
  obtain ⟨-, -, renders, -⟩ := render_fault_iff .standard
  refine ⟨?_, ?_, (renders _ fits (by decide)).2⟩
  · rw [exists_eq_ok_iff]
    intro fault failed
    obtain ⟨f, mem, fails⟩ := (render_iff _ fault).mp failed
    obtain rfl := List.mem_singleton.mp mem
    obtain ⟨-, overflow | ⟨-, unflagged⟩⟩ := (classify_iff _ fault).mp fails
    · exact overflow (by decide)
    · exact unflagged first_rule
  · refine (render_iff _ _).mpr ⟨running, by simp, ?_⟩
    exact (classify_iff _ _).mpr ⟨rfl, .inr ⟨unfit_nominal, no_rule⟩⟩

end ClockTree.Table
