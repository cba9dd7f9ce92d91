import ClockTree.Proofs.Enumeration

/-! Outcomes of a search. Validation answers first. A validated table holds no divider of zero, so
its search can only be stopped by a PLL output that does not fit; it meets one exactly if the
largest multiplier gives one, since the outputs grow with the multiplier. -/
namespace ClockTree

namespace Limits

variable {l : Limits}

/-- A candidate of a validated table is at fault for its PLL output alone. -/
theorem WellFormed.eq_pllOverflow (valid : l.WellFormed) {f : Config} (mem : f ∈ l.candidates)
    {fault : Fault} (stopped : l.permits f = .error fault) : fault = .pllOverflow := by
  rcases permits_eq_error_iff.mp stopped with ⟨overflow, _⟩ | ⟨_, _, _, _, zero⟩
  · exact overflow
  · exact absurd zero (valid.ne_zero (mem_candidates.mp mem).2.1)

/-- The largest multiplier has a candidate, whatever the dividers are. -/
theorem WellFormed.exists_top_candidate (valid : l.WellFormed) :
    ∃ f ∈ l.candidates, f.pllMul = l.pllMulMax := by
  obtain ⟨d, mem⟩ := List.exists_mem_of_ne_nil _ valid.dividers_ne
  refine ⟨⟨l.pllMulMax, d, d⟩, mem_candidates.mpr ⟨⟨valid.multipliers_le, ?_⟩, mem, mem⟩, rfl⟩
  exact UInt32.le_refl _

theorem WellFormed.legalCandidates_eq_error (valid : l.WellFormed) (overflow : ¬ l.TopFits) :
    l.legalCandidates = .error .pllOverflow := by
  obtain ⟨f, mem, top⟩ := valid.exists_top_candidate
  have unfit : ¬ f.PllFits := by
    rw [Config.PllFits, Config.pll, top]
    exact overflow
  rw [legalCandidates_eq]
  apply filterM_eq_error
  · exact fun g g_mem fault stopped => valid.eq_pllOverflow g_mem stopped
  · exact ⟨f, mem, permits_eq_error_iff.mpr (.inl ⟨rfl, unfit⟩)⟩

/-- What a search ends in, from the validation of its table and its largest multiplier. -/
theorem enumerate_eq (l : Limits) :
    l.enumerate = match l.validate with
      | .error error => .error (.limits error)
      | .ok () =>
        if l.TopFits then .ok (Config.ranked l.accepted) else .error (.fault .pllOverflow) := by
  cases validated : l.validate with
  | error error => simp [enumerate, validated]
  | ok =>
    have valid := validate_eq_ok_iff.mp validated
    by_cases fits : l.TopFits
    · simp [valid.enumerate_eq_ok fits, fits]
    · simp [enumerate, validated, valid.legalCandidates_eq_error fits, fits, Except.bind,
        Except.mapError]

/-- A search ends in one of three ways. An invalid table is reported as validation reports it,
whatever its multipliers; a validated one ends in rows or, exactly if the PLL output of its
largest multiplier does not fit, in that fault. It never gets to divide by zero. -/
theorem enumerate_outcome (l : Limits) :
    (∀ error, l.enumerate = .error (.limits error) ↔ l.validate = .error error) ∧
      (∀ fault, l.enumerate = .error (.fault fault) ↔
        fault = .pllOverflow ∧ l.validate = .ok () ∧ ¬ l.TopFits) ∧
      ((∃ rows, l.enumerate = .ok rows) ↔ l.validate = .ok () ∧ l.TopFits) ∧
      l.enumerate ≠ .error (.fault .zeroCpuDivider) := by
  rw [enumerate_eq]
  cases l.validate with
  | error error => simp
  | ok =>
    by_cases fits : l.TopFits
    · simp [fits]
    · simp [fits, eq_comm]

/-- The empty divider list is reported, although no multiplier fits. -/
example : enumerate { standard with dividers := [], pllMulMin := 400000000, pllMulMax := 400000000 } =
    .error (.limits .noDividers) := rfl

end Limits

end ClockTree
