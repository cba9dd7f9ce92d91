import ClockTree.Legality
import ClockTree.Proofs.Outcome

/-! The outcomes of the legality check. `Limits.Legal` names the conjunction that the ordered
checks amount to. A check has no answer only on a PLL output that does not fit or on a CPU
divider of zero. -/
namespace ClockTree.Limits

structure Legal (l : Limits) (f : Config) : Prop where
  pllFits : f.PllFits
  cpu_le : ¬ l.cpuMaxMhz < f.cpu
  ram_le : ¬ l.ramMaxMhz < f.ram
  inBand : l.InPllBand f.pllMhz
  cpuDiv_ne : f.cpuDiv ≠ 0
  dividers : l.DividersMatch f
  suits : l.CpuDividerSuits f

theorem legal_iff {l : Limits} {f : Config} : l.Legal f ↔
    f.PllFits ∧ ¬ l.cpuMaxMhz < f.cpu ∧ ¬ l.ramMaxMhz < f.ram ∧ l.InPllBand f.pllMhz ∧
      f.cpuDiv ≠ 0 ∧ l.DividersMatch f ∧ l.CpuDividerSuits f := by
  constructor
  · rintro ⟨fits, cpu, ram, band, nonzero, dividers, suits⟩
    exact ⟨fits, cpu, ram, band, nonzero, dividers, suits⟩
  · rintro ⟨fits, cpu, ram, band, nonzero, dividers, suits⟩
    exact ⟨fits, cpu, ram, band, nonzero, dividers, suits⟩

instance (l : Limits) (f : Config) : Decidable (l.Legal f) :=
  decidable_of_decidable_of_iff legal_iff.symm

theorem permits_eq_true_iff {l : Limits} {f : Config} : l.permits f = .ok true ↔ l.Legal f := by
  rw [permits]
  constructor
  · intro permitted
    split at permitted
    · cases permitted
    split at permitted
    · cases permitted
    split at permitted
    · cases permitted
    split at permitted
    · cases permitted
    next fits ceilings band nonzero =>
      have both := of_decide_eq_true (Except.ok.inj permitted)
      exact ⟨not_not.mp fits, fun above => ceilings (.inl above),
        fun above => ceilings (.inr above), not_not.mp band, nonzero, both.1, both.2⟩
  · intro legal
    rw [if_neg (not_not_intro legal.pllFits), if_neg (not_or.mpr ⟨legal.cpu_le, legal.ram_le⟩),
      if_neg (not_not_intro legal.inBand), if_neg legal.cpuDiv_ne,
      decide_eq_true ⟨legal.dividers, legal.suits⟩]

instance (l : Limits) (f : Config) : Decidable (l.permits f = .ok true) :=
  decidable_of_decidable_of_iff permits_eq_true_iff.symm

/-- The two faults of a check, each with all that has to be passed before it. -/
theorem permits_eq_error_iff {l : Limits} {f : Config} {fault : Fault} :
    l.permits f = .error fault ↔
      fault = .pllOverflow ∧ ¬ f.PllFits ∨
      fault = .zeroCpuDivider ∧ f.PllFits ∧ ¬ (l.cpuMaxMhz < f.cpu ∨ l.ramMaxMhz < f.ram) ∧
        l.InPllBand f.pllMhz ∧ f.cpuDiv = 0 := by
  rw [permits]
  split
  next overflow => simp [overflow, eq_comm]
  split
  next ceilings => simp_all
  split
  next band => simp_all
  split
  next zero => simp_all [eq_comm]
  next nonzero => simp_all

theorem exists_permits_eq_ok (l : Limits) {f : Config} (fits : f.PllFits)
    (nonzero : f.cpuDiv ≠ 0) : ∃ legal, l.permits f = .ok legal := by
  rw [exists_eq_ok_iff]
  intro fault failed
  rcases permits_eq_error_iff.mp failed with ⟨-, overflow⟩ | ⟨-, -, -, -, zero⟩
  · exact overflow fits
  · exact nonzero zero

/-- The check answers, and its answer is legality. -/
theorem permits_eq_decide (l : Limits) {f : Config} (fits : f.PllFits) (nonzero : f.cpuDiv ≠ 0) :
    l.permits f = .ok (decide (l.Legal f)) := by
  obtain ⟨answer, permits_eq⟩ := l.exists_permits_eq_ok fits nonzero
  rw [permits_eq, Except.ok.injEq, Bool.eq_iff_iff, decide_eq_true_iff, ← permits_eq_true_iff,
    permits_eq, Except.ok.injEq]

end ClockTree.Limits
