import ClockTree.Proofs.Binary64.Order
import ClockTree.Proofs.ExactLegality
import ClockTree.Proofs.Rows

/-! Legality against the remark on unstable RAM dividers. A RAM divider of 1 leaves the CPU divider
no choice but 1, so both clocks are the PLL output. Past the threshold that is a fast CPU running at
the RAM clock, which takes the divider set aside for it; while that is not 1 and fast clocks begin
no later than the threshold, no legal configuration is flagged. -/
namespace ClockTree.Limits

variable {l : Limits} {f : Config}

theorem cpuDiv_eq_one_of_ramDiv (legal : l.Legal f) (one : f.ramDiv = 1) : f.cpuDiv = 1 := by
  have divides := ((dividersMatch_iff legal.cpuDiv_ne).mp legal.dividers).1
  rw [one] at divides
  exact UInt32.toNat_inj.mp (Nat.dvd_one.mp divides)

theorem not_flagsRamDivider_of_legal (coupled : l.coupledCpuDiv ≠ 1)
    (fast_le : l.fastCpuMhz ≤ .ofNat l.unstableRamDivPllMhz.toNat) (legal : l.Legal f) :
    ¬ l.FlagsRamDivider f := by
  rintro ⟨past, one⟩
  have cpuDiv_one := cpuDiv_eq_one_of_ramDiv legal one
  have same_clock : f.cpu = f.ram := by rw [Config.cpu, Config.ram, cpuDiv_one, one]
  have one_exact : IsExactDivider 1 := ⟨0, 0, Nat.zero_le 1, rfl⟩
  have cpu_value : f.cpu.Represents (f.pll / (1 : UInt32).toNat) := by
    rw [Config.cpu, cpuDiv_one]
    exact Config.represents_pll_div legal.pllFits one_exact
  have past_cpu : .ofNat l.unstableRamDivPllMhz.toNat < f.cpu := by
    rw [cpu_value.ofNat_lt_iff (toNat_lt_two_pow _)]
    simpa using past
  have fast : l.fastCpuMhz ≤ f.cpu :=
    Binary64.le_of_lt (Binary64.lt_of_le_of_lt fast_le past_cpu)
  have eqv : f.cpu.Eqv f.ram := by
    rw [← same_clock, Binary64.eqv_iff_toRat_eq cpu_value.ne_nan cpu_value.ne_nan]
  have suits := legal.suits
  rw [CpuDividerSuits, if_pos fast, if_pos eqv, cpuDiv_one] at suits
  exact coupled suits.symm

/-- While coupled fast CPUs take a divider other than 1, and clocks are fast from the flagging
threshold on, what is legal is not flagged, and no row of an enumerated table is. -/
theorem legal_not_classified_unstable (coupled : l.coupledCpuDiv ≠ 1)
    (fast_le : l.fastCpuMhz ≤ .ofNat l.unstableRamDivPllMhz.toNat) :
    (∀ f, l.permits f = .ok true → l.classify f ≠ .ok .unstableRamDivider) ∧
      ∀ table, Table.ofLimits l = .ok table →
        ∀ row ∈ table.rows, row.note ≠ .unstableRamDivider := by
  constructor
  · intro f permitted classified
    exact not_flagsRamDivider_of_legal coupled fast_le (permits_eq_true_iff.mp permitted)
      (classify_eq_unstable_iff.mp classified).2
  · intro table rendered row mem flagged
    obtain ⟨configs, f, enumerated, f_mem, annotated⟩ := Table.exists_of_mem_rows rendered mem
    obtain ⟨-, -, classified⟩ := Row.ofConfig_eq_ok_iff.mp annotated
    rw [flagged] at classified
    exact not_flagsRamDivider_of_legal coupled fast_le (legal_of_mem_enumerate enumerated f_mem)
      (classify_eq_unstable_iff.mp classified).2

theorem legal_not_classified_unstable_standard :
    standard.coupledCpuDiv ≠ 1 ∧
      standard.fastCpuMhz ≤ .ofNat standard.unstableRamDivPllMhz.toNat ∧
      standard.permits ⟨30, 2, 2⟩ = .ok true ∧
      standard.classify ⟨30, 2, 2⟩ ≠ .ok .unstableRamDivider ∧
      ∃ table, Table.ofLimits standard = .ok table ∧
        ∀ row ∈ table.rows, row.note ≠ .unstableRamDivider := by
  have fast_le : standard.fastCpuMhz ≤ .ofNat standard.unstableRamDivPllMhz.toNat := by
    decide +kernel
  have permitted : standard.permits ⟨30, 2, 2⟩ = .ok true := by decide +kernel
  have unflagged := legal_not_classified_unstable (l := standard) (by decide) fast_le
  obtain ⟨table, rendered⟩ :=
    Table.exists_ofLimits standard_wellFormed standard_topFits (by decide)
  exact ⟨by decide, fast_le, permitted, unflagged.1 _ permitted, table, rendered,
    unflagged.2 table rendered⟩

end ClockTree.Limits
