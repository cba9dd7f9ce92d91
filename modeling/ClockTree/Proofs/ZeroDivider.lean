import ClockTree.Proofs.Binary64.Order
import ClockTree.Proofs.Clocks
import ClockTree.Proofs.Legality

/-! Zero dividers in the legality check. A CPU divider of zero is no fault in itself: the CPU clock
is then infinite, or NaN when the PLL output is zero too, and the check divides by it only after both
ceilings and the band have let the clocks pass. An infinite clock is past every finite ceiling, and a
PLL output of zero is outside every band that begins above it. -/
namespace ClockTree

theorem Config.cpu_of_cpuDiv_zero {f : Config} (fits : f.PllFits) (zero : f.cpuDiv = 0) :
    f.cpu = if f.pll = 0 then .nan else .infinity := by
  rw [cpu, zero]
  exact Binary64.ofNat_div_zero (Nat.lt_trans fits (by decide))

namespace Limits

variable {l : Limits} {f : Config}

/-- The CPU divider is zero, and no check that comes before the division by it is against the
configuration. -/
structure MeetsZeroDivider (l : Limits) (f : Config) : Prop where
  cpuDiv_zero : f.cpuDiv = 0
  pll_ge : l.pllMinMhz.toNat ≤ f.pll
  pll_le : f.pll ≤ l.pllMaxMhz.toNat
  ram_le : ¬ l.ramMaxMhz < f.ram
  cpu_le : ¬ l.cpuMaxMhz < f.cpu

theorem permits_eq_pllOverflow_iff : l.permits f = .error .pllOverflow ↔ ¬ f.PllFits := by
  simp [permits_eq_error_iff]

theorem permits_eq_zeroCpuDivider_iff :
    l.permits f = .error .zeroCpuDivider ↔ f.PllFits ∧ l.MeetsZeroDivider f := by
  rw [permits_eq_error_iff]
  constructor
  · rintro (⟨other, -⟩ | ⟨-, fits, ceilings, inBand, zero⟩)
    · cases other
    · obtain ⟨cpu_le, ram_le⟩ := not_or.mp ceilings
      obtain ⟨pll_ge, pll_le⟩ := (l.inPllBand_ofNat fits).mp inBand
      exact ⟨fits, zero, pll_ge, pll_le, ram_le, cpu_le⟩
  · rintro ⟨fits, zero, pll_ge, pll_le, ram_le, cpu_le⟩
    have inBand : l.InPllBand f.pllMhz := (l.inPllBand_ofNat fits).mpr ⟨pll_ge, pll_le⟩
    exact .inr ⟨rfl, fits, not_or.mpr ⟨cpu_le, ram_le⟩, inBand, zero⟩

/-- A check without one of the two faults answers. -/
theorem exists_permits_eq_ok_iff :
    (∃ legal, l.permits f = .ok legal) ↔ f.PllFits ∧ ¬ l.MeetsZeroDivider f := by
  rw [exists_eq_ok_iff]
  constructor
  · intro answers
    have fits : f.PllFits := by
      by_contra overflow
      exact answers _ (permits_eq_pllOverflow_iff.mpr overflow)
    exact ⟨fits, fun meets => answers _ (permits_eq_zeroCpuDivider_iff.mpr ⟨fits, meets⟩)⟩
  · rintro ⟨fits, unmet⟩ fault failed
    rcases permits_eq_error_iff.mp failed with ⟨-, overflow⟩ | ⟨rfl, -⟩
    · exact overflow fits
    · exact unmet (permits_eq_zeroCpuDivider_iff.mp failed).2

/-- An infinite CPU clock is past a finite ceiling, and a NaN one comes with a PLL output of zero. -/
theorem not_meetsZeroDivider (finite : l.cpuMaxMhz.IsFinite) (band_pos : 1 ≤ l.pllMinMhz)
    (fits : f.PllFits) : ¬ l.MeetsZeroDivider f := by
  intro meets
  have edge_pos : 1 ≤ l.pllMinMhz.toNat := UInt32.le_iff_toNat_le.mp band_pos
  have pll_ne : f.pll ≠ 0 := Nat.ne_of_gt (edge_pos.trans meets.pll_ge)
  have infinite : f.cpu = .infinity := by
    simp [Config.cpu_of_cpuDiv_zero fits meets.cpuDiv_zero, pll_ne]
  exact meets.cpu_le (infinite ▸ Binary64.lt_infinity finite)

/-- Under a finite CPU ceiling and a positive lower band edge a CPU divider of zero is rejected
before it is divided by. -/
theorem permits_of_cpuDiv_zero (finite : l.cpuMaxMhz.IsFinite) (band_pos : 1 ≤ l.pllMinMhz)
    (fits : f.PllFits) (zero : f.cpuDiv = 0) : l.permits f = .ok false := by
  obtain ⟨legal, checked⟩ :=
    exists_permits_eq_ok_iff.mpr ⟨fits, not_meetsZeroDivider finite band_pos fits⟩
  cases legal with
  | false => exact checked
  | true => exact absurd zero (permits_eq_true_iff.mp checked).cpuDiv_ne

/-- The check stops at a PLL output that does not fit and, if it fits, at a CPU divider of zero that
the ceilings and the band let pass, where the CPU clock is infinite or NaN. On everything else it
answers. A finite CPU ceiling and a band that begins above zero, as in the built-in table, let no
zero divider pass. -/
theorem permits_fault_iff (l : Limits) (f : Config) :
    (l.permits f = .error .pllOverflow ↔ ¬ f.PllFits) ∧
      (l.permits f = .error .zeroCpuDivider ↔ f.PllFits ∧ l.MeetsZeroDivider f) ∧
      ((∃ legal, l.permits f = .ok legal) ↔ f.PllFits ∧ ¬ l.MeetsZeroDivider f) ∧
      (f.PllFits → f.cpuDiv = 0 → f.cpu = if f.pll = 0 then .nan else .infinity) ∧
      (l.cpuMaxMhz.IsFinite → 1 ≤ l.pllMinMhz → l.permits f ≠ .error .zeroCpuDivider) ∧
      standard.permits f ≠ .error .zeroCpuDivider := by
  have never {l : Limits} (finite : l.cpuMaxMhz.IsFinite) (band_pos : 1 ≤ l.pllMinMhz) :
      l.permits f ≠ .error .zeroCpuDivider := by
    intro stopped
    obtain ⟨fits, meets⟩ := permits_eq_zeroCpuDivider_iff.mp stopped
    exact not_meetsZeroDivider finite band_pos fits meets
  exact ⟨permits_eq_pllOverflow_iff, permits_eq_zeroCpuDivider_iff, exists_permits_eq_ok_iff,
    Config.cpu_of_cpuDiv_zero, never, never (by decide +kernel) (by decide)⟩

/-- An infinite ceiling lets an infinite CPU clock pass, and any ceiling the NaN at a PLL output of
zero, in a band that begins there. The built-in table rejects both. -/
theorem permits_fault_iff_at_zero_divider :
    let stopped : Config := ⟨0, 0, 3⟩
    let running : Config := ⟨30, 0, 3⟩
    let grounded := { standard with pllMinMhz := 0 }
    let unlimited := { standard with cpuMaxMhz := .infinity }
    stopped.PllFits ∧ stopped.cpu = .nan ∧ grounded.permits stopped = .error .zeroCpuDivider ∧
      running.PllFits ∧ running.cpu = .infinity ∧
      unlimited.permits running = .error .zeroCpuDivider ∧
      standard.cpuMaxMhz.IsFinite ∧ 1 ≤ standard.pllMinMhz ∧
      standard.permits running ≠ .error .zeroCpuDivider := by
  intro stopped running grounded unlimited
  have stopped_meets : grounded.MeetsZeroDivider stopped :=
    ⟨rfl, by decide, by decide, by decide +kernel, by decide +kernel⟩
  have running_meets : unlimited.MeetsZeroDivider running :=
    ⟨rfl, by decide, by decide, by decide +kernel, by decide +kernel⟩
  have stopped_fits : stopped.PllFits := by decide
  have running_fits : running.PllFits := by decide
  have finite : standard.cpuMaxMhz.IsFinite := by decide +kernel
  have band_pos : 1 ≤ standard.pllMinMhz := by decide
  obtain ⟨-, stopped_iff, -, stopped_cpu, -⟩ := permits_fault_iff grounded stopped
  obtain ⟨-, running_iff, -, running_cpu, -⟩ := permits_fault_iff unlimited running
  obtain ⟨-, -, -, -, never, -⟩ := permits_fault_iff standard running
  exact ⟨stopped_fits, stopped_cpu stopped_fits rfl, stopped_iff.mpr ⟨stopped_fits, stopped_meets⟩,
    running_fits, running_cpu running_fits rfl, running_iff.mpr ⟨running_fits, running_meets⟩, finite,
    band_pos, never finite band_pos⟩

end Limits

end ClockTree
