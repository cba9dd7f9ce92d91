import ClockTree.Proofs.Binary64.Approximation
import ClockTree.Proofs.ExactLegality

/-! Clocks without rounding. A divider that is a power of two, or three times one, leaves the CPU and
RAM clocks exact, and multiplies them back to the PLL output. The storage rates are rounded, but alike:
their factors differ by two, which moves the exponent of a number and none of its digits, so one rate
is exactly twice the other. -/
namespace ClockTree.Config

open Magnitude (round value_round_le value_round_mul_two_pow)

variable {f : Config}

structure IsExactClock (f : Config) (clock : Binary64) (d : UInt32) : Prop where
  quotient : clock.Represents (12 * f.pllMul.toNat / d.toNat)
  product : clock * .ofNat d.toNat = .ofNat f.pll

theorem isExactClock (fits : f.PllFits) {d : UInt32} (exact : IsExactDivider d) :
    f.IsExactClock (f.pllMhz / .ofNat d.toNat) d := by
  have quotient := represents_pll_div fits exact
  rw [pll, baseClockMhz, Nat.cast_mul, Nat.cast_ofNat] at quotient
  exact ⟨quotient, pll_div_mul_self fits exact⟩

section StorageRates

variable (fits : f.PllFits)
include fits

theorem represents_storageRate (factor : Nat) (factor_le : factor ≤ 48) :
    (.ofNat factor * f.pllMhz / 360 : Binary64).Represents
      (round ((factor * f.pll : Nat) / (360 : Nat))).value := by
  have pll_small : f.pll < 2 ^ 32 := fits
  have scaled_le : factor * f.pll ≤ 48 * f.pll := Nat.mul_le_mul_right _ factor_le
  have quotient_le : ((factor * f.pll : Nat) / (360 : Nat) : ℚ) ≤ (factor * f.pll : Nat) :=
    div_le_self (Nat.cast_nonneg _) (by norm_num)
  exact ⟨_, storageRate_eq fits factor_le, rfl, (value_round_le (by omega) quotient_le).2⟩

/-- Both storage rates have the same digits. -/
theorem value_round_storageRates :
    (round ((48 * f.pll : Nat) / (360 : Nat))).value =
      2 * (round ((24 * f.pll : Nat) / (360 : Nat))).value := by
  have pll_small : f.pll < 2 ^ 32 := fits
  have doubled : ((48 * f.pll : Nat) / (360 : Nat) : ℚ) =
      (24 * f.pll : Nat) / (360 : Nat) * 2 ^ 1 := by
    push_cast
    ring
  rcases Nat.eq_zero_or_pos f.pll with stopped | running
  · have value_zero := (Magnitude.value_ofNat (n := 0) (by decide)).1
    rw [Magnitude.ofNat_eq_round, Nat.cast_zero] at value_zero
    simp [stopped, value_zero]
  · have normal : Magnitude.IsNormal ((24 * f.pll : Nat) / (360 : Nat)) :=
      Binary64.isNormal_div (by omega) (by omega) (by decide) (by decide)
    have normal2 : Magnitude.IsNormal ((48 * f.pll : Nat) / (360 : Nat)) :=
      Binary64.isNormal_div (by omega) (by omega) (by decide) (by decide)
    rw [doubled] at normal2 ⊢
    rw [value_round_mul_two_pow normal normal2, pow_one, mul_comm]

/-- Whatever one rate is rounded to, the other is twice that. -/
theorem exists_represents_storageRates :
    ∃ q, f.msd.Represents q ∧ f.msd2.Represents (2 * q) := by
  refine ⟨_, represents_storageRate fits 24 (by decide), ?_⟩
  rw [← value_round_storageRates fits]
  exact represents_storageRate fits 48 (by decide)

end StorageRates

/-- All clocks answer. Those of exact dividers are the rational quotients and multiply back to the PLL
output, and the rate of the high-capacity interface is twice the standard one, as a number and as a
product. -/
theorem clocks_exact (fits : f.PllFits) :
    ∃ clocks, f.clocks = .ok clocks ∧
      (IsExactDivider f.cpuDiv → f.IsExactClock clocks.cpu f.cpuDiv) ∧
      (IsExactDivider f.ramDiv → f.IsExactClock clocks.ram f.ramDiv) ∧
      clocks.msd2 = 2 * clocks.msd ∧
      ∃ q, clocks.msd.Represents q ∧ clocks.msd2.Represents (2 * q) := by
  obtain ⟨q, msd_value, msd2_value⟩ := exists_represents_storageRates fits
  have two : (2 : Binary64).Represents (2 : Nat) := Binary64.represents_ofNat (by decide)
  have doubled : 2 * f.msd = f.msd2 := two.mul_eq msd_value msd2_value
  exact ⟨⟨f.pll, f.cpu, f.ram, f.msd, f.msd2⟩, if_pos fits, isExactClock fits, isExactClock fits,
    doubled.symm, q, msd_value, msd2_value⟩

/-- The greatest PLL output, with the greatest dividers of both forms. -/
theorem clocks_exact_at_extremes :
    let f : Config := ⟨357913941, 3221225472, 2147483648⟩
    f.PllFits ∧ IsExactDivider f.cpuDiv ∧ IsExactDivider f.ramDiv ∧
      ∃ clocks, f.clocks = .ok clocks ∧ clocks.cpu.Represents (357913941 / 268435456) ∧
        clocks.cpu * .ofNat 3221225472 = .ofNat 4294967292 ∧
        clocks.ram.Represents (1073741823 / 536870912) ∧
        clocks.ram * .ofNat 2147483648 = .ofNat 4294967292 ∧ clocks.msd2 = 2 * clocks.msd := by
  intro f
  have evaluated : f.PllFits ∧ f.pll = 4294967292 ∧ f.pllMul.toNat = 357913941 ∧
      f.cpuDiv.toNat = 3221225472 ∧ f.ramDiv.toNat = 2147483648 := by decide
  clear_value f
  obtain ⟨fits, pll_eq, pllMul_eq, cpuDiv_eq, ramDiv_eq⟩ := evaluated
  have cpu_exact : IsExactDivider f.cpuDiv := ⟨30, 1, by decide, by rw [cpuDiv_eq]; norm_num⟩
  have ram_exact : IsExactDivider f.ramDiv := ⟨31, 0, by decide, by rw [ramDiv_eq]; norm_num⟩
  obtain ⟨clocks, derived, cpu, ram, doubled, -⟩ := clocks_exact fits
  obtain ⟨cpu_value, cpu_back⟩ := cpu cpu_exact
  obtain ⟨ram_value, ram_back⟩ := ram ram_exact
  rw [pllMul_eq, cpuDiv_eq] at cpu_value
  rw [pllMul_eq, ramDiv_eq] at ram_value
  rw [cpuDiv_eq, pll_eq] at cpu_back
  rw [ramDiv_eq, pll_eq] at ram_back
  norm_num at cpu_value ram_value
  exact ⟨fits, cpu_exact, ram_exact, clocks, derived, cpu_value, cpu_back, ram_value, ram_back,
    doubled⟩

end ClockTree.Config
