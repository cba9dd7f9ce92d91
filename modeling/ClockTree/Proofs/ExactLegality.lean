import ClockTree.Proofs.Clocks
import ClockTree.Proofs.Legality

/-! Legality over the rationals. A PLL output is a multiple of 12 MHz, so a divider that is a
power of two, or three times one, divides it without rounding; multiplied by another such
divider the clock still fits a significand. On tables of such dividers the legality check
decides the rational rules themselves. -/
namespace ClockTree

def IsExactDivider (d : UInt32) : Prop := ∃ a b : Nat, b ≤ 1 ∧ d.toNat = 2 ^ a * 3 ^ b

theorem IsExactDivider.ne_zero {d : UInt32} (exact : IsExactDivider d) : d ≠ 0 := by
  rintro rfl
  obtain ⟨a, b, _, zero_eq⟩ := exact
  have positive : 0 < 2 ^ a * 3 ^ b := by positivity
  rw [← zero_eq] at positive
  exact Nat.lt_irrefl _ positive

theorem IsExactDivider.exponent_lt {d : UInt32} {a b : Nat} (form : d.toNat = 2 ^ a * 3 ^ b) :
    a < 32 := by
  have small := d.toNat_lt
  rw [form] at small
  have power_lt : 2 ^ a < 2 ^ 32 :=
    Nat.lt_of_le_of_lt (Nat.le_mul_of_pos_right _ (by positivity)) small
  exact (Nat.pow_lt_pow_iff_right Nat.one_lt_two).mp power_lt

namespace Config

def exactCpu (f : Config) : ℚ := f.pll / f.cpuDiv.toNat

def exactRam (f : Config) : ℚ := f.pll / f.ramDiv.toNat

/-- The factor 12 absorbs the three of a divider, and its power of two remains. -/
theorem exists_pll_div_eq {f : Config} (fits : f.PllFits) {d : UInt32} (exact : IsExactDivider d) :
    ∃ k a : Nat, k < 2 ^ 32 ∧ a < 32 ∧ (f.pll / d.toNat : ℚ) * 2 ^ a = k := by
  obtain ⟨a, b, b_le, form⟩ := exact
  have a_lt := IsExactDivider.exponent_lt form
  have two_pow_ne : (2 ^ a : ℚ) ≠ 0 := by positivity
  have three_dvd : 3 ^ b ∣ f.pll := by
    have b_cases : b = 0 ∨ b = 1 := by omega
    rcases b_cases with rfl | rfl
    · exact one_dvd _
    · exact ⟨4 * f.pllMul.toNat, by rw [pll, baseClockMhz]; ring⟩
  obtain ⟨k, pll_eq⟩ := three_dvd
  have k_le : k ≤ f.pll := by
    rw [pll_eq]
    exact Nat.le_mul_of_pos_left _ (by positivity)
  refine ⟨k, a, Nat.lt_of_le_of_lt k_le fits, a_lt, ?_⟩
  rw [form, pll_eq]
  push_cast
  field_simp

open Binary64 (Represents)

theorem represents_pll {f : Config} (fits : f.PllFits) : f.pllMhz.Represents f.pll :=
  Binary64.represents_ofNat (Nat.lt_trans fits (by decide))

theorem represents_divider (d : UInt32) : (Binary64.ofNat d.toNat).Represents d.toNat :=
  Binary64.represents_ofNat (toNat_lt_two_pow d)

theorem represents_pll_div {f : Config} (fits : f.PllFits) {d : UInt32} (exact : IsExactDivider d) :
    (f.pllMhz / .ofNat d.toNat).Represents (f.pll / d.toNat) := by
  obtain ⟨k, a, k_lt, a_lt, dyadic⟩ := exists_pll_div_eq fits exact
  refine (represents_pll fits).div (b := 0) (represents_divider d)
    (cast_toNat_ne_zero exact.ne_zero) (Nat.lt_trans k_lt (by decide))
    (Nat.le_of_lt (Nat.lt_trans a_lt (by decide))) (by decide) ?_
  rw [dyadic, pow_zero, mul_one]

/-- The product has the digits of the dividend, times three at most. -/
theorem represents_cpu_mul {f : Config} (fits : f.PllFits) (exact : IsExactDivider f.cpuDiv)
    {i : UInt32} (i_exact : IsExactDivider i) :
    (f.cpu * .ofNat i.toNat).Represents (f.exactCpu * i.toNat) := by
  obtain ⟨k, a, k_lt, a_lt, dyadic⟩ := exists_pll_div_eq fits exact
  obtain ⟨a', b, b_le, form⟩ := i_exact
  have a'_lt := IsExactDivider.exponent_lt form
  have three_le : 3 ^ b ≤ 3 := Nat.pow_le_pow_right (by decide) b_le
  have digits_lt : k * 3 ^ b < 2 ^ 53 :=
    calc k * 3 ^ b ≤ k * 3 := Nat.mul_le_mul_left k three_le
      _ < 2 ^ 53 := by omega
  refine (represents_pll_div fits exact).mul (represents_divider i) digits_lt
    (Nat.le_of_lt (Nat.lt_trans a_lt (by decide)))
    (Nat.le_of_lt (Nat.lt_trans a'_lt (by decide))) ?_
  rw [mul_right_comm, dyadic, form]
  push_cast
  ring

/-- An exact divider multiplies its clock back to the PLL output. -/
theorem pll_div_mul_self {f : Config} (fits : f.PllFits) {d : UInt32} (exact : IsExactDivider d) :
    f.pllMhz / .ofNat d.toNat * .ofNat d.toNat = f.pllMhz := by
  apply (represents_pll_div fits exact).mul_eq (represents_divider d)
  rw [div_mul_cancel₀ _ (cast_toNat_ne_zero exact.ne_zero)]
  exact represents_pll fits

theorem cpu_mul_cpuDiv {f : Config} (fits : f.PllFits) (exact : IsExactDivider f.cpuDiv) :
    f.cpu * .ofNat f.cpuDiv.toNat = f.pllMhz :=
  pll_div_mul_self fits exact

end Config

namespace Limits

def exactLowestDivider? (l : Limits) (cpu : ℚ) : Option UInt32 :=
  l.dividers.find? fun i => l.pllMinMhz.toNat ≤ cpu * i.toNat ∧ cpu * i.toNat ≤ l.pllMaxMhz.toNat

structure ExactlyLegal (l : Limits) (f : Config) : Prop where
  cpu_le : f.exactCpu ≤ l.cpuMaxMhz.toRat
  ram_le : f.exactRam ≤ l.ramMaxMhz.toRat
  pll_ge : l.pllMinMhz.toNat ≤ f.pll
  pll_le : f.pll ≤ l.pllMaxMhz.toNat
  divides : f.cpuDiv.toNat ∣ f.ramDiv.toNat
  ratio_lt : (f.ramDiv.toNat / f.cpuDiv.toNat : ℚ) < l.maxDividerRatio.toNat
  fast : l.fastCpuMhz.toRat ≤ f.exactCpu →
    f.cpuDiv = if f.cpuDiv = f.ramDiv ∨ f.pll = 0 then l.coupledCpuDiv else l.decoupledCpuDiv
  slow : f.exactCpu < l.fastCpuMhz.toRat → l.exactLowestDivider? f.exactCpu = some f.cpuDiv

theorem inPllBand_iff {l : Limits} {x : Binary64} {q : ℚ} (exact : x.Represents q) :
    l.InPllBand x ↔ l.pllMinMhz.toNat ≤ q ∧ q ≤ l.pllMaxMhz.toNat := by
  have least := Config.represents_divider l.pllMinMhz
  have greatest := Config.represents_divider l.pllMaxMhz
  rw [InPllBand, Binary64.le_iff_toRat_le least.ne_nan exact.ne_nan,
    Binary64.le_iff_toRat_le exact.ne_nan greatest.ne_nan, least.toRat_eq, exact.toRat_eq,
    greatest.toRat_eq]

theorem dividersMatch_iff {l : Limits} {f : Config} (nonzero : f.cpuDiv ≠ 0) :
    l.DividersMatch f ↔ f.cpuDiv.toNat ∣ f.ramDiv.toNat ∧
      (f.ramDiv.toNat / f.cpuDiv.toNat : ℚ) < l.maxDividerRatio.toNat := by
  rw [DividersMatch, UInt32.lt_iff_toNat_lt, UInt32.toNat_div, ← UInt32.toNat_inj,
    UInt32.toNat_mod, UInt32.toNat_zero, ← Nat.dvd_iff_mod_eq_zero]
  refine and_congr_right fun divides => ?_
  rw [← Nat.cast_div divides (cast_toNat_ne_zero nonzero), Nat.cast_lt]

theorem eqv_ram_iff {f : Config} (fits : f.PllFits) (cpu_exact : IsExactDivider f.cpuDiv)
    (ram_exact : IsExactDivider f.ramDiv) :
    f.cpu.Eqv f.ram ↔ f.cpuDiv = f.ramDiv ∨ f.pll = 0 := by
  have cpu_value := Config.represents_pll_div fits cpu_exact
  have ram_value := Config.represents_pll_div fits ram_exact
  have cpuDiv_ne := cast_toNat_ne_zero cpu_exact.ne_zero
  have ramDiv_ne := cast_toNat_ne_zero ram_exact.ne_zero
  rw [Config.cpu, Config.ram, Binary64.eqv_iff_toRat_eq cpu_value.ne_nan ram_value.ne_nan,
    cpu_value.toRat_eq, ram_value.toRat_eq, div_eq_div_iff cpuDiv_ne ramDiv_ne,
    mul_eq_mul_left_iff, Nat.cast_inj, Nat.cast_eq_zero, UInt32.toNat_inj, eq_comm]

theorem lowestUsableDivider?_eq_exact {l : Limits} {f : Config} (fits : f.PllFits)
    (cpu_exact : IsExactDivider f.cpuDiv) (table_exact : ∀ d ∈ l.dividers, IsExactDivider d) :
    l.lowestUsableDivider? f.cpu = l.exactLowestDivider? f.exactCpu := by
  apply List.find?_congr
  intro i i_mem
  rw [decide_eq_decide]
  exact inPllBand_iff (Config.represents_cpu_mul fits cpu_exact (table_exact i i_mem))

theorem cpuDividerSuits_iff {l : Limits} {f : Config} (fits : f.PllFits)
    (cpu_exact : IsExactDivider f.cpuDiv) (ram_exact : IsExactDivider f.ramDiv)
    (table_exact : ∀ d ∈ l.dividers, IsExactDivider d) (fast_finite : l.fastCpuMhz.IsFinite) :
    l.CpuDividerSuits f ↔
      (l.fastCpuMhz.toRat ≤ f.exactCpu → f.cpuDiv =
        if f.cpuDiv = f.ramDiv ∨ f.pll = 0 then l.coupledCpuDiv else l.decoupledCpuDiv) ∧
      (f.exactCpu < l.fastCpuMhz.toRat →
        l.exactLowestDivider? f.exactCpu = some f.cpuDiv) := by
  have cpu_value : f.cpu.Represents f.exactCpu := Config.represents_pll_div fits cpu_exact
  have fast_iff : l.fastCpuMhz ≤ f.cpu ↔ l.fastCpuMhz.toRat ≤ f.exactCpu := by
    rw [Binary64.le_iff_toRat_le fast_finite.ne_nan cpu_value.ne_nan, cpu_value.toRat_eq]
  have coupled_iff := eqv_ram_iff fits cpu_exact ram_exact
  rw [CpuDividerSuits, lowestUsableDivider?_eq_exact fits cpu_exact table_exact]
  by_cases fast : l.fastCpuMhz.toRat ≤ f.exactCpu
  · simp only [if_pos (fast_iff.mpr fast), coupled_iff, fast, not_lt.mpr fast, forall_const,
      false_implies, and_true]
  · simp only [if_neg fun le => fast (fast_iff.mp le), fast, not_le.mp fast, forall_const,
      false_implies, true_and]

/-- On exact dividers and finite thresholds the check answers, and it accepts exactly what the
rules over the rationals accept. -/
theorem permits_iff_exactlyLegal {l : Limits} {f : Config} (fits : f.PllFits)
    (table_exact : ∀ d ∈ l.dividers, IsExactDivider d) (cpu_exact : IsExactDivider f.cpuDiv)
    (ram_exact : IsExactDivider f.ramDiv) (cpuMax_finite : l.cpuMaxMhz.IsFinite)
    (ramMax_finite : l.ramMaxMhz.IsFinite) (fast_finite : l.fastCpuMhz.IsFinite) :
    (∃ legal, l.permits f = .ok legal) ∧ (l.permits f = .ok true ↔ l.ExactlyLegal f) := by
  have cpu_value : f.cpu.Represents f.exactCpu := Config.represents_pll_div fits cpu_exact
  have ram_value : f.ram.Represents f.exactRam := Config.represents_pll_div fits ram_exact
  have cpu_iff : ¬ l.cpuMaxMhz < f.cpu ↔ f.exactCpu ≤ l.cpuMaxMhz.toRat := by
    rw [Binary64.lt_iff_toRat_lt cpuMax_finite.ne_nan cpu_value.ne_nan, cpu_value.toRat_eq, not_lt]
  have ram_iff : ¬ l.ramMaxMhz < f.ram ↔ f.exactRam ≤ l.ramMaxMhz.toRat := by
    rw [Binary64.lt_iff_toRat_lt ramMax_finite.ne_nan ram_value.ne_nan, ram_value.toRat_eq, not_lt]
  have band_iff : l.InPllBand f.pllMhz ↔ l.pllMinMhz.toNat ≤ f.pll ∧ f.pll ≤ l.pllMaxMhz.toNat :=
    l.inPllBand_ofNat fits
  have suits_iff := cpuDividerSuits_iff fits cpu_exact ram_exact table_exact fast_finite
  refine ⟨l.exists_permits_eq_ok fits cpu_exact.ne_zero, ?_⟩
  rw [permits_eq_true_iff]
  constructor
  · intro legal
    have divides := (dividersMatch_iff cpu_exact.ne_zero).mp legal.dividers
    have band := band_iff.mp legal.inBand
    have suits := suits_iff.mp legal.suits
    exact ⟨cpu_iff.mp legal.cpu_le, ram_iff.mp legal.ram_le, band.1, band.2, divides.1, divides.2,
      suits.1, suits.2⟩
  · intro exact
    exact ⟨fits, cpu_iff.mpr exact.cpu_le, ram_iff.mpr exact.ram_le,
      band_iff.mpr ⟨exact.pll_ge, exact.pll_le⟩, cpu_exact.ne_zero,
      (dividersMatch_iff cpu_exact.ne_zero).mpr ⟨exact.divides, exact.ratio_lt⟩,
      suits_iff.mpr ⟨exact.fast, exact.slow⟩⟩

theorem standard_exact : ∀ d ∈ standard.dividers, IsExactDivider d := by
  intro d mem
  simp only [standard, List.mem_cons, List.not_mem_nil, or_false] at mem
  rcases mem with rfl | rfl | rfl | rfl | rfl | rfl | rfl | rfl | rfl | rfl
  exacts [⟨0, 0, by decide, rfl⟩, ⟨1, 0, by decide, rfl⟩, ⟨0, 1, by decide, rfl⟩,
    ⟨2, 0, by decide, rfl⟩, ⟨1, 1, by decide, rfl⟩, ⟨3, 0, by decide, rfl⟩,
    ⟨2, 1, by decide, rfl⟩, ⟨4, 0, by decide, rfl⟩, ⟨3, 1, by decide, rfl⟩,
    ⟨5, 0, by decide, rfl⟩]

/-- A slow clock of 27 MHz, which only a divider of 4 lifts to 100 MHz. -/
theorem permits_iff_exactlyLegal_standard :
    (∀ d ∈ standard.dividers, IsExactDivider d) ∧ standard.cpuMaxMhz.IsFinite ∧
      standard.ramMaxMhz.IsFinite ∧ standard.fastCpuMhz.IsFinite ∧
      standard.permits ⟨9, 4, 4⟩ = .ok true ∧ standard.ExactlyLegal ⟨9, 4, 4⟩ := by
  have four_exact : IsExactDivider 4 := standard_exact 4 (by decide)
  have cpuMax_finite : standard.cpuMaxMhz.IsFinite := by decide +kernel
  have ramMax_finite : standard.ramMaxMhz.IsFinite := by decide +kernel
  have fast_finite : standard.fastCpuMhz.IsFinite := by decide +kernel
  have permitted : standard.permits ⟨9, 4, 4⟩ = .ok true := by decide +kernel
  have decided := permits_iff_exactlyLegal (f := ⟨9, 4, 4⟩) (by decide) standard_exact four_exact
    four_exact cpuMax_finite ramMax_finite fast_finite
  exact ⟨standard_exact, cpuMax_finite, ramMax_finite, fast_finite, permitted,
    decided.2.mp permitted⟩

end Limits

end ClockTree
