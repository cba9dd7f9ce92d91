import ClockTree.Proofs.Annotation
import ClockTree.Proofs.Binary64.Approximation
import ClockTree.Proofs.Clocks

/-! Annotation under the built-in limits, decided on integers. A clock against a threshold, the two
overclock ratios against each other and a clock against a storage rate are chains of two to five
roundings. Each is decided by a comparison of products of the PLL output and the dividers, because
a product that is not equal differs by far more than the roundings do. -/
namespace ClockTree

namespace Binary64

theorem one_eq_round_div {n : Nat} (n_pos : 0 < n) :
    (1 : Binary64) = number false (Magnitude.round (n / n)) := by
  have one_eq : Magnitude.ofNat 1 = Magnitude.round 1 := by
    rw [Magnitude.ofNat_eq_round, Nat.cast_one]
  rw [div_self (Nat.cast_ne_zero.mpr n_pos.ne'), ← one_eq]
  rfl

section Clock

variable {p : Nat} (positive : 0 < p) (fits : p < 2 ^ 32) {d : UInt32} (nonzero : d ≠ 0)
include positive fits nonzero

theorem clock_approximates : (ofNat p / ofNat d.toNat).Approximates (p / d.toNat) 1 := by
  have d_small := d.toNat_lt
  have p_exact := represents_ofNat (n := p) (by omega)
  have d_exact := represents_ofNat (n := d.toNat) (by omega)
  exact p_exact.approximates.div d_exact.approximates
    (Nat.cast_pos.mpr (toNat_pos_of_ne_zero nonzero)) rfl positive (by omega)
    (toNat_pos_of_ne_zero nonzero) (by omega) (by decide)

variable {n : Nat} (n_pos : 0 < n) (n_small : n < 2 ^ 16)
include n_pos n_small

theorem ratio_approximates :
    (ofNat p / ofNat d.toNat / ofNat n).Approximates (p / (d.toNat * n : Nat)) 2 := by
  have d_small := d.toNat_lt
  have d_pos := toNat_pos_of_ne_zero nonzero
  have product_small : d.toNat * n < 2 ^ 32 * 2 ^ 16 := Nat.mul_lt_mul'' d_small n_small
  have quotient : (p / d.toNat / n : ℚ) = p / (d.toNat * n : Nat) := by
    rw [div_div, Nat.cast_mul]
  exact (clock_approximates positive fits nonzero).div
    (represents_ofNat (by omega)).approximates (Nat.cast_pos.mpr n_pos) quotient positive
    (by omega) (Nat.mul_pos d_pos n_pos) (by omega) (by decide)

/-- A clock over a baseline exceeds a threshold over it exactly if the unrounded clock exceeds
the threshold. At the threshold itself both are rounded alike. -/
theorem lt_ratio_iff {t : Nat} (t_pos : 0 < t) (t_small : t < 2 ^ 16) :
    number false (Magnitude.round (t / n)) < ofNat p / ofNat d.toNat / ofNat n ↔
      t * d.toNat < p := by
  have d_small := d.toNat_lt
  have d_pos := toNat_pos_of_ne_zero nonzero
  constructor
  · intro lt
    by_contra le
    obtain ⟨t_value, -⟩ := Magnitude.value_ofNat (n := t) (by omega)
    obtain ⟨n_value, n_finite⟩ := Magnitude.value_ofNat (n := n) (by omega)
    have n_nonzero : ¬ (Magnitude.ofNat n).IsZero := by
      rw [← Magnitude.value_eq_zero, n_value, Nat.cast_eq_zero]
      exact n_pos.ne'
    have clock_finite : ¬ (Magnitude.round (p / d.toNat)).IsInfinite :=
      Magnitude.round_finite (by positivity) (isNormal_quotient positive fits d_pos d_small).bounded
    have clock_le : (Magnitude.round (p / d.toNat)).value ≤ t := by
      rw [← t_value, Magnitude.value_le_value, Magnitude.ofNat_eq_round]
      apply Magnitude.round_place_mono
      rw [div_le_iff₀ (Nat.cast_pos.mpr d_pos)]
      exact_mod_cast Nat.le_of_not_lt le
    rw [ofNat_div_ofNat (by omega) (by omega) d_pos, ofNat,
      number_div_number false false clock_finite n_finite n_nonzero, n_value] at lt
    apply Binary64.not_le_of_lt lt
    apply Int.ofNat_le.mpr
    exact Magnitude.round_place_mono (div_le_div_of_nonneg_right clock_le (Nat.cast_nonneg n))
  · intro lt
    have p_scaled : p * n < 2 ^ 32 * 2 ^ 16 := Nat.mul_lt_mul'' fits n_small
    have threshold := approximates_round_div t_pos (by omega) n_pos (by omega)
    have ratio := ratio_approximates positive fits nonzero n_pos n_small
    apply threshold.lt_of_cross ratio n_pos (Nat.mul_pos d_pos n_pos) _ (by omega) (by decide)
    rw [← Nat.mul_assoc]
    exact (Nat.mul_lt_mul_right n_pos).mpr lt

theorem one_lt_ratio_iff : 1 < ofNat p / ofNat d.toNat / ofNat n ↔ n * d.toNat < p := by
  rw [one_eq_round_div n_pos]
  exact lt_ratio_iff positive fits nonzero n_pos n_small n_pos n_small

theorem decimal_lt_ratio_iff (mantissa places : Nat) {t : Nat} (t_pos : 0 < t)
    (t_small : t < 2 ^ 16)
    (same : mantissa * n = t * 10 ^ places) :
    (OfScientific.ofScientific mantissa true places : Binary64) <
      ofNat p / ofNat d.toNat / ofNat n ↔ t * d.toNat < p := by
  rw [decimal_eq_round n_pos same]
  exact lt_ratio_iff positive fits nonzero n_pos n_small t_pos t_small

end Clock

end Binary64

open Binary64 (represents_ofNat approximates_round_div one_lt_ratio_iff decimal_lt_ratio_iff)

namespace Config

structure Running (f : Config) : Prop extends f.DividersNonzero where
  positive : 0 < f.pll
  fits : f.PllFits

def CpuOver (f : Config) (mhz : Nat) : Prop := mhz * f.cpuDiv.toNat < f.pll

def RamOver (f : Config) (mhz : Nat) : Prop := mhz * f.ramDiv.toNat < f.pll

instance (f : Config) (mhz : Nat) : Decidable (f.CpuOver mhz) := inferInstanceAs (Decidable (_ < _))

instance (f : Config) (mhz : Nat) : Decidable (f.RamOver mhz) := inferInstanceAs (Decidable (_ < _))

/-- The unrounded overclocks, the CPU's against 360 MHz and the RAM's against 120 MHz, differ by
less than a thousandth. -/
def OverclockedAlike (f : Config) : Prop :=
  2997 * f.cpuDiv.toNat < 1000 * f.ramDiv.toNat ∧ 1000 * f.ramDiv.toNat < 3003 * f.cpuDiv.toNat

instance (f : Config) : Decidable f.OverclockedAlike := inferInstanceAs (Decidable (_ ∧ _))

def exactStability (f : Config) : Stability :=
  if f.CpuOver 432 ∨ f.RamOver 192 then .likelyUnstable
  else if f.CpuOver 396 ∨ f.RamOver 180 then .lessStable
  else .stable

def exactStorageNote (f : Config) : Note :=
  if 6 ≤ f.cpuDiv.toNat then .storageTooSlow
  else if 3 ≤ f.cpuDiv.toNat then .sdhcTooSlow
  else .blank

/-- The remark under the built-in limits. Only the ratios it reports are rounded. -/
def exactNote (f : Config) : Note :=
  if 100 < f.pll ∧ f.ramDiv = 1 then .unstableRamDivider
  else if f = ⟨30, 1, 3⟩ then .nominal
  else if f.CpuOver 360 ∧ f.RamOver 120 then
    if f.OverclockedAlike then .overclocked (f.cpu / 360) f.exactStability
    else .cpuRamOverclocked (f.cpu / 360) (f.ram / 120) f.exactStability
  else if f.CpuOver 360 then .cpuOverclocked (f.cpu / 360) f.exactStability
  else if f.RamOver 120 then .ramOverclocked (f.ram / 120) f.exactStability
  else f.exactStorageNote

end Config

namespace Limits

variable {f : Config}

theorem standard_cpuRatio (f : Config) : standard.cpuRatio f = f.cpu / 360 := by
  have nominal_cpu : standard.nominal.cpu = 360 := by decide +kernel
  rw [cpuRatio, nominal_cpu]

theorem standard_ramRatio (f : Config) : standard.ramRatio f = f.ram / 120 := by
  have nominal_ram : standard.nominal.ram = 120 := by decide +kernel
  rw [ramRatio, nominal_ram]

section Running

variable (running : f.Running)
include running

theorem one_lt_cpu_ratio_iff : 1 < f.cpu / 360 ↔ f.CpuOver 360 :=
  one_lt_ratio_iff running.positive running.fits running.cpuDiv_ne (by decide) (by decide)

theorem one_lt_ram_ratio_iff : 1 < f.ram / 120 ↔ f.RamOver 120 :=
  one_lt_ratio_iff running.positive running.fits running.ramDiv_ne (by decide) (by decide)

theorem decimal_lt_cpu_ratio_iff (mantissa places : Nat) {t : Nat} (t_pos : 0 < t)
    (t_small : t < 2 ^ 16)
    (same : mantissa * 360 = t * 10 ^ places) :
    OfScientific.ofScientific mantissa true places < f.cpu / 360 ↔ f.CpuOver t :=
  decimal_lt_ratio_iff running.positive running.fits running.cpuDiv_ne (n := 360) (by decide)
    (by decide) mantissa places t_pos t_small same

theorem decimal_lt_ram_ratio_iff (mantissa places : Nat) {t : Nat} (t_pos : 0 < t)
    (t_small : t < 2 ^ 16)
    (same : mantissa * 120 = t * 10 ^ places) :
    OfScientific.ofScientific mantissa true places < f.ram / 120 ↔ f.RamOver t :=
  decimal_lt_ratio_iff running.positive running.fits running.ramDiv_ne (n := 120) (by decide)
    (by decide) mantissa places t_pos t_small same

theorem stability_standard_eq :
    standard.stability (f.cpu / 360) (f.ram / 120) = f.exactStability := by
  have cpu_less : standard.cpuLessSafeRatio < f.cpu / 360 ↔ f.CpuOver 432 :=
    decimal_lt_cpu_ratio_iff running 12 1 (by decide) (by decide) rfl
  have cpu_safe : standard.cpuSafeRatio < f.cpu / 360 ↔ f.CpuOver 396 :=
    decimal_lt_cpu_ratio_iff running 11 1 (by decide) (by decide) rfl
  have ram_less : standard.ramLessSafeRatio < f.ram / 120 ↔ f.RamOver 192 :=
    decimal_lt_ram_ratio_iff running 16 1 (by decide) (by decide) rfl
  have ram_safe : standard.ramSafeRatio < f.ram / 120 ↔ f.RamOver 180 :=
    decimal_lt_ram_ratio_iff running 15 1 (by decide) (by decide) rfl
  simp only [stability, Config.exactStability, cpu_less, cpu_safe, ram_less, ram_safe]

/-- The PLL output cancels in the quotient of the two overclock ratios, which is five roundings
away from a quotient of the dividers. -/
theorem ratio_quotient_approximates :
    (f.cpu / 360 / (f.ram / 120)).Approximates (f.ramDiv.toNat / (3 * f.cpuDiv.toNat : Nat)) 5 := by
  have cpuDiv_pos := toNat_pos_of_ne_zero running.cpuDiv_ne
  have ramDiv_pos := toNat_pos_of_ne_zero running.ramDiv_ne
  have cpuDiv_small := f.cpuDiv.toNat_lt
  have ramDiv_small := f.ramDiv.toNat_lt
  have cpu := Binary64.ratio_approximates running.positive running.fits running.cpuDiv_ne
    (n := 360) (by decide) (by decide)
  have ram := Binary64.ratio_approximates running.positive running.fits running.ramDiv_ne
    (n := 120) (by decide) (by decide)
  have pll_ne : (f.pll : ℚ) ≠ 0 := Nat.cast_ne_zero.mpr running.positive.ne'
  have cpuDiv_ne := cast_toNat_ne_zero running.cpuDiv_ne
  have ramDiv_ne := cast_toNat_ne_zero running.ramDiv_ne
  have ram_pos : (0 : ℚ) < f.pll / (f.ramDiv.toNat * 120 : Nat) :=
    div_pos (Nat.cast_pos.mpr running.positive) (Nat.cast_pos.mpr (by omega))
  refine cpu.div ram ram_pos ?_ ramDiv_pos (by omega) (by omega) (by omega) (by decide)
  push_cast
  field_simp
  norm_num

/-- Off the two edges the rounded overclock ratios are alike if the unrounded ones are. -/
theorem similar_standard_iff (off_lower : 1000 * f.ramDiv.toNat ≠ 2997 * f.cpuDiv.toNat)
    (off_upper : 1000 * f.ramDiv.toNat ≠ 3003 * f.cpuDiv.toNat) :
    standard.Similar (f.cpu / 360) (f.ram / 120) ↔ f.OverclockedAlike := by
  have cpuDiv_pos := toNat_pos_of_ne_zero running.cpuDiv_ne
  have cpuDiv_small := f.cpuDiv.toNat_lt
  have ramDiv_small := f.ramDiv.toNat_lt
  have lower_eq : 1 - standard.similarityTolerance =
      .number false (Magnitude.round (999 / 1000)) := by
    rw [show 1 - standard.similarityTolerance = 0.999 by decide +kernel]
    exact Binary64.decimal_eq_round (b := 1000) (by decide) (by decide)
  have upper_eq : 1 + standard.similarityTolerance =
      .number false (Magnitude.round (1001 / 1000)) := by
    rw [show 1 + standard.similarityTolerance = 1.001 by decide +kernel]
    exact Binary64.decimal_eq_round (b := 1000) (by decide) (by decide)
  have quotient := ratio_quotient_approximates running
  have lower := approximates_round_div (a := 999) (b := 1000) (by decide) (by decide) (by decide)
    (by decide)
  have upper := approximates_round_div (a := 1001) (b := 1000) (by decide) (by decide) (by decide)
    (by decide)
  rw [Similar, Config.OverclockedAlike, lower_eq, upper_eq]
  refine and_congr ?_ ?_
  · refine (lower.le_iff quotient (by decide) (by omega) (by omega) (by omega) (by omega)
      (by decide)).trans ?_
    omega
  · refine (quotient.le_iff upper (by omega) (by decide) (by omega) (by omega) (by omega)
      (by decide)).trans ?_
    omega

theorem storageRate_approximates {factor : Nat} (factor_pos : 0 < factor)
    (factor_le : factor ≤ 48) : (.ofNat factor * f.pllMhz / 360 : Binary64).Approximates
      ((factor * f.pll : Nat) / (360 : Nat)) 1 := by
  have pll_small : f.pll < 2 ^ 32 := running.fits
  have scaled_small : factor * f.pll ≤ 48 * f.pll := Nat.mul_le_mul_right _ factor_le
  rw [Config.storageRate_eq running.fits factor_le]
  exact approximates_round_div (Nat.mul_pos factor_pos running.positive) (by omega) (by decide)
    (by decide)

/-- The PLL output cancels in the quotient of the CPU clock and a storage rate too. -/
theorem tooSlowFor_standard_iff (factor : Nat) (factor_pos : 0 < factor) (factor_le : factor ≤ 48)
    (apart : 3 * (factor * f.cpuDiv.toNat) ≠ 360) :
    standard.TooSlowFor f.cpu (.ofNat factor * f.pllMhz / 360) ↔
      360 < 3 * (factor * f.cpuDiv.toNat) := by
  have pll_pos := running.positive
  have cpuDiv_pos := toNat_pos_of_ne_zero running.cpuDiv_ne
  have cpuDiv_small := f.cpuDiv.toNat_lt
  have cpuDiv_scaled : factor * f.cpuDiv.toNat ≤ 48 * f.cpuDiv.toNat :=
    Nat.mul_le_mul_right _ factor_le
  have product_pos : 0 < factor * f.cpuDiv.toNat := Nat.mul_pos factor_pos cpuDiv_pos
  have pll_ne : (f.pll : ℚ) ≠ 0 := Nat.cast_ne_zero.mpr pll_pos.ne'
  have factor_ne : (factor : ℚ) ≠ 0 := Nat.cast_ne_zero.mpr factor_pos.ne'
  have cpuDiv_ne := cast_toNat_ne_zero running.cpuDiv_ne
  have rate := storageRate_approximates running factor_pos factor_le
  have cpu : f.cpu.Approximates (f.pll / f.cpuDiv.toNat) 1 :=
    Binary64.clock_approximates pll_pos running.fits running.cpuDiv_ne
  have quotient : (f.cpu / (.ofNat factor * f.pllMhz / 360)).Approximates
      ((360 : Nat) / (factor * f.cpuDiv.toNat : Nat)) 3 := by
    refine cpu.div rate (div_pos (Nat.cast_pos.mpr (Nat.mul_pos factor_pos pll_pos)) (by norm_num))
      ?_ (by decide) (by decide) product_pos (by omega) (by decide)
    push_cast
    field_simp
  have floor : standard.storageRatioFloor.Approximates ((3 : Nat) / (1 : Nat)) 0 := by
    rw [Nat.cast_one, div_one]
    exact (represents_ofNat (n := 3) (by decide)).approximates
  refine (quotient.lt_iff floor product_pos (by decide) (by omega) (by omega) (by omega)
    (by decide)).trans ?_
  omega

theorem storageNote_standard_eq (off_edge : f.cpuDiv ≠ 5) :
    standard.storageNote f = f.exactStorageNote := by
  have not_five : f.cpuDiv.toNat ≠ 5 := fun five => off_edge (UInt32.toNat_inj.mp five)
  have msd_slow : standard.TooSlowFor f.cpu f.msd ↔ 6 ≤ f.cpuDiv.toNat := by
    refine (tooSlowFor_standard_iff running 24 (by decide) (by decide) (by omega)).trans ?_
    omega
  have msd2_slow : standard.TooSlowFor f.cpu f.msd2 ↔ 3 ≤ f.cpuDiv.toNat := by
    refine (tooSlowFor_standard_iff running 48 (by decide) (by decide) (by omega)).trans ?_
    omega
  simp only [storageNote, Config.exactStorageNote, msd_slow, msd2_slow]
  split_ifs <;> first | rfl | omega

theorem note_standard_eq (off_edge : f.cpuDiv ≠ 5)
    (off_lower : 1000 * f.ramDiv.toNat ≠ 2997 * f.cpuDiv.toNat)
    (off_upper : 1000 * f.ramDiv.toNat ≠ 3003 * f.cpuDiv.toNat) :
    standard.note f = f.exactNote := by
  have flagged_iff : standard.FlagsRamDivider f ↔ 100 < f.pll ∧ f.ramDiv = 1 := Iff.rfl
  have nominal_eq : standard.nominal = ⟨30, 1, 3⟩ := rfl
  simp only [note, Config.exactNote, flagged_iff, nominal_eq, clockNote_eq, standard_cpuRatio,
    standard_ramRatio, one_lt_cpu_ratio_iff running, one_lt_ram_ratio_iff running,
    stability_standard_eq running, similar_standard_iff running off_lower off_upper,
    storageNote_standard_eq running off_edge]
  -- `clockNote` asks for the CPU first, `exactNote` for both clocks at once.
  by_cases cpu_over : f.CpuOver 360 <;> by_cases ram_over : f.RamOver 120 <;>
    simp only [cpu_over, ram_over, and_true, and_false, ↓reduceIte]

end Running

theorem standard_nominal_fits : standard.nominal.PllFits := by decide

/-- Under the built-in limits the remark is the one that integers decide, except where a CPU
divider of 5 or a quotient of the dividers hits a threshold that rounding may miss. -/
theorem classify_standard_eq_exact {f : Config} (positive : 1 ≤ f.pllMul) (fits : f.PllFits)
    (cpuDiv_ne : f.cpuDiv ≠ 0) (ramDiv_ne : f.ramDiv ≠ 0) (off_edge : f.cpuDiv ≠ 5)
    (off_lower : 1000 * f.ramDiv.toNat ≠ 2997 * f.cpuDiv.toNat)
    (off_upper : 1000 * f.ramDiv.toNat ≠ 3003 * f.cpuDiv.toNat) :
    standard.classify f = .ok f.exactNote := by
  have running : f.Running := ⟨⟨cpuDiv_ne, ramDiv_ne⟩, Config.pll_pos positive, fits⟩
  rw [classify_eq_ok fits standard_nominal_fits,
    note_standard_eq running off_edge off_lower off_upper]

/-- A CPU clock of 396 MHz is at the safe threshold and not past it. -/
theorem classify_standard_eq_exact_at_threshold :
    (1 : UInt32) ≤ 33 ∧ Config.PllFits ⟨33, 1, 3⟩ ∧ (1 : UInt32) ≠ 0 ∧ (3 : UInt32) ≠ 0 ∧
      (1 : UInt32) ≠ 5 ∧ 1000 * (3 : UInt32).toNat ≠ 2997 * (1 : UInt32).toNat ∧
      1000 * (3 : UInt32).toNat ≠ 3003 * (1 : UInt32).toNat ∧
      standard.classify ⟨33, 1, 3⟩ = .ok (.overclocked 1.1 .stable) := by
  have decided := classify_standard_eq_exact (f := ⟨33, 1, 3⟩) (by decide) (by decide) (by decide)
    (by decide) (by decide) (by decide) (by decide)
  have exact_note : Config.exactNote ⟨33, 1, 3⟩ = .overclocked 1.1 .stable := by decide +kernel
  rw [exact_note] at decided
  exact ⟨by decide, by decide, by decide, by decide, by decide, by decide, by decide, decided⟩

end Limits

end ClockTree
