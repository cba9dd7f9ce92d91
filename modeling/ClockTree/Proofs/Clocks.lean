import ClockTree.Config
import ClockTree.Proofs.Binary64.Arithmetic

/-! Clocks are rounded quotients. Dividend and divider fit 32 bits, so a quotient has 21 digits
to spare: clocks of one PLL output are told apart by their dividers, and clocks of one divider
by their PLL outputs. -/
namespace ClockTree

theorem toNat_pos_of_ne_zero {d : UInt32} (nonzero : d ≠ 0) : 0 < d.toNat :=
  UInt32.lt_iff_toNat_lt.mp (UInt32.pos_iff_ne_zero.mpr nonzero)

/-- Every word is a binary64 number. -/
theorem toNat_lt_two_pow (n : UInt32) : n.toNat < 2 ^ 53 := Nat.lt_trans n.toNat_lt (by decide)

theorem cast_toNat_ne_zero {d : UInt32} (nonzero : d ≠ 0) : (d.toNat : ℚ) ≠ 0 :=
  Nat.cast_ne_zero.mpr (Nat.ne_of_gt (toNat_pos_of_ne_zero nonzero))

namespace Binary64

open Magnitude (round IsNormal)

theorem isNormal_quotient {p d : Nat} (p_pos : 0 < p) (p_small : p < 2 ^ 32) (d_pos : 0 < d)
    (d_small : d < 2 ^ 32) : IsNormal (p / d) := by
  have d_pos : (0 : ℚ) < d := Nat.cast_pos.mpr d_pos
  have one_le : (1 : ℚ) ≤ p := Nat.one_le_cast.mpr p_pos
  have p_le : (p : ℚ) ≤ 2 ^ 32 := by exact_mod_cast p_small.le
  have d_le : (d : ℚ) ≤ 2 ^ 32 := by exact_mod_cast d_small.le
  have one_le_d : (1 : ℚ) ≤ d := by exact_mod_cast d_pos
  apply Magnitude.isNormal_of_bounds
  · rw [div_mul_eq_mul_div, le_div_iff₀ d_pos]
    linarith
  · rw [div_le_iff₀ d_pos]
    linarith

theorem round_lt_of_divider_lt {p d d' : Nat} (p_pos : 0 < p) (p_small : p < 2 ^ 32)
    (d_pos : 0 < d) (lt : d < d') (d'_small : d' < 2 ^ 32) :
    (round (p / d')).place < (round (p / d)).place := by
  have p_cast : (0 : ℚ) < p := Nat.cast_pos.mpr p_pos
  have d_cast : (0 : ℚ) < d := Nat.cast_pos.mpr d_pos
  have d'_cast : (0 : ℚ) < d' := Nat.cast_pos.mpr (Nat.zero_lt_of_lt lt)
  apply Magnitude.round_place_lt
  · exact isNormal_quotient p_pos p_small (Nat.zero_lt_of_lt lt) d'_small
  · exact isNormal_quotient p_pos p_small d_pos (lt.trans d'_small)
  have gap : (d * (2 ^ 53 + 1) : ℚ) < d' * (2 ^ 53 - 1) := by
    have step : (d + 1 : ℚ) ≤ d' := by exact_mod_cast lt
    have small : (d' : ℚ) ≤ 2 ^ 32 := by exact_mod_cast d'_small.le
    linarith
  rw [div_mul_eq_mul_div, div_mul_eq_mul_div, div_lt_div_iff₀ d'_cast d_cast, mul_assoc, mul_assoc,
    mul_lt_mul_iff_right₀ p_cast]
  linarith

theorem round_lt_of_dividend_lt {p p' d : Nat} (p_pos : 0 < p) (lt : p < p')
    (p'_small : p' < 2 ^ 32) (d_pos : 0 < d) (d_small : d < 2 ^ 32) :
    (round (p / d)).place < (round (p' / d)).place := by
  have d_cast : (0 : ℚ) < d := Nat.cast_pos.mpr d_pos
  apply Magnitude.round_place_lt
  · exact isNormal_quotient p_pos (lt.trans p'_small) d_pos d_small
  · exact isNormal_quotient (p_pos.trans lt) p'_small d_pos d_small
  have step : (p + 1 : ℚ) ≤ p' := by exact_mod_cast lt
  have small : (p' : ℚ) ≤ 2 ^ 32 := by exact_mod_cast p'_small.le
  rw [div_mul_eq_mul_div, div_mul_eq_mul_div, div_lt_div_iff_of_pos_right d_cast]
  linarith

/-- The magnitude of a PLL output over a divider. A divider of zero gives infinity. -/
def clockMagnitude (p : Nat) (d : UInt32) : Magnitude :=
  if d = 0 then .infinity else round (p / d.toNat)

theorem quotient_eq {p : Nat} (fits : p < 2 ^ 32) {d : UInt32} (defined : 0 < p ∨ d ≠ 0) :
    ofNat p / ofNat d.toNat = number false (clockMagnitude p d) := by
  have d_small := d.toNat_lt
  by_cases zero : d = 0
  · subst zero
    have p_ne : p ≠ 0 := Nat.ne_of_gt (defined.resolve_right (not_not_intro rfl))
    exact (ofNat_div_zero (by omega)).trans (if_neg p_ne)
  · rw [clockMagnitude, if_neg zero]
    exact ofNat_div_ofNat (by omega) (by omega) (toNat_pos_of_ne_zero zero)

/-- A divider other than zero leaves a finite clock. -/
theorem clockMagnitude_finite {p : Nat} (fits : p < 2 ^ 32) {d : UInt32} (nonzero : d ≠ 0) :
    ¬ (clockMagnitude p d).IsInfinite := by
  have d_pos : (1 : ℚ) ≤ d.toNat := Nat.one_le_cast.mpr (toNat_pos_of_ne_zero nonzero)
  rw [clockMagnitude, if_neg nonzero]
  exact (Magnitude.value_round_le (n := p) (by omega) (div_le_self (Nat.cast_nonneg p) d_pos)).2

theorem clockMagnitude_mono {p p' : Nat} {d d' : UInt32} (p_le : p ≤ p') (d_ge : d' ≤ d)
    (nonzero : d' ≠ 0) : (clockMagnitude p d).place ≤ (clockMagnitude p' d').place := by
  have d'_pos := toNat_pos_of_ne_zero nonzero
  have toNat_ge := UInt32.le_iff_toNat_le.mp d_ge
  have d_ne : d ≠ 0 := by
    rintro rfl
    exact Nat.not_lt_of_le toNat_ge d'_pos
  rw [clockMagnitude, clockMagnitude, if_neg d_ne, if_neg nonzero]
  apply Magnitude.round_place_mono
  exact div_le_div₀ (Nat.cast_nonneg p') (Nat.cast_le.mpr p_le) (Nat.cast_pos.mpr d'_pos)
    (Nat.cast_le.mpr toNat_ge)

theorem clockMagnitude_lt_of_lt {p : Nat} (positive : 0 < p) (fits : p < 2 ^ 32) {d d' : UInt32}
    (lt : d < d') : (clockMagnitude p d').place < (clockMagnitude p d).place := by
  have d'_small := d'.toNat_lt
  rw [UInt32.lt_iff_toNat_lt] at lt
  have d'_pos := Nat.zero_lt_of_lt lt
  have d'_ne : d' ≠ 0 := by
    rintro rfl
    exact Nat.lt_irrefl _ d'_pos
  rw [clockMagnitude, clockMagnitude, if_neg d'_ne]
  split
  · have normal := isNormal_quotient positive fits d'_pos d'_small
    exact Nat.lt_of_le_of_ne (round _).place_le
      (Magnitude.round_finite normal.pos.le normal.bounded)
  next d_ne =>
    exact round_lt_of_divider_lt positive fits (toNat_pos_of_ne_zero d_ne) lt d'_small

theorem eqv_number_false {a b : Magnitude} :
    (number false a).Eqv (number false b) ↔ a.place = b.place := Int.natCast_inj

theorem number_false_lt {a b : Magnitude} :
    number false a < number false b ↔ a.place < b.place := Int.ofNat_lt

theorem number_false_le {a b : Magnitude} :
    number false a ≤ number false b ↔ a.place ≤ b.place := Int.ofNat_le

/-- At one PLL output a clock determines its divider, zero included. -/
theorem divider_eq_of_eqv {p : Nat} (positive : 0 < p) (fits : p < 2 ^ 32) {d d' : UInt32}
    (same : (ofNat p / ofNat d.toNat).Eqv (ofNat p / ofNat d'.toNat)) : d = d' := by
  rw [quotient_eq fits (.inl positive), quotient_eq fits (.inl positive), eqv_number_false] at same
  rcases Nat.lt_trichotomy d.toNat d'.toNat with lt | eq | gt
  · exact absurd same.symm (Nat.ne_of_lt (clockMagnitude_lt_of_lt positive fits lt))
  · exact UInt32.toNat_inj.mp eq
  · exact absurd same (Nat.ne_of_lt (clockMagnitude_lt_of_lt positive fits gt))

theorem clock_eqv_iff {p : Nat} (positive : 0 < p) (fits : p < 2 ^ 32) {d d' : UInt32} :
    (ofNat p / ofNat d.toNat).Eqv (ofNat p / ofNat d'.toNat) ↔ d = d' := by
  refine ⟨divider_eq_of_eqv positive fits, ?_⟩
  rintro rfl
  rw [quotient_eq fits (.inl positive), eqv_number_false]

/-- At one PLL output the greater divider has the lower clock. -/
theorem clock_lt_clock_iff {p : Nat} (positive : 0 < p) (fits : p < 2 ^ 32) {d d' : UInt32} :
    ofNat p / ofNat d'.toNat < ofNat p / ofNat d.toNat ↔ d < d' := by
  rw [quotient_eq fits (.inl positive), quotient_eq fits (.inl positive), number_false_lt]
  refine ⟨fun lt => ?_, clockMagnitude_lt_of_lt positive fits⟩
  by_contra not_lt
  rcases UInt32.lt_or_eq_of_le (UInt32.not_lt.mp not_lt) with gt | rfl
  · exact Nat.lt_asymm lt (clockMagnitude_lt_of_lt positive fits gt)
  · exact Nat.lt_irrefl _ lt

/-- A clock does not fall when the PLL output grows, also if the divider is zero. -/
theorem clock_le_clock {p p' : Nat} (positive : 0 < p) (p_le : p ≤ p') (fits : p' < 2 ^ 32)
    (d : UInt32) : ofNat p / ofNat d.toNat ≤ ofNat p' / ofNat d.toNat := by
  rw [quotient_eq (p_le.trans_lt fits) (.inl positive),
    quotient_eq fits (.inl (positive.trans_le p_le)), number_false_le]
  by_cases zero : d = 0
  · rw [clockMagnitude, clockMagnitude, if_pos zero, if_pos zero]
  · exact clockMagnitude_mono p_le (UInt32.le_refl d) zero

/-- At one divider a clock determines its PLL output. -/
theorem dividend_eq_of_eqv {p p' : Nat} (positive : 0 < p) (positive' : 0 < p')
    (fits : p < 2 ^ 32) (fits' : p' < 2 ^ 32) {d : UInt32} (nonzero : d ≠ 0)
    (same : (ofNat p / ofNat d.toNat).Eqv (ofNat p' / ofNat d.toNat)) : p = p' := by
  have d_pos := toNat_pos_of_ne_zero nonzero
  rw [quotient_eq fits (.inr nonzero), quotient_eq fits' (.inr nonzero), eqv_number_false,
    clockMagnitude, clockMagnitude, if_neg nonzero, if_neg nonzero] at same
  rcases Nat.lt_trichotomy p p' with lt | eq | gt
  · exact absurd same (Nat.ne_of_lt (round_lt_of_dividend_lt positive lt fits' d_pos d.toNat_lt))
  · exact eq
  · exact absurd same.symm
      (Nat.ne_of_lt (round_lt_of_dividend_lt positive' gt fits d_pos d.toNat_lt))

end Binary64

namespace Config

structure DividersNonzero (f : Config) : Prop where
  cpuDiv_ne : f.cpuDiv ≠ 0
  ramDiv_ne : f.ramDiv ≠ 0

theorem pll_pos {f : Config} (positive : 1 ≤ f.pllMul) : 0 < f.pll :=
  Nat.mul_pos (by decide) (UInt32.le_iff_toNat_le.mp positive)

theorem cpu_eq {f : Config} (fits : f.PllFits) (defined : 0 < f.pll ∨ f.cpuDiv ≠ 0) :
    f.cpu = .number false (Binary64.clockMagnitude f.pll f.cpuDiv) :=
  Binary64.quotient_eq fits defined

theorem ram_eq {f : Config} (fits : f.PllFits) (defined : 0 < f.pll ∨ f.ramDiv ≠ 0) :
    f.ram = .number false (Binary64.clockMagnitude f.pll f.ramDiv) :=
  Binary64.quotient_eq fits defined

theorem cpu_eqv_ram_iff {f : Config} (positive : 0 < f.pll) (fits : f.PllFits) :
    f.cpu.Eqv f.ram ↔ f.cpuDiv = f.ramDiv :=
  Binary64.clock_eqv_iff positive fits

theorem ram_lt_cpu_iff {f : Config} (positive : 0 < f.pll) (fits : f.PllFits) :
    f.ram < f.cpu ↔ f.cpuDiv < f.ramDiv :=
  Binary64.clock_lt_clock_iff positive fits

theorem ram_le_cpu_iff {f : Config} (positive : 0 < f.pll) (fits : f.PllFits) :
    f.ram ≤ f.cpu ↔ f.cpuDiv ≤ f.ramDiv := by
  have reversed : f.cpu < f.ram ↔ f.ramDiv < f.cpuDiv :=
    Binary64.clock_lt_clock_iff positive fits
  rw [← UInt32.not_lt, ← reversed, cpu_eq fits (.inl positive), ram_eq fits (.inl positive),
    Binary64.number_false_le, Binary64.number_false_lt, Nat.not_lt]

/-- The PLL output scaled for a storage rate still fits a significand. -/
theorem represents_scaled_pll {f : Config} (fits : f.PllFits) {factor : Nat}
    (factor_le : factor ≤ 48) :
    (.ofNat factor * f.pllMhz : Binary64).Represents ((factor * f.pll : Nat) : ℚ) := by
  have pll_small : f.pll < 2 ^ 32 := fits
  have scaled_small : factor * f.pll ≤ 48 * f.pll := Nat.mul_le_mul_right _ factor_le
  rw [Nat.cast_mul]
  exact (Binary64.represents_ofNat (by omega)).mul (Binary64.represents_ofNat (by omega))
    (k := factor * f.pll) (a := 0) (b := 0) (by omega) (by decide) (by decide) (by push_cast; ring)

/-- A storage rate is rounded once. -/
theorem storageRate_eq {f : Config} (fits : f.PllFits) {factor : Nat} (factor_le : factor ≤ 48) :
    .ofNat factor * f.pllMhz / 360 =
      Binary64.number false (Magnitude.round ((factor * f.pll : Nat) / (360 : Nat))) :=
  (represents_scaled_pll fits factor_le).div_eq_round
    (Binary64.represents_ofNat (n := 360) (by decide)) (by norm_num)

section Multiplier

variable {m m' c r : UInt32} (le : m ≤ m')
include le

theorem pll_le : pll ⟨m, c, r⟩ ≤ pll ⟨m', c, r⟩ :=
  Nat.mul_le_mul_left _ (UInt32.le_iff_toNat_le.mp le)

theorem pllFits_of_le (fits : PllFits ⟨m', c, r⟩) : PllFits ⟨m, c, r⟩ :=
  (pll_le le).trans_lt fits

theorem cpu_le (positive : 1 ≤ m) (fits : PllFits ⟨m', c, r⟩) :
    cpu ⟨m, c, r⟩ ≤ cpu ⟨m', c, r⟩ :=
  Binary64.clock_le_clock (pll_pos (f := ⟨m, c, r⟩) positive) (pll_le le) fits c

theorem ram_le (positive : 1 ≤ m) (fits : PllFits ⟨m', c, r⟩) :
    ram ⟨m, c, r⟩ ≤ ram ⟨m', c, r⟩ :=
  Binary64.clock_le_clock (pll_pos (f := ⟨m, c, r⟩) positive) (pll_le le) fits r

end Multiplier

end Config

end ClockTree
