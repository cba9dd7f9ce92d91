import ClockTree.Proofs.ExactLegality
import ClockTree.Proofs.LowestDivider

/-! A clock lifted back by its own divider. The clock is a rounded quotient, and multiplying it by
the divider rounds again, so the product may miss the PLL output, though by less than any two whole
numbers of MHz are apart. So a PLL output strictly inside the band is always found again, by its own
divider if not by a lower one. One on an edge of the band is lost only where rounding takes the
product past that edge, and on the upper edge only if no lower divider is usable. With the dividers
of the built-in table, which divide a multiple of 12 MHz exactly, the product is the PLL output
itself. -/
namespace ClockTree

namespace Binary64

open Magnitude (round)

section Lifted

variable {p n : Nat} (fits : p < 2 ^ 32) {d : UInt32} (nonzero : d ≠ 0)
include fits nonzero

/-- A clock times its divider, before that product is rounded, is near the PLL output. -/
theorem abs_clock_value_mul_sub_lt : |(round (p / d.toNat)).value * d.toNat - p| < 1 := by
  rcases Nat.eq_zero_or_pos p with rfl | positive
  · have zero_value : (Magnitude.round (0 : Nat)).value = 0 := by
      rw [← Magnitude.ofNat_eq_round, (Magnitude.value_ofNat (by decide)).1, Nat.cast_zero]
    rw [Nat.cast_zero] at zero_value
    rw [Nat.cast_zero, zero_div, zero_value]
    norm_num
  have d_cast : (0 : ℚ) < d.toNat := Nat.cast_pos.mpr (toNat_pos_of_ne_zero nonzero)
  have p_small : (p : ℚ) < 2 ^ 53 := by exact_mod_cast fits.trans (by decide)
  have near := Magnitude.abs_value_round_sub_le
    (isNormal_quotient positive fits (toNat_pos_of_ne_zero nonzero) d.toNat_lt)
  calc |(round (p / d.toNat)).value * d.toNat - p|
      = |((round (p / d.toNat)).value - p / d.toNat) * d.toNat| := by
        rw [sub_mul, div_mul_cancel₀ _ d_cast.ne']
    _ = |(round (p / d.toNat)).value - p / d.toNat| * d.toNat := by
        rw [abs_mul, abs_of_pos d_cast]
    _ ≤ p / d.toNat / 2 ^ 53 * d.toNat := mul_le_mul_of_nonneg_right near d_cast.le
    _ = p / 2 ^ 53 := by field_simp
    _ < 1 := by rwa [div_lt_one (by positivity)]

theorem clock_mul_eq : ofNat p / ofNat d.toNat * ofNat d.toNat =
    number false (round ((round (p / d.toNat)).value * d.toNat)) := by
  have d_pos := toNat_pos_of_ne_zero nonzero
  rw [ofNat_div_ofNat (fits.trans (by decide)) (toNat_lt_two_pow d) d_pos,
    number_mul_ofNat d_pos (toNat_lt_two_pow d)]

theorem clock_mul_ne_nan : ofNat p / ofNat d.toNat * ofNat d.toNat ≠ .nan := by
  rw [clock_mul_eq fits nonzero]
  exact Binary64.noConfusion

theorem ofNat_le_clock_mul (lt : n < p) :
    ofNat n ≤ ofNat p / ofNat d.toNat * ofNat d.toNat := by
  have near := (abs_lt.mp (abs_clock_value_mul_sub_lt fits nonzero)).1
  have step : (n + 1 : ℚ) ≤ p := by exact_mod_cast lt
  rw [clock_mul_eq fits nonzero, ofNat, number_false_le, Magnitude.ofNat_eq_round]
  apply Magnitude.round_place_mono
  linarith

theorem clock_mul_le_ofNat (lt : p < n) :
    ofNat p / ofNat d.toNat * ofNat d.toNat ≤ ofNat n := by
  have near := (abs_lt.mp (abs_clock_value_mul_sub_lt fits nonzero)).2
  have step : (p + 1 : ℚ) ≤ n := by exact_mod_cast lt
  rw [clock_mul_eq fits nonzero, ofNat, number_false_le, Magnitude.ofNat_eq_round]
  apply Magnitude.round_place_mono
  linarith

end Lifted

end Binary64

namespace Limits

/-- The PLL output is the lower edge of the band, and its lifted clock is rounded below it. -/
def FallsShort (l : Limits) (f : Config) : Prop :=
  f.pll = l.pllMinMhz.toNat ∧ f.cpu * .ofNat f.cpuDiv.toNat < f.pllMhz

/-- The PLL output is the upper edge of the band, its lifted clock is rounded above it, and no
lower divider of the table is usable. -/
def Overshoots (l : Limits) (f : Config) : Prop :=
  f.pll = l.pllMaxMhz.toNat ∧ f.pllMhz < f.cpu * .ofNat f.cpuDiv.toNat ∧
    ∀ i ∈ l.dividers, i < f.cpuDiv → ¬ l.InPllBand (f.cpu * .ofNat i.toNat)

/-- A usable divider of the table bounds the lowest one. -/
theorem WellFormed.exists_lowestUsableDivider? {l : Limits} (valid : l.WellFormed) {cpu : Binary64}
    {i : UInt32} (mem : i ∈ l.dividers) (inside : l.InPllBand (cpu * .ofNat i.toNat)) :
    ∃ d, l.lowestUsableDivider? cpu = some d ∧ d ≤ i := by
  cases found : l.lowestUsableDivider? cpu with
  | none => exact absurd inside (lowestUsableDivider?_eq_none_iff.mp found i mem)
  | some d =>
    obtain ⟨-, -, least⟩ := (lowestUsableDivider?_eq_some_iff_least valid.ascending).mp found
    exact ⟨d, rfl, UInt32.not_lt.mp fun lt => least i mem lt inside⟩

section Own

variable {l : Limits} {f : Config} (valid : l.WellFormed) (mem : f.cpuDiv ∈ l.dividers)
  (fits : f.PllFits) (inBand : l.InPllBand f.pllMhz)
include valid mem fits inBand

theorem reaches_of_not_fallsShort (not_short : ¬ l.FallsShort f) :
    .ofNat l.pllMinMhz.toNat ≤ f.cpu * .ofNat f.cpuDiv.toNat := by
  have nonzero := valid.ne_zero mem
  have edges := (l.inPllBand_ofNat fits).mp inBand
  rcases Nat.eq_or_lt_of_le edges.1 with on_edge | inside
  · rw [on_edge]
    exact Binary64.le_of_not_lt (Binary64.clock_mul_ne_nan fits nonzero) Binary64.noConfusion
      fun short => not_short ⟨on_edge.symm, short⟩
  · exact Binary64.ofNat_le_clock_mul fits nonzero inside

theorem on_upper_edge_of_above
    (outside : ¬ f.cpu * .ofNat f.cpuDiv.toNat ≤ .ofNat l.pllMaxMhz.toNat) :
    f.pll = l.pllMaxMhz.toNat ∧ f.pllMhz < f.cpu * .ofNat f.cpuDiv.toNat := by
  have nonzero := valid.ne_zero mem
  have edges := (l.inPllBand_ofNat fits).mp inBand
  have pll_ne : f.pllMhz ≠ .nan := Binary64.noConfusion
  rcases Nat.eq_or_lt_of_le edges.2 with on_edge | inside
  · rw [← on_edge] at outside
    have above := Binary64.not_le_iff_lt (Binary64.clock_mul_ne_nan fits nonzero) pll_ne
    exact ⟨on_edge, above.mp outside⟩
  · exact absurd (Binary64.clock_mul_le_ofNat fits nonzero inside) outside

theorem exists_lowestUsableDivider?_le_own (not_short : ¬ l.FallsShort f)
    (not_over : ¬ l.Overshoots f) :
    ∃ d, l.lowestUsableDivider? f.cpu = some d ∧ d ≤ f.cpuDiv := by
  have reaches := reaches_of_not_fallsShort valid mem fits inBand not_short
  by_cases stays : f.cpu * .ofNat f.cpuDiv.toNat ≤ .ofNat l.pllMaxMhz.toNat
  · exact valid.exists_lowestUsableDivider? mem ⟨reaches, stays⟩
  · obtain ⟨on_edge, above⟩ := on_upper_edge_of_above valid mem fits inBand stays
    -- The own divider takes the clock above the band, so a lower one has to bring it in.
    have lower : ∃ i ∈ l.dividers, i < f.cpuDiv ∧ l.InPllBand (f.cpu * .ofNat i.toNat) := by
      by_contra none_usable
      exact not_over ⟨on_edge, above, fun i i_mem lt usable =>
        none_usable ⟨i, i_mem, lt, usable⟩⟩
    obtain ⟨i, i_mem, lt, usable⟩ := lower
    obtain ⟨d, found, le⟩ := valid.exists_lowestUsableDivider? i_mem usable
    exact ⟨d, found, UInt32.le_trans le (UInt32.le_of_lt lt)⟩

end Own

section Lost

variable {l : Limits} {f : Config} {d : UInt32} (valid : l.WellFormed)
  (found : l.lowestUsableDivider? f.cpu = some d) (le : d ≤ f.cpuDiv)
include valid found le

theorem not_fallsShort_of_found : ¬ l.FallsShort f := by
  rintro ⟨on_edge, short⟩
  obtain ⟨d_mem, usable, -⟩ := valid.lowestUsableDivider?_eq_some_iff.mp found
  have d_pos := valid.toNat_pos d_mem
  have grows : f.cpu * .ofNat d.toNat ≤ f.cpu * .ofNat f.cpuDiv.toNat :=
    Binary64.mul_ofNat_le_of_le (toNat_lt_two_pow _) (nonneg_of_inPllBand d_pos usable) d_pos
      (UInt32.le_iff_toNat_le.mp le)
  have reaches : f.pllMhz ≤ f.cpu * .ofNat d.toNat := by
    rw [Config.pllMhz, on_edge]
    exact usable.1
  exact Binary64.not_le_of_lt short (Binary64.le_trans reaches grows)

theorem not_overshoots_of_found : ¬ l.Overshoots f := by
  rintro ⟨on_edge, above, unusable⟩
  obtain ⟨d_mem, usable, -⟩ := valid.lowestUsableDivider?_eq_some_iff.mp found
  by_cases own : d = f.cpuDiv
  · have stays : f.cpu * .ofNat f.cpuDiv.toNat ≤ f.pllMhz := by
      rw [Config.pllMhz, on_edge, ← own]
      exact usable.2
    exact Binary64.not_le_of_lt above stays
  · exact unusable d d_mem (UInt32.lt_of_le_of_ne le own) usable

end Lost

/-- A PLL output in the band is found again from its CPU clock, by no greater divider than its own,
unless rounding takes the lifted clock past a band edge that the PLL output sits on. The dividers
of the built-in form give it back exactly. -/
theorem lowestUsableDivider?_le_own_iff {l : Limits} {f : Config} (valid : l.validate = .ok ())
    (mem : f.cpuDiv ∈ l.dividers) (fits : f.PllFits) (inBand : l.InPllBand f.pllMhz) :
    ((∃ d, l.lowestUsableDivider? f.cpu = some d ∧ d ≤ f.cpuDiv) ↔
      ¬ l.FallsShort f ∧ ¬ l.Overshoots f) ∧
    (IsExactDivider f.cpuDiv → f.cpu * .ofNat f.cpuDiv.toNat = f.pllMhz ∧
      ∃ d, l.lowestUsableDivider? f.cpu = some d ∧ d ≤ f.cpuDiv) := by
  have valid := validate_eq_ok_iff.mp valid
  refine ⟨⟨?_, ?_⟩, fun exact => ?_⟩
  · rintro ⟨d, found, le⟩
    exact ⟨not_fallsShort_of_found valid found le, not_overshoots_of_found valid found le⟩
  · rintro ⟨not_short, not_over⟩
    exact exists_lowestUsableDivider?_le_own valid mem fits inBand not_short not_over
  · have lifted := Config.cpu_mul_cpuDiv fits exact
    refine ⟨lifted, valid.exists_lowestUsableDivider? mem ?_⟩
    rw [lifted]
    exact inBand

/-- At a lower edge of 108 MHz the eleventh part of 120 MHz is lifted back, if not quite to 120,
and a quarter of the edge itself exactly. -/
theorem lowestUsableDivider?_le_own_near_edge :
    let l := { standard with dividers := [1, 2, 3, 4, 6, 8, 11], pllMinMhz := 108 }
    let f : Config := ⟨10, 11, 11⟩
    let g : Config := ⟨9, 4, 4⟩
    l.validate = .ok () ∧ f.cpuDiv ∈ l.dividers ∧ f.PllFits ∧ l.InPllBand f.pllMhz ∧
      ¬ l.FallsShort f ∧ ¬ l.Overshoots f ∧
      (∃ d, l.lowestUsableDivider? f.cpu = some d ∧ d ≤ f.cpuDiv) ∧
      g.cpuDiv ∈ l.dividers ∧ g.PllFits ∧ l.InPllBand g.pllMhz ∧ IsExactDivider g.cpuDiv ∧
      ∃ d, l.lowestUsableDivider? g.cpu = some d ∧ d ≤ g.cpuDiv := by
  intro l f g
  have valid : l.validate = .ok () := by decide
  have f_mem : f.cpuDiv ∈ l.dividers := by decide
  have f_inBand : l.InPllBand f.pllMhz := by decide +kernel
  have f_above : f.pll ≠ l.pllMinMhz.toNat := by decide
  have f_below : f.pll ≠ l.pllMaxMhz.toNat := by decide
  have not_short : ¬ l.FallsShort f := fun short => f_above short.1
  have not_over : ¬ l.Overshoots f := fun overshoots => f_below overshoots.1
  have g_mem : g.cpuDiv ∈ l.dividers := by decide
  have g_inBand : l.InPllBand g.pllMhz := by decide +kernel
  have g_exact : IsExactDivider g.cpuDiv := ⟨2, 0, by decide, by decide⟩
  have f_found := lowestUsableDivider?_le_own_iff valid f_mem (by decide) f_inBand
  have g_found := lowestUsableDivider?_le_own_iff valid g_mem (by decide) g_inBand
  exact ⟨valid, f_mem, by decide, f_inBand, not_short, not_over,
    f_found.1.mpr ⟨not_short, not_over⟩, g_mem, by decide, g_inBand, g_exact, (g_found.2 g_exact).2⟩

/-- 120 MHz, the lower edge, is not found again from its eleventh part. -/
theorem lowestUsableDivider?_loses_edge :
    let l := { standard with dividers := [1, 2, 3, 4, 6, 8, 11], pllMinMhz := 120 }
    let f : Config := ⟨10, 11, 11⟩
    l.validate = .ok () ∧ f.cpuDiv ∈ l.dividers ∧ f.ramDiv ∈ l.dividers ∧ f.PllFits ∧
      l.InPllBand f.pllMhz ∧ l.lowestUsableDivider? f.cpu = none := by
  decide +kernel

end Limits

end ClockTree
