import ClockTree.Proofs.CoupledClocks
import ClockTree.Proofs.LowestDivider

/-! Legal multipliers have no holes. At fixed dividers both clocks grow with the multiplier, so a
multiplier between two legal ones keeps every bound, whichever side the bound is on. The rule for
the CPU divider carries over while the CPU clocks of the two are both fast or both slow: a slow clock
in between lies in the band again at the common divider, and every lower divider that leaves the
fastest of them short of the band leaves the others short as well. In the built-in table the rules
change over without a gap: legal on both sides is only a divider of 2 that the CPU shares with the
RAM. -/
namespace ClockTree.Limits

structure WithinBounds (l : Limits) (f : Config) : Prop where
  pllFits : f.PllFits
  cpu_le : ¬ l.cpuMaxMhz < f.cpu
  ram_le : ¬ l.ramMaxMhz < f.ram
  inBand : l.InPllBand f.pllMhz
  cpuDiv_ne : f.cpuDiv ≠ 0
  dividers : l.DividersMatch f

theorem WithinBounds.legal {l : Limits} {f : Config} (bounds : l.WithinBounds f)
    (suits : l.CpuDividerSuits f) : l.Legal f :=
  ⟨bounds.pllFits, bounds.cpu_le, bounds.ram_le, bounds.inBand, bounds.cpuDiv_ne, bounds.dividers,
    suits⟩

section Between

variable {l : Limits} {c r m₁ m₂ m₃ : UInt32} (first : 1 ≤ m₁) (le₁₂ : m₁ ≤ m₂) (le₂₃ : m₂ ≤ m₃)
  (low : l.Legal ⟨m₁, c, r⟩) (high : l.Legal ⟨m₃, c, r⟩)
include first le₁₂ le₂₃ low high

theorem withinBounds_between : l.WithinBounds ⟨m₂, c, r⟩ := by
  have positive : 1 ≤ m₂ := UInt32.le_trans first le₁₂
  have fits : Config.PllFits ⟨m₂, c, r⟩ := Config.pllFits_of_le le₂₃ high.pllFits
  have cpu_le : ¬ l.cpuMaxMhz < Config.cpu ⟨m₂, c, r⟩ := fun above =>
    high.cpu_le (Binary64.lt_of_lt_of_le above (Config.cpu_le le₂₃ positive high.pllFits))
  have ram_le : ¬ l.ramMaxMhz < Config.ram ⟨m₂, c, r⟩ := fun above =>
    high.ram_le (Binary64.lt_of_lt_of_le above (Config.ram_le le₂₃ positive high.pllFits))
  have low_band := (l.inPllBand_ofNat low.pllFits).mp low.inBand
  have high_band := (l.inPllBand_ofNat high.pllFits).mp high.inBand
  have inBand : l.InPllBand (Config.pllMhz ⟨m₂, c, r⟩) :=
    (l.inPllBand_ofNat fits).mpr ⟨low_band.1.trans (Config.pll_le le₁₂),
      (Config.pll_le le₂₃).trans high_band.2⟩
  exact ⟨fits, cpu_le, ram_le, inBand, high.cpuDiv_ne, high.dividers⟩

theorem suits_of_fast (fast : l.fastCpuMhz ≤ Config.cpu ⟨m₁, c, r⟩) :
    l.CpuDividerSuits ⟨m₂, c, r⟩ := by
  have positive : 1 ≤ m₂ := UInt32.le_trans first le₁₂
  have fits : Config.PllFits ⟨m₂, c, r⟩ := Config.pllFits_of_le le₂₃ high.pllFits
  have fast₂ := Binary64.le_trans fast (Config.cpu_le le₁₂ first fits)
  have suits :=
    (cpuDividerSuits_iff_of_fast (Config.pll_pos first) low.pllFits fast).mp low.suits
  exact (cpuDividerSuits_iff_of_fast (Config.pll_pos positive) fits fast₂).mpr suits

theorem suits_of_slow (valid : l.WellFormed) (slow : ¬ l.fastCpuMhz ≤ Config.cpu ⟨m₃, c, r⟩) :
    l.CpuDividerSuits ⟨m₂, c, r⟩ := by
  have positive : 1 ≤ m₂ := UInt32.le_trans first le₁₂
  have fits : Config.PllFits ⟨m₂, c, r⟩ := Config.pllFits_of_le le₂₃ high.pllFits
  have cpu_le₁₂ : Config.cpu ⟨m₁, c, r⟩ ≤ Config.cpu ⟨m₂, c, r⟩ := Config.cpu_le le₁₂ first fits
  have cpu_le₂₃ : Config.cpu ⟨m₂, c, r⟩ ≤ Config.cpu ⟨m₃, c, r⟩ :=
    Config.cpu_le le₂₃ positive high.pllFits
  have slow₂ : ¬ l.fastCpuMhz ≤ Config.cpu ⟨m₂, c, r⟩ :=
    fun fast => slow (Binary64.le_trans fast cpu_le₂₃)
  have slow₁ : ¬ l.fastCpuMhz ≤ Config.cpu ⟨m₁, c, r⟩ :=
    fun fast => slow₂ (Binary64.le_trans fast cpu_le₁₂)
  have found₁ := low.suits
  have found₃ := high.suits
  rw [CpuDividerSuits, if_neg slow₁, valid.lowestUsableDivider?_eq_some_iff] at found₁
  rw [CpuDividerSuits, if_neg slow, valid.lowestUsableDivider?_eq_some_iff] at found₃
  obtain ⟨c_mem, inside₁, -⟩ := found₁
  obtain ⟨-, inside₃, short₃⟩ := found₃
  rw [CpuDividerSuits, if_neg slow₂, valid.lowestUsableDivider?_eq_some_iff]
  -- Each edge of the band is kept by the neighbour nearer to it, and a divider too low for the
  -- faster clock is too low for this one.
  refine ⟨c_mem, ⟨?_, ?_⟩, fun j j_mem lt => ?_⟩
  · exact Binary64.le_trans inside₁.1 (valid.scaled_le_scaled c_mem cpu_le₁₂)
  · exact Binary64.le_trans (valid.scaled_le_scaled c_mem cpu_le₂₃) inside₃.2
  · exact Binary64.lt_of_le_of_lt (valid.scaled_le_scaled j_mem cpu_le₂₃) (short₃ j j_mem lt)

theorem legal_between_of_same_side (valid : l.WellFormed)
    (same_side : l.fastCpuMhz ≤ Config.cpu ⟨m₁, c, r⟩ ↔ l.fastCpuMhz ≤ Config.cpu ⟨m₃, c, r⟩) :
    l.Legal ⟨m₂, c, r⟩ := by
  apply (withinBounds_between first le₁₂ le₂₃ low high).legal
  by_cases fast : l.fastCpuMhz ≤ Config.cpu ⟨m₁, c, r⟩
  · exact suits_of_fast first le₁₂ le₂₃ low high fast
  · exact suits_of_slow first le₁₂ le₂₃ low high valid fun fast₃ => fast (same_side.mpr fast₃)

end Between

/-- A divider of 2 for both clocks suits every PLL output in the built-in band: a fast CPU takes
it next to the RAM, and a slow one is back in the band by it and not by 1. -/
theorem standard_suits_two {m : UInt32} (fits : Config.PllFits ⟨m, 2, 2⟩)
    (inBand : standard.InPllBand (Config.pllMhz ⟨m, 2, 2⟩)) :
    standard.CpuDividerSuits ⟨m, 2, 2⟩ := by
  have band := (standard.inPllBand_ofNat fits).mp inBand
  by_cases fast : standard.fastCpuMhz ≤ Config.cpu ⟨m, 2, 2⟩
  · have positive : 0 < Config.pll ⟨m, 2, 2⟩ := Nat.lt_of_lt_of_le (by decide) band.1
    exact (cpuDividerSuits_iff_of_fast positive fits fast).mpr (if_pos rfl).symm
  have two_mem : 2 ∈ standard.dividers := by decide
  have two_exact := standard_exact 2 two_mem
  have product := fun i mem =>
    Config.represents_cpu_mul (f := ⟨m, 2, 2⟩) fits two_exact (standard_exact i mem)
  have cpu_value : (Config.cpu ⟨m, 2, 2⟩).Represents (Config.exactCpu ⟨m, 2, 2⟩) :=
    Config.represents_pll_div fits two_exact
  rw [CpuDividerSuits, if_neg fast,
    lowestUsableDivider?_eq_some_iff_least standard_wellFormed.ascending]
  refine ⟨two_mem, ?_, fun j j_mem lt usable => ?_⟩
  · rw [inPllBand_iff (product 2 two_mem), Config.exactCpu,
      div_mul_cancel₀ _ (cast_toNat_ne_zero two_exact.ne_zero)]
    exact_mod_cast band
  · have j_pos := standard_wellFormed.toNat_pos j_mem
    have j_lt := UInt32.lt_iff_toNat_lt.mp lt
    have one : j.toNat = 1 := by
      change j.toNat < 2 at j_lt
      omega
    have reaches := ((inPllBand_iff (product j j_mem)).mp usable).1
    rw [one, Nat.cast_one, mul_one] at reaches
    exact fast ((cpu_value.ofNat_le_iff (n := 100) (by decide)).mpr reaches)

section Standard

variable {c r m₁ m₂ m₃ : UInt32} (first : 1 ≤ m₁) (low : standard.Legal ⟨m₁, c, r⟩)
  (high : standard.Legal ⟨m₃, c, r⟩)
include first low high

/-- Only at a divider of 2 for both clocks does the built-in table cross from slow to fast: a
decoupled fast CPU takes a divider of 1, at which no clock in the band is slow. -/
theorem standard_dividers_of_crossing (le₁₃ : m₁ ≤ m₃)
    (slow : ¬ standard.fastCpuMhz ≤ Config.cpu ⟨m₁, c, r⟩)
    (fast : standard.fastCpuMhz ≤ Config.cpu ⟨m₃, c, r⟩) : c = 2 ∧ r = 2 := by
  have positive₃ : 0 < Config.pll ⟨m₃, c, r⟩ := Config.pll_pos (UInt32.le_trans first le₁₃)
  have suits : c = if c = r then 2 else 1 :=
    (cpuDividerSuits_iff_of_fast positive₃ high.pllFits fast).mp high.suits
  by_cases coupled : c = r
  · rw [if_pos coupled] at suits
    exact ⟨suits, coupled ▸ suits⟩
  · rw [if_neg coupled] at suits
    subst suits
    have band := (standard.inPllBand_ofNat low.pllFits).mp low.inBand
    have cpu_value := Config.represents_pll_div low.pllFits (standard_exact 1 (by decide))
    have reaches : standard.fastCpuMhz ≤ Config.cpu ⟨m₁, 1, r⟩ := by
      refine (cpu_value.ofNat_le_iff (n := 100) (by decide)).mpr ?_
      rw [le_div_iff₀ (by decide)]
      exact_mod_cast band.1
    exact absurd reaches slow

theorem standard_legal_between (le₁₂ : m₁ ≤ m₂) (le₂₃ : m₂ ≤ m₃) :
    standard.Legal ⟨m₂, c, r⟩ := by
  have le₁₃ : m₁ ≤ m₃ := UInt32.le_trans le₁₂ le₂₃
  have keeps_fast (fast : standard.fastCpuMhz ≤ Config.cpu ⟨m₁, c, r⟩) :
      standard.fastCpuMhz ≤ Config.cpu ⟨m₃, c, r⟩ :=
    Binary64.le_trans fast (Config.cpu_le le₁₃ first high.pllFits)
  by_cases crosses : ¬ standard.fastCpuMhz ≤ Config.cpu ⟨m₁, c, r⟩ ∧
      standard.fastCpuMhz ≤ Config.cpu ⟨m₃, c, r⟩
  · obtain ⟨rfl, rfl⟩ := standard_dividers_of_crossing first low high le₁₃ crosses.1 crosses.2
    have bounds := withinBounds_between first le₁₂ le₂₃ low high
    exact bounds.legal (standard_suits_two bounds.pllFits bounds.inBand)
  · apply legal_between_of_same_side first le₁₂ le₂₃ low high standard_wellFormed
    exact ⟨keeps_fast, fun fast₃ => by_contra fun slow₁ => crosses ⟨slow₁, fast₃⟩⟩

end Standard

/-- At one pair of dividers every multiplier between two legal ones is legal, if the CPU clocks at
the two are both fast or both slow, and under the built-in limits in any case. -/
theorem permits_between {c r m₁ m₂ m₃ : UInt32} (first : 1 ≤ m₁) (lt₁₂ : m₁ < m₂)
    (lt₂₃ : m₂ < m₃) :
    (∀ l : Limits, l.validate = .ok () → l.permits ⟨m₁, c, r⟩ = .ok true →
      l.permits ⟨m₃, c, r⟩ = .ok true →
      (l.fastCpuMhz ≤ Config.cpu ⟨m₁, c, r⟩ ↔ l.fastCpuMhz ≤ Config.cpu ⟨m₃, c, r⟩) →
      l.permits ⟨m₂, c, r⟩ = .ok true) ∧
    (standard.permits ⟨m₁, c, r⟩ = .ok true → standard.permits ⟨m₃, c, r⟩ = .ok true →
      standard.permits ⟨m₂, c, r⟩ = .ok true) := by
  have le₁₂ := UInt32.le_of_lt lt₁₂
  have le₂₃ := UInt32.le_of_lt lt₂₃
  constructor
  · intro l valid permitted₁ permitted₃ same_side
    have low := permits_eq_true_iff.mp permitted₁
    have high := permits_eq_true_iff.mp permitted₃
    exact permits_eq_true_iff.mpr (legal_between_of_same_side first le₁₂ le₂₃ low high
      (validate_eq_ok_iff.mp valid) same_side)
  · intro permitted₁ permitted₃
    have low := permits_eq_true_iff.mp permitted₁
    have high := permits_eq_true_iff.mp permitted₃
    exact permits_eq_true_iff.mpr (standard_legal_between first low high le₁₂ le₂₃)

/-- Slow clocks at a divider of 7, by which no clock is exact, and in the built-in table from 54 MHz
to 180 MHz at a divider of 2. -/
theorem permits_between_slow_and_across :
    let l := { standard with dividers := [1, 7, 11] }
    (1 : UInt32) ≤ 9 ∧ (9 : UInt32) < 16 ∧ (16 : UInt32) < 41 ∧ l.validate = .ok () ∧
      l.permits ⟨9, 7, 7⟩ = .ok true ∧ l.permits ⟨41, 7, 7⟩ = .ok true ∧
      (l.fastCpuMhz ≤ Config.cpu ⟨9, 7, 7⟩ ↔ l.fastCpuMhz ≤ Config.cpu ⟨41, 7, 7⟩) ∧
      l.permits ⟨16, 7, 7⟩ = .ok true ∧ (16 : UInt32) < 30 ∧
      standard.permits ⟨9, 2, 2⟩ = .ok true ∧ standard.permits ⟨30, 2, 2⟩ = .ok true ∧
      standard.permits ⟨16, 2, 2⟩ = .ok true := by
  intro l
  have valid : l.validate = .ok () := by decide
  have low : l.permits ⟨9, 7, 7⟩ = .ok true := by decide +kernel
  have high : l.permits ⟨41, 7, 7⟩ = .ok true := by decide +kernel
  have same_side : l.fastCpuMhz ≤ Config.cpu ⟨9, 7, 7⟩ ↔ l.fastCpuMhz ≤ Config.cpu ⟨41, 7, 7⟩ := by
    decide +kernel
  have slow : standard.permits ⟨9, 2, 2⟩ = .ok true := by decide +kernel
  have fast : standard.permits ⟨30, 2, 2⟩ = .ok true := by decide +kernel
  have middle : l.permits ⟨16, 7, 7⟩ = .ok true :=
    (permits_between (by decide) (by decide) (by decide)).1 l valid low high same_side
  have across : standard.permits ⟨16, 2, 2⟩ = .ok true :=
    (permits_between (by decide) (by decide) (by decide)).2 slow fast
  exact ⟨by decide, by decide, by decide, valid, low, high, same_side, middle, by decide, slow, fast,
    across⟩

end ClockTree.Limits
