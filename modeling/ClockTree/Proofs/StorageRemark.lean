import ClockTree.Proofs.ExactAnnotation
import ClockTree.Proofs.ExactLegality

/-! Remarks on storage speed. The high-capacity rate is the greater one, so a CPU that is too slow
for the standard rate is too slow for both, and no slow interface goes without a remark, whatever
the floor. Of the two ratios the PLL output cancels: under the built-in limits the remark follows
from the CPU divider, by the unrounded ratios. The exception is a divider of 5, where the ratio to the
standard rate is the floor itself. There the rounding of the clock and of the rate decides, unless
the multiplier is a multiple of 5 too and neither is rounded. -/
namespace ClockTree

theorem div_lt_three_iff {a : ℚ} {k c : Nat} (positive : 0 < c) (low : 3 * k ≤ a)
    (high : a < 3 * (k + 1)) : a / c < 3 ↔ k < c := by
  rw [div_lt_iff₀ (Nat.cast_pos.mpr positive)]
  constructor
  · intro lt
    have k_lt : (k : ℚ) < c := by linarith
    exact_mod_cast k_lt
  · intro lt
    have step : (k + 1 : ℚ) ≤ c := by exact_mod_cast lt
    linarith

namespace Note

def OnStorage : Note → Prop
  | blank | storageTooSlow | sdhcTooSlow => True
  | _ => False

/-- The remark that the ratios of a CPU clock to the two storage rates call for, against a floor
of 3. -/
def ofRatios (toMsd toMsd2 : ℚ) : Note :=
  if toMsd2 < 3 then if toMsd < 3 then storageTooSlow else sdhcTooSlow else blank

end Note

namespace Config

def exactMsd (f : Config) : ℚ := 24 * f.pll / 360

def exactMsd2 (f : Config) : ℚ := 48 * f.pll / 360

/-- The unrounded ratio to the standard rate is the floor, but clock and rate are rounded. -/
def RoundedAtFloor (f : Config) : Prop := f.cpuDiv = 5 ∧ ¬ 5 ∣ f.pllMul.toNat

instance (f : Config) : Decidable f.RoundedAtFloor := inferInstanceAs (Decidable (_ ∧ _))

/-- A CPU clock is below no more of a rate than of a greater one, with zero dividers and a zero
multiplier included. -/
theorem cpu_div_storageRate_lt {f : Config} (fits : f.PllFits) {factor factor' : Nat}
    (positive : 0 < factor) (le : factor ≤ factor') (factor'_le : factor' ≤ 48) {t : Binary64}
    (lt : f.cpu / (.ofNat factor * f.pllMhz / 360) < t) :
    f.cpu / (.ofNat factor' * f.pllMhz / 360) < t := by
  have pll_small : f.pll < 2 ^ 32 := fits
  have factor_le := le.trans factor'_le
  rw [storageRate_eq fits factor_le] at lt
  rw [storageRate_eq fits factor'_le]
  rcases Nat.eq_zero_or_pos f.pll with zero | pll_pos
  · simpa [zero] using lt
  have scaled_pos : 0 < factor * f.pll := Nat.mul_pos positive pll_pos
  have scaled_le : factor * f.pll ≤ factor' * f.pll := Nat.mul_le_mul_right _ le
  have scaled'_le : factor' * f.pll ≤ 48 * f.pll := Nat.mul_le_mul_right _ factor'_le
  have rate := Binary64.approximates_round_div (b := 360) scaled_pos (by omega) (by decide)
    (by decide)
  have rate' := Binary64.approximates_round_div (b := 360) (scaled_pos.trans_le scaled_le) (by omega)
    (by decide) (by decide)
  have rate_pos : (0 : ℚ) < (factor * f.pll : Nat) / (360 : Nat) :=
    div_pos (Nat.cast_pos.mpr scaled_pos) (by norm_num)
  refine Binary64.div_lt_of_divisor_le (Binary64.unsigned_div _ _) (rate.not_isZero rate_pos)
    rate'.finite (Magnitude.round_place_mono ?_) lt
  exact div_le_div_of_nonneg_right (Nat.cast_le.mpr scaled_le) (Nat.cast_nonneg 360)

section Running

variable {f : Config} (running : f.Running)
include running

/-- The PLL output cancels. -/
theorem exactCpu_div_exactMsd : f.exactCpu / f.exactMsd = 15 / f.cpuDiv.toNat := by
  have pll_ne : (f.pll : ℚ) ≠ 0 := Nat.cast_ne_zero.mpr running.positive.ne'
  have cpuDiv_ne := cast_toNat_ne_zero running.cpuDiv_ne
  rw [exactCpu, exactMsd]
  field_simp
  norm_num

theorem exactCpu_div_exactMsd2 : f.exactCpu / f.exactMsd2 = 7.5 / f.cpuDiv.toNat := by
  have pll_ne : (f.pll : ℚ) ≠ 0 := Nat.cast_ne_zero.mpr running.positive.ne'
  have cpuDiv_ne := cast_toNat_ne_zero running.cpuDiv_ne
  rw [exactCpu, exactMsd2]
  field_simp
  norm_num

theorem exactStorageNote_eq_ofRatios :
    f.exactStorageNote = .ofRatios (15 / f.cpuDiv.toNat) (7.5 / f.cpuDiv.toNat) := by
  have cpuDiv_pos := toNat_pos_of_ne_zero running.cpuDiv_ne
  have msd_iff : (15 / f.cpuDiv.toNat : ℚ) < 3 ↔ 5 < f.cpuDiv.toNat :=
    div_lt_three_iff cpuDiv_pos (by norm_num) (by norm_num)
  have msd2_iff : (7.5 / f.cpuDiv.toNat : ℚ) < 3 ↔ 2 < f.cpuDiv.toNat :=
    div_lt_three_iff cpuDiv_pos (by norm_num) (by norm_num)
  simp only [exactStorageNote, Note.ofRatios, msd_iff, msd2_iff]
  split_ifs <;> first | rfl | omega

end Running

end Config

namespace Limits

section AnyTable

variable {l : Limits} {f : Config}

theorem tooSlowFor_msd2_of_msd (fits : f.PllFits) (slow : l.TooSlowFor f.cpu f.msd) :
    l.TooSlowFor f.cpu f.msd2 :=
  Config.cpu_div_storageRate_lt fits (by decide) (by decide) (Nat.le_refl 48) slow

/-- The remark names the interfaces that are too slow, and the standard one is not among them
without the other. -/
theorem storageNote_names_slow_interfaces (fits : f.PllFits) :
    (l.TooSlowFor f.cpu f.msd → l.TooSlowFor f.cpu f.msd2) ∧
      (l.storageNote f = .storageTooSlow ↔
        l.TooSlowFor f.cpu f.msd ∧ l.TooSlowFor f.cpu f.msd2) ∧
      (l.storageNote f = .sdhcTooSlow ↔
        ¬ l.TooSlowFor f.cpu f.msd ∧ l.TooSlowFor f.cpu f.msd2) ∧
      (l.storageNote f = .blank ↔
        ¬ l.TooSlowFor f.cpu f.msd ∧ ¬ l.TooSlowFor f.cpu f.msd2) := by
  have implies : l.TooSlowFor f.cpu f.msd → l.TooSlowFor f.cpu f.msd2 := tooSlowFor_msd2_of_msd fits
  refine ⟨implies, ?_⟩
  by_cases slow : l.TooSlowFor f.cpu f.msd
  · simp [storageNote, slow, implies slow]
  · by_cases slow2 : l.TooSlowFor f.cpu f.msd2 <;> simp [storageNote, slow, slow2]

theorem clockNote_eq_storageNote (storage : (l.clockNote f).OnStorage) :
    l.clockNote f = l.storageNote f := by
  simp only [clockNote_eq] at storage ⊢
  split_ifs at storage ⊢ <;> first | rfl | exact storage.elim

/-- Annotation that ends in a remark on storage, or in none, reports what the storage rules say. -/
theorem eq_storageNote_of_classify {n : Note} (classified : l.classify f = .ok n)
    (storage : n.OnStorage) : n = l.storageNote f := by
  rw [classify_eq] at classified
  split at classified
  · cases classified
  split at classified
  · cases classified
    exact storage.elim
  split at classified
  · cases classified
    exact storage.elim
  split at classified
  · cases classified
  · cases classified
    exact clockNote_eq_storageNote storage

/-- Under an infinite floor 108 MHz is too slow for both interfaces, and a clock without a value for
none. -/
theorem storageNote_names_slow_interfaces_at_infinite_floor :
    let l := { standard with storageRatioFloor := .infinity }
    let f : Config := ⟨9, 1, 1⟩
    let stopped : Config := ⟨0, 0, 0⟩
    f.PllFits ∧ stopped.PllFits ∧ l.TooSlowFor f.cpu f.msd ∧ l.TooSlowFor f.cpu f.msd2 ∧
      l.storageNote f = .storageTooSlow ∧ l.storageNote stopped = .blank := by
  intro l f stopped
  have evaluated : f.PllFits ∧ stopped.PllFits ∧ l.TooSlowFor f.cpu f.msd ∧
      ¬ l.TooSlowFor stopped.cpu stopped.msd ∧ ¬ l.TooSlowFor stopped.cpu stopped.msd2 := by
    decide +kernel
  -- With the values in view every step below would evaluate the clocks again.
  clear_value l f stopped
  obtain ⟨f_fits, stopped_fits, slow, not_slow, not_slow2⟩ := evaluated
  obtain ⟨implies, both_iff, -, -⟩ := storageNote_names_slow_interfaces (l := l) f_fits
  obtain ⟨-, -, -, none_iff⟩ := storageNote_names_slow_interfaces (l := l) stopped_fits
  have slow2 : l.TooSlowFor f.cpu f.msd2 := implies slow
  exact ⟨f_fits, stopped_fits, slow, slow2, both_iff.mpr ⟨slow, slow2⟩,
    none_iff.mpr ⟨not_slow, not_slow2⟩⟩

end AnyTable

section Standard

variable {f : Config} (running : f.Running)
include running

theorem standard_slow_for_msd2 (three_le : 3 ≤ f.cpuDiv.toNat) :
    standard.TooSlowFor f.cpu f.msd2 :=
  (tooSlowFor_standard_iff running 48 (by decide) (by decide) (by omega)).mpr (by omega)

/-- The fifth part of a multiple of 60 MHz is exact, and so are the rate and their ratio of 3. -/
theorem standard_not_slow_for_msd (five : f.cpuDiv = 5) (multiple : 5 ∣ f.pllMul.toNat) :
    ¬ standard.TooSlowFor f.cpu f.msd := by
  obtain ⟨k, pllMul_eq⟩ := multiple
  have pll_eq : f.pll = 60 * k := by
    rw [Config.pll, pllMul_eq, baseClockMhz]
    omega
  have pll_small : f.pll < 2 ^ 32 := running.fits
  have pll_pos := running.positive
  have k_ne : (k : ℚ) ≠ 0 := Nat.cast_ne_zero.mpr (by omega)
  have five_toNat : f.cpuDiv.toNat = 5 := congrArg UInt32.toNat five
  have cpu_value : f.cpu.Represents (12 * k : Nat) := by
    refine (Config.represents_pll running.fits).div_eq_natural (Config.represents_divider f.cpuDiv)
      (cast_toNat_ne_zero running.cpuDiv_ne) (by omega) ?_
    rw [pll_eq, five_toNat]
    push_cast
    ring
  have msd_value : f.msd.Represents (4 * k : Nat) := by
    refine (Config.represents_scaled_pll running.fits (by decide)).div_eq_natural
      (Binary64.represents_ofNat (n := 360) (by decide)) (by norm_num) (by omega) ?_
    rw [pll_eq]
    push_cast
    ring
  have ratio : (f.cpu / f.msd).Represents (3 : Nat) := by
    refine cpu_value.div_eq_natural msd_value (by push_cast; positivity) (by decide) ?_
    push_cast
    field_simp
    norm_num
  intro slow
  exact Binary64.not_le_of_lt slow ((ratio.ofNat_le_iff (by decide)).mpr le_rfl)

theorem standard_storageNote_of_exact (exact : ¬ f.RoundedAtFloor) :
    standard.storageNote f = .ofRatios (15 / f.cpuDiv.toNat) (7.5 / f.cpuDiv.toNat) := by
  rw [← Config.exactStorageNote_eq_ofRatios running]
  by_cases five : f.cpuDiv = 5
  · have multiple : 5 ∣ f.pllMul.toNat := by
      by_contra not_multiple
      exact exact ⟨five, not_multiple⟩
    have fast := standard_not_slow_for_msd running five multiple
    have slow2 : standard.TooSlowFor f.cpu f.msd2 :=
      standard_slow_for_msd2 running (by rw [five]; decide)
    rw [(storageNote_names_slow_interfaces running.fits).2.2.1.mpr ⟨fast, slow2⟩,
      Config.exactStorageNote, five]
    rfl
  · exact storageNote_standard_eq running five

/-- At a divider of 5 the high-capacity interface is too slow, and the rounded ratio decides on the
other. -/
theorem standard_storageNote_of_five (five : f.cpuDiv = 5) :
    standard.storageNote f = if f.cpu / f.msd < 3 then .storageTooSlow else .sdhcTooSlow := by
  have slow2 : standard.TooSlowFor f.cpu f.msd2 :=
    standard_slow_for_msd2 running (by rw [five]; decide)
  rw [storageNote, if_pos slow2]
  rfl

end Standard

/-- Under the built-in limits two configurations with one CPU divider that get to the storage rules
get one remark, that of the unrounded ratios. A divider of 5, where the ratio to the standard rate is
the floor of 3, is an exception: there the rounded ratio decides between the two remarks, except at
a multiplier that is a multiple of 5. -/
theorem classify_standard_storage_of_cpuDiv {f g : Config} {n n' : Note} (f_running : f.Running)
    (g_running : g.Running) (same : f.cpuDiv = g.cpuDiv) (f_classified : standard.classify f = .ok n)
    (g_classified : standard.classify g = .ok n') (f_storage : n.OnStorage)
    (g_storage : n'.OnStorage) :
    f.exactCpu / f.exactMsd = 15 / f.cpuDiv.toNat ∧
      f.exactCpu / f.exactMsd2 = 7.5 / f.cpuDiv.toNat ∧
      (¬ f.RoundedAtFloor → ¬ g.RoundedAtFloor →
        n = n' ∧ n = .ofRatios (15 / f.cpuDiv.toNat) (7.5 / f.cpuDiv.toNat)) ∧
      (f.cpuDiv = 5 → n = if f.cpu / f.msd < 3 then .storageTooSlow else .sdhcTooSlow) := by
  have f_note := eq_storageNote_of_classify f_classified f_storage
  have g_note := eq_storageNote_of_classify g_classified g_storage
  refine ⟨Config.exactCpu_div_exactMsd f_running, Config.exactCpu_div_exactMsd2 f_running, ?_, ?_⟩
  · intro f_exact g_exact
    rw [standard_storageNote_of_exact f_running f_exact] at f_note
    rw [standard_storageNote_of_exact g_running g_exact, ← same] at g_note
    exact ⟨f_note.trans g_note.symm, f_note⟩
  · intro five
    rw [f_note, standard_storageNote_of_five f_running five]

/-- At a divider of 5 the multipliers of 30 and 10 get the remark of the exact ratios. -/
theorem classify_standard_storage_of_cpuDiv_at_floor :
    let f : Config := ⟨30, 5, 5⟩
    let g : Config := ⟨10, 5, 10⟩
    f.Running ∧ g.Running ∧ f.cpuDiv = g.cpuDiv ∧ standard.classify f = .ok .sdhcTooSlow ∧
      standard.classify g = .ok .sdhcTooSlow ∧ Note.sdhcTooSlow.OnStorage ∧
      ¬ f.RoundedAtFloor ∧ ¬ g.RoundedAtFloor ∧
      Note.sdhcTooSlow = .ofRatios (15 / f.cpuDiv.toNat) (7.5 / f.cpuDiv.toNat) := by
  intro f g
  have f_running : f.Running := ⟨⟨by decide, by decide⟩, by decide, by decide⟩
  have g_running : g.Running := ⟨⟨by decide, by decide⟩, by decide, by decide⟩
  have f_classified : standard.classify f = .ok .sdhcTooSlow := by decide +kernel
  have g_classified : standard.classify g = .ok .sdhcTooSlow := by decide +kernel
  have f_exact : ¬ f.RoundedAtFloor := by decide
  have g_exact : ¬ g.RoundedAtFloor := by decide
  obtain ⟨-, -, agreed, -⟩ := classify_standard_storage_of_cpuDiv f_running g_running rfl
    f_classified g_classified trivial trivial
  exact ⟨f_running, g_running, rfl, f_classified, g_classified, trivial, f_exact, g_exact,
    (agreed f_exact g_exact).2⟩

/-- With one CPU divider of 5 the remark depends on the multiplier: at 132 MHz the rounded ratio is
below the floor, at 360 MHz it is not. -/
theorem classify_standard_storage_flickers :
    let f : Config := ⟨11, 5, 5⟩
    let g : Config := ⟨30, 5, 5⟩
    (1 ≤ f.pllMul ∧ f.PllFits ∧ f.cpuDiv ≠ 0 ∧ f.ramDiv ≠ 0) ∧
      (1 ≤ g.pllMul ∧ g.PllFits ∧ g.cpuDiv ≠ 0 ∧ g.ramDiv ≠ 0) ∧ f.cpuDiv = g.cpuDiv ∧
      standard.classify f = .ok .storageTooSlow ∧ standard.classify g = .ok .sdhcTooSlow := by
  decide +kernel

end Limits

end ClockTree
