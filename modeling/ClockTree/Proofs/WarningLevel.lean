import ClockTree.Proofs.Annotation
import ClockTree.Proofs.Binary64.Order
import ClockTree.Proofs.Clocks

/-! Warning levels. A remark warns of an unstable RAM divider, of an overclock by its stability, or
of nothing. A configuration with no lower multiplier and no greater dividers is at least as fast,
and it never earns a lower warning: what one overclock ratio exceeds, the other exceeds as well,
whatever the thresholds are. Only the nominal configuration is spared a warning by name, and
nothing slower than it is overclocked. -/
namespace ClockTree

def Stability.level : Stability → Nat
  | stable => 1
  | lessStable => 2
  | likelyUnstable => 3

theorem Stability.one_le_level (stability : Stability) : 1 ≤ stability.level := by
  cases stability <;> decide

theorem Stability.level_le (stability : Stability) : stability.level ≤ 3 := by
  cases stability <;> decide

namespace Note

def level : Note → Nat
  | unstableRamDivider => 4
  | overclocked _ stability | cpuRamOverclocked _ _ stability | cpuOverclocked _ stability
  | ramOverclocked _ stability => stability.level
  | blank | nominal | storageTooSlow | sdhcTooSlow => 0

theorem level_le (note : Note) : note.level ≤ 4 := by
  cases note with
  | overclocked _ stability | cpuRamOverclocked _ _ stability | cpuOverclocked _ stability
  | ramOverclocked _ stability => exact Nat.le_succ_of_le stability.level_le
  | unstableRamDivider => exact Nat.le_refl 4
  | blank | nominal | storageTooSlow | sdhcTooSlow => exact Nat.zero_le 4

end Note

namespace Binary64

/-- Whatever the first exceeds, the second exceeds. NaN exceeds nothing. -/
def AtMost (x y : Binary64) : Prop := ∀ t, t < x → t < y

section Clock

variable {p p' : Nat} {d d' : UInt32}

/-- A faster clock keeps what a slower one exceeds, against any baseline. -/
theorem clock_div_atMost (p_le : p ≤ p') (fits : p' < 2 ^ 32) (d_ge : d' ≤ d) (d_ne : d ≠ 0)
    (d'_ne : d' ≠ 0) {y : Binary64} (unsigned : y.Unsigned) :
    (ofNat p / ofNat d.toNat / y).AtMost (ofNat p' / ofNat d'.toNat / y) := by
  rw [quotient_eq (p_le.trans_lt fits) (.inr d_ne), quotient_eq fits (.inr d'_ne)]
  intro t lt
  exact lt_div_of_place_le unsigned (clockMagnitude_finite fits d'_ne)
    (clockMagnitude_mono p_le d_ge d'_ne) lt

theorem not_one_lt_clock_div_self (fits : p < 2 ^ 32) (nonzero : d ≠ 0) :
    ¬ 1 < ofNat p / ofNat d.toNat / (ofNat p / ofNat d.toNat) := by
  rw [quotient_eq fits (.inr nonzero)]
  exact not_one_lt_div_self (clockMagnitude_finite fits nonzero)

end Clock

end Binary64

namespace Config

structure NoFasterThan (f g : Config) : Prop where
  pllMul_le : f.pllMul ≤ g.pllMul
  cpuDiv_ge : g.cpuDiv ≤ f.cpuDiv
  ramDiv_ge : g.ramDiv ≤ f.ramDiv

theorem NoFasterThan.pll_le {f g : Config} (slower : f.NoFasterThan g) : f.pll ≤ g.pll :=
  Nat.mul_le_mul_left _ (UInt32.le_iff_toNat_le.mp slower.pllMul_le)

end Config

namespace Limits

open Binary64 (AtMost)

theorem level_stability_mono (l : Limits) {cpu ram cpu' ram' : Binary64} (cpu_le : cpu.AtMost cpu')
    (ram_le : ram.AtMost ram') :
    (l.stability cpu ram).level ≤ (l.stability cpu' ram').level := by
  by_cases top' : l.cpuLessSafeRatio < cpu' ∨ l.ramLessSafeRatio < ram'
  · have worst : l.stability cpu' ram' = .likelyUnstable := if_pos top'
    rw [worst]
    exact Stability.level_le _
  have top : ¬ (l.cpuLessSafeRatio < cpu ∨ l.ramLessSafeRatio < ram) :=
    fun exceeds => top' (exceeds.imp (cpu_le _) (ram_le _))
  by_cases middle : l.cpuSafeRatio < cpu ∨ l.ramSafeRatio < ram
  · have middle' : l.cpuSafeRatio < cpu' ∨ l.ramSafeRatio < ram' :=
      middle.imp (cpu_le _) (ram_le _)
    simp only [stability, top, top', middle, middle', ↓reduceIte, Nat.le_refl]
  · simp only [stability, top, middle, ↓reduceIte]
    exact Stability.one_le_level _

def Overclocks (l : Limits) (f : Config) : Prop := 1 < l.cpuRatio f ∨ 1 < l.ramRatio f

instance (l : Limits) (f : Config) : Decidable (l.Overclocks f) :=
  inferInstanceAs (Decidable (_ ∨ _))

theorem level_clockNote (l : Limits) (f : Config) :
    (l.clockNote f).level =
      if l.Overclocks f then (l.stability (l.cpuRatio f) (l.ramRatio f)).level else 0 := by
  simp only [clockNote_eq, Overclocks, storageNote]
  by_cases cpu_over : 1 < l.cpuRatio f <;> by_cases ram_over : 1 < l.ramRatio f <;>
    simp only [cpu_over, ram_over, or_true, or_false, or_self, ↓reduceIte]
  · split <;> rfl
  · rfl
  · rfl
  · split_ifs <;> rfl

variable {l : Limits} {f g : Config}

theorem level_clockNote_mono (cpu_le : (l.cpuRatio f).AtMost (l.cpuRatio g))
    (ram_le : (l.ramRatio f).AtMost (l.ramRatio g)) :
    (l.clockNote f).level ≤ (l.clockNote g).level := by
  simp only [level_clockNote]
  by_cases faster : l.Overclocks f
  · have faster' : l.Overclocks g := faster.imp (cpu_le 1) (ram_le 1)
    simp only [faster, faster', ↓reduceIte]
    exact l.level_stability_mono cpu_le ram_le
  · simp [faster]

section NoFaster

variable (slower : f.NoFasterThan g) (g_fits : g.PllFits) (f_nonzero : f.DividersNonzero)
  (g_nonzero : g.DividersNonzero)
include slower g_nonzero

theorem flagsRamDivider_mono (flagged : l.FlagsRamDivider f) : l.FlagsRamDivider g := by
  refine ⟨flagged.1.trans_le slower.pll_le, ?_⟩
  have ramDiv_le := UInt32.le_iff_toNat_le.mp slower.ramDiv_ge
  have ramDiv_pos := toNat_pos_of_ne_zero g_nonzero.ramDiv_ne
  rw [flagged.2] at ramDiv_le
  exact UInt32.toNat_inj.mp (Nat.le_antisymm ramDiv_le ramDiv_pos)

include g_fits f_nonzero

theorem cpuRatio_atMost (l : Limits) : (l.cpuRatio f).AtMost (l.cpuRatio g) :=
  Binary64.clock_div_atMost slower.pll_le g_fits slower.cpuDiv_ge f_nonzero.cpuDiv_ne
    g_nonzero.cpuDiv_ne (Binary64.unsigned_div _ _)

theorem ramRatio_atMost (l : Limits) : (l.ramRatio f).AtMost (l.ramRatio g) :=
  Binary64.clock_div_atMost slower.pll_le g_fits slower.ramDiv_ge f_nonzero.ramDiv_ne
    g_nonzero.ramDiv_ne (Binary64.unsigned_div _ _)

/-- What is no faster than the nominal configuration is not overclocked. -/
theorem not_overclocks_of_nominal (nominal : g = l.nominal) : ¬ l.Overclocks f := by
  rintro (cpu_over | ram_over)
  · have g_over := cpuRatio_atMost slower g_fits f_nonzero g_nonzero l 1 cpu_over
    rw [cpuRatio, ← nominal] at g_over
    exact Binary64.not_one_lt_clock_div_self g_fits g_nonzero.cpuDiv_ne g_over
  · have g_over := ramRatio_atMost slower g_fits f_nonzero g_nonzero l 1 ram_over
    rw [ramRatio, ← nominal] at g_over
    exact Binary64.not_one_lt_clock_div_self g_fits g_nonzero.ramDiv_ne g_over

theorem level_note_mono (l : Limits) : (l.note f).level ≤ (l.note g).level := by
  by_cases g_flagged : l.FlagsRamDivider g
  · have unstable : l.note g = .unstableRamDivider := if_pos g_flagged
    rw [unstable]
    exact (l.note f).level_le
  have f_unflagged : ¬ l.FlagsRamDivider f :=
    fun flagged => g_flagged (flagsRamDivider_mono slower g_nonzero flagged)
  simp only [note, f_unflagged, g_flagged, ↓reduceIte]
  by_cases f_nominal : f = l.nominal
  · rw [if_pos f_nominal]
    exact Nat.zero_le _
  rw [if_neg f_nominal]
  by_cases g_nominal : g = l.nominal
  · rw [level_clockNote,
      if_neg (not_overclocks_of_nominal slower g_fits f_nonzero g_nonzero g_nominal)]
    exact Nat.zero_le _
  · rw [if_neg g_nominal]
    exact level_clockNote_mono (cpuRatio_atMost slower g_fits f_nonzero g_nonzero l)
      (ramRatio_atMost slower g_fits f_nonzero g_nonzero l)

end NoFaster

/-- Under any thresholds a configuration that is at least as fast earns at least as high a
warning. -/
theorem classify_level_mono (nominal_fits : l.nominal.PllFits) (f_fits : f.PllFits)
    (g_fits : g.PllFits) (f_nonzero : f.DividersNonzero) (g_nonzero : g.DividersNonzero)
    (slower : f.NoFasterThan g) :
    ∃ slow fast, l.classify f = .ok slow ∧ l.classify g = .ok fast ∧ slow.level ≤ fast.level :=
  ⟨l.note f, l.note g, classify_eq_ok f_fits nominal_fits, classify_eq_ok g_fits nominal_fits,
    level_note_mono slower g_fits f_nonzero g_nonzero l⟩

/-- From the safe threshold to an unstable RAM divider, with ratio thresholds out of order. -/
theorem classify_level_mono_unordered :
    let l := { standard with cpuSafeRatio := 2, cpuLessSafeRatio := 1 }
    let f : Config := ⟨33, 1, 3⟩
    let g : Config := ⟨34, 1, 1⟩
    l.nominal.PllFits ∧ f.PllFits ∧ g.PllFits ∧ f.DividersNonzero ∧ g.DividersNonzero ∧
      f.NoFasterThan g ∧ ∃ slow fast, l.classify f = .ok slow ∧ l.classify g = .ok fast ∧
        slow.level ≤ fast.level := by
  intro l f g
  have nominal_fits : l.nominal.PllFits := by decide
  have f_fits : f.PllFits := by decide
  have g_fits : g.PllFits := by decide
  have f_nonzero : f.DividersNonzero := ⟨by decide, by decide⟩
  have g_nonzero : g.DividersNonzero := ⟨by decide, by decide⟩
  have slower : f.NoFasterThan g := ⟨by decide, by decide, by decide⟩
  exact ⟨nominal_fits, f_fits, g_fits, f_nonzero, g_nonzero, slower,
    classify_level_mono nominal_fits f_fits g_fits f_nonzero g_nonzero slower⟩

end Limits

end ClockTree
