import ClockTree.Annotation
import Mathlib

/-! The outcomes of annotation. `Limits.note` is the remark a configuration earns once both PLL
outputs fit; what a table flags as an unstable RAM divider does not even wait for the nominal
one. -/
namespace ClockTree.Limits

def FlagsRamDivider (l : Limits) (f : Config) : Prop :=
  l.unstableRamDivPllMhz.toNat < f.pll ∧ f.ramDiv = 1

instance (l : Limits) (f : Config) : Decidable (l.FlagsRamDivider f) :=
  inferInstanceAs (Decidable (_ ∧ _))

def cpuRatio (l : Limits) (f : Config) : Binary64 := f.cpu / l.nominal.cpu

def ramRatio (l : Limits) (f : Config) : Binary64 := f.ram / l.nominal.ram

def note (l : Limits) (f : Config) : Note :=
  if l.FlagsRamDivider f then .unstableRamDivider
  else if f = l.nominal then .nominal
  else l.clockNote f

theorem classify_eq (l : Limits) (f : Config) :
    l.classify f =
      if ¬ f.PllFits then .error .pllOverflow
      else if l.FlagsRamDivider f then .ok .unstableRamDivider
      else if f = l.nominal then .ok .nominal
      else if ¬ l.nominal.PllFits then .error .pllOverflow
      else .ok (l.clockNote f) := rfl

/-- Annotation stops only at a PLL output that does not fit: its own, or the nominal one once no
flag has come first. -/
theorem classify_eq_error_iff {l : Limits} {f : Config} {fault : Fault} :
    l.classify f = .error fault ↔
      fault = .pllOverflow ∧
        (¬ f.PllFits ∨ ¬ l.nominal.PllFits ∧ ¬ l.FlagsRamDivider f) := by
  rw [classify_eq]
  split
  next overflow => simp [overflow, eq_comm]
  next fits =>
    rw [not_not] at fits
    split
    next flagged => simp [fits, flagged]
    next unflagged =>
      split
      next same => simp [fits, ← same]
      next => split <;> simp_all [eq_comm]

theorem classify_eq_ok {l : Limits} {f : Config} (fits : f.PllFits)
    (nominal_fits : l.nominal.PllFits) : l.classify f = .ok (l.note f) := by
  simp only [classify_eq, note, fits, nominal_fits, not_true_eq_false, ↓reduceIte]
  split
  · rfl
  · split <;> rfl

/-- The overclock rules and the storage rules, on named ratios. -/
theorem clockNote_eq (l : Limits) (f : Config) :
    l.clockNote f =
      let verdict := l.stability (l.cpuRatio f) (l.ramRatio f)
      if 1 < l.cpuRatio f then
        if 1 < l.ramRatio f then
          if l.Similar (l.cpuRatio f) (l.ramRatio f) then .overclocked (l.cpuRatio f) verdict
          else .cpuRamOverclocked (l.cpuRatio f) (l.ramRatio f) verdict
        else .cpuOverclocked (l.cpuRatio f) verdict
      else if 1 < l.ramRatio f then .ramOverclocked (l.ramRatio f) verdict
      else l.storageNote f := rfl

theorem clockNote_ne_unstable (l : Limits) (f : Config) :
    l.clockNote f ≠ .unstableRamDivider := by
  simp only [clockNote_eq, storageNote]
  split_ifs <;> exact Note.noConfusion

theorem classify_eq_unstable_iff {l : Limits} {f : Config} :
    l.classify f = .ok .unstableRamDivider ↔ f.PllFits ∧ l.FlagsRamDivider f := by
  rw [classify_eq]
  constructor
  · intro classified
    split at classified
    · cases classified
    next fits =>
      split at classified
      next flagged => exact ⟨not_not.mp fits, flagged⟩
      split at classified
      · cases classified
      split at classified
      · cases classified
      · exact absurd (Except.ok.inj classified) (l.clockNote_ne_unstable f)
  · rintro ⟨fits, flagged⟩
    rw [if_neg (not_not_intro fits), if_pos flagged]

end ClockTree.Limits
