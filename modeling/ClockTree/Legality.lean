import ClockTree.Limits

/-! Which configurations a table of limits permits. The checks run in a fixed order, and
the order decides which fault, if any, a configuration with a zero divider meets. -/
namespace ClockTree

/-- The first match is a match with none before it. Those before it are listed nearest
first: in a list sorted towards the match, a nearer one is the better counterexample. -/
theorem find?_eq_some_iff_before {α : Type} [DecidableEq α] (p : α → Bool) (xs : List α) (b : α) :
    xs.find? p = some b ↔
      p b = true ∧ b ∈ xs ∧ ∀ a ∈ (xs.takeWhile (· ≠ b)).reverse, ¬ p a = true := by
  induction xs with
  | nil => simp
  | cons a xs ih =>
    by_cases same : a = b
    · subst same
      by_cases found : p a = true
      · simp [found]
      · simp [found, ih]
    · by_cases found : p a = true
      · simp [found, same]
      · simp [found, same, ih, Ne.symm same, or_imp, forall_and]

namespace Limits

/-- The first divider that lifts a CPU clock into the PLL band; in an ascending table,
the lowest. -/
def lowestUsableDivider? (l : Limits) (cpu : Binary64) : Option UInt32 :=
  l.dividers.find? fun i => l.InPllBand (cpu * .ofNat i.toNat)

theorem lowestUsableDivider?_eq_some {l : Limits} {cpu : Binary64} {cpuDiv : UInt32} :
    l.lowestUsableDivider? cpu = some cpuDiv ↔
      l.InPllBand (cpu * .ofNat cpuDiv.toNat) ∧ cpuDiv ∈ l.dividers ∧
        ∀ i ∈ (l.dividers.takeWhile (· ≠ cpuDiv)).reverse,
          ¬ l.InPllBand (cpu * .ofNat i.toNat) := by
  rw [lowestUsableDivider?, find?_eq_some_iff_before]
  simp only [decide_eq_true_eq]

/-- Looks for a lower usable divider next to the given one first. -/
instance (l : Limits) (cpu : Binary64) (cpuDiv : UInt32) :
    Decidable (l.lowestUsableDivider? cpu = some cpuDiv) :=
  -- The quantifier runs through the list, not through all 32-bit dividers.
  haveI := List.decidableBAll (fun i : UInt32 => ¬ l.InPllBand (cpu * .ofNat i.toNat))
    (l.dividers.takeWhile (· ≠ cpuDiv)).reverse
  decidable_of_decidable_of_iff lowestUsableDivider?_eq_some.symm

/-- The CPU divider suits the CPU clock. A fast CPU takes the divider set aside for it,
depending on whether it runs at the RAM clock. A slow one takes the lowest divider that
lifts it back into the PLL band. -/
def CpuDividerSuits (l : Limits) (f : Config) : Prop :=
  if l.fastCpuMhz ≤ f.cpu then
    f.cpuDiv = if f.cpu.Eqv f.ram then l.coupledCpuDiv else l.decoupledCpuDiv
  else l.lowestUsableDivider? f.cpu = some f.cpuDiv

instance (l : Limits) (f : Config) : Decidable (l.CpuDividerSuits f) :=
  inferInstanceAs (Decidable (if l.fastCpuMhz ≤ f.cpu then _ else _))

def DividersMatch (l : Limits) (f : Config) : Prop :=
  f.ramDiv % f.cpuDiv = 0 ∧ f.ramDiv / f.cpuDiv < l.maxDividerRatio

instance (l : Limits) (f : Config) : Decidable (l.DividersMatch f) :=
  inferInstanceAs (Decidable (_ ∧ _))

/-- Whether a configuration is legal. A CPU divider of zero is a fault only once the
clocks have passed the ceilings and the band. -/
def permits (l : Limits) (f : Config) : Except Fault Bool :=
  if ¬ f.PllFits then .error .pllOverflow
  else if l.cpuMaxMhz < f.cpu ∨ l.ramMaxMhz < f.ram then .ok false
  else if ¬ l.InPllBand f.pllMhz then .ok false
  else if f.cpuDiv = 0 then .error .zeroCpuDivider
  else .ok (l.DividersMatch f ∧ l.CpuDividerSuits f)

def OutOfBand (l : Limits) (pllMul : UInt32) : Prop :=
  baseClockMhz * pllMul.toNat < UInt32.size ∧
    (baseClockMhz * pllMul.toNat < l.pllMinMhz.toNat ∨
      l.pllMaxMhz.toNat < baseClockMhz * pllMul.toNat)

instance (l : Limits) (pllMul : UInt32) : Decidable (l.OutOfBand pllMul) :=
  inferInstanceAs (Decidable (_ ∧ _))

/-- Outside the band no dividers are legal, and none is a fault. -/
theorem permits_of_outOfBand {l : Limits} {f : Config} (out : l.OutOfBand f.pllMul) :
    l.permits f = .ok false := by
  have fits : f.PllFits := out.1
  have outside : ¬ l.InPllBand f.pllMhz := by
    intro inside
    have edges := (l.inPllBand_ofNat fits).mp inside
    rcases out.2 with low | high
    · exact Nat.not_le_of_gt low edges.1
    · exact Nat.not_le_of_gt high edges.2
  rw [permits, if_neg (not_not_intro fits), if_pos outside]
  split <;> rfl

def DividersClash (l : Limits) (f : Config) : Prop :=
  f.PllFits ∧ f.cpuDiv ≠ 0 ∧ ¬ l.DividersMatch f

instance (l : Limits) (f : Config) : Decidable (l.DividersClash f) :=
  inferInstanceAs (Decidable (_ ∧ _))

theorem permits_of_dividersClash {l : Limits} {f : Config} (clash : l.DividersClash f) :
    l.permits f = .ok false := by
  obtain ⟨fits, nonzero, mismatch⟩ := clash
  have illegal : decide (l.DividersMatch f ∧ l.CpuDividerSuits f) = false :=
    decide_eq_false fun both => mismatch both.1
  simp only [permits, if_neg (not_not_intro fits), if_neg nonzero, illegal, ite_self]

end Limits

end ClockTree
