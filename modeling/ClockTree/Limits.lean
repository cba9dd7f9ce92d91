import ClockTree.Binary64.Natural
import ClockTree.Config

/-! The table of limits that drives the search, the legality rules and the notes. A table
can be formed from any values; `Limits.validate` says whether it describes a search. -/
namespace ClockTree

/-- Thresholds of a search. Clocks above the maxima are unstable, and so by degrees are overclocks
above the safe ratios. These ratios and the storage floor are empirical guesses, kept as named
values. -/
structure Limits where
  dividers : List UInt32 := [1, 2, 3, 4, 6, 8, 12, 16, 24, 32]
  pllMulMin : UInt32 := 9
  pllMulMax : UInt32 := 39
  pllMinMhz : UInt32 := 100
  pllMaxMhz : UInt32 := 500
  cpuMaxMhz : Binary64 := 468
  ramMaxMhz : Binary64 := 204
  /-- The RAM divider stays below this multiple of the CPU divider. -/
  maxDividerRatio : UInt32 := 24
  /-- CPU clocks from here on are fast, which restricts the CPU divider. -/
  fastCpuMhz : Binary64 := 100
  /-- The CPU divider of a fast CPU that runs at the RAM clock. -/
  coupledCpuDiv : UInt32 := 2
  /-- The CPU divider of a fast CPU that does not. -/
  decoupledCpuDiv : UInt32 := 1
  /-- A RAM divider of 1 is flagged at PLL outputs above this. -/
  unstableRamDivPllMhz : UInt32 := 100
  /-- The reference configuration: overclocks are measured against its clocks. -/
  nominal : Config := ⟨30, 1, 3⟩
  cpuSafeRatio : Binary64 := 1.1
  cpuLessSafeRatio : Binary64 := 1.2
  ramSafeRatio : Binary64 := 1.5
  ramLessSafeRatio : Binary64 := 1.6
  /-- CPU and RAM overclocks within this relative distance count as one. -/
  similarityTolerance : Binary64 := 0.001
  /-- The CPU clock needed per unit of storage reference rate. -/
  storageRatioFloor : Binary64 := 3
  deriving DecidableEq, Repr

inductive LimitsError where
  | noDividers
  | zeroDivider
  | unsortedDividers (previous next : UInt32)
  | emptyMultiplierRange (least greatest : UInt32)
  | invertedPllBand (lower upper : UInt32)
  deriving DecidableEq, Repr

def LimitsError.message : LimitsError → String
  | noDividers => "divider set is empty"
  | zeroDivider => "divider set contains zero"
  | unsortedDividers previous next =>
    "divider set must be strictly ascending, found " ++ Nat.repr previous.toNat ++
      " before " ++ Nat.repr next.toNat
  | emptyMultiplierRange least greatest =>
    "PLL multiplier range " ++ Nat.repr least.toNat ++ "..=" ++ Nat.repr greatest.toNat ++
      " is empty"
  | invertedPllBand lower upper =>
    "PLL band [" ++ Nat.repr lower.toNat ++ ", " ++ Nat.repr upper.toNat ++
      "] MHz is inverted"

def firstDescent? (dividers : List UInt32) : Option (UInt32 × UInt32) :=
  (dividers.zip dividers.tail).find? fun (previous, next) => next ≤ previous

namespace Limits

def standard : Limits := {}

/-- Reports the first condition that fails, in this order. Strict ascent is checked on
neighbours: the rule of the lowest usable divider takes the first match. -/
def validate (l : Limits) : Except LimitsError Unit :=
  if l.dividers = [] then .error .noDividers
  else if 0 ∈ l.dividers then .error .zeroDivider
  else match firstDescent? l.dividers with
    | some (previous, next) => .error (.unsortedDividers previous next)
    | none =>
      if l.pllMulMax < l.pllMulMin then .error (.emptyMultiplierRange l.pllMulMin l.pllMulMax)
      else if l.pllMaxMhz < l.pllMinMhz then .error (.invertedPllBand l.pllMinMhz l.pllMaxMhz)
      else .ok ()

def InPllBand (l : Limits) (mhz : Binary64) : Prop :=
  .ofNat l.pllMinMhz.toNat ≤ mhz ∧ mhz ≤ .ofNat l.pllMaxMhz.toNat

instance (l : Limits) (mhz : Binary64) : Decidable (l.InPllBand mhz) :=
  inferInstanceAs (Decidable (_ ∧ _))

/-- A clock that is a whole number of MHz is compared with the band exactly. -/
theorem inPllBand_ofNat (l : Limits) {mhz : Nat} (small : mhz < UInt32.size) :
    l.InPllBand (.ofNat mhz) ↔ l.pllMinMhz.toNat ≤ mhz ∧ mhz ≤ l.pllMaxMhz.toNat := by
  have least := l.pllMinMhz.toNat_lt
  have greatest := l.pllMaxMhz.toNat_lt
  rw [UInt32.size] at small
  rw [InPllBand, Binary64.ofNat_le_ofNat (by omega) (by omega),
    Binary64.ofNat_le_ofNat (by omega) (by omega)]

end Limits

end ClockTree
