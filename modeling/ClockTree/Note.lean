import ClockTree.Binary64.Arithmetic
import ClockTree.Binary64.Decimal

/-! Remarks on a configuration and their wording. An overclock remark carries ratios to
the nominal clocks; percentages are formed when it is written. -/
namespace ClockTree

inductive Stability where
  | stable
  | lessStable
  | likelyUnstable
  deriving DecidableEq, Repr

def Stability.label : Stability → String
  | stable => "stable"
  | lessStable => "less stable"
  | likelyUnstable => "likely unstable"

inductive Note where
  /-- Nothing to remark. -/
  | blank
  | unstableRamDivider
  | nominal
  /-- CPU and RAM are overclocked alike. -/
  | overclocked (ratio : Binary64) (stability : Stability)
  | cpuRamOverclocked (cpu ram : Binary64) (stability : Stability)
  | cpuOverclocked (ratio : Binary64) (stability : Stability)
  | ramOverclocked (ratio : Binary64) (stability : Stability)
  | storageTooSlow
  | sdhcTooSlow
  deriving DecidableEq, Repr

def percentText (ratio : Binary64) : String :=
  ((ratio - 1) * 100).column 4 ++ "%"

namespace Note

def isEmpty : Note → Bool
  | blank => true
  | _ => false

def text : Note → String
  | blank => ""
  | unstableRamDivider => "Unstable: RAM div /1 > 100 MHz"
  | nominal => "The nominal clock speed"
  | overclocked ratio stability =>
    "Overclocked " ++ percentText ratio ++ " (" ++ stability.label ++ ")"
  | cpuRamOverclocked cpu ram stability =>
    "CPU +" ++ percentText cpu ++ ", RAM +" ++ percentText ram ++ " (" ++ stability.label ++ ")"
  | cpuOverclocked ratio stability =>
    "CPU overclocked " ++ percentText ratio ++ " (" ++ stability.label ++ ")"
  | ramOverclocked ratio stability =>
    "RAM overclocked " ++ percentText ratio ++ " (" ++ stability.label ++ ")"
  | storageTooSlow => "interface may be too slow for both legacy and high-capacity storage modes"
  | sdhcTooSlow => "interface may be too slow for the high-capacity storage mode"

section Overclock

variable (ratio cpu ram : Binary64) (stability : Stability)

@[simp] theorem text_overclocked : (overclocked ratio stability).text =
    "Overclocked " ++ percentText ratio ++ " (" ++ stability.label ++ ")" := rfl

@[simp] theorem text_cpuRamOverclocked : (cpuRamOverclocked cpu ram stability).text =
    "CPU +" ++ percentText cpu ++ ", RAM +" ++ percentText ram ++ " (" ++ stability.label ++ ")" :=
  rfl

@[simp] theorem text_cpuOverclocked : (cpuOverclocked ratio stability).text =
    "CPU overclocked " ++ percentText ratio ++ " (" ++ stability.label ++ ")" := rfl

@[simp] theorem text_ramOverclocked : (ramOverclocked ratio stability).text =
    "RAM overclocked " ++ percentText ratio ++ " (" ++ stability.label ++ ")" := rfl

end Overclock

end Note

end ClockTree
