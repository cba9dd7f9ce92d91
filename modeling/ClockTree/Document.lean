import ClockTree.Limits

/-! Machine-readable documents: the values of JSON, with numbers split into integers and
finite binary64 numbers. -/
namespace ClockTree

inductive Document where
  | null
  | integer (value : Nat)
  | real (value : Binary64)
  | text (value : String)
  | list (items : List Document)
  | record (fields : List (String × Document))
  deriving Repr

namespace Document

/-- Values that are not finite have no number and become null. -/
def ofReal (x : Binary64) : Document := if x.IsFinite then real x else null

def ofWord (n : UInt32) : Document := integer n.toNat

def ofConfig (f : Config) : Document := record [
  ("pll_mul", ofWord f.pllMul),
  ("cpu_div", ofWord f.cpuDiv),
  ("ram_div", ofWord f.ramDiv)]

def ofLimits (l : Limits) : Document := record [
  ("dividers", list (l.dividers.map ofWord)),
  ("pll-mul-min", ofWord l.pllMulMin),
  ("pll-mul-max", ofWord l.pllMulMax),
  ("pll-min-mhz", ofWord l.pllMinMhz),
  ("pll-max-mhz", ofWord l.pllMaxMhz),
  ("cpu-max-mhz", ofReal l.cpuMaxMhz),
  ("ram-max-mhz", ofReal l.ramMaxMhz),
  ("max-divider-ratio", ofWord l.maxDividerRatio),
  ("fast-cpu-mhz", ofReal l.fastCpuMhz),
  ("coupled-cpu-div", ofWord l.coupledCpuDiv),
  ("decoupled-cpu-div", ofWord l.decoupledCpuDiv),
  ("unstable-ram-div-pll-mhz", ofWord l.unstableRamDivPllMhz),
  ("nominal", ofConfig l.nominal),
  ("cpu-safe-ratio", ofReal l.cpuSafeRatio),
  ("cpu-less-safe-ratio", ofReal l.cpuLessSafeRatio),
  ("ram-safe-ratio", ofReal l.ramSafeRatio),
  ("ram-less-safe-ratio", ofReal l.ramLessSafeRatio),
  ("similarity-tolerance", ofReal l.similarityTolerance),
  ("storage-ratio-floor", ofReal l.storageRatioFloor)]

end Document

end ClockTree
