import ClockTree.Limits
import ClockTree.Note

/-! Which remark a configuration earns. Rules stand in order of priority: a RAM divider
of 1 at a high PLL output, the nominal configuration, overclocks, storage speed. -/
namespace ClockTree.Limits

def stability (l : Limits) (cpu ram : Binary64) : Stability :=
  if l.cpuLessSafeRatio < cpu ∨ l.ramLessSafeRatio < ram then .likelyUnstable
  else if l.cpuSafeRatio < cpu ∨ l.ramSafeRatio < ram then .lessStable
  else .stable

def Similar (l : Limits) (cpu ram : Binary64) : Prop :=
  1 - l.similarityTolerance ≤ cpu / ram ∧ cpu / ram ≤ 1 + l.similarityTolerance

instance (l : Limits) (cpu ram : Binary64) : Decidable (l.Similar cpu ram) :=
  inferInstanceAs (Decidable (_ ∧ _))

def TooSlowFor (l : Limits) (cpu rate : Binary64) : Prop := cpu / rate < l.storageRatioFloor

instance (l : Limits) (cpu rate : Binary64) : Decidable (l.TooSlowFor cpu rate) :=
  inferInstanceAs (Decidable (_ < _))

/-- The high-capacity rate decides whether there is a remark, the standard rate which. -/
def storageNote (l : Limits) (f : Config) : Note :=
  if l.TooSlowFor f.cpu f.msd2 then
    if l.TooSlowFor f.cpu f.msd then .storageTooSlow else .sdhcTooSlow
  else .blank

def clockNote (l : Limits) (f : Config) : Note :=
  let cpu := f.cpu / l.nominal.cpu
  let ram := f.ram / l.nominal.ram
  if 1 < cpu then
    if 1 < ram then
      if l.Similar cpu ram then .overclocked cpu (l.stability cpu ram)
      else .cpuRamOverclocked cpu ram (l.stability cpu ram)
    else .cpuOverclocked cpu (l.stability cpu ram)
  else if 1 < ram then .ramOverclocked ram (l.stability cpu ram)
  else l.storageNote f

/-- The first remark that applies. The nominal clocks are formed only once the two rules
before them have passed. -/
def classify (l : Limits) (f : Config) : Except Fault Note :=
  if ¬ f.PllFits then .error .pllOverflow
  else if l.unstableRamDivPllMhz.toNat < f.pll ∧ f.ramDiv = 1 then .ok .unstableRamDivider
  else if f = l.nominal then .ok .nominal
  else if ¬ l.nominal.PllFits then .error .pllOverflow
  else .ok (l.clockNote f)

end ClockTree.Limits
