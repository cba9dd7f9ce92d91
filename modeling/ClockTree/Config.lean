import ClockTree.Binary64.Arithmetic

/-! Clock configurations. A PLL multiplies the 12 MHz reference; the CPU and RAM clocks
divide its output. Every clock is derived from the three integers and nothing is checked
when a configuration is formed: legality is a matter of `ClockTree.Legality`. -/
namespace ClockTree

inductive Fault where
  | pllOverflow
  /-- A RAM divider taken modulo a CPU divider of zero. -/
  | zeroCpuDivider
  | searchSpaceOverflow
  deriving DecidableEq, Repr

def Fault.message : Fault → String
  | pllOverflow | searchSpaceOverflow => "attempt to multiply with overflow"
  | zeroCpuDivider => "attempt to calculate the remainder with a divisor of zero"

/-- The reference oscillator, in MHz. -/
def baseClockMhz : Nat := 12

@[ext] structure Config where
  pllMul : UInt32
  cpuDiv : UInt32
  ramDiv : UInt32
  deriving DecidableEq, Repr

namespace Config

/-- PLL output in MHz, without regard to its width. -/
def pll (f : Config) : Nat := baseClockMhz * f.pllMul.toNat

def PllFits (f : Config) : Prop := f.pll < UInt32.size

instance (f : Config) : Decidable f.PllFits := inferInstanceAs (Decidable (_ < _))

def pllMhz (f : Config) : Binary64 := .ofNat f.pll

/-- CPU clock in MHz. A zero divider gives infinity, or NaN at a PLL output of zero. -/
def cpu (f : Config) : Binary64 := f.pllMhz / .ofNat f.cpuDiv.toNat

def ram (f : Config) : Binary64 := f.pllMhz / .ofNat f.ramDiv.toNat

/-- Reference rate of the standard storage interface: 24 at a PLL output of 360 MHz. -/
def msd (f : Config) : Binary64 := 24 * f.pllMhz / 360

/-- Reference rate of the high-capacity storage interface: 48 at 360 MHz. -/
def msd2 (f : Config) : Binary64 := 48 * f.pllMhz / 360

end Config

structure Clocks where
  pll : Nat
  cpu : Binary64
  ram : Binary64
  msd : Binary64
  msd2 : Binary64
  deriving DecidableEq, Repr

/-- The clocks exist if the PLL output fits. Zero dividers are no fault. -/
def Config.clocks (f : Config) : Except Fault Clocks :=
  if f.PllFits then .ok ⟨f.pll, f.cpu, f.ram, f.msd, f.msd2⟩ else .error .pllOverflow

end ClockTree
