import ClockTree.Annotation
import ClockTree.Document

/-! Rows of the clock table, as a line of text and as a record. -/
namespace ClockTree

/-- Column titles. The last two stand one place to the left of what `Config.line` writes there. -/
def header : String := "  PLL *mul    CPU /div    RAM /div    mSD    SD2  Notes"

def mhzText (mhz : Binary64) : String := mhz.column 5

def factorText (factor : UInt32) : String := alignLeft 2 (Nat.repr factor.toNat)

namespace Config

def columns (f : Config) (clocks : Clocks) : String :=
  mhzText (.ofNat clocks.pll) ++ " *" ++ factorText f.pllMul ++ "   " ++
  mhzText clocks.cpu ++ " /" ++ factorText f.cpuDiv ++ "   " ++
  mhzText clocks.ram ++ " /" ++ factorText f.ramDiv ++ "   " ++
  mhzText clocks.msd ++ "   " ++ mhzText clocks.msd2

/-- One line of the table. A remark follows after two spaces, if there is one. -/
def line (f : Config) (clocks : Clocks) (remark : String) : String :=
  if remark = "" then f.columns clocks else f.columns clocks ++ "  " ++ remark

def formatRow (f : Config) (remark : String) : Except Fault String :=
  f.clocks.map (f.line · remark)

end Config

structure Row where
  config : Config
  clocks : Clocks
  note : Note
  deriving DecidableEq, Repr

namespace Row

/-- The remark is sought first: a fault in it is the fault of the row. -/
def ofConfig (l : Limits) (f : Config) : Except Fault Row :=
  match l.classify f with
  | .error fault => .error fault
  | .ok note => f.clocks.map fun clocks => ⟨f, clocks, note⟩

def line (row : Row) : String := row.config.line row.clocks row.note.text

def document (row : Row) : Document := .record [
  ("pll", .integer row.clocks.pll),
  ("pll_mul", .ofWord row.config.pllMul),
  ("cpu", .ofReal row.clocks.cpu),
  ("cpu_div", .ofWord row.config.cpuDiv),
  ("ram", .ofReal row.clocks.ram),
  ("ram_div", .ofWord row.config.ramDiv),
  ("msd", .ofReal row.clocks.msd),
  ("msd2", .ofReal row.clocks.msd2),
  ("note", .text row.note.text)]

end Row

end ClockTree
