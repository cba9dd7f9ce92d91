import ClockTree.Binary64.Rounding

/-! Binary64 numbers as text with one decimal, in columns. The exact value is rounded to
tenths, halves to the even tenth, and is always written positionally. -/
namespace ClockTree

def alignRight (width : Nat) (text : String) : String :=
  String.ofList (List.leftpad width ' ' text.toList)

def alignLeft (width : Nat) (text : String) : String :=
  String.ofList (List.rightpad width ' ' text.toList)

@[simp] theorem toList_alignRight (width : Nat) (text : String) :
    (alignRight width text).toList = List.replicate (width - text.length) ' ' ++ text.toList := by
  simp [alignRight, List.leftpad, ← String.length_toList]

@[simp] theorem toList_alignLeft (width : Nat) (text : String) :
    (alignLeft width text).toList = text.toList ++ List.replicate (width - text.length) ' ' := by
  simp [alignLeft, List.rightpad, ← String.length_toList]

def tenthsText (tenths : Nat) : String :=
  Nat.repr (tenths / 10) ++ "." ++ Nat.repr (tenths % 10)

def Magnitude.tenths (m : Magnitude) : Nat :=
  roundHalfEven (10 * m.units) oneUnits

namespace Binary64

/-- The sign shows whenever it is set, on zero and on values that round to zero too. -/
def oneDecimal : Binary64 → String
  | nan => "NaN"
  | number s m =>
    (if s then "-" else "") ++ (if m.IsInfinite then "inf" else tenthsText m.tenths)

def column (width : Nat) (x : Binary64) : String := alignRight width x.oneDecimal

end Binary64

end ClockTree
