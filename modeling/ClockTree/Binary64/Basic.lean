/-! Binary64 numbers as data: a sign and a magnitude, or NaN. A magnitude is its
place in the ascending list of non-negative values, zero first and infinity last,
so the order of values is the order of places. Every finite value is a whole number
of units of 2^-1074, which keeps exact arithmetic inside the natural numbers. -/
namespace ClockTree

-- Powers are those of `Nat` itself, also next to an algebra of powers.
attribute [local instance (2000)] instPowNat

namespace Magnitude

def binade : Nat := 2 ^ (52 : Nat)

/-- The place of infinity: 2047 binades above zero, counting the subnormal one. -/
def infinityPlace : Nat := 2047 * binade

end Magnitude

/-- A non-negative binary64 value, infinity included. -/
@[ext] structure Magnitude where
  place : Nat
  place_le : place ≤ Magnitude.infinityPlace
  deriving DecidableEq, Repr

namespace Magnitude

def zero : Magnitude := ⟨0, Nat.zero_le _⟩
def infinity : Magnitude := ⟨infinityPlace, Nat.le_refl _⟩

def IsInfinite (m : Magnitude) : Prop := m.place = infinityPlace

instance (m : Magnitude) : Decidable m.IsInfinite := inferInstanceAs (Decidable (_ = _))

def IsZero (m : Magnitude) : Prop := m.place = 0

instance (m : Magnitude) : Decidable m.IsZero := inferInstanceAs (Decidable (_ = _))

/-- The digits of a value, a natural below 2^53. Those of the lowest binade have no
leading one. -/
def significand (m : Magnitude) : Nat :=
  if m.place < binade then m.place else binade + m.place % binade

/-- The weight of the last digit of the significand, as a power of two of units. The lowest
two binades advance by one unit, and each further one by twice the step of the one before. -/
def exponent (m : Magnitude) : Nat := m.place / binade - 1

/-- The value in units of 2^-1074. Infinity reads as 2^1024, the value its place would
have if the exponent range went on. -/
def units (m : Magnitude) : Nat := m.significand * 2 ^ m.exponent

theorem significand_eq_zero {m : Magnitude} : m.significand = 0 ↔ m.IsZero := by
  have binade_pos : 0 < binade := by decide
  rw [significand, IsZero]
  split <;> omega

theorem units_eq_zero {m : Magnitude} : m.units = 0 ↔ m.IsZero := by
  rw [units, Nat.mul_eq_zero, significand_eq_zero]
  exact or_iff_left (Nat.ne_of_gt (Nat.two_pow_pos _))

end Magnitude

/-- A binary64 number. NaN is one value, of negative sign where a sign is asked for. -/
inductive Binary64 where
  | nan
  | number (negative : Bool) (magnitude : Magnitude)
  deriving DecidableEq, Repr

namespace Binary64

def zero : Binary64 := .number false .zero
def infinity : Binary64 := .number false .infinity

instance : Inhabited Binary64 := ⟨zero⟩

def IsFinite : Binary64 → Prop
  | nan => False
  | number _ m => ¬ m.IsInfinite

instance : (x : Binary64) → Decidable x.IsFinite
  | nan => .isFalse id
  | number _ m => inferInstanceAs (Decidable (¬ m.IsInfinite))

def signedPlace (negative : Bool) (m : Magnitude) : Int :=
  if negative then -(m.place : Int) else m.place

/-- Numeric order. NaN is not below, above or equal to anything. -/
protected def Le : Binary64 → Binary64 → Prop
  | number s a, number t b => signedPlace s a ≤ signedPlace t b
  | _, _ => False

protected def Lt : Binary64 → Binary64 → Prop
  | number s a, number t b => signedPlace s a < signedPlace t b
  | _, _ => False

/-- Numeric equality: the two zeros are equal, and NaN is equal to nothing. -/
protected def Eqv : Binary64 → Binary64 → Prop
  | number s a, number t b => signedPlace s a = signedPlace t b
  | _, _ => False

instance : LE Binary64 := ⟨Binary64.Le⟩
instance : LT Binary64 := ⟨Binary64.Lt⟩

instance : (x y : Binary64) → Decidable (x ≤ y)
  | number s a, number t b => inferInstanceAs (Decidable (signedPlace s a ≤ signedPlace t b))
  | nan, _ => .isFalse id
  | number .., nan => .isFalse id

instance : (x y : Binary64) → Decidable (x < y)
  | number s a, number t b => inferInstanceAs (Decidable (signedPlace s a < signedPlace t b))
  | nan, _ => .isFalse id
  | number .., nan => .isFalse id

instance : (x y : Binary64) → Decidable (x.Eqv y)
  | number s a, number t b => inferInstanceAs (Decidable (signedPlace s a = signedPlace t b))
  | nan, _ => .isFalse id
  | number .., nan => .isFalse id

@[simp] theorem number_le_number {s t : Bool} {a b : Magnitude} :
    number s a ≤ number t b ↔ signedPlace s a ≤ signedPlace t b := Iff.rfl

@[simp] theorem number_lt_number {s t : Bool} {a b : Magnitude} :
    number s a < number t b ↔ signedPlace s a < signedPlace t b := Iff.rfl

@[simp] theorem not_nan_le (x : Binary64) : ¬ nan ≤ x := id
@[simp] theorem not_nan_lt (x : Binary64) : ¬ nan < x := id

@[simp] theorem not_le_nan (x : Binary64) : ¬ x ≤ nan := by
  cases x <;> exact id

@[simp] theorem not_lt_nan (x : Binary64) : ¬ x < nan := by
  cases x <;> exact id

/-- Position in the total order: NaN lowest, then the numbers with -0 below 0. -/
def orderKey : Binary64 → Int
  | nan => -(Magnitude.infinityPlace : Int) - 2
  | number true m => -(m.place : Int) - 1
  | number false m => m.place

/-- The word of a binary64 number: sign, eleven exponent bits, 52 fraction bits. NaN
has the negative quiet word. -/
def toBits : Binary64 → UInt64
  | nan => 0xfff8000000000000
  | number s m => (if s then 0x8000000000000000 else 0) ||| UInt64.ofNat m.place

/-- Every word above infinity, whatever its sign and fraction, is NaN. -/
def ofBits (bits : UInt64) : Binary64 :=
  let place := (bits &&& 0x7fffffffffffffff).toNat
  if h : place ≤ Magnitude.infinityPlace then .number (bits &&& 0x8000000000000000 != 0) ⟨place, h⟩
  else .nan

end Binary64

end ClockTree
