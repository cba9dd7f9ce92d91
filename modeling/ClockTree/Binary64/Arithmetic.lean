import ClockTree.Binary64.Rounding

/-! Arithmetic on binary64 numbers. Each operation rounds its exact result once. Products and
quotients are formed from significands; `Magnitude.mul_eq` and `Magnitude.div_eq` state them
on whole values. -/
namespace ClockTree

attribute [local instance (2000)] instPowNat

namespace Magnitude

def ofNat (n : Nat) : Magnitude := nearestScaled n 1 1074

protected def mul (a b : Magnitude) : Magnitude :=
  let scale := a.exponent + b.exponent
  nearestScaled (a.significand * b.significand) (2 ^ (1074 - scale)) (scale - 1074)

/-- The nearest magnitude to a quotient of finite values, the divisor not zero. The
significand of the dividend is lengthened by 64 digits, so that the quotient has an integer
part. -/
protected def div (a b : Magnitude) : Magnitude :=
  let scale := a.exponent + 1010
  nearestScaled (a.significand * 2 ^ (64 : Nat)) (b.significand * 2 ^ (b.exponent - scale))
    (scale - b.exponent)

theorem ofNat_eq (n : Nat) : ofNat n = nearest (n * oneUnits) 1 := by
  rw [ofNat, nearestScaled_eq n Nat.one_pos, oneUnits]

/-- Two powers of two in a quotient cancel as far as they can. -/
theorem nearest_mul_sub (num den up down : Nat) :
    nearest (num * 2 ^ (up - down)) (den * 2 ^ (down - up)) =
      nearest (num * 2 ^ up) (den * 2 ^ down) := by
  rcases Nat.le_total up down with le | le
  · rw [Nat.sub_eq_zero_of_le le, Nat.pow_zero, Nat.mul_one,
      ← nearest_mul_mul num _ (Nat.two_pow_pos up), Nat.mul_assoc, ← Nat.pow_add,
      Nat.sub_add_cancel le]
  · rw [Nat.sub_eq_zero_of_le le, Nat.pow_zero, Nat.mul_one,
      ← nearest_mul_mul _ den (Nat.two_pow_pos down), Nat.mul_assoc, ← Nat.pow_add,
      Nat.sub_add_cancel le]

theorem mul_eq (a b : Magnitude) : a.mul b = nearest (a.units * b.units) oneUnits := by
  have product : a.units * b.units =
      a.significand * b.significand * 2 ^ (a.exponent + b.exponent) := by
    rw [units, units, Nat.pow_add]
    exact Nat.mul_mul_mul_comm ..
  have cancelled := nearest_mul_sub (a.significand * b.significand) 1 (a.exponent + b.exponent) 1074
  simp only [Nat.one_mul] at cancelled
  rw [Magnitude.mul, nearestScaled_eq _ (Nat.two_pow_pos _), cancelled, product, oneUnits]

theorem div_eq (a b : Magnitude) (nonzero : ¬ b.IsZero) :
    a.div b = nearest (a.units * oneUnits) b.units := by
  have positive : 0 < b.significand :=
    Nat.pos_of_ne_zero fun zero => nonzero (significand_eq_zero.mp zero)
  have dividend : a.units * oneUnits =
      a.significand * 2 ^ (64 : Nat) * 2 ^ (a.exponent + 1010) := by
    rw [units, oneUnits, Nat.mul_assoc, Nat.mul_assoc, ← Nat.pow_add 2 a.exponent 1074,
      ← Nat.pow_add 2 64 (a.exponent + 1010),
      show a.exponent + 1074 = 64 + (a.exponent + 1010) by omega]
  rw [Magnitude.div, nearestScaled_eq _ (Nat.mul_pos positive (Nat.two_pow_pos _)),
    nearest_mul_sub, dividend, units]

end Magnitude

namespace Binary64

open Magnitude (oneUnits nearest)

def ofNat (n : Nat) : Binary64 := .number false (.ofNat n)

instance (n : Nat) : OfNat Binary64 n := ⟨ofNat n⟩

def ofDecimal (negative : Bool) (mantissa places : Nat) : Binary64 :=
  .number negative (nearest (mantissa * oneUnits) (10 ^ places))

instance : OfScientific Binary64 where
  ofScientific mantissa down exponent :=
    if down then ofDecimal false mantissa exponent else ofNat (mantissa * 10 ^ exponent)

protected def neg : Binary64 → Binary64
  | nan => nan
  | number s m => number (!s) m

def signedUnits (negative : Bool) (m : Magnitude) : Int :=
  if negative then -(m.units : Int) else m.units

/-- An exact sum of zero is negative only when both terms are. -/
protected def add : Binary64 → Binary64 → Binary64
  | number s a, number t b =>
    if a.IsInfinite then if b.IsInfinite ∧ s ≠ t then nan else number s a
    else if b.IsInfinite then number t b
    else
      let total := signedUnits s a + signedUnits t b
      number (if total = 0 then s && t else decide (total < 0)) (nearest total.natAbs 1)
  | _, _ => nan

protected def sub (x y : Binary64) : Binary64 := x.add y.neg

/-- An infinity times zero has no value. -/
protected def mul : Binary64 → Binary64 → Binary64
  | number s a, number t b =>
    if a.IsInfinite ∨ b.IsInfinite then
      if a.IsZero ∨ b.IsZero then nan else number (s != t) .infinity
    else number (s != t) (a.mul b)
  | _, _ => nan

/-- Division by zero gives an infinity, except that 0/0 has no value. -/
protected def div : Binary64 → Binary64 → Binary64
  | number s a, number t b =>
    if a.IsInfinite then if b.IsInfinite then nan else number (s != t) .infinity
    else if b.IsInfinite then number (s != t) .zero
    else if b.IsZero then if a.IsZero then nan else number (s != t) .infinity
    else number (s != t) (a.div b)
  | _, _ => nan

instance : Neg Binary64 := ⟨Binary64.neg⟩
instance : Add Binary64 := ⟨Binary64.add⟩
instance : Sub Binary64 := ⟨Binary64.sub⟩
instance : Mul Binary64 := ⟨Binary64.mul⟩
instance : Div Binary64 := ⟨Binary64.div⟩

end Binary64

end ClockTree
