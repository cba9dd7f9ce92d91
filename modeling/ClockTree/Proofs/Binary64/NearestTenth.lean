import ClockTree.Proofs.Binary64.Order
import ClockTree.Proofs.Numeral

/-! Numbers as they are written with one decimal. The tenths of a finite number are the integer
nearest to ten times its exact value, the even one of two, whatever its size; so they grow with the
number. They are written as a numeral that shows the sign of the number, also where the number is
zero or too small for a tenth. -/
namespace ClockTree

section NearestEven

structure NearestEven (q : ℚ) (n : ℤ) : Prop where
  near : |q - n| ≤ 1 / 2
  even : |q - n| = 1 / 2 → Even n

variable {p q : ℚ} {m n : ℤ}

theorem NearestEven.mono (p_nearest : NearestEven p m) (q_nearest : NearestEven q n) (le : p ≤ q) :
    m ≤ n := by
  by_contra below
  have step : (n + 1 : ℚ) ≤ m := by exact_mod_cast not_le.mp below
  -- Steps back only fit between two roundings of one midpoint, of which one would be odd.
  have p_low := (abs_le.mp p_nearest.near).1
  have q_high := (abs_le.mp q_nearest.near).2
  have p_tie : p - m = -(1 / 2) := by linarith
  have q_tie : q - n = 1 / 2 := by linarith
  have next : m = n + 1 := by exact_mod_cast (show (m : ℚ) = n + 1 by linarith)
  have m_even := p_nearest.even (by rw [p_tie]; norm_num)
  have n_even := q_nearest.even (by rw [q_tie]; norm_num)
  rw [next, Int.even_add_one] at m_even
  exact m_even n_even

theorem NearestEven.neg (nearest : NearestEven q n) : NearestEven (-q) (-n) := by
  have mirrored : |-q - ((-n : ℤ) : ℚ)| = |q - n| := by
    rw [Int.cast_neg, neg_sub_neg, abs_sub_comm]
  constructor
  · rw [mirrored]
    exact nearest.near
  · rw [mirrored, even_neg]
    exact nearest.even

theorem even_roundHalfEven_of_tie {num den : Nat} (positive : 0 < den)
    (tie : 2 * num = 2 * (roundHalfEven num den * den) + den ∨
      2 * (roundHalfEven num den * den) = 2 * num + den) : Even (roundHalfEven num den) := by
  have split := Nat.div_add_mod' num den
  have rest := Nat.mod_lt num positive
  simp only [roundHalfEven] at tie ⊢
  split_ifs at tie ⊢ with below half
  · omega
  · rw [Nat.even_add, Nat.even_iff, Nat.even_iff, Nat.mod_mod]
  · rw [Nat.add_mul] at tie
    omega

theorem nearestEven_roundHalfEven (num : Nat) {den : Nat} (positive : 0 < den) :
    NearestEven (num / den) (roundHalfEven num den) := by
  have den_pos : (0 : ℚ) < den := Nat.cast_pos.mpr positive
  constructor
  · rw [abs_sub_comm]
    exact_mod_cast abs_roundHalfEven_sub_le num positive
  · intro tie
    rw [Int.even_coe_nat]
    apply even_roundHalfEven_of_tie positive
    rw [Int.cast_natCast, abs_eq (by norm_num), sub_eq_iff_eq_add, sub_eq_iff_eq_add,
      div_eq_iff den_pos.ne', div_eq_iff den_pos.ne'] at tie
    rcases tie with above | below
    · left
      exact_mod_cast (show 2 * (num : ℚ) = 2 * (roundHalfEven num den * den) + den by linarith)
    · right
      exact_mod_cast (show 2 * ((roundHalfEven num den : ℚ) * den) = 2 * num + den by linarith)

end NearestEven

namespace Binary64

def signBit (x : Binary64) : Bool := x.toBits.toNat.testBit 63

theorem signBit_number (s : Bool) (m : Magnitude) : (number s m).signBit = s := by
  have small : m.place < 2 ^ 63 := Nat.lt_of_le_of_lt m.place_le (by decide)
  have place_bit : (UInt64.ofNat m.place).toNat.testBit 63 = false := by
    rw [UInt64.toNat_ofNat_of_lt' (small.trans (by decide))]
    exact Nat.testBit_lt_two_pow small
  rw [signBit, toBits, UInt64.toNat_or, Nat.testBit_or, place_bit, Bool.or_false]
  cases s <;> decide

/-- The numeral of a finite number, that of NaN and of infinity being of no account. -/
def numeral : Binary64 → Numeral
  | nan => .ofTenths true 0
  | number s m => .ofTenths s m.tenths

theorem toList_oneDecimal {x : Binary64} (finite : x.IsFinite) :
    x.oneDecimal.toList = x.numeral.text := by
  cases x with
  | nan => exact absurd finite id
  | number s m => rw [numeral, Numeral.text_ofTenths, oneDecimal, if_neg finite]

theorem negative_numeral {x : Binary64} (finite : x.IsFinite) :
    x.numeral.negative = x.signBit := by
  cases x with
  | nan => exact absurd finite id
  | number s m => rw [signBit_number, numeral, Numeral.ofTenths]

theorem nearestEven_tenths (m : Magnitude) : NearestEven (10 * m.value) m.tenths := by
  have scaled : (10 * m.value : ℚ) = (10 * m.units : Nat) / Magnitude.oneUnits := by
    rw [Magnitude.value, Nat.cast_mul, mul_div_assoc, Nat.cast_ofNat]
  rw [scaled]
  exact nearestEven_roundHalfEven _ Magnitude.oneUnits_pos

/-- A number is written as its exact value, rounded to tenths. -/
theorem nearestEven_numeral (x : Binary64) : NearestEven (10 * x.toRat) x.numeral.tenths := by
  cases x with
  | nan =>
    rw [toRat, numeral, Numeral.tenths_ofTenths]
    constructor <;> simp
  | number s m =>
    have nearest := nearestEven_tenths m
    rw [toRat, numeral, Numeral.tenths_ofTenths]
    cases s with
    | false => exact nearest
    | true =>
      rw [if_pos rfl, if_pos rfl, mul_neg]
      exact nearest.neg

theorem tenths_numeral_le {x y : Binary64} (le : x ≤ y) : x.numeral.tenths ≤ y.numeral.tenths := by
  obtain ⟨x_ne, y_ne⟩ := ne_nan_of_le le
  rw [le_iff_toRat_le x_ne y_ne] at le
  exact (nearestEven_numeral x).mono (nearestEven_numeral y) (by linarith)

end Binary64

end ClockTree
