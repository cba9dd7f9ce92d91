import ClockTree.Proofs.Binary64.Rounding

/-! The operations as rounded operations on rationals. Quotients of naturals that fit 32 bits
are in the normal range, so that different dividers or different dividends stay apart. -/
namespace ClockTree

namespace Magnitude

theorem ofNat_eq_round (n : Nat) : ofNat n = round n := by
  rw [ofNat_eq, nearest_mul_oneUnits n Nat.one_pos, Nat.cast_one, div_one]

theorem value_ofNat {n : Nat} (small : n < 2 ^ 53) :
    (ofNat n).value = n ∧ ¬ (ofNat n).IsInfinite := by
  rw [ofNat_eq_round]
  exact value_round_of_dyadic (a := 0) (b := 0) small (by decide) (by decide) (by simp)

/-- What does not exceed a natural below 2^53 is not rounded above it. -/
theorem value_round_le {q : ℚ} {n : Nat} (small : n < 2 ^ 53) (le : q ≤ n) :
    (round q).value ≤ n ∧ ¬ (round q).IsInfinite := by
  obtain ⟨n_value, n_finite⟩ := value_ofNat small
  have place_le := round_place_mono le
  have n_place_le := (ofNat n).place_le
  rw [← ofNat_eq_round] at place_le
  refine ⟨?_, ?_⟩
  · rw [← n_value]
    exact value_le_value.mpr place_le
  · rw [IsInfinite] at n_finite ⊢
    omega

theorem mul_eq_round (a b : Magnitude) : a.mul b = round (a.value * b.value) := by
  have scaled := nearest_mul_oneUnits (a.units * b.units) (Nat.mul_pos oneUnits_pos oneUnits_pos)
  rw [nearest_mul_mul _ _ oneUnits_pos] at scaled
  rw [mul_eq, scaled, value, value, div_mul_div_comm]
  push_cast
  rfl

theorem div_eq_round (a : Magnitude) {b : Magnitude} (nonzero : ¬ b.IsZero) :
    a.div b = round (a.value / b.value) := by
  have units_pos : 0 < b.units := Nat.pos_of_ne_zero fun zero => nonzero (units_eq_zero.mp zero)
  rw [div_eq a b nonzero, nearest_mul_oneUnits _ units_pos, value, value,
    div_div_div_cancel_right₀ cast_oneUnits_pos.ne']

end Magnitude

namespace Binary64

open Magnitude (round)

theorem number_mul_number (s t : Bool) {a b : Magnitude} (a_finite : ¬ a.IsInfinite)
    (b_finite : ¬ b.IsInfinite) :
    number s a * number t b = number (s != t) (round (a.value * b.value)) := by
  change Binary64.mul _ _ = _
  rw [Binary64.mul, if_neg (not_or.mpr ⟨a_finite, b_finite⟩), Magnitude.mul_eq_round]

theorem number_div_number (s t : Bool) {a b : Magnitude} (a_finite : ¬ a.IsInfinite)
    (b_finite : ¬ b.IsInfinite) (nonzero : ¬ b.IsZero) :
    number s a / number t b = number (s != t) (round (a.value / b.value)) := by
  change Binary64.div _ _ = _
  rw [Binary64.div, if_neg a_finite, if_neg b_finite, if_neg nonzero,
    Magnitude.div_eq_round a nonzero]

/-- A finite number without a sign, of the given value. -/
def Represents (x : Binary64) (q : ℚ) : Prop :=
  ∃ m, x = number false m ∧ m.value = q ∧ ¬ m.IsInfinite

theorem represents_ofNat {n : Nat} (small : n < 2 ^ 53) : (ofNat n).Represents n :=
  ⟨_, rfl, Magnitude.value_ofNat small⟩

theorem Represents.ne_nan {x : Binary64} {q : ℚ} (exact : x.Represents q) : x ≠ nan := by
  obtain ⟨m, rfl, _⟩ := exact
  exact fun same => by cases same

theorem Represents.toRat_eq {x : Binary64} {q : ℚ} (exact : x.Represents q) : x.toRat = q := by
  obtain ⟨m, rfl, value_eq, _⟩ := exact
  exact value_eq

theorem Represents.ofNat_le_iff {x : Binary64} {q : ℚ} (exact : x.Represents q) {n : Nat}
    (small : n < 2 ^ 53) : ofNat n ≤ x ↔ n ≤ q := by
  have n_exact := represents_ofNat small
  rw [le_iff_toRat_le n_exact.ne_nan exact.ne_nan, n_exact.toRat_eq, exact.toRat_eq]

theorem Represents.ofNat_lt_iff {x : Binary64} {q : ℚ} (exact : x.Represents q) {n : Nat}
    (small : n < 2 ^ 53) : ofNat n < x ↔ n < q := by
  have n_exact := represents_ofNat small
  rw [lt_iff_toRat_lt n_exact.ne_nan exact.ne_nan, n_exact.toRat_eq, exact.toRat_eq]

theorem Represents.mul {x y : Binary64} {p q : ℚ} {k a b : Nat} (x_exact : x.Represents p)
    (y_exact : y.Represents q) (small : k < 2 ^ 53) (a_le : a ≤ 1074) (b_le : b ≤ 970)
    (dyadic : p * q * 2 ^ a = k * 2 ^ b) : (x * y).Represents (p * q) := by
  obtain ⟨m, rfl, rfl, m_finite⟩ := x_exact
  obtain ⟨n, rfl, rfl, n_finite⟩ := y_exact
  exact ⟨_, number_mul_number false false m_finite n_finite,
    Magnitude.value_round_of_dyadic small a_le b_le dyadic⟩

/-- A product that some number represents is that number. -/
theorem Represents.mul_eq {x y z : Binary64} {p q : ℚ} (x_exact : x.Represents p)
    (y_exact : y.Represents q) (product : z.Represents (p * q)) : x * y = z := by
  obtain ⟨m, rfl, rfl, m_finite⟩ := x_exact
  obtain ⟨n, rfl, rfl, n_finite⟩ := y_exact
  obtain ⟨k, rfl, k_value, -⟩ := product
  rw [number_mul_number false false m_finite n_finite, ← k_value, Magnitude.round_value,
    Bool.bne_false]

theorem Represents.div_eq_round {x y : Binary64} {p q : ℚ} (x_exact : x.Represents p)
    (y_exact : y.Represents q) (nonzero : q ≠ 0) : x / y = number false (round (p / q)) := by
  obtain ⟨m, rfl, rfl, m_finite⟩ := x_exact
  obtain ⟨n, rfl, rfl, n_finite⟩ := y_exact
  exact number_div_number false false m_finite n_finite
    fun zero => nonzero (Magnitude.value_eq_zero.mpr zero)

theorem Represents.div {x y : Binary64} {p q : ℚ} {k a b : Nat} (x_exact : x.Represents p)
    (y_exact : y.Represents q) (nonzero : q ≠ 0) (small : k < 2 ^ 53) (a_le : a ≤ 1074)
    (b_le : b ≤ 970) (dyadic : p / q * 2 ^ a = k * 2 ^ b) : (x / y).Represents (p / q) :=
  ⟨_, x_exact.div_eq_round y_exact nonzero,
    Magnitude.value_round_of_dyadic small a_le b_le dyadic⟩

/-- A quotient that comes out as a natural below 2^53 is exact. -/
theorem Represents.div_eq_natural {x y : Binary64} {p q : ℚ} {n : Nat} (x_exact : x.Represents p)
    (y_exact : y.Represents q) (nonzero : q ≠ 0) (small : n < 2 ^ 53) (whole : p / q = n) :
    (x / y).Represents n := by
  rw [← whole]
  exact x_exact.div (a := 0) (b := 0) y_exact nonzero small (by decide) (by decide) (by rw [whole])

theorem ofNat_div_ofNat {p d : Nat} (p_small : p < 2 ^ 53) (d_small : d < 2 ^ 53)
    (positive : 0 < d) : ofNat p / ofNat d = number false (round (p / d)) :=
  (represents_ofNat p_small).div_eq_round (represents_ofNat d_small)
    (Nat.cast_ne_zero.mpr positive.ne')

/-- Without a divider a natural is infinite, and zero is NaN. -/
theorem ofNat_div_zero {p : Nat} (small : p < 2 ^ 53) :
    ofNat p / ofNat 0 = if p = 0 then nan else infinity := by
  obtain ⟨p_value, p_finite⟩ := Magnitude.value_ofNat small
  obtain ⟨zero_value, zero_finite⟩ := Magnitude.value_ofNat (n := 0) (by decide)
  have p_zero_iff : (Magnitude.ofNat p).IsZero ↔ p = 0 := by
    rw [← Magnitude.value_eq_zero, p_value, Nat.cast_eq_zero]
  have zero_zero : (Magnitude.ofNat 0).IsZero := by
    rw [← Magnitude.value_eq_zero, zero_value, Nat.cast_zero]
  change Binary64.div _ _ = _
  rw [ofNat, ofNat, Binary64.div, if_neg p_finite, if_neg zero_finite, if_pos zero_zero]
  simp only [p_zero_iff, infinity, bne_self_eq_false]

end Binary64

end ClockTree
