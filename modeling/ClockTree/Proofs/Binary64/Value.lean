import ClockTree.Binary64.Arithmetic
import Mathlib

/-! Exact values. A magnitude is a significand below 2^53 shifted by its exponent; its place
counts the significands of all exponents below. Places therefore order magnitudes by value,
and the order of numbers other than NaN is the order of the rationals they stand for. -/
namespace ClockTree

namespace Magnitude

theorem binade_pos : 0 < binade := by decide

theorem place_eq (m : Magnitude) : m.place = m.exponent * binade + m.significand := by
  have split := Nat.div_add_mod' m.place binade
  by_cases low : m.place < binade
  · simp [exponent, significand, low, Nat.div_eq_of_lt low]
  · have one_le : 1 ≤ m.place / binade := (Nat.one_le_div_iff binade_pos).mpr (by omega)
    have pred := Nat.sub_one_mul (m.place / binade) binade
    have binade_le := Nat.mul_le_mul_right binade one_le
    simp only [exponent, significand, if_neg low, pred]
    omega

theorem significand_lt (m : Magnitude) : m.significand < 2 * binade := by
  have rest := Nat.mod_lt m.place binade_pos
  rw [significand]
  split <;> omega

/-- Above the lowest exponent the leading one is there. -/
theorem binade_le_significand {m : Magnitude} (raised : 0 < m.exponent) :
    binade ≤ m.significand := by
  have above : ¬ m.place < binade := by
    intro low
    simp [exponent, Nat.div_eq_of_lt low] at raised
  rw [significand, if_neg above]
  omega

/-- A place found as `shift` binades and `digits` more belongs to `digits * 2 ^ shift` units,
also when the digits fill the binade. -/
theorem units_eq_of_place {m : Magnitude} {shift digits : Nat}
    (place_eq : m.place = shift * binade + digits) (digits_le : digits ≤ 2 * binade)
    (leading : shift = 0 ∨ binade ≤ digits) : m.units = digits * 2 ^ shift := by
  rcases Nat.lt_or_ge digits binade with low | high
  · obtain rfl : shift = 0 := leading.resolve_right (Nat.not_le_of_lt low)
    rw [Nat.zero_mul, Nat.zero_add] at place_eq
    simp [units, significand, exponent, place_eq, low, Nat.div_eq_of_lt low]
  have above : ¬ m.place < binade := by
    rw [place_eq]
    omega
  rcases Nat.lt_or_eq_of_le digits_le with inside | full
  · have place_split : m.place = digits - binade + binade * (shift + 1) := by
      rw [Nat.mul_succ, Nat.mul_comm binade shift]
      omega
    have exponent_eq : m.exponent = shift := by
      rw [exponent, place_split, Nat.add_mul_div_left _ _ binade_pos,
        Nat.div_eq_of_lt (by omega)]
      omega
    have significand_eq : m.significand = digits := by
      rw [significand, if_neg above, place_split, Nat.add_mul_mod_self_left,
        Nat.mod_eq_of_lt (by omega)]
      omega
    rw [units, exponent_eq, significand_eq]
  · have place_split : m.place = binade * (shift + 2) := by
      rw [place_eq, full, Nat.mul_add, Nat.mul_comm binade shift, Nat.mul_comm binade 2]
    have exponent_eq : m.exponent = shift + 1 := by
      rw [exponent, place_split, Nat.mul_div_cancel_left _ binade_pos]
      omega
    have significand_eq : m.significand = binade := by
      rw [significand, if_neg above, place_split, Nat.mul_mod_right, Nat.add_zero]
    rw [units, exponent_eq, significand_eq, full, Nat.pow_succ]
    ring

theorem units_lt_units_of_place_lt {a b : Magnitude} (lt : a.place < b.place) :
    a.units < b.units := by
  have exponent_le : a.exponent ≤ b.exponent :=
    Nat.sub_le_sub_right (Nat.div_le_div_right (Nat.le_of_lt lt)) 1
  rcases Nat.eq_or_lt_of_le exponent_le with same | lower
  · rw [a.place_eq, b.place_eq, same] at lt
    rw [units, units, same]
    exact (Nat.mul_lt_mul_right (Nat.two_pow_pos _)).mpr (by omega)
  · calc a.units < 2 * binade * 2 ^ a.exponent :=
          (Nat.mul_lt_mul_right (Nat.two_pow_pos _)).mpr a.significand_lt
      _ = binade * 2 ^ (a.exponent + 1) := by ring
      _ ≤ b.significand * 2 ^ b.exponent :=
          Nat.mul_le_mul (binade_le_significand (by omega))
            (Nat.pow_le_pow_right (by decide) (by omega))

theorem units_lt_units {a b : Magnitude} : a.units < b.units ↔ a.place < b.place := by
  refine ⟨fun lt => Nat.lt_of_not_le fun le => ?_, units_lt_units_of_place_lt⟩
  rcases Nat.eq_or_lt_of_le le with same | above
  · rw [Magnitude.ext same] at lt
    exact Nat.lt_irrefl _ lt
  · exact Nat.lt_asymm lt (units_lt_units_of_place_lt above)

/-- The value of a magnitude. Infinity reads as 2^1024. -/
def value (m : Magnitude) : ℚ := m.units / oneUnits

theorem oneUnits_pos : 0 < oneUnits := by
  unfold oneUnits
  positivity

theorem cast_oneUnits_pos : (0 : ℚ) < oneUnits := Nat.cast_pos.mpr oneUnits_pos

theorem value_nonneg (m : Magnitude) : 0 ≤ m.value :=
  div_nonneg (Nat.cast_nonneg _) cast_oneUnits_pos.le

@[simp] theorem value_lt_value {a b : Magnitude} : a.value < b.value ↔ a.place < b.place := by
  rw [value, value, div_lt_div_iff_of_pos_right cast_oneUnits_pos, Nat.cast_lt, units_lt_units]

@[simp] theorem value_le_value {a b : Magnitude} : a.value ≤ b.value ↔ a.place ≤ b.place := by
  rw [← not_lt, value_lt_value, Nat.not_lt]

theorem value_eq_zero {m : Magnitude} : m.value = 0 ↔ m.IsZero := by
  rw [value, div_eq_zero_iff, or_iff_left cast_oneUnits_pos.ne', Nat.cast_eq_zero, units_eq_zero]

end Magnitude

namespace Binary64

/-- The rational a finite number stands for. An infinity reads as 2^1024 with its sign, and
NaN as zero. -/
def toRat : Binary64 → ℚ
  | nan => 0
  | number negative m => if negative then -m.value else m.value

theorem IsFinite.ne_nan {x : Binary64} (finite : x.IsFinite) : x ≠ nan := by
  rintro rfl
  exact finite

theorem number_le_iff_toRat_le {s t : Bool} {a b : Magnitude} :
    number s a ≤ number t b ↔ (number s a).toRat ≤ (number t b).toRat := by
  have a_nonneg := a.value_nonneg
  have b_nonneg := b.value_nonneg
  have a_zero := Magnitude.value_eq_zero (m := a)
  have b_zero := Magnitude.value_eq_zero (m := b)
  have forward := Magnitude.value_le_value (a := a) (b := b)
  have backward := Magnitude.value_le_value (a := b) (b := a)
  simp only [Magnitude.IsZero] at a_zero b_zero
  rw [number_le_number]
  cases s <;> cases t <;> simp only [signedPlace, toRat, Bool.false_eq_true, ↓reduceIte]
  · rw [forward, Nat.cast_le]
  · constructor
    · intro le
      rw [a_zero.mpr (by omega), b_zero.mpr (by omega), neg_zero]
    · intro le
      have := a_zero.mp (by linarith)
      have := b_zero.mp (by linarith)
      omega
  · exact ⟨fun _ => by linarith, fun _ => by omega⟩
  · rw [neg_le_neg_iff, neg_le_neg_iff, backward, Nat.cast_le]

theorem le_iff_toRat_le {x y : Binary64} (hx : x ≠ nan) (hy : y ≠ nan) :
    x ≤ y ↔ x.toRat ≤ y.toRat := by
  cases x with
  | nan => exact absurd rfl hx
  | number s a =>
    cases y with
    | nan => exact absurd rfl hy
    | number t b => exact number_le_iff_toRat_le

theorem not_le_iff_lt {x y : Binary64} (hx : x ≠ nan) (hy : y ≠ nan) : ¬ x ≤ y ↔ y < x := by
  cases x with
  | nan => exact absurd rfl hx
  | number s a =>
    cases y with
    | nan => exact absurd rfl hy
    | number t b => rw [number_le_number, number_lt_number, Int.not_le]

theorem lt_iff_toRat_lt {x y : Binary64} (hx : x ≠ nan) (hy : y ≠ nan) :
    x < y ↔ x.toRat < y.toRat := by
  rw [← not_le_iff_lt hy hx, le_iff_toRat_le hy hx, not_le]

theorem eqv_iff_le_and_ge {x y : Binary64} : x.Eqv y ↔ x ≤ y ∧ y ≤ x := by
  cases x with
  | nan => simp [Binary64.Eqv]
  | number s a =>
    cases y with
    | nan => simp [Binary64.Eqv]
    | number t b => exact Int.le_antisymm_iff

theorem eqv_iff_toRat_eq {x y : Binary64} (hx : x ≠ nan) (hy : y ≠ nan) :
    x.Eqv y ↔ x.toRat = y.toRat := by
  rw [eqv_iff_le_and_ge, le_iff_toRat_le hx hy, le_iff_toRat_le hy hx, le_antisymm_iff]

end Binary64

end ClockTree
