import ClockTree.Binary64.Basic

/-! Rounding of exact quotients: to the nearest value, and on a tie to the even place.
`Magnitude.nearest` says which value that is, and `Magnitude.nearestScaled` finds it for a
quotient that carries a power of two, without writing the power out. -/
namespace ClockTree

attribute [local instance (2000)] instPowNat

def roundHalfEven (num den : Nat) : Nat :=
  let floor := num / den
  let rest := num % den
  if 2 * rest < den then floor
  else if 2 * rest = den then floor + floor % 2
  else floor + 1

theorem roundHalfEven_mul (n : Nat) {den : Nat} (positive : 0 < den) :
    roundHalfEven (n * den) den = n := by
  simp [roundHalfEven, Nat.mul_div_cancel _ positive, positive]

theorem roundHalfEven_mul_mul (num den : Nat) {k : Nat} (positive : 0 < k) :
    roundHalfEven (num * k) (den * k) = roundHalfEven num den := by
  have scale : 2 * (num % den * k) = 2 * (num % den) * k := (Nat.mul_assoc ..).symm
  simp only [roundHalfEven, Nat.mul_div_mul_right _ _ positive, Nat.mul_mod_mul_right, scale,
    Nat.mul_lt_mul_right positive, Nat.mul_left_inj (Nat.ne_of_gt positive)]

namespace Magnitude

def oneUnits : Nat := 2 ^ (1074 : Nat)

/-- The magnitude nearest to `num / den` units. A quotient of `53 + shift` bits is kept
to a multiple of `2 ^ shift`; places count on through the binades, so the rounded
multiple plus `shift` binades is the place, also when rounding carries. -/
def nearest (num den : Nat) : Magnitude :=
  let shift := (num / den).log2 - 52
  ⟨min (shift * binade + roundHalfEven num (den * 2 ^ shift)) infinityPlace, Nat.min_le_right ..⟩

/-- The magnitude nearest to `num * 2 ^ scale / den` units. Once the quotient has an integer
part, `scale` only adds to its length. -/
def nearestScaled (num den scale : Nat) : Magnitude :=
  if num < den then nearest (num * 2 ^ scale) den
  else
    let shift := (num / den).log2 + scale - 52
    ⟨min (shift * binade + roundHalfEven (num * 2 ^ (scale - shift)) (den * 2 ^ (shift - scale)))
      infinityPlace, Nat.min_le_right ..⟩

theorem nearest_mul_mul (num den : Nat) {k : Nat} (positive : 0 < k) :
    nearest (num * k) (den * k) = nearest num den := by
  rw [nearest, nearest]
  simp only [Nat.mul_div_mul_right _ _ positive, Nat.mul_right_comm den k,
    roundHalfEven_mul_mul _ _ positive]

theorem log2_mul_two_pow_div {num den : Nat} (positive : 0 < den) (le : den ≤ num) (scale : Nat) :
    (num * 2 ^ scale / den).log2 = (num / den).log2 + scale := by
  have scale_pos := Nat.two_pow_pos scale
  have quotient_ne : num / den ≠ 0 := Nat.ne_of_gt (Nat.div_pos le positive)
  have low := (Nat.le_div_iff_mul_le positive).mp (Nat.log2_self_le quotient_ne)
  have high := (Nat.div_lt_iff_lt_mul positive).mp (Nat.lt_log2_self (n := num / den))
  have scaled_ne : num * 2 ^ scale / den ≠ 0 :=
    Nat.ne_of_gt (Nat.div_pos (Nat.le_trans le (Nat.le_mul_of_pos_right _ scale_pos)) positive)
  rw [Nat.log2_eq_iff scaled_ne, Nat.le_div_iff_mul_le positive, Nat.div_lt_iff_lt_mul positive,
    Nat.add_right_comm, Nat.pow_add, Nat.pow_add 2 ((num / den).log2 + 1),
    Nat.mul_right_comm _ _ den, Nat.mul_right_comm _ _ den]
  exact ⟨Nat.mul_le_mul_right _ low, (Nat.mul_lt_mul_right scale_pos).mpr high⟩

theorem nearestScaled_eq (num : Nat) {den : Nat} (positive : 0 < den) (scale : Nat) :
    nearestScaled num den scale = nearest (num * 2 ^ scale) den := by
  by_cases lt : num < den
  · rw [nearestScaled, if_pos lt]
  · have log := log2_mul_two_pow_div positive (Nat.le_of_not_lt lt) scale
    simp only [nearestScaled, if_neg lt, nearest, log, Magnitude.mk.injEq]
    generalize (num / den).log2 + scale - 52 = shift
    rcases Nat.le_total scale shift with le | le
    · rw [Nat.sub_eq_zero_of_le le, Nat.pow_zero, Nat.mul_one,
        ← roundHalfEven_mul_mul num _ (Nat.two_pow_pos scale), Nat.mul_assoc, ← Nat.pow_add,
        Nat.sub_add_cancel le]
    · rw [Nat.sub_eq_zero_of_le le, Nat.pow_zero, Nat.mul_one,
        ← roundHalfEven_mul_mul _ den (Nat.two_pow_pos shift), Nat.mul_assoc, ← Nat.pow_add,
        Nat.sub_add_cancel le]

end Magnitude

end ClockTree
