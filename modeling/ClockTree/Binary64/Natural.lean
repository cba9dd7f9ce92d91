import ClockTree.Binary64.Arithmetic

/-! Naturals below 2^53 as binary64 numbers: none of them is rounded, so they are told apart
and keep their order. -/
namespace ClockTree

attribute [local instance (2000)] instPowNat

namespace Magnitude

theorem significand_bounds {n : Nat} (positive : 0 < n) (small : n < 2 ^ (53 : Nat)) :
    binade ≤ n * 2 ^ (52 - n.log2) ∧ n * 2 ^ (52 - n.log2) < 2 * binade := by
  have nonzero : n ≠ 0 := Nat.ne_of_gt positive
  have bits : n.log2 < 53 := (Nat.log2_lt nonzero).mpr small
  have low := Nat.mul_le_mul_right (2 ^ (52 - n.log2)) (Nat.log2_self_le nonzero)
  have high :=
    (Nat.mul_lt_mul_right (Nat.two_pow_pos (52 - n.log2))).mpr (Nat.lt_log2_self (n := n))
  rw [← Nat.pow_add] at low high
  rw [show n.log2 + (52 - n.log2) = 52 by omega] at low
  rw [show n.log2 + 1 + (52 - n.log2) = 53 by omega] at high
  exact ⟨low, high⟩

/-- A positive natural below 2^53 is exact: its place is found without rounding. -/
theorem place_ofNat {n : Nat} (positive : 0 < n) (small : n < 2 ^ (53 : Nat)) :
    (ofNat n).place = (n.log2 + 1022) * binade + n * 2 ^ (52 - n.log2) := by
  have bits : n.log2 < 53 := (Nat.log2_lt (Nat.ne_of_gt positive)).mpr small
  have below := (significand_bounds positive small).2
  rw [ofNat, nearestScaled, if_neg (Nat.not_lt_of_le positive)]
  simp only [Nat.div_one, show n.log2 + 1074 - 52 = n.log2 + 1022 by omega,
    show 1074 - (n.log2 + 1022) = 52 - n.log2 by omega,
    show n.log2 + 1022 - 1074 = 0 by omega]
  have whole := roundHalfEven_mul (n * 2 ^ (52 - n.log2)) Nat.one_pos
  rw [Nat.mul_one] at whole
  rw [Nat.pow_zero, Nat.mul_one, whole]
  apply Nat.min_eq_left
  simp only [infinityPlace, binade] at below ⊢
  omega

theorem place_ofNat_lt {m n : Nat} (lt : m < n) (small : n < 2 ^ (53 : Nat)) :
    (ofNat m).place < (ofNat n).place := by
  have positive : 0 < n := Nat.zero_lt_of_lt lt
  have bounds := significand_bounds positive small
  have binade_pos : 0 < binade := by decide
  rw [place_ofNat positive small]
  rcases Nat.eq_zero_or_pos m with rfl | m_positive
  · rw [ofNat_eq, Nat.zero_mul, show (nearest 0 1).place = 0 from rfl]
    omega
  · have m_bounds := significand_bounds m_positive (Nat.lt_trans lt small)
    have log_le : m.log2 ≤ n.log2 := by
      rw [Nat.le_log2 (Nat.ne_of_gt positive)]
      exact Nat.le_trans (Nat.log2_self_le (Nat.ne_of_gt m_positive)) (Nat.le_of_lt lt)
    rw [place_ofNat m_positive (Nat.lt_trans lt small)]
    rcases Nat.eq_or_lt_of_le log_le with same | lower
    · rw [same]
      exact Nat.add_lt_add_left ((Nat.mul_lt_mul_right (Nat.two_pow_pos _)).mpr lt) _
    · have step := Nat.mul_le_mul_right binade (show m.log2 + 1022 + 1 ≤ n.log2 + 1022 by omega)
      rw [Nat.add_mul _ 1] at step
      omega

end Magnitude

namespace Binary64

open Magnitude (place_ofNat_lt)

/-- Naturals below 2^53 are told apart, and keep their order. -/
theorem ofNat_le_ofNat {m n : Nat} (m_small : m < 2 ^ (53 : Nat)) (n_small : n < 2 ^ (53 : Nat)) :
    ofNat m ≤ ofNat n ↔ m ≤ n := by
  have places : ofNat m ≤ ofNat n ↔ (Magnitude.ofNat m).place ≤ (Magnitude.ofNat n).place := by
    simp [ofNat, signedPlace]
  rw [places]
  constructor
  · intro le
    refine Nat.le_of_not_lt fun lt => ?_
    exact absurd le (Nat.not_le_of_gt (place_ofNat_lt lt m_small))
  · intro le
    rcases Nat.eq_or_lt_of_le le with rfl | lt
    · exact Nat.le_refl _
    · exact Nat.le_of_lt (place_ofNat_lt lt n_small)

end Binary64

end ClockTree
