import ClockTree.Proofs.Binary64.Arithmetic

/-! Order, division and multiplication. A number without a sign divided by one, or by NaN, keeps its
order in this sense: what the quotient of the smaller exceeds, the quotient of the greater exceeds as
well. That also holds where a quotient is NaN, which exceeds nothing. A product with a positive natural
grows with both factors, the first of which may have a sign or be infinite. -/
namespace ClockTree.Binary64

section Transitivity

variable {x y z : Binary64}

theorem ne_nan_of_le (le : x ≤ y) : x ≠ nan ∧ y ≠ nan := by
  constructor
  · rintro rfl
    exact not_nan_le y le
  · rintro rfl
    exact not_le_nan x le

theorem ne_nan_of_lt (lt : x < y) : x ≠ nan ∧ y ≠ nan := by
  constructor
  · rintro rfl
    exact not_nan_lt y lt
  · rintro rfl
    exact not_lt_nan x lt

protected theorem not_le_of_lt (lt : x < y) : ¬ y ≤ x := by
  obtain ⟨x_ne, y_ne⟩ := ne_nan_of_lt lt
  exact (not_le_iff_lt y_ne x_ne).mpr lt

protected theorem le_of_lt (lt : x < y) : x ≤ y := by
  obtain ⟨x_ne, y_ne⟩ := ne_nan_of_lt lt
  simp only [lt_iff_toRat_lt x_ne y_ne, le_iff_toRat_le x_ne y_ne] at lt ⊢
  exact lt.le

protected theorem not_lt_of_lt (lt : x < y) : ¬ y < x := fun gt =>
  Binary64.not_le_of_lt lt (Binary64.le_of_lt gt)

protected theorem le_of_not_lt (x_ne : x ≠ nan) (y_ne : y ≠ nan) (not_lt : ¬ x < y) : y ≤ x :=
  not_not.mp fun not_le => not_lt ((not_le_iff_lt y_ne x_ne).mp not_le)

protected theorem lt_of_le_of_lt (le : x ≤ y) (lt : y < z) : x < z := by
  obtain ⟨x_ne, y_ne⟩ := ne_nan_of_le le
  obtain ⟨-, z_ne⟩ := ne_nan_of_lt lt
  simp only [le_iff_toRat_le x_ne y_ne, lt_iff_toRat_lt y_ne z_ne, lt_iff_toRat_lt x_ne z_ne]
    at le lt ⊢
  exact le.trans_lt lt

protected theorem lt_of_lt_of_le (lt : x < y) (le : y ≤ z) : x < z := by
  obtain ⟨x_ne, y_ne⟩ := ne_nan_of_lt lt
  obtain ⟨-, z_ne⟩ := ne_nan_of_le le
  simp only [lt_iff_toRat_lt x_ne y_ne, le_iff_toRat_le y_ne z_ne, lt_iff_toRat_lt x_ne z_ne]
    at lt le ⊢
  exact lt.trans_le le

protected theorem le_trans (first : x ≤ y) (second : y ≤ z) : x ≤ z := by
  obtain ⟨x_ne, y_ne⟩ := ne_nan_of_le first
  obtain ⟨-, z_ne⟩ := ne_nan_of_le second
  simp only [le_iff_toRat_le x_ne y_ne, le_iff_toRat_le y_ne z_ne, le_iff_toRat_le x_ne z_ne]
    at first second ⊢
  exact first.trans second

end Transitivity

theorem zero_le_number {s : Bool} {a : Magnitude} : 0 ≤ number s a ↔ 0 ≤ signedPlace s a := by
  have zero_value := (Magnitude.value_ofNat (n := 0) (by decide)).1
  have zero_place : (Magnitude.ofNat 0).place = 0 :=
    Magnitude.value_eq_zero.mp (zero_value.trans Nat.cast_zero)
  change number false (Magnitude.ofNat 0) ≤ number s a ↔ _
  simp only [number_le_number, signedPlace, zero_place, Bool.false_eq_true, ↓reduceIte,
    Nat.cast_zero]

theorem lt_infinity {x : Binary64} (finite : x.IsFinite) : x < infinity := by
  cases x with
  | nan => exact absurd finite id
  | number s m =>
    have below : m.place < Magnitude.infinityPlace := Nat.lt_of_le_of_ne m.place_le finite
    cases s <;> simp [infinity, signedPlace, Magnitude.infinity] <;> omega

def Unsigned (x : Binary64) : Prop := x = nan ∨ ∃ m, x = number false m

theorem unsigned_div (a b : Magnitude) : (number false a / number false b).Unsigned := by
  change (Binary64.div _ _).Unsigned
  simp only [Binary64.div]
  split
  · split
    · exact .inl rfl
    · exact .inr ⟨_, rfl⟩
  · split
    · exact .inr ⟨_, rfl⟩
    · split
      · split
        · exact .inl rfl
        · exact .inr ⟨_, rfl⟩
      · exact .inr ⟨_, rfl⟩

section Quotient

variable {a b m : Magnitude}

theorem number_div_infinite (finite : ¬ a.IsInfinite) (infinite : m.IsInfinite) :
    number false a / number false m = number false .zero := by
  change Binary64.div _ _ = _
  simp [Binary64.div, finite, infinite]

theorem number_div_zero (finite : ¬ a.IsInfinite) (zero : m.IsZero) :
    number false a / number false m = if a.IsZero then nan else infinity := by
  have m_finite : ¬ m.IsInfinite := by
    rw [Magnitude.IsInfinite, zero]
    decide
  change Binary64.div _ _ = _
  simp [Binary64.div, finite, m_finite, zero, infinity]

theorem div_nan (x : Binary64) : x / nan = nan := by
  cases x <;> rfl

/-- Division by one divisor keeps what a dividend exceeds, whatever the divisor. -/
theorem lt_div_of_place_le {t y : Binary64} (y_unsigned : y.Unsigned) (b_finite : ¬ b.IsInfinite)
    (le : a.place ≤ b.place) (lt : t < number false a / y) : t < number false b / y := by
  have a_finite : ¬ a.IsInfinite := by
    have := b.place_le
    rw [Magnitude.IsInfinite] at b_finite ⊢
    omega
  rcases y_unsigned with rfl | ⟨m, rfl⟩
  · rw [div_nan] at lt
    exact absurd lt (not_lt_nan t)
  by_cases infinite : m.IsInfinite
  · rw [number_div_infinite a_finite infinite] at lt
    rwa [number_div_infinite b_finite infinite]
  by_cases zero : m.IsZero
  · rw [number_div_zero a_finite zero] at lt
    rw [number_div_zero b_finite zero]
    split at lt
    · exact absurd lt (not_lt_nan t)
    next nonzero =>
      have b_nonzero : ¬ b.IsZero := by
        rw [Magnitude.IsZero] at nonzero ⊢
        omega
      rwa [if_neg b_nonzero]
  · rw [number_div_number false false a_finite infinite zero] at lt
    rw [number_div_number false false b_finite infinite zero]
    refine Binary64.lt_of_lt_of_le lt (Int.ofNat_le.mpr (Magnitude.round_place_mono ?_))
    exact div_le_div_of_nonneg_right (Magnitude.value_le_value.mpr le) m.value_nonneg

theorem infinite_div {a m : Magnitude} (infinite : a.IsInfinite) (finite : ¬ m.IsInfinite) :
    number false a / number false m = infinity := by
  change Binary64.div _ _ = _
  simp [Binary64.div, infinite, finite, infinity]

/-- A greater divisor keeps what exceeds a quotient, whatever the dividend. -/
theorem div_lt_of_divisor_le {t x : Binary64} {n : Magnitude} (x_unsigned : x.Unsigned)
    (nonzero : ¬ m.IsZero) (finite : ¬ n.IsInfinite) (le : m.place ≤ n.place)
    (lt : x / number false m < t) : x / number false n < t := by
  rcases x_unsigned with rfl | ⟨a, rfl⟩
  · exact absurd lt (not_nan_lt t)
  have m_finite : ¬ m.IsInfinite := by
    have := n.place_le
    rw [Magnitude.IsInfinite] at finite ⊢
    omega
  have n_nonzero : ¬ n.IsZero := by
    rw [Magnitude.IsZero] at nonzero ⊢
    omega
  by_cases infinite : a.IsInfinite
  · rw [infinite_div infinite m_finite] at lt
    rwa [infinite_div infinite finite]
  · rw [number_div_number false false infinite m_finite nonzero] at lt
    rw [number_div_number false false infinite finite n_nonzero]
    refine Binary64.lt_of_le_of_lt (Int.ofNat_le.mpr (Magnitude.round_place_mono ?_)) lt
    exact div_le_div_of_nonneg_left a.value_nonneg
      (lt_of_le_of_ne m.value_nonneg fun zero => nonzero (Magnitude.value_eq_zero.mp zero.symm))
      (Magnitude.value_le_value.mpr le)

theorem not_one_lt_div_self (finite : ¬ a.IsInfinite) :
    ¬ 1 < number false a / number false a := by
  by_cases zero : a.IsZero
  · rw [number_div_zero finite zero, if_pos zero]
    exact not_lt_nan 1
  · have value_ne : a.value ≠ 0 := fun value_zero => zero (Magnitude.value_eq_zero.mp value_zero)
    have one_eq : Magnitude.round 1 = .ofNat 1 := by
      rw [Magnitude.ofNat_eq_round, Nat.cast_one]
    rw [number_div_number false false finite finite zero, div_self value_ne, one_eq]
    exact Int.lt_irrefl _

end Quotient

section Product

open Magnitude (le_place_round_mul place_round_mul_eq_zero place_round_mul_mono)

variable {x y : Binary64} {m n : Nat} (positive : 0 < n) (small : n < 2 ^ 53)

include positive small

/-- The product with a positive natural is rounded once, also if it is infinite. -/
theorem number_mul_ofNat (s : Bool) (a : Magnitude) :
    number s a * ofNat n = number s (Magnitude.round (a.value * n)) := by
  obtain ⟨n_value, n_finite⟩ := Magnitude.value_ofNat small
  by_cases infinite : a.IsInfinite
  · have n_nonzero : ¬ (Magnitude.ofNat n).IsZero := by
      rw [← Magnitude.value_eq_zero, n_value, Nat.cast_eq_zero]
      exact positive.ne'
    have a_nonzero : ¬ a.IsZero := by
      rw [Magnitude.IsZero, infinite]
      decide
    have product : Magnitude.round (a.value * n) = .infinity := by
      have grows := le_place_round_mul positive a
      rw [infinite] at grows
      exact Magnitude.ext (le_antisymm (Magnitude.round _).place_le grows)
    rw [product]
    change Binary64.mul _ _ = _
    simp [ofNat, Binary64.mul, infinite, a_nonzero, n_nonzero]
  · rw [ofNat, number_mul_number s false infinite n_finite, n_value, Bool.bne_false]

theorem mul_ofNat_le_mul_ofNat (le : x ≤ y) : x * ofNat n ≤ y * ofNat n := by
  cases x with
  | nan => exact absurd le (not_nan_le y)
  | number s a =>
    cases y with
    | nan => exact absurd le (not_le_nan _)
    | number t b =>
      have forward := fun le => place_round_mul_mono (a := a) (b := b) le (le_refl n)
      have backward := fun le => place_round_mul_mono (a := b) (b := a) le (le_refl n)
      have a_zero := place_round_mul_eq_zero (a := a) (n := n)
      have b_zero := place_round_mul_eq_zero (a := b) (n := n)
      rw [number_mul_ofNat positive small, number_mul_ofNat positive small, number_le_number]
      rw [number_le_number] at le
      -- A product keeps the sign of its first factor, so only zeros leave a choice of signs.
      cases s <;> cases t <;>
        simp only [signedPlace, Bool.false_eq_true, ↓reduceIte] at le ⊢ <;> omega

theorem nonneg_of_mul_ofNat_nonneg (nonneg : 0 ≤ x * ofNat n) : 0 ≤ x := by
  cases x with
  | nan => exact absurd nonneg (not_le_nan _)
  | number s a =>
    have grows := le_place_round_mul positive a
    rw [number_mul_ofNat positive small, zero_le_number] at nonneg
    rw [zero_le_number]
    cases s <;> simp only [signedPlace, Bool.false_eq_true, ↓reduceIte] at nonneg ⊢ <;> omega

omit positive in
theorem mul_ofNat_le_of_le (nonneg : 0 ≤ x) (m_pos : 0 < m) (le : m ≤ n) :
    x * ofNat m ≤ x * ofNat n := by
  cases x with
  | nan => exact absurd nonneg (not_le_nan _)
  | number s a =>
    have grows := place_round_mul_mono (le_refl a.place) le
    have a_zero := place_round_mul_eq_zero (a := a)
    rw [number_mul_ofNat (m_pos.trans_le le) small, number_mul_ofNat m_pos (le.trans_lt small),
      number_le_number]
    rw [zero_le_number] at nonneg
    cases s <;> simp only [signedPlace, Bool.false_eq_true, ↓reduceIte] at nonneg ⊢
    · exact Int.ofNat_le.mpr grows
    · rw [a_zero (by omega), a_zero (by omega)]

end Product

end ClockTree.Binary64
