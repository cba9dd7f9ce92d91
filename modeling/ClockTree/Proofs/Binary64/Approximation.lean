import ClockTree.Proofs.Binary64.Order

/-! Chains of roundings. A number reached from a rational by a few operations lies within as many
rounding errors of it. Quotients of small naturals differ by more than that, or not at all, so
comparing the rounded quotients is comparing the naturals crosswise. -/
namespace ClockTree.Binary64

open Magnitude (IsNormal)

/-- What the largest relative error of one rounding leaves of a number. -/
def slack : ℚ := 1 - 1 / 2 ^ 53

theorem slack_pos : 0 < slack := by norm_num [slack]

theorem slack_pow_pos (k : Nat) : 0 < slack ^ k := pow_pos slack_pos k

/-- Eight roundings take off less than one part in 2^49. -/
theorem le_slack_pow {k : Nat} (short : k ≤ 8) : 1 - 1 / 2 ^ 49 ≤ slack ^ k := by
  have le_one : slack ≤ 1 := by norm_num [slack]
  calc (1 - 1 / 2 ^ 49 : ℚ) ≤ slack ^ 8 := by norm_num [slack]
    _ ≤ slack ^ k := pow_le_pow_of_le_one slack_pos.le le_one short

/-- A finite number without a sign, at most `k` rounding errors away from `q`. -/
def Approximates (x : Binary64) (q : ℚ) (k : Nat) : Prop :=
  ∃ m, x = number false m ∧ ¬ m.IsInfinite ∧ q * slack ^ k ≤ m.value ∧ m.value * slack ^ k ≤ q

theorem Represents.approximates {x : Binary64} {q : ℚ} (exact : x.Represents q) :
    x.Approximates q 0 := by
  obtain ⟨m, rfl, rfl, finite⟩ := exact
  exact ⟨m, rfl, finite, by simp, by simp⟩

theorem Approximates.not_isZero {m : Magnitude} {q : ℚ} {k : Nat}
    (near : (number false m).Approximates q k) (positive : 0 < q) : ¬ m.IsZero := by
  obtain ⟨n, same, -, below, -⟩ := near
  cases same
  rw [← Magnitude.value_eq_zero]
  exact ((mul_pos positive (slack_pow_pos k)).trans_le below).ne'

theorem Approximates.finite {m : Magnitude} {q : ℚ} {k : Nat}
    (near : (number false m).Approximates q k) : ¬ m.IsInfinite := by
  obtain ⟨n, same, finite, -⟩ := near
  cases same
  exact finite

theorem approximates_round {v q : ℚ} {k : Nat} (normal : IsNormal v) (below : q * slack ^ k ≤ v)
    (above : v * slack ^ k ≤ q) : (number false (Magnitude.round v)).Approximates q (k + 1) := by
  obtain ⟨low, high⟩ := abs_le.mp (Magnitude.abs_value_round_sub_le normal)
  refine ⟨Magnitude.round v, rfl, Magnitude.round_finite normal.pos.le normal.bounded, ?_, ?_⟩
  · calc q * slack ^ (k + 1) = q * slack ^ k * slack := by ring
      _ ≤ v * slack := mul_le_mul_of_nonneg_right below slack_pos.le
      _ ≤ (Magnitude.round v).value := by
        rw [slack]
        linarith
  · have kept : (Magnitude.round v).value * slack ≤ v :=
      calc (Magnitude.round v).value * slack ≤ (v + v / 2 ^ 53) * slack :=
            mul_le_mul_of_nonneg_right (by linarith) slack_pos.le
        _ = v - v * (1 / 2 ^ 53) ^ 2 := by
            rw [slack]
            ring
        _ ≤ v := sub_le_self v (mul_nonneg normal.pos.le (sq_nonneg _))
    calc (Magnitude.round v).value * slack ^ (k + 1)
        = (Magnitude.round v).value * slack * slack ^ k := by ring
      _ ≤ v * slack ^ k := mul_le_mul_of_nonneg_right kept (slack_pow_pos k).le
      _ ≤ q := above

/-- Naturals of 63 digits have a quotient in the normal range, and so has what a few roundings
make of it. -/
theorem isNormal_of_near {a b k : Nat} (a_pos : 0 < a) (a_small : a < 2 ^ 63) (b_pos : 0 < b)
    (b_small : b < 2 ^ 63) (short : k ≤ 8) {v : ℚ} (below : a / b * slack ^ k ≤ v)
    (above : v * slack ^ k ≤ a / b) : IsNormal v := by
  have b_cast : (0 : ℚ) < b := Nat.cast_pos.mpr b_pos
  have one_le_a : (1 : ℚ) ≤ a := Nat.one_le_cast.mpr a_pos
  have one_le_b : (1 : ℚ) ≤ b := Nat.one_le_cast.mpr b_pos
  have a_le : (a : ℚ) ≤ 2 ^ 63 := by exact_mod_cast a_small.le
  have b_le : (b : ℚ) ≤ 2 ^ 63 := by exact_mod_cast b_small.le
  have half : (1 / 2 : ℚ) ≤ slack ^ k := le_trans (by norm_num) (le_slack_pow short)
  have least : (1 : ℚ) ≤ a / b * 2 ^ 63 := by
    rw [div_mul_eq_mul_div, le_div_iff₀ b_cast]
    linarith
  have greatest : (a / b : ℚ) ≤ 2 ^ 63 := by
    rw [div_le_iff₀ b_cast]
    linarith
  have quotient_pos : (0 : ℚ) < a / b := div_pos (by linarith) b_cast
  have v_ge : (a / b : ℚ) / 2 ≤ v := by
    have scaled := mul_le_mul_of_nonneg_left half quotient_pos.le
    linarith
  have v_le : v / 2 ≤ a / b := by
    have scaled := mul_le_mul_of_nonneg_left half (by linarith : 0 ≤ v)
    linarith
  apply Magnitude.isNormal_of_bounds <;> linarith

theorem isNormal_div {a b : Nat} (a_pos : 0 < a) (a_small : a < 2 ^ 63) (b_pos : 0 < b)
    (b_small : b < 2 ^ 63) : IsNormal (a / b) :=
  isNormal_of_near (k := 0) a_pos a_small b_pos b_small (by decide) (by simp) (by simp)

/-- A quotient of two approximations has the errors of both, and one of its own. -/
theorem Approximates.div {x y : Binary64} {p q : ℚ} {j k a b : Nat} (hx : x.Approximates p j)
    (hy : y.Approximates q k) (q_pos : 0 < q) (quotient : p / q = a / b) (a_pos : 0 < a)
    (a_small : a < 2 ^ 63) (b_pos : 0 < b) (b_small : b < 2 ^ 63) (short : j + k ≤ 8) :
    (x / y).Approximates (a / b) (j + k + 1) := by
  obtain ⟨m, rfl, m_finite, m_below, m_above⟩ := hx
  obtain ⟨n, rfl, n_finite, n_below, n_above⟩ := hy
  have j_pos := slack_pow_pos j
  have k_pos := slack_pow_pos k
  have n_pos : 0 < n.value := (mul_pos q_pos k_pos).trans_le n_below
  have n_nonzero : ¬ n.IsZero := fun zero => n_pos.ne' (Magnitude.value_eq_zero.mpr zero)
  have p_pos : 0 < p := by
    rw [← div_pos_iff_of_pos_right q_pos, quotient]
    exact div_pos (Nat.cast_pos.mpr a_pos) (Nat.cast_pos.mpr b_pos)
  have below : (a / b * slack ^ (j + k) : ℚ) ≤ m.value / n.value := by
    rw [← quotient, pow_add, le_div_iff₀ n_pos]
    calc p / q * (slack ^ j * slack ^ k) * n.value
        = p * slack ^ j * (n.value * slack ^ k / q) := by ring
      _ ≤ p * slack ^ j * 1 :=
          mul_le_mul_of_nonneg_left ((div_le_one q_pos).mpr n_above) (mul_pos p_pos j_pos).le
      _ ≤ m.value := by rwa [mul_one]
  have above : (m.value / n.value * slack ^ (j + k) : ℚ) ≤ a / b := by
    rw [← quotient, pow_add, div_mul_eq_mul_div, div_le_div_iff₀ n_pos q_pos]
    calc m.value * (slack ^ j * slack ^ k) * q = m.value * slack ^ j * (q * slack ^ k) := by ring
      _ ≤ p * n.value := mul_le_mul m_above n_below (mul_pos q_pos k_pos).le p_pos.le
  rw [number_div_number false false m_finite n_finite n_nonzero]
  exact approximates_round (isNormal_of_near a_pos a_small b_pos b_small short below above)
    below above

theorem Approximates.lt {x y : Binary64} {p q : ℚ} {j k : Nat} (hx : x.Approximates p j)
    (hy : y.Approximates q k) (gap : p < q * slack ^ (j + k)) : x < y := by
  obtain ⟨m, rfl, -, -, m_above⟩ := hx
  obtain ⟨n, rfl, -, n_below, -⟩ := hy
  have j_pos := slack_pow_pos j
  have scaled : m.value * slack ^ j < n.value * slack ^ j :=
    calc m.value * slack ^ j ≤ p := m_above
      _ < q * slack ^ (j + k) := gap
      _ = q * slack ^ k * slack ^ j := by ring
      _ ≤ n.value * slack ^ j := mul_le_mul_of_nonneg_right n_below j_pos.le
  have apart := Magnitude.value_lt_value.mp (lt_of_mul_lt_mul_right scaled j_pos.le)
  exact Int.ofNat_lt.mpr apart

/-- Quotients whose cross products differ stay apart through eight roundings. -/
theorem Approximates.lt_of_cross {x y : Binary64} {a b c d j k : Nat}
    (hx : x.Approximates (a / b) j) (hy : y.Approximates (c / d) k) (b_pos : 0 < b) (d_pos : 0 < d)
    (cross : a * d < c * b) (small : c * b < 2 ^ 49) (short : j + k ≤ 8) : x < y := by
  apply hx.lt hy
  have step : (a * d + 1 : ℚ) ≤ c * b := by exact_mod_cast cross
  have bound : (c * b : ℚ) < 2 ^ 49 := by exact_mod_cast small
  have scaled := mul_le_mul_of_nonneg_left (le_slack_pow short) (by positivity : (0 : ℚ) ≤ c * b)
  rw [div_mul_eq_mul_div, div_lt_div_iff₀ (Nat.cast_pos.mpr b_pos) (Nat.cast_pos.mpr d_pos)]
  linarith

section Decision

variable {x y : Binary64} {a b c d j k : Nat} (hx : x.Approximates (a / b) j)
  (hy : y.Approximates (c / d) k) (b_pos : 0 < b) (d_pos : 0 < d) (apart : a * d ≠ c * b)
  (x_small : a * d < 2 ^ 49) (y_small : c * b < 2 ^ 49) (short : j + k ≤ 8)
include hx hy b_pos d_pos apart x_small y_small short

theorem Approximates.lt_iff : x < y ↔ a * d < c * b := by
  constructor
  · intro lt
    by_contra ge
    have reversed : c * b < a * d := by omega
    exact Binary64.not_lt_of_lt lt (hy.lt_of_cross hx d_pos b_pos reversed x_small (by omega))
  · intro lt
    exact hx.lt_of_cross hy b_pos d_pos lt y_small short

theorem Approximates.le_iff : x ≤ y ↔ a * d < c * b := by
  constructor
  · intro le
    by_contra ge
    have reversed : c * b < a * d := by omega
    exact Binary64.not_le_of_lt (hy.lt_of_cross hx d_pos b_pos reversed x_small (by omega)) le
  · intro lt
    exact Binary64.le_of_lt (hx.lt_of_cross hy b_pos d_pos lt y_small short)

end Decision

/-- A decimal is rounded once, whatever quotient it is written for. -/
theorem decimal_eq_round {mantissa places a b : Nat} (b_pos : 0 < b)
    (same : mantissa * b = a * 10 ^ places) :
    (OfScientific.ofScientific mantissa true places : Binary64) =
      number false (Magnitude.round (a / b)) := by
  have power_pos : 0 < 10 ^ places := Nat.pow_pos (by decide)
  have quotient : (mantissa / (10 ^ places : Nat) : ℚ) = a / b := by
    rw [div_eq_div_iff (Nat.cast_ne_zero.mpr power_pos.ne') (Nat.cast_ne_zero.mpr b_pos.ne')]
    exact_mod_cast same
  rw [← quotient]
  exact congrArg (number false) (Magnitude.nearest_mul_oneUnits mantissa power_pos)

theorem approximates_round_div {a b : Nat} (a_pos : 0 < a) (a_small : a < 2 ^ 63) (b_pos : 0 < b)
    (b_small : b < 2 ^ 63) : (number false (Magnitude.round (a / b))).Approximates (a / b) 1 := by
  exact approximates_round (k := 0) (isNormal_div a_pos a_small b_pos b_small) (by simp) (by simp)

end ClockTree.Binary64
