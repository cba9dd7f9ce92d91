import ClockTree.Proofs.Binary64.Value

/-! Rounding as a function of rationals. `Magnitude.round` keeps order, keeps what fits a
significand, and moves a number of the normal range by at most its 2^53rd part; in that range powers
of two pass through it. It depends on the quotient alone, so every operation that rounds a quotient of
naturals once is a case of it. -/
namespace ClockTree

theorem two_mul_roundHalfEven (num : Nat) {den : Nat} (positive : 0 < den) :
    2 * num ≤ 2 * (roundHalfEven num den * den) + den ∧
      2 * (roundHalfEven num den * den) ≤ 2 * num + den := by
  have split := Nat.div_add_mod' num den
  have rest := Nat.mod_lt num positive
  have parity := Nat.mod_lt (num / den) Nat.two_pos
  simp only [roundHalfEven]
  split
  · omega
  split
  · rcases (by omega : num / den % 2 = 0 ∨ num / den % 2 = 1) with even | odd
    · rw [even, Nat.add_zero]
      omega
    · rw [odd, Nat.add_mul (num / den) 1 den]
      omega
  · rw [Nat.add_mul (num / den) 1 den]
    omega

/-- A rounded quotient is within one half of the exact one. -/
theorem abs_roundHalfEven_sub_le (num : Nat) {den : Nat} (positive : 0 < den) :
    |(roundHalfEven num den : ℚ) - num / den| ≤ 1 / 2 := by
  obtain ⟨low, high⟩ := two_mul_roundHalfEven num positive
  have den_pos : (0 : ℚ) < den := Nat.cast_pos.mpr positive
  have low : 2 * (num : ℚ) ≤ 2 * (roundHalfEven num den * den) + den := by exact_mod_cast low
  have high : 2 * ((roundHalfEven num den : ℚ) * den) ≤ 2 * num + den := by exact_mod_cast high
  rw [abs_le]
  constructor
  · rw [neg_le_sub_iff_le_add, div_le_iff₀ den_pos]
    linarith
  · rw [sub_le_iff_le_add, ← sub_le_iff_le_add', le_div_iff₀ den_pos]
    linarith

theorem roundHalfEven_congr {num den num' den' : Nat} (positive : 0 < den) (positive' : 0 < den')
    (same : num * den' = num' * den) : roundHalfEven num den = roundHalfEven num' den' := by
  rw [← roundHalfEven_mul_mul num den positive', same, Nat.mul_comm den,
    roundHalfEven_mul_mul num' den' positive]

theorem roundHalfEven_mono {num den num' den' : Nat} (positive : 0 < den) (positive' : 0 < den')
    (le : num * den' ≤ num' * den) : roundHalfEven num den ≤ roundHalfEven num' den' := by
  rcases Nat.eq_or_lt_of_le le with same | lt
  · exact Nat.le_of_eq (roundHalfEven_congr positive positive' same)
  -- Two roundings of different quotients move by half each, which is less than one step back.
  have quotient_lt : (num : ℚ) / den < num' / den' := by
    rw [div_lt_div_iff₀ (Nat.cast_pos.mpr positive) (Nat.cast_pos.mpr positive')]
    exact_mod_cast lt
  have near := (abs_le.mp (abs_roundHalfEven_sub_le num positive)).2
  have near' := (abs_le.mp (abs_roundHalfEven_sub_le num' positive')).1
  have step : (roundHalfEven num den : ℚ) < roundHalfEven num' den' + 1 := by linarith
  exact Nat.lt_succ_iff.mp (by exact_mod_cast step)

theorem le_roundHalfEven {num den k : Nat} (positive : 0 < den) (le : k * den ≤ num) :
    k ≤ roundHalfEven num den := by
  have mono : roundHalfEven (k * 1) 1 ≤ roundHalfEven num den :=
    roundHalfEven_mono Nat.one_pos positive (by simpa using le)
  rwa [roundHalfEven_mul k Nat.one_pos] at mono

theorem roundHalfEven_le {num den k : Nat} (positive : 0 < den) (le : num ≤ k * den) :
    roundHalfEven num den ≤ k := by
  have mono : roundHalfEven num den ≤ roundHalfEven (k * 1) 1 :=
    roundHalfEven_mono positive Nat.one_pos (by simpa using le)
  rwa [roundHalfEven_mul k Nat.one_pos] at mono

namespace Magnitude

/-- How many digits of a quotient, in units, do not fit a significand. -/
def excess (num den : Nat) : Nat := (num / den).log2 - 52

/-- The significand of a quotient, in units, before the carry of rounding is resolved. -/
def digits (num den : Nat) : Nat := roundHalfEven num (den * 2 ^ excess num den)

theorem place_nearest (num den : Nat) :
    (nearest num den).place = min (excess num den * binade + digits num den) infinityPlace := rfl

theorem two_mul_binade : 2 * binade = 2 ^ 53 := by decide

theorem digits_le (num : Nat) {den : Nat} (positive : 0 < den) : digits num den ≤ 2 * binade := by
  apply roundHalfEven_le (Nat.mul_pos positive (Nat.two_pow_pos _))
  have below := (Nat.div_lt_iff_lt_mul positive).mp (Nat.lt_log2_self (n := num / den))
  apply Nat.le_of_lt
  calc num < 2 ^ ((num / den).log2 + 1) * den := below
    _ ≤ 2 ^ (53 + excess num den) * den :=
      Nat.mul_le_mul_right _ (Nat.pow_le_pow_right Nat.two_pos (by rw [excess]; omega))
    _ = 2 * binade * (den * 2 ^ excess num den) := by
      rw [two_mul_binade, Nat.pow_add]
      ring

/-- Once digits have to go, the leading one is there. -/
theorem two_pow_excess_le {num den : Nat} (positive : 0 < den) (long : 0 < excess num den) :
    binade * (den * 2 ^ excess num den) ≤ num := by
  have log_eq : (num / den).log2 = 52 + excess num den := by
    rw [excess] at long ⊢
    omega
  have nonzero : num / den ≠ 0 := by
    intro zero
    simp [excess, zero] at long
  have low := (Nat.le_div_iff_mul_le positive).mp (Nat.log2_self_le nonzero)
  rw [log_eq, Nat.pow_add] at low
  calc binade * (den * 2 ^ excess num den) = 2 ^ 52 * 2 ^ excess num den * den := by
        rw [binade]
        ring
    _ ≤ num := low

theorem binade_le_digits {num den : Nat} (positive : 0 < den) (long : 0 < excess num den) :
    binade ≤ digits num den :=
  le_roundHalfEven (Nat.mul_pos positive (Nat.two_pow_pos _)) (two_pow_excess_le positive long)

theorem place_nearest_mono {num den num' den' : Nat} (positive : 0 < den) (positive' : 0 < den')
    (le : num * den' ≤ num' * den) : (nearest num den).place ≤ (nearest num' den').place := by
  have quotient_le : num / den ≤ num' / den' := by
    rw [Nat.le_div_iff_mul_le positive']
    have cancelled : num / den * den' * den ≤ num' * den :=
      calc num / den * den' * den = num / den * den * den' := Nat.mul_right_comm ..
        _ ≤ num * den' := Nat.mul_le_mul_right _ (Nat.div_mul_le_self ..)
        _ ≤ num' * den := le
    exact Nat.le_of_mul_le_mul_right cancelled positive
  have excess_le : excess num den ≤ excess num' den' := by
    rw [excess, excess, Nat.log2_eq_log_two, Nat.log2_eq_log_two]
    exact Nat.sub_le_sub_right (Nat.log_mono_right quotient_le) 52
  rw [place_nearest, place_nearest]
  refine min_le_min_right _ ?_
  -- With one excess both round to the same step. Otherwise the smaller quotient at most fills its
  -- binade, where the greater one starts.
  rcases Nat.eq_or_lt_of_le excess_le with same | lower
  · rw [digits, digits, same]
    apply Nat.add_le_add_left
    apply roundHalfEven_mono (Nat.mul_pos positive (Nat.two_pow_pos _))
      (Nat.mul_pos positive' (Nat.two_pow_pos _))
    rw [← Nat.mul_assoc, ← Nat.mul_assoc]
    exact Nat.mul_le_mul_right _ le
  · have full := digits_le num positive
    have leading := binade_le_digits positive' (Nat.zero_lt_of_lt lower)
    have step := Nat.mul_le_mul_right binade lower
    rw [Nat.succ_mul] at step
    omega

theorem nearest_congr {num den num' den' : Nat} (positive : 0 < den) (positive' : 0 < den')
    (same : num * den' = num' * den) : nearest num den = nearest num' den' := by
  rw [← nearest_mul_mul num den positive', same, Nat.mul_comm den,
    nearest_mul_mul num' den' positive]

theorem log2_div_lt {num den bits : Nat} (positive : 0 < den) (bits_pos : 0 < bits)
    (lt : num < 2 ^ bits * den) : (num / den).log2 < bits := by
  rcases Nat.eq_zero_or_pos (num / den) with zero | quotient_pos
  · rw [zero]
    exact bits_pos
  · rw [Nat.log2_lt (Nat.ne_of_gt quotient_pos)]
    exact (Nat.div_lt_iff_lt_mul positive).mpr lt

/-- 2^1023, in units. Quotients below it are rounded to finite magnitudes. -/
def boundUnits : Nat := 2 ^ 2097

theorem place_lt_of_bounded {num den : Nat} (positive : 0 < den)
    (bounded : num < boundUnits * den) :
    excess num den * binade + digits num den < infinityPlace := by
  have full := digits_le num positive
  have log_lt : (num / den).log2 < 2097 := log2_div_lt positive (by decide) bounded
  have excess_le : excess num den ≤ 2044 := by
    rw [excess]
    omega
  have scaled := Nat.mul_le_mul_right binade excess_le
  have := binade_pos
  rw [infinityPlace]
  omega

/-- A quotient below 2^1023 has a finite magnitude with its digits as significand. -/
theorem units_nearest {num den : Nat} (positive : 0 < den) (bounded : num < boundUnits * den) :
    (nearest num den).units = digits num den * 2 ^ excess num den := by
  apply units_eq_of_place
  · rw [place_nearest, min_eq_left (place_lt_of_bounded positive bounded).le]
  · exact digits_le num positive
  · rcases Nat.eq_zero_or_pos (excess num den) with short | long
    · exact .inl short
    · exact .inr (binade_le_digits positive long)

theorem abs_digits_sub_le (num : Nat) {den : Nat} (positive : 0 < den) :
    |(digits num den * 2 ^ excess num den : ℚ) - num / den| ≤ 2 ^ excess num den / 2 := by
  have scale_pos : (0 : ℚ) < 2 ^ excess num den := by positivity
  have near :=
    abs_roundHalfEven_sub_le num (Nat.mul_pos positive (Nat.two_pow_pos (excess num den)))
  have scaled := mul_le_mul_of_nonneg_right near scale_pos.le
  rw [← abs_of_pos scale_pos, ← abs_mul, abs_of_pos scale_pos, sub_mul] at scaled
  push_cast at scaled
  rwa [← div_div, div_mul_cancel₀ _ scale_pos.ne', one_div_mul_eq_div] at scaled

/-- The magnitude nearest to a rational, zero if that is negative. -/
def round (q : ℚ) : Magnitude := nearest (q.num.toNat * oneUnits) q.den

theorem nearest_mul_oneUnits (num : Nat) {den : Nat} (positive : 0 < den) :
    nearest (num * oneUnits) den = round (num / den) := by
  have nonneg : (0 : ℚ) ≤ num / den := by positivity
  have num_nonneg := Int.toNat_of_nonneg (Rat.num_nonneg.mpr nonneg)
  have cross : (num : ℚ) * ((num / den : ℚ).den : ℚ) = ((num / den : ℚ).num : ℚ) * den := by
    rw [← div_eq_div_iff (Nat.cast_ne_zero.mpr (Nat.ne_of_gt positive))
      (Nat.cast_ne_zero.mpr (Rat.den_nz _)), Rat.num_div_den]
  rw [← num_nonneg] at cross
  apply nearest_congr positive (Rat.den_pos _)
  rw [Nat.mul_right_comm, Nat.mul_right_comm _ oneUnits]
  exact congrArg (· * oneUnits) (by exact_mod_cast cross)

theorem round_place_mono {p q : ℚ} (le : p ≤ q) : (round p).place ≤ (round q).place := by
  apply place_nearest_mono p.den_pos q.den_pos
  rcases le_or_gt p 0 with negative | positive
  · simp [Int.toNat_of_nonpos (Rat.num_nonpos.mpr negative)]
  have p_num := Int.toNat_of_nonneg (Rat.num_nonneg.mpr positive.le)
  have q_num := Int.toNat_of_nonneg (Rat.num_nonneg.mpr (positive.le.trans le))
  have cross : p.num * q.den ≤ q.num * p.den := (Rat.le_iff ..).mp le
  rw [← p_num, ← q_num] at cross
  rw [Nat.mul_right_comm, Nat.mul_right_comm _ oneUnits]
  exact Nat.mul_le_mul_right _ (by exact_mod_cast cross)

theorem excess_units (m : Magnitude) : excess m.units 1 = m.exponent := by
  have below := m.significand_lt
  rcases Nat.eq_zero_or_pos m.exponent with low | raised
  · have short : (m.units / 1).log2 < 53 := by
      apply log2_div_lt Nat.one_pos (by decide)
      rw [units, low, pow_zero, Nat.mul_one, Nat.mul_one, ← two_mul_binade]
      exact below
    rw [excess]
    omega
  · have leading := binade_le_significand raised
    have nonzero : m.units ≠ 0 := by
      rw [Ne, units_eq_zero, ← significand_eq_zero]
      have := binade_pos
      omega
    have log_eq : m.units.log2 = 52 + m.exponent := by
      rw [Nat.log2_eq_iff nonzero, units, Nat.pow_succ', Nat.pow_add, ← Nat.mul_assoc]
      exact ⟨Nat.mul_le_mul_right _ leading,
        (Nat.mul_lt_mul_right (Nat.two_pow_pos _)).mpr below⟩
    rw [excess, Nat.div_one, log_eq, Nat.add_sub_cancel_left]

theorem nearest_units (m : Magnitude) : nearest m.units 1 = m := by
  have kept : digits m.units 1 = m.significand := by
    rw [digits, excess_units, Nat.one_mul, units]
    exact roundHalfEven_mul _ (Nat.two_pow_pos _)
  apply Magnitude.ext
  rw [place_nearest, excess_units, kept, ← place_eq]
  exact min_eq_left m.place_le

/-- Rounding keeps every magnitude, infinity with the value it reads as. -/
theorem round_value (m : Magnitude) : round m.value = m := by
  have scaled := nearest_mul_mul m.units 1 oneUnits_pos
  rw [Nat.one_mul, nearest_mul_oneUnits _ oneUnits_pos, nearest_units] at scaled
  exact scaled

section Product

variable {a b : Magnitude} {n : Nat}

theorem place_round_mul_mono {m : Nat} (le : a.place ≤ b.place) (factor_le : m ≤ n) :
    (round (a.value * m)).place ≤ (round (b.value * n)).place :=
  round_place_mono (mul_le_mul (value_le_value.mpr le) (Nat.cast_le.mpr factor_le)
    (Nat.cast_nonneg m) b.value_nonneg)

/-- No product with a positive natural is rounded below its first factor. -/
theorem le_place_round_mul (positive : 0 < n) (a : Magnitude) :
    a.place ≤ (round (a.value * n)).place := by
  have scaled := place_round_mul_mono (m := 1) (le_refl a.place) positive
  rwa [Nat.cast_one, mul_one, round_value] at scaled

theorem place_round_mul_eq_zero (zero : a.place = 0) (n : Nat) :
    (round (a.value * n)).place = 0 := by
  have value_zero : a.value = 0 := value_eq_zero.mpr zero
  rw [value_zero, zero_mul, ← value_zero, round_value, zero]

end Product

theorem toNat_num_div_den {q : ℚ} (nonneg : 0 ≤ q) : (q.num.toNat / q.den : ℚ) = q := by
  have num_eq : (q.num.toNat : ℚ) = q.num := by
    exact_mod_cast Int.toNat_of_nonneg (Rat.num_nonneg.mpr nonneg)
  rw [num_eq, Rat.num_div_den]

theorem cast_num_mul_oneUnits {q : ℚ} (nonneg : 0 ≤ q) :
    ((q.num.toNat * oneUnits : Nat) : ℚ) / q.den = q * oneUnits := by
  rw [Nat.cast_mul, mul_div_right_comm, toNat_num_div_den nonneg]

theorem num_mul_oneUnits_lt {q : ℚ} (nonneg : 0 ≤ q) (bounded : q * oneUnits < boundUnits) :
    q.num.toNat * oneUnits < boundUnits * q.den := by
  rw [← cast_num_mul_oneUnits nonneg, div_lt_iff₀ (Nat.cast_pos.mpr q.den_pos)] at bounded
  exact_mod_cast bounded

theorem round_finite {q : ℚ} (nonneg : 0 ≤ q) (bounded : q * oneUnits < boundUnits) :
    ¬ (round q).IsInfinite := by
  have below := place_lt_of_bounded q.den_pos (num_mul_oneUnits_lt nonneg bounded)
  rw [IsInfinite, round, place_nearest, min_eq_left below.le]
  exact Nat.ne_of_lt below

/-- The range in which rounding keeps all digits of a significand and stays finite. -/
structure IsNormal (q : ℚ) : Prop where
  least : (binade : ℚ) ≤ q * oneUnits
  bounded : q * oneUnits < boundUnits

theorem IsNormal.pos {q : ℚ} (normal : IsNormal q) : 0 < q := by
  have least_pos : (0 : ℚ) < binade := Nat.cast_pos.mpr binade_pos
  exact (mul_pos_iff_of_pos_right cast_oneUnits_pos).mp (least_pos.trans_le normal.least)

theorem value_round {q : ℚ} (nonneg : 0 ≤ q) (bounded : q * oneUnits < boundUnits) :
    (round q).value = (digits (q.num.toNat * oneUnits) q.den *
      2 ^ excess (q.num.toNat * oneUnits) q.den : ℚ) / oneUnits := by
  rw [value, round, units_nearest q.den_pos (num_mul_oneUnits_lt nonneg bounded)]
  push_cast
  rfl

/-- In the normal range the relative error is at most 2^-53. -/
theorem abs_value_round_sub_le {q : ℚ} (normal : IsNormal q) :
    |(round q).value - q| ≤ q / 2 ^ 53 := by
  have nonneg := normal.pos.le
  have near := abs_digits_sub_le (q.num.toNat * oneUnits) q.den_pos
  have coarse : (2 ^ 52 * 2 ^ excess (q.num.toNat * oneUnits) q.den : ℚ) ≤ q * oneUnits := by
    rcases Nat.eq_zero_or_pos (excess (q.num.toNat * oneUnits) q.den) with short | long
    · rw [short, pow_zero, mul_one]
      exact_mod_cast normal.least
    · have leading := two_pow_excess_le q.den_pos long
      rw [← cast_num_mul_oneUnits nonneg, le_div_iff₀ (Nat.cast_pos.mpr q.den_pos),
        mul_assoc, mul_comm _ (q.den : ℚ)]
      rw [binade] at leading
      exact_mod_cast leading
  rw [value_round nonneg normal.bounded]
  rw [cast_num_mul_oneUnits nonneg] at near
  generalize excess (q.num.toNat * oneUnits) q.den = shift at near coarse ⊢
  generalize digits (q.num.toNat * oneUnits) q.den = kept at near ⊢
  have in_units : (kept * 2 ^ shift : ℚ) / oneUnits - q =
      (kept * 2 ^ shift - q * oneUnits) / oneUnits := by
    rw [sub_div, mul_div_cancel_right₀ _ cast_oneUnits_pos.ne']
  rw [in_units, abs_div, abs_of_pos cast_oneUnits_pos, div_le_iff₀ cast_oneUnits_pos]
  calc |(kept * 2 ^ shift : ℚ) - q * oneUnits| ≤ 2 ^ shift / 2 := near
    _ ≤ q / 2 ^ 53 * oneUnits := by linarith

/-- A quotient whose digits fit a significand is kept, however long its multiple of the unit. -/
theorem digits_mul_two_pow_excess {k e den : Nat} (positive : 0 < den) (small : k < 2 ^ 53) :
    digits (k * 2 ^ e * den) den * 2 ^ excess (k * 2 ^ e * den) den = k * 2 ^ e := by
  have log_lt : (k * 2 ^ e * den / den).log2 < 53 + e := by
    apply log2_div_lt positive (by omega)
    rw [Nat.pow_add]
    exact (Nat.mul_lt_mul_right positive).mpr
      ((Nat.mul_lt_mul_right (Nat.two_pow_pos e)).mpr small)
  have excess_le : excess (k * 2 ^ e * den) den ≤ e := by
    rw [excess]
    omega
  rw [digits]
  generalize excess (k * 2 ^ e * den) den = shift at excess_le ⊢
  obtain ⟨rest, rfl⟩ := Nat.exists_eq_add_of_le excess_le
  rw [show k * 2 ^ (shift + rest) * den = k * 2 ^ rest * (den * 2 ^ shift) by ring,
    roundHalfEven_mul _ (Nat.mul_pos positive (Nat.two_pow_pos shift))]
  ring

theorem mul_two_pow_lt_boundUnits {k e : Nat} (small : k < 2 ^ 53) (e_le : e ≤ 2044) :
    k * 2 ^ e < boundUnits := by
  have scaled := (Nat.mul_lt_mul_right (Nat.two_pow_pos e)).mpr small
  rw [← Nat.pow_add] at scaled
  refine Nat.lt_of_lt_of_le scaled ?_
  rw [boundUnits, Nat.pow_le_pow_iff_right Nat.one_lt_two]
  omega

/-- A whole number of units with no more than 53 digits before its zeros is not rounded. -/
theorem value_round_of_units {q : ℚ} {k e : Nat} (small : k < 2 ^ 53) (e_le : e ≤ 2044)
    (in_units : q * oneUnits = (k * 2 ^ e : Nat)) :
    (round q).value = q ∧ ¬ (round q).IsInfinite := by
  have nonneg : 0 ≤ q := by
    rw [← mul_nonneg_iff_of_pos_right cast_oneUnits_pos, in_units]
    positivity
  have bounded : q * oneUnits < boundUnits := by
    rw [in_units, Nat.cast_lt]
    exact mul_two_pow_lt_boundUnits small e_le
  have num_eq : q.num.toNat * oneUnits = k * 2 ^ e * q.den := by
    have quotient := in_units
    rw [← cast_num_mul_oneUnits nonneg, div_eq_iff (Nat.cast_ne_zero.mpr q.den_nz)] at quotient
    exact_mod_cast quotient
  refine ⟨?_, round_finite nonneg bounded⟩
  have kept := digits_mul_two_pow_excess (e := e) q.den_pos small
  rw [value_round nonneg bounded, num_eq, div_eq_iff cast_oneUnits_pos.ne', in_units]
  exact_mod_cast kept

theorem oneUnits_eq {a : Nat} (a_le : a ≤ 1074) : oneUnits = 2 ^ a * 2 ^ (1074 - a) := by
  rw [oneUnits, ← Nat.pow_add, Nat.add_sub_cancel' a_le]

/-- Rationals that are a natural below 2^53 times a power of two are not rounded. -/
theorem value_round_of_dyadic {q : ℚ} {k a b : Nat} (small : k < 2 ^ 53) (a_le : a ≤ 1074)
    (b_le : b ≤ 970) (dyadic : q * 2 ^ a = k * 2 ^ b) :
    (round q).value = q ∧ ¬ (round q).IsInfinite := by
  apply value_round_of_units (e := b + (1074 - a)) small (by omega)
  rw [oneUnits_eq a_le]
  push_cast
  rw [← mul_assoc, dyadic, pow_add, mul_assoc]

theorem two_pow_le_oneUnits {a : Nat} (a_le : a ≤ 1074) : 2 ^ a ≤ oneUnits := by
  rw [oneUnits_eq a_le]
  exact Nat.le_mul_of_pos_right _ (Nat.two_pow_pos _)

theorem two_pow_mul_oneUnits_lt {a : Nat} (a_le : a ≤ 970) : 2 ^ a * oneUnits < boundUnits := by
  have lt := mul_two_pow_lt_boundUnits (k := 1) (e := a + 1074) (by decide) (by omega)
  rwa [Nat.one_mul, Nat.pow_add] at lt

theorem isNormal_of_bounds {q : ℚ} (least : 1 ≤ q * 2 ^ 64) (greatest : q ≤ 2 ^ 64) :
    IsNormal q := by
  have binade_le : (binade * 2 ^ 64 : ℚ) ≤ oneUnits := by
    have le := two_pow_le_oneUnits (a := 52 + 64) (by decide)
    rw [Nat.pow_add] at le
    exact_mod_cast le
  have lt_bound : (2 ^ 64 * oneUnits : ℚ) < boundUnits := by
    exact_mod_cast two_pow_mul_oneUnits_lt (a := 64) (by decide)
  constructor
  · calc (binade : ℚ) ≤ binade * (q * 2 ^ 64) := le_mul_of_one_le_right (Nat.cast_nonneg _) least
      _ = q * (binade * 2 ^ 64) := by ring
      _ ≤ q * oneUnits := by
        apply mul_le_mul_of_nonneg_left binade_le
        linarith
  · exact (mul_le_mul_of_nonneg_right greatest cast_oneUnits_pos.le).trans_lt lt_bound

/-- Rounding tells apart what is further apart than its errors. -/
theorem round_place_lt {p q : ℚ} (p_normal : IsNormal p) (q_normal : IsNormal q)
    (gap : p * (2 ^ 53 + 1) < q * (2 ^ 53 - 1)) : (round p).place < (round q).place := by
  have above := (abs_le.mp (abs_value_round_sub_le p_normal)).2
  have below := (abs_le.mp (abs_value_round_sub_le q_normal)).1
  rw [← value_lt_value]
  linarith

section Scaling

variable {num den : Nat} (positive : 0 < den) (least : binade * den ≤ num) (s : Nat)
include positive least

theorem excess_mul_two_pow : excess (num * 2 ^ s) den = excess num den + s := by
  have one_le : den ≤ num := le_trans (Nat.le_mul_of_pos_left den binade_pos) least
  have quotient_ge : binade ≤ num / den := (Nat.le_div_iff_mul_le positive).mpr least
  have log_ge : 52 ≤ (num / den).log2 :=
    (Nat.le_log2 (Nat.ne_of_gt (binade_pos.trans_le quotient_ge))).mpr quotient_ge
  rw [excess, excess, log2_mul_two_pow_div positive one_le]
  omega

/-- The digits stay, and their weight is scaled. -/
theorem units_nearest_mul_two_pow (bounded : num * 2 ^ s < boundUnits * den) :
    (nearest (num * 2 ^ s) den).units = (nearest num den).units * 2 ^ s := by
  have unscaled_bounded : num < boundUnits * den :=
    (Nat.le_mul_of_pos_right num (Nat.two_pow_pos s)).trans_lt bounded
  have digits_eq : digits (num * 2 ^ s) den = digits num den := by
    rw [digits, excess_mul_two_pow positive least, Nat.pow_add, ← Nat.mul_assoc,
      roundHalfEven_mul_mul _ _ (Nat.two_pow_pos s), digits]
  rw [units_nearest positive bounded, units_nearest positive unscaled_bounded, digits_eq,
    excess_mul_two_pow positive least, Nat.pow_add, Nat.mul_assoc]

end Scaling

/-- A power of two passes through rounding, within the normal range. -/
theorem value_round_mul_two_pow {q : ℚ} {s : Nat} (normal : IsNormal q)
    (scaled : IsNormal (q * 2 ^ s)) : (round (q * 2 ^ s)).value = (round q).value * 2 ^ s := by
  have den_pos : (0 : ℚ) < q.den := Nat.cast_pos.mpr q.den_pos
  have nonneg := normal.pos.le
  have in_units := cast_num_mul_oneUnits nonneg
  have scaled_eq : q * 2 ^ s = (q.num.toNat * 2 ^ s : Nat) / q.den := by
    rw [Nat.cast_mul, mul_div_right_comm, toNat_num_div_den nonneg]
    push_cast
    rfl
  have least : binade * q.den ≤ q.num.toNat * oneUnits := by
    have least := normal.least
    rw [← in_units, le_div_iff₀ den_pos] at least
    exact_mod_cast least
  have bounded : q.num.toNat * oneUnits * 2 ^ s < boundUnits * q.den := by
    have bounded := scaled.bounded
    rw [mul_right_comm, ← in_units, div_mul_eq_mul_div, div_lt_iff₀ den_pos] at bounded
    exact_mod_cast bounded
  have units_eq := units_nearest_mul_two_pow q.den_pos least s bounded
  rw [scaled_eq, ← nearest_mul_oneUnits _ q.den_pos, Nat.mul_right_comm, value, units_eq, value,
    round]
  push_cast
  ring

end Magnitude

end ClockTree
