import ClockTree.Proofs.Binary64.Order
import ClockTree.Proofs.Clocks
import ClockTree.Proofs.Legality
import ClockTree.Proofs.SearchSpace

/-! The lowest usable divider. The rule takes the first divider that lifts a clock into the PLL
band. In an ascending table that is the least such divider, and the dividers below it leave the
clock short of the band: they cannot overshoot, because a rounded product grows with the divider.
It grows with the clock as well, so a faster clock never needs a greater divider. -/
namespace ClockTree

/-- The first match in an ascending list is the least match. -/
theorem find?_eq_some_iff_least {test : UInt32 → Bool} {xs : List UInt32}
    (ascending : xs.Pairwise (· < ·)) {a : UInt32} :
    xs.find? test = some a ↔ a ∈ xs ∧ test a = true ∧ ∀ b ∈ xs, b < a → ¬ test b = true := by
  induction xs with
  | nil => simp
  | cons x xs ih =>
    obtain ⟨first, rest⟩ := List.pairwise_cons.mp ascending
    by_cases found : test x = true
    · rw [List.find?_cons_of_pos found, Option.some.injEq]
      constructor
      · rintro rfl
        refine ⟨List.mem_cons_self, found, fun b mem lt => ?_⟩
        rcases List.mem_cons.mp mem with rfl | later
        · exact absurd lt (UInt32.lt_irrefl b)
        · exact absurd lt (UInt32.lt_asymm (first b later))
      · rintro ⟨mem, -, least⟩
        rcases List.mem_cons.mp mem with same | later
        · exact same.symm
        · exact absurd found (least x List.mem_cons_self (first a later))
    · rw [List.find?_cons_of_neg found, ih rest]
      constructor
      · rintro ⟨mem, passed, least⟩
        refine ⟨List.mem_cons_of_mem x mem, passed, fun b b_mem lt => ?_⟩
        rcases List.mem_cons.mp b_mem with rfl | later
        · exact found
        · exact least b later lt
      · rintro ⟨mem, passed, least⟩
        rcases List.mem_cons.mp mem with rfl | later
        · exact absurd passed found
        · exact ⟨later, passed, fun b b_mem => least b (List.mem_cons_of_mem x b_mem)⟩

namespace Limits

variable {l : Limits} {cpu : Binary64}

theorem lowestUsableDivider?_eq_some_iff_least (ascending : l.dividers.Pairwise (· < ·))
    {i : UInt32} :
    l.lowestUsableDivider? cpu = some i ↔ i ∈ l.dividers ∧ l.InPllBand (cpu * .ofNat i.toNat) ∧
      ∀ j ∈ l.dividers, j < i → ¬ l.InPllBand (cpu * .ofNat j.toNat) := by
  rw [lowestUsableDivider?, find?_eq_some_iff_least ascending]
  simp only [decide_eq_true_eq]

theorem lowestUsableDivider?_eq_none_iff :
    l.lowestUsableDivider? cpu = none ↔ ∀ i ∈ l.dividers, ¬ l.InPllBand (cpu * .ofNat i.toNat) := by
  simp [lowestUsableDivider?, List.find?_eq_none]

theorem WellFormed.toNat_pos (valid : l.WellFormed) {i : UInt32} (mem : i ∈ l.dividers) :
    0 < i.toNat :=
  toNat_pos_of_ne_zero (valid.ne_zero mem)

/-- A clock scaled by a divider of the table grows with the clock. -/
theorem WellFormed.scaled_le_scaled (valid : l.WellFormed) {i : UInt32} (mem : i ∈ l.dividers)
    {faster : Binary64} (le : cpu ≤ faster) : cpu * .ofNat i.toNat ≤ faster * .ofNat i.toNat :=
  Binary64.mul_ofNat_le_mul_ofNat (valid.toNat_pos mem) (toNat_lt_two_pow i) le

/-- A clock that some divider lifts into the band is no negative number. -/
theorem nonneg_of_inPllBand {i : UInt32} (positive : 0 < i.toNat)
    (inside : l.InPllBand (cpu * .ofNat i.toNat)) : 0 ≤ cpu := by
  have edge_nonneg : (0 : Binary64) ≤ .ofNat l.pllMinMhz.toNat :=
    (Binary64.ofNat_le_ofNat (by decide) (toNat_lt_two_pow _)).mpr (Nat.zero_le _)
  exact Binary64.nonneg_of_mul_ofNat_nonneg positive (toNat_lt_two_pow i)
    (Binary64.le_trans edge_nonneg inside.1)

/-- A divider below a usable one does not overshoot: unless it is usable too, it leaves the clock
short of the band. -/
theorem lt_band_of_lt_usable {i j : UInt32} (j_pos : 0 < j.toNat) (lt : j < i)
    (inside : l.InPllBand (cpu * .ofNat i.toNat)) (outside : ¬ l.InPllBand (cpu * .ofNat j.toNat)) :
    cpu * .ofNat j.toNat < .ofNat l.pllMinMhz.toNat := by
  have toNat_lt := UInt32.lt_iff_toNat_lt.mp lt
  have nonneg := nonneg_of_inPllBand (j_pos.trans toNat_lt) inside
  have grows : cpu * .ofNat j.toNat ≤ cpu * .ofNat i.toNat :=
    Binary64.mul_ofNat_le_of_le (toNat_lt_two_pow i) nonneg j_pos toNat_lt.le
  have below_upper := Binary64.le_trans grows inside.2
  have below_lower : ¬ .ofNat l.pllMinMhz.toNat ≤ cpu * .ofNat j.toNat :=
    fun reaches => outside ⟨reaches, below_upper⟩
  exact (Binary64.not_le_iff_lt (Binary64.ne_nan_of_le inside.1).1
    (Binary64.ne_nan_of_le grows).1).mp below_lower

theorem WellFormed.lowestUsableDivider?_eq_some_iff (valid : l.WellFormed) {i : UInt32} :
    l.lowestUsableDivider? cpu = some i ↔ i ∈ l.dividers ∧ l.InPllBand (cpu * .ofNat i.toNat) ∧
      ∀ j ∈ l.dividers, j < i → cpu * .ofNat j.toNat < .ofNat l.pllMinMhz.toNat := by
  rw [lowestUsableDivider?_eq_some_iff_least valid.ascending]
  constructor
  · rintro ⟨mem, inside, unusable⟩
    exact ⟨mem, inside, fun j j_mem lt =>
      lt_band_of_lt_usable (valid.toNat_pos j_mem) lt inside (unusable j j_mem lt)⟩
  · rintro ⟨mem, inside, short⟩
    exact ⟨mem, inside, fun j j_mem lt usable =>
      Binary64.not_le_of_lt (short j j_mem lt) usable.1⟩

/-- A faster clock takes no greater divider. -/
theorem WellFormed.lowestUsableDivider?_antitone (valid : l.WellFormed) {faster : Binary64}
    {i i' : UInt32} (le : cpu ≤ faster) (found : l.lowestUsableDivider? cpu = some i)
    (found' : l.lowestUsableDivider? faster = some i') : i' ≤ i := by
  obtain ⟨mem, inside, -⟩ := valid.lowestUsableDivider?_eq_some_iff.mp found
  obtain ⟨-, -, short⟩ := valid.lowestUsableDivider?_eq_some_iff.mp found'
  refine UInt32.not_lt.mp fun lt => ?_
  have grows : cpu * .ofNat i.toNat ≤ faster * .ofNat i.toNat := valid.scaled_le_scaled mem le
  exact Binary64.not_le_of_lt (short i mem lt) (Binary64.le_trans inside.1 grows)

/-- In a validated table the rule finds the least divider that lifts a clock into the band, those
below it leaving it strictly short, and finds none only if there is none; and the divider it
finds does not grow with the clock. -/
theorem lowestUsableDivider?_least_and_antitone (valid : l.validate = .ok ()) :
    (∀ cpu i, l.lowestUsableDivider? cpu = some i ↔
      i ∈ l.dividers ∧ l.InPllBand (cpu * .ofNat i.toNat) ∧
        ∀ j ∈ l.dividers, j < i → cpu * .ofNat j.toNat < .ofNat l.pllMinMhz.toNat) ∧
      (∀ cpu, l.lowestUsableDivider? cpu = none ↔
        ∀ i ∈ l.dividers, ¬ l.InPllBand (cpu * .ofNat i.toNat)) ∧
      ∀ cpu cpu' i i', cpu ≤ cpu' → l.lowestUsableDivider? cpu = some i →
        l.lowestUsableDivider? cpu' = some i' → i' ≤ i := by
  have valid := validate_eq_ok_iff.mp valid
  refine ⟨fun _ _ => valid.lowestUsableDivider?_eq_some_iff,
    fun _ => lowestUsableDivider?_eq_none_iff, ?_⟩
  intro cpu cpu' i i' le found found'
  exact valid.lowestUsableDivider?_antitone le found found'

/-- A divider of 4 lifts 27 MHz to 108 MHz, of 2 already 54 MHz, and none in the table 3 MHz. -/
theorem lowestUsableDivider?_least_and_antitone_standard :
    standard.validate = .ok () ∧ (27 : Binary64) ≤ 54 ∧
      standard.lowestUsableDivider? 27 = some 4 ∧ standard.lowestUsableDivider? 54 = some 2 ∧
      (27 * .ofNat 3 : Binary64) < .ofNat 100 ∧ (2 : UInt32) ≤ 4 ∧
      standard.lowestUsableDivider? 3 = none ∧ ¬ standard.InPllBand (3 * .ofNat 32) := by
  have valid := validate_eq_ok_iff.mpr standard_wellFormed
  have slower : (27 : Binary64) ≤ 54 := by decide +kernel
  have four : standard.lowestUsableDivider? 27 = some 4 := by decide +kernel
  have two : standard.lowestUsableDivider? 54 = some 2 := by decide +kernel
  have none_usable : standard.lowestUsableDivider? 3 = none := by decide +kernel
  obtain ⟨least, absent, antitone⟩ := lowestUsableDivider?_least_and_antitone valid
  exact ⟨valid, slower, four, two, ((least 27 4).mp four).2.2 3 (by decide) (by decide),
    antitone 27 54 4 2 slower four two, none_usable, (absent 3).mp none_usable 32 (by decide)⟩

end Limits

end ClockTree
