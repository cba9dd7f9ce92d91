import ClockTree.Proofs.SearchSpace

/-! The candidates by their positions. A position is a number of three digits: to the base of the
number of dividers, the two low ones choose the RAM divider and the CPU divider, and what is above
them is counted from the least multiplier. No table is excepted, validated or not: a range that is
inverted and a list without dividers have no positions, and a range may end at the last word. -/
namespace ClockTree.Limits

variable {l : Limits}

theorem multiplierCount_eq (l : Limits) :
    l.multiplierCount =
      if l.pllMulMin ≤ l.pllMulMax then l.pllMulMax.toNat - l.pllMulMin.toNat + 1 else 0 := by
  rw [multiplierCount]
  split
  next le =>
    have le' := UInt32.le_iff_toNat_le.mp le
    omega
  next inverted =>
    have lt := UInt32.lt_iff_toNat_lt.mp (UInt32.not_le.mp inverted)
    omega

theorem candidateCount_eq (l : Limits) :
    l.candidateCount =
      if l.pllMulMin ≤ l.pllMulMax then
        (l.pllMulMax.toNat - l.pllMulMin.toNat + 1) * l.dividers.length * l.dividers.length
      else 0 := by
  rw [candidateCount, multiplierCount_eq, pairCount]
  split
  · rw [Nat.mul_assoc]
  · rw [Nat.zero_mul]

theorem lt_candidateCount_iff {k : Nat} :
    k < l.candidateCount ↔ l.pllMulMin ≤ l.pllMulMax ∧
      k < (l.pllMulMax.toNat - l.pllMulMin.toNat + 1) * l.dividers.length * l.dividers.length := by
  rw [candidateCount_eq]
  split
  next le => simp [le]
  next inverted => simp [inverted]

/-- The positions of the candidates are those below their number. -/
theorem exists_candidate_iff {k : Nat} :
    (∃ f, l.candidates[k]? = some f) ↔ k < l.candidateCount := by
  simp [List.getElem?_eq_some_iff]

theorem candidate?_eq_some {k : Nat} {f : Config} (found : l.candidate? k = some f) :
    f.pllMul.toNat = l.pllMulMin.toNat + k / l.dividers.length ^ 2 ∧
      l.dividers[k / l.dividers.length % l.dividers.length]? = some f.cpuDiv ∧
      l.dividers[k % l.dividers.length]? = some f.ramDiv := by
  simp only [candidate?] at found
  split at found
  next inRange =>
    split at found
    next cpuDiv ramDiv cpu_found ram_found =>
      cases found
      -- The multiplier is at most the greatest in range, so it is still a word.
      have word : l.pllMulMin.toNat + k / l.pairCount < UInt32.size :=
        Nat.lt_of_lt_of_le (Nat.lt_sub_iff_add_lt'.mp inRange) l.pllMulMax.toNat_lt
      refine ⟨?_, cpu_found, ram_found⟩
      rw [UInt32.toNat_ofNat_of_lt' word, pairCount, Nat.pow_two]
    next => cases found
  next => cases found

theorem searchSpaceSize_eq_ok_iff :
    l.searchSpaceSize = .ok l.candidates.length ↔ l.candidates.length < UInt64.size := by
  rw [searchSpaceSize, length_candidates]
  split
  next bounded => simp [bounded]
  next unbounded => simp [unbounded]

/-- The candidate at a position is there exactly below the product of the number of multipliers and
the square of the number of dividers, and its integers are the digits of the position. The size of
the search space is the number of candidates wherever that is a 64-bit word. Validated tables
generate their candidates in strictly ascending order. -/
theorem candidates_indexed (l : Limits) :
    (∀ k, (∃ f, l.candidates[k]? = some f) ↔ l.pllMulMin ≤ l.pllMulMax ∧
      k < (l.pllMulMax.toNat - l.pllMulMin.toNat + 1) * l.dividers.length * l.dividers.length) ∧
    (∀ k f, l.candidates[k]? = some f →
      f.pllMul.toNat = l.pllMulMin.toNat + k / l.dividers.length ^ 2 ∧
        l.dividers[k / l.dividers.length % l.dividers.length]? = some f.cpuDiv ∧
        l.dividers[k % l.dividers.length]? = some f.ramDiv) ∧
    (l.candidates.length = if l.pllMulMin ≤ l.pllMulMax then
        (l.pllMulMax.toNat - l.pllMulMin.toNat + 1) * l.dividers.length * l.dividers.length
      else 0) ∧
    (l.searchSpaceSize = .ok l.candidates.length ↔ l.candidates.length < 2 ^ 64) ∧
    (l.pllMulMax < l.pllMulMin ∨ l.dividers = [] → l.candidates = [] ∧ l.searchSpaceSize = .ok 0) ∧
    (l.validate = .ok () → l.candidates.Pairwise Config.GeneratedBefore) := by
  refine ⟨?exists_iff, ?digits, ?count, searchSpaceSize_eq_ok_iff, ?empty, ?ascending⟩
  case exists_iff =>
    intro k
    rw [exists_candidate_iff, lt_candidateCount_iff]
  case digits =>
    intro k f found
    rw [getElem?_candidates] at found
    exact candidate?_eq_some found
  case count =>
    rw [length_candidates, candidateCount_eq]
  case empty =>
    intro nothing
    have count_zero : l.candidateCount = 0 := by
      rw [candidateCount_eq]
      rcases nothing with inverted | no_dividers
      · rw [if_neg (UInt32.not_le.mpr inverted)]
      · simp [no_dividers]
    have none_there : l.candidates.length = 0 := by rw [length_candidates, count_zero]
    refine ⟨List.eq_nil_of_length_eq_zero none_there, ?_⟩
    rw [← none_there, searchSpaceSize_eq_ok_iff, none_there]
    decide
  case ascending =>
    intro valid
    exact candidates_pairwise (validate_eq_ok_iff.mp valid).ascending

/-- A range that ends at the last word, over dividers in no order, is generated to its end. -/
theorem candidates_indexed_at_last_word :
    let l := { standard with dividers := [3, 1], pllMulMin := 4294967294, pllMulMax := 4294967295 }
    (∃ f, l.candidates[6]? = some f ∧ f.pllMul.toNat = 4294967295 ∧ f.cpuDiv = 1 ∧ f.ramDiv = 3) ∧
      (¬ ∃ f, l.candidates[8]? = some f) ∧ l.searchSpaceSize = .ok 8 ∧
      ({ l with dividers := [] } : Limits).searchSpaceSize = .ok 0 ∧
      standard.candidates.Pairwise Config.GeneratedBefore := by
  intro l
  obtain ⟨exists_iff, digits, count, size_iff, -, -⟩ := candidates_indexed l
  obtain ⟨-, -, -, -, empty, -⟩ := candidates_indexed { l with dividers := [] }
  obtain ⟨-, -, -, -, -, ascending⟩ := candidates_indexed standard
  have eight : l.candidates.length = 8 := by
    rw [count]
    decide
  obtain ⟨f, found⟩ := (exists_iff 6).mpr (by decide)
  obtain ⟨multiplier, cpu_found, ram_found⟩ := digits 6 f found
  have last_word : f.pllMul.toNat = 4294967295 := by
    rw [multiplier]
    decide
  have cpu_digit : f.cpuDiv = 1 := Option.some.inj (cpu_found.symm.trans (by decide))
  have ram_digit : f.ramDiv = 3 := Option.some.inj (ram_found.symm.trans (by decide))
  refine ⟨⟨f, found, last_word, cpu_digit, ram_digit⟩, ?_, ?_, (empty (.inr rfl)).2, ascending rfl⟩
  · rw [exists_iff]
    decide
  · rw [← eight, size_iff, eight]
    decide

end ClockTree.Limits
