import ClockTree.Proofs.SearchSpace

/-! What validation reports. The faults a table may have are ranked, and of those it has validation
reports the first. Ascent is checked on neighbours only: up to the first neighbours that descend,
which are the ones reported, every divider is below all later ones, and without such neighbours the
whole list is. -/
namespace ClockTree

section Ascent

structure FirstDescent (dividers : List UInt32) (k : Nat) (previous next : UInt32) : Prop where
  previous_at : dividers[k]? = some previous
  next_at : dividers[k + 1]? = some next
  descends : next ≤ previous
  least : ∀ i < k, ∀ a b : UInt32, dividers[i]? = some a → dividers[i + 1]? = some b → a < b

variable {dividers : List UInt32} {k : Nat} {previous next : UInt32}

theorem getElem?_neighbours (dividers : List UInt32) (i : Nat) (a b : UInt32) :
    (dividers.zip dividers.tail)[i]? = some (a, b) ↔
      dividers[i]? = some a ∧ dividers[i + 1]? = some b := by
  simp [List.getElem?_zip_eq_some]

theorem firstDescent?_eq_some_iff :
    firstDescent? dividers = some (previous, next) ↔ ∃ k, FirstDescent dividers k previous next := by
  rw [firstDescent?, List.find?_eq_some_iff_getElem]
  constructor
  · rintro ⟨descends, k, k_lt, found, before⟩
    have pair := List.getElem?_eq_some_iff.mpr ⟨k_lt, found⟩
    obtain ⟨previous_at, next_at⟩ := (getElem?_neighbours ..).mp pair
    refine ⟨k, previous_at, next_at, by simpa using descends, ?_⟩
    intro i lt a b a_at b_at
    obtain ⟨i_lt, same⟩ := List.getElem?_eq_some_iff.mp ((getElem?_neighbours ..).mpr ⟨a_at, b_at⟩)
    simpa [same] using before i lt
  · rintro ⟨k, first⟩
    have pair := (getElem?_neighbours ..).mpr ⟨first.previous_at, first.next_at⟩
    obtain ⟨k_lt, found⟩ := List.getElem?_eq_some_iff.mp pair
    refine ⟨by simpa using first.descends, k, k_lt, found, ?_⟩
    intro i lt
    obtain ⟨a_at, b_at⟩ :=
      (getElem?_neighbours ..).mp (List.getElem?_eq_getElem (lt.trans k_lt))
    simpa using first.least i lt _ _ a_at b_at

/-- Neighbours that ascend order all that is before the first descent. -/
theorem FirstDescent.ascending (first : FirstDescent dividers k previous next) :
    (dividers.take (k + 1)).Pairwise fun a b => a < b := by
  rw [← List.isChain_iff_pairwise, List.isChain_iff_getElem]
  intro i i_lt
  rw [List.length_take] at i_lt
  simp only [List.getElem_take]
  exact first.least i (by omega) _ _ (List.getElem?_eq_getElem (by omega))
    (List.getElem?_eq_getElem (by omega))

end Ascent

@[simp] def LimitsError.precedence : LimitsError → Nat
  | noDividers => 0
  | zeroDivider => 1
  | unsortedDividers .. => 2
  | emptyMultiplierRange .. => 3
  | invertedPllBand .. => 4

namespace Limits

def HasFault (l : Limits) : LimitsError → Prop
  | .noDividers => l.dividers = []
  | .zeroDivider => 0 ∈ l.dividers
  | .unsortedDividers previous next => ∃ k, FirstDescent l.dividers k previous next
  | .emptyMultiplierRange least greatest =>
    least = l.pllMulMin ∧ greatest = l.pllMulMax ∧ greatest < least
  | .invertedPllBand lower upper => lower = l.pllMinMhz ∧ upper = l.pllMaxMhz ∧ upper < lower

structure HasFirstFault (l : Limits) (error : LimitsError) : Prop where
  fault : l.HasFault error
  first : ∀ other, l.HasFault other → error.precedence ≤ other.precedence

variable {l : Limits} {error : LimitsError}

theorem hasFault_unsortedDividers_iff {previous next : UInt32} :
    l.HasFault (.unsortedDividers previous next) ↔
      firstDescent? l.dividers = some (previous, next) :=
  firstDescent?_eq_some_iff.symm

theorem firstDescent?_eq_none_of_no_fault
    (ascends : ∀ previous next, ¬ l.HasFault (.unsortedDividers previous next)) :
    firstDescent? l.dividers = none := by
  rw [Option.eq_none_iff_forall_ne_some]
  rintro ⟨previous, next⟩ found
  exact ascends previous next (hasFault_unsortedDividers_iff.mpr found)

theorem wellFormed_of_no_fault (faultless : ∀ error, ¬ l.HasFault error) : l.WellFormed where
  dividers_ne := faultless .noDividers
  zero_notMem := faultless .zeroDivider
  ascending := (firstDescent?_eq_none_iff _).mp
    (firstDescent?_eq_none_of_no_fault fun _ _ => faultless _)
  multipliers_le := UInt32.not_lt.mp fun lt => faultless (.emptyMultiplierRange _ _) ⟨rfl, rfl, lt⟩
  band_le := UInt32.not_lt.mp fun lt => faultless (.invertedPllBand _ _) ⟨rfl, rfl, lt⟩

theorem exists_hasFirstFault (invalid : ¬ l.WellFormed) : ∃ error, l.HasFirstFault error := by
  have faulty : ∃ error, l.HasFault error := by
    by_contra faultless
    exact invalid (wellFormed_of_no_fault (not_exists.mp faultless))
  obtain ⟨error, fault, minimal⟩ :=
    (measure LimitsError.precedence).wf.has_min {error | l.HasFault error} faulty
  exact ⟨error, fault, fun other other_fault => Nat.le_of_not_lt (minimal other other_fault)⟩

theorem HasFirstFault.validate_eq (reported : l.HasFirstFault error) :
    l.validate = .error error := by
  have absent : ∀ other, other.precedence < error.precedence → ¬ l.HasFault other :=
    fun other lower fault => Nat.not_le_of_lt lower (reported.first other fault)
  have fault := reported.fault
  cases error with
  | noDividers =>
    exact if_pos fault
  | zeroDivider =>
    have nonempty : l.dividers ≠ [] := absent .noDividers (by simp)
    have zero : 0 ∈ l.dividers := fault
    simp [validate, nonempty, zero]
  | unsortedDividers previous next =>
    have nonempty : l.dividers ≠ [] := absent .noDividers (by simp)
    have nonzero : 0 ∉ l.dividers := absent .zeroDivider (by simp)
    simp [validate, nonempty, nonzero, hasFault_unsortedDividers_iff.mp fault]
  | emptyMultiplierRange least greatest =>
    have nonempty : l.dividers ≠ [] := absent .noDividers (by simp)
    have nonzero : 0 ∉ l.dividers := absent .zeroDivider (by simp)
    have ascends := firstDescent?_eq_none_of_no_fault fun _ _ => absent _ (by simp)
    obtain ⟨rfl, rfl, inverted⟩ := fault
    simp [validate, nonempty, nonzero, ascends, inverted]
  | invertedPllBand lower upper =>
    have nonempty : l.dividers ≠ [] := absent .noDividers (by simp)
    have nonzero : 0 ∉ l.dividers := absent .zeroDivider (by simp)
    have ascends := firstDescent?_eq_none_of_no_fault fun _ _ => absent _ (by simp)
    have range : ¬ l.pllMulMax < l.pllMulMin :=
      fun lt => absent (.emptyMultiplierRange _ _) (by simp) ⟨rfl, rfl, lt⟩
    obtain ⟨rfl, rfl, inverted⟩ := fault
    simp [validate, nonempty, nonzero, ascends, range, inverted]

theorem validate_eq_error_iff : l.validate = .error error ↔ l.HasFirstFault error := by
  refine ⟨fun failed => ?_, HasFirstFault.validate_eq⟩
  by_cases valid : l.WellFormed
  · rw [validate_eq_ok_iff.mpr valid] at failed
    cases failed
  · obtain ⟨first, reported⟩ := exists_hasFirstFault valid
    rw [reported.validate_eq] at failed
    cases failed
    exact reported

/-- A table is valid exactly if its dividers are there, nonzero and ascending from every position to
every later one, and neither range is inverted. Otherwise the error is its first fault; dividers out
of order are the first neighbours that do not ascend, up to which the list ascends throughout. -/
theorem validate_reports_first_fault (l : Limits) :
    (l.validate = .ok () ↔ l.dividers ≠ [] ∧ 0 ∉ l.dividers ∧
      (∀ (i j : Nat) a b, i < j → l.dividers[i]? = some a → l.dividers[j]? = some b → a < b) ∧
      l.pllMulMin ≤ l.pllMulMax ∧ l.pllMinMhz ≤ l.pllMaxMhz) ∧
    (∀ error, l.validate = .error error ↔ l.HasFirstFault error) ∧
    (∀ previous next, l.validate = .error (.unsortedDividers previous next) →
      ∃ k, FirstDescent l.dividers k previous next ∧
        (l.dividers.take (k + 1)).Pairwise fun a b => a < b) := by
  refine ⟨?valid, fun error => validate_eq_error_iff, ?unsorted⟩
  case valid =>
    rw [validate_eq_ok_iff, ← pairwise_iff_getElem?]
    constructor
    · intro valid
      exact ⟨valid.dividers_ne, valid.zero_notMem, valid.ascending, valid.multipliers_le,
        valid.band_le⟩
    · rintro ⟨nonempty, nonzero, ascending, range, band⟩
      exact ⟨nonempty, nonzero, ascending, range, band⟩
  case unsorted =>
    intro previous next failed
    obtain ⟨k, first⟩ := (validate_eq_error_iff.mp failed).fault
    exact ⟨k, first, first.ascending⟩

/-- Two descents, an empty range and an inverted band: the first descent is reported. -/
theorem validate_reports_first_fault_of_many :
    let l := { standard with dividers := [1, 4, 2, 2], pllMulMin := 40, pllMinMhz := 600 }
    l.validate = .error (.unsortedDividers 4 2) ∧ l.HasFirstFault (.unsortedDividers 4 2) ∧
      l.HasFault (.emptyMultiplierRange 40 39) ∧ l.HasFault (.invertedPllBand 600 500) ∧
      ∃ k, FirstDescent l.dividers k 4 2 ∧
        (l.dividers.take (k + 1)).Pairwise fun a b => a < b := by
  intro l
  obtain ⟨-, error_iff, unsorted⟩ := validate_reports_first_fault l
  have failed : l.validate = .error (.unsortedDividers 4 2) := by decide
  exact ⟨failed, (error_iff _).mp failed, ⟨rfl, rfl, by decide⟩, ⟨rfl, rfl, by decide⟩,
    unsorted 4 2 failed⟩

end Limits

end ClockTree
