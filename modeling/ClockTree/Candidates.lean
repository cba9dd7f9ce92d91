import ClockTree.Limits

/-! The candidates of a search: every multiplier in range with every pair of dividers,
multiplier outermost. `Limits.candidates` lists them, but a range may hold billions.
`Limits.candidate?` finds one by its position alone, so that `Limits.page` never forms the
list, and `Limits.foldMultipliers` visits the multipliers one at a time and stops at the
first error. -/
namespace ClockTree

/-- Blocks of one length are found by division of the position. -/
theorem getElem?_flatMap_of_length {α β : Type} {f : α → List β} {size : Nat} (positive : 0 < size)
    (length_eq : ∀ a, (f a).length = size) (xs : List α) (k : Nat) :
    (xs.flatMap f)[k]? = xs[k / size]?.bind fun a => (f a)[k % size]? := by
  induction xs generalizing k with
  | nil => simp
  | cons a xs ih =>
    rw [List.flatMap_cons, List.getElem?_append, length_eq]
    by_cases h : k < size
    · rw [if_pos h, Nat.div_eq_of_lt h, Nat.mod_eq_of_lt h]
      rfl
    · have le : size ≤ k := Nat.le_of_not_lt h
      rw [if_neg h, ih, Nat.div_eq_sub_div positive le, Nat.mod_eq_sub_mod le]
      rfl

/-- Looking up consecutive positions cuts out a stretch of the list. -/
theorem filterMap_getElem?_range' {α : Type} (xs : List α) (skip count : Nat) :
    (List.range' skip count).filterMap (xs[·]?) = (xs.drop skip).take count := by
  induction count generalizing skip with
  | zero => simp
  | succ count ih =>
    rw [List.range'_succ, List.filterMap_cons, ih]
    by_cases h : skip < xs.length
    · rw [List.getElem?_eq_getElem h, List.drop_eq_getElem_cons h, List.take_succ_cons]
    · have le : xs.length ≤ skip := Nat.le_of_not_lt h
      simp [List.getElem?_eq_none le, List.drop_eq_nil_of_le le,
        List.drop_eq_nil_of_le (Nat.le_succ_of_le le)]

namespace Limits

def multiplierCount (l : Limits) : Nat := l.pllMulMax.toNat + 1 - l.pllMulMin.toNat

def multipliers (l : Limits) : List UInt32 :=
  (List.range' l.pllMulMin.toNat l.multiplierCount).map UInt32.ofNat

def candidatesAt (l : Limits) (pllMul : UInt32) : List Config :=
  l.dividers.flatMap fun cpuDiv => l.dividers.map fun ramDiv => ⟨pllMul, cpuDiv, ramDiv⟩

def candidates (l : Limits) : List Config := l.multipliers.flatMap l.candidatesAt

def pairCount (l : Limits) : Nat := l.dividers.length * l.dividers.length

def candidateCount (l : Limits) : Nat := l.multiplierCount * l.pairCount

def searchSpaceSize (l : Limits) : Except Fault Nat :=
  if l.candidateCount < UInt64.size then .ok l.candidateCount else .error .searchSpaceOverflow

@[simp] theorem length_multipliers (l : Limits) : l.multipliers.length = l.multiplierCount := by
  simp [multipliers]

@[simp] theorem length_candidatesAt (l : Limits) (pllMul : UInt32) :
    (l.candidatesAt pllMul).length = l.pairCount := by
  simp only [candidatesAt, pairCount, List.length_flatMap, List.length_map, List.map_const',
    List.sum_replicate_nat]

@[simp] theorem length_candidates (l : Limits) : l.candidates.length = l.candidateCount := by
  simp only [candidates, candidateCount, List.length_flatMap, length_candidatesAt,
    length_multipliers, List.map_const', List.sum_replicate_nat]

theorem pllMul_of_mem_candidatesAt {l : Limits} {pllMul : UInt32} {f : Config}
    (mem : f ∈ l.candidatesAt pllMul) : f.pllMul = pllMul := by
  obtain ⟨cpuDiv, _, mem⟩ := List.mem_flatMap.mp mem
  obtain ⟨ramDiv, _, rfl⟩ := List.mem_map.mp mem
  rfl

/-- The candidate at a position, the dividers being its low digits to the base of their
number. -/
def candidate? (l : Limits) (k : Nat) : Option Config :=
  if k / l.pairCount < l.multiplierCount then
    match l.dividers[k / l.dividers.length % l.dividers.length]?,
        l.dividers[k % l.dividers.length]? with
    | some cpuDiv, some ramDiv =>
      some ⟨.ofNat (l.pllMulMin.toNat + k / l.pairCount), cpuDiv, ramDiv⟩
    | _, _ => none
  else none

theorem getElem?_multipliers (l : Limits) (i : Nat) :
    l.multipliers[i]? =
      if i < l.multiplierCount then some (.ofNat (l.pllMulMin.toNat + i)) else none := by
  by_cases h : i < l.multiplierCount
  · rw [multipliers, List.getElem?_map, List.getElem?_range' h, if_pos h]
    simp
  · rw [if_neg h, List.getElem?_eq_none]
    simpa using Nat.le_of_not_lt h

theorem getElem?_candidatesAt (l : Limits) (pllMul : UInt32) (i : Nat) (h : l.dividers ≠ []) :
    (l.candidatesAt pllMul)[i]? =
      l.dividers[i / l.dividers.length]?.bind fun cpuDiv =>
        l.dividers[i % l.dividers.length]?.map fun ramDiv => ⟨pllMul, cpuDiv, ramDiv⟩ := by
  rw [candidatesAt, getElem?_flatMap_of_length (List.length_pos_iff.mpr h) (by simp)]
  simp only [List.getElem?_map]

theorem getElem?_candidates (l : Limits) (k : Nat) : l.candidates[k]? = l.candidate? k := by
  by_cases empty : l.dividers = []
  · have none_there : l.candidates = [] := by
      apply List.eq_nil_of_length_eq_zero
      simp [candidateCount, pairCount, empty]
    simp [none_there, candidate?, empty]
  · have positive : 0 < l.pairCount :=
      Nat.mul_pos (List.length_pos_iff.mpr empty) (List.length_pos_iff.mpr empty)
    rw [candidates, getElem?_flatMap_of_length positive l.length_candidatesAt,
      getElem?_multipliers, candidate?]
    by_cases h : k / l.pairCount < l.multiplierCount
    · rw [if_pos h, if_pos h, Option.bind_some, getElem?_candidatesAt l _ _ empty, pairCount,
        Nat.mod_mul_right_div_self, Nat.mod_mul_left_mod]
      cases l.dividers[k / l.dividers.length % l.dividers.length]? <;>
        cases l.dividers[k % l.dividers.length]? <;> rfl
    · rw [if_neg h, if_neg h]
      rfl

def page (l : Limits) (skip take : Nat) : List Config :=
  (List.range' skip (min take (l.candidateCount - skip))).filterMap l.candidate?

theorem page_eq (l : Limits) (skip take : Nat) :
    l.page skip take = (l.candidates.drop skip).take take := by
  have look_up : l.candidate? = (l.candidates[·]?) := funext fun k => (l.getElem?_candidates k).symm
  rw [page, look_up, filterMap_getElem?_range', List.take_eq_take_iff, List.length_drop,
    length_candidates]
  omega

variable {ε σ : Type}

def foldFrom (step : σ → UInt32 → Except ε σ) : (count pllMul : Nat) → σ → Except ε σ
  | 0, _, state => .ok state
  | count + 1, pllMul, state =>
    match step state (.ofNat pllMul) with
    | .error e => .error e
    | .ok next => foldFrom step count (pllMul + 1) next

def foldMultipliers (l : Limits) (step : σ → UInt32 → Except ε σ) (state : σ) : Except ε σ :=
  foldFrom step l.multiplierCount l.pllMulMin.toNat state

theorem foldFrom_eq (step : σ → UInt32 → Except ε σ) (count pllMul : Nat) (state : σ) :
    foldFrom step count pllMul state =
      ((List.range' pllMul count).map UInt32.ofNat).foldlM step state := by
  induction count generalizing pllMul state with
  | zero => rfl
  | succ count ih =>
    rw [foldFrom, List.range'_succ, List.map_cons, List.foldlM_cons]
    cases step state (.ofNat pllMul) with
    | error e => rfl
    | ok next => exact ih _ next

theorem foldMultipliers_eq (l : Limits) (step : σ → UInt32 → Except ε σ) (state : σ) :
    l.foldMultipliers step state = l.multipliers.foldlM step state :=
  foldFrom_eq step _ _ state

end Limits

end ClockTree
