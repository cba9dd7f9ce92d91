import ClockTree.Proofs.Binary64.Order
import ClockTree.Proofs.Enumeration

/-! Narrowing a table. Tighter ranges, ceilings and ratios and fewer dividers at the end of the
table leave every other rule as it was: the search for the lowest usable divider meets the same
first match, as long as the divider in question is still in the table. So a narrowed table
enumerates what it does not exclude of the wider one, in the same order. -/
namespace ClockTree

/-- In a longer list the first match is the same, if it was to be found in the shorter one. -/
theorem find?_eq_some_iff_of_isPrefix {α : Type} {test : α → Bool} {xs ys : List α} {a : α}
    (shorter : xs <+: ys) (mem : a ∈ xs) : xs.find? test = some a ↔ ys.find? test = some a := by
  obtain ⟨rest, rfl⟩ := shorter
  rw [List.find?_append]
  constructor
  · intro found
    rw [found, Option.some_or]
  · intro found
    cases first : xs.find? test with
    | some b => rwa [first, Option.some_or] at found
    | none =>
      rw [first, Option.none_or] at found
      exact absurd (List.find?_some found) (List.find?_eq_none.mp first a mem)

namespace Limits

structure Narrows (l wide : Limits) : Prop where
  rest : l = { wide with
    dividers := l.dividers, pllMulMin := l.pllMulMin, pllMulMax := l.pllMulMax,
    cpuMaxMhz := l.cpuMaxMhz, ramMaxMhz := l.ramMaxMhz, maxDividerRatio := l.maxDividerRatio }
  pllMulMin_le : wide.pllMulMin ≤ l.pllMulMin
  pllMulMax_le : l.pllMulMax ≤ wide.pllMulMax
  cpuMax_le : l.cpuMaxMhz ≤ wide.cpuMaxMhz
  ramMax_le : l.ramMaxMhz ≤ wide.ramMaxMhz
  ratio_le : l.maxDividerRatio ≤ wide.maxDividerRatio
  dividers : l.dividers <+: wide.dividers

def Excludes (l : Limits) (f : Config) : Prop :=
  ¬ (l.pllMulMin ≤ f.pllMul ∧ f.pllMul ≤ l.pllMulMax) ∨
    f.cpuDiv ∉ l.dividers ∨ f.ramDiv ∉ l.dividers ∨
    l.cpuMaxMhz < f.cpu ∨ l.ramMaxMhz < f.ram ∨ l.maxDividerRatio ≤ f.ramDiv / f.cpuDiv

instance (l : Limits) (f : Config) : Decidable (l.Excludes f) :=
  inferInstanceAs (Decidable (_ ∨ _))

namespace Narrows

variable {l wide : Limits} (narrows : l.Narrows wide)
include narrows

theorem inPllBand_iff (mhz : Binary64) : l.InPllBand mhz ↔ wide.InPllBand mhz := by
  have least : l.pllMinMhz = wide.pllMinMhz := by rw [narrows.rest]
  have greatest : l.pllMaxMhz = wide.pllMaxMhz := by rw [narrows.rest]
  rw [InPllBand, InPllBand, least, greatest]

theorem lowestUsableDivider?_iff {cpu : Binary64} {d : UInt32} (mem : d ∈ l.dividers) :
    l.lowestUsableDivider? cpu = some d ↔ wide.lowestUsableDivider? cpu = some d := by
  have same_test : (fun i : UInt32 => decide (l.InPllBand (cpu * .ofNat i.toNat))) =
      fun i => decide (wide.InPllBand (cpu * .ofNat i.toNat)) := by
    funext i
    rw [decide_eq_decide]
    exact narrows.inPllBand_iff _
  rw [lowestUsableDivider?, lowestUsableDivider?, same_test]
  exact find?_eq_some_iff_of_isPrefix narrows.dividers mem

theorem cpuDividerSuits_iff {f : Config} (mem : f.cpuDiv ∈ l.dividers) :
    l.CpuDividerSuits f ↔ wide.CpuDividerSuits f := by
  have fast : l.fastCpuMhz = wide.fastCpuMhz := by rw [narrows.rest]
  have coupled : l.coupledCpuDiv = wide.coupledCpuDiv := by rw [narrows.rest]
  have decoupled : l.decoupledCpuDiv = wide.decoupledCpuDiv := by rw [narrows.rest]
  rw [CpuDividerSuits, CpuDividerSuits, fast, coupled, decoupled]
  split
  · exact Iff.rfl
  · exact narrows.lowestUsableDivider?_iff mem

/-- Among its own dividers a narrowed table permits what the wider one permits within the
tighter bounds. -/
theorem legal_iff {f : Config} (mem : f.cpuDiv ∈ l.dividers) :
    l.Legal f ↔ wide.Legal f ∧ ¬ l.cpuMaxMhz < f.cpu ∧ ¬ l.ramMaxMhz < f.ram ∧
      f.ramDiv / f.cpuDiv < l.maxDividerRatio := by
  constructor
  · intro legal
    refine ⟨⟨legal.pllFits, ?_, ?_, (narrows.inPllBand_iff _).mp legal.inBand, legal.cpuDiv_ne,
      ⟨legal.dividers.1, UInt32.lt_of_lt_of_le legal.dividers.2 narrows.ratio_le⟩,
      (narrows.cpuDividerSuits_iff mem).mp legal.suits⟩, legal.cpu_le, legal.ram_le,
      legal.dividers.2⟩
    · exact fun above => legal.cpu_le (Binary64.lt_of_le_of_lt narrows.cpuMax_le above)
    · exact fun above => legal.ram_le (Binary64.lt_of_le_of_lt narrows.ramMax_le above)
  · rintro ⟨legal, cpu_le, ram_le, ratio_lt⟩
    exact ⟨legal.pllFits, cpu_le, ram_le, (narrows.inPllBand_iff _).mpr legal.inBand,
      legal.cpuDiv_ne, ⟨legal.dividers.1, ratio_lt⟩,
      (narrows.cpuDividerSuits_iff mem).mpr legal.suits⟩

theorem inSearchSpace {f : Config} (found : l.InSearchSpace f) : wide.InSearchSpace f :=
  ⟨⟨UInt32.le_trans narrows.pllMulMin_le found.1.1, UInt32.le_trans found.1.2 narrows.pllMulMax_le⟩,
    narrows.dividers.subset found.2.1, narrows.dividers.subset found.2.2⟩

theorem topFits (fits : wide.TopFits) : l.TopFits :=
  Nat.lt_of_le_of_lt
    (Nat.mul_le_mul_left _ (UInt32.le_iff_toNat_le.mp narrows.pllMulMax_le)) fits

theorem mem_ranked_iff {f : Config} :
    f ∈ Config.ranked l.accepted ↔
      f ∈ (Config.ranked wide.accepted).filter fun f => ¬ l.Excludes f := by
  rw [List.mem_filter, mem_ranked_accepted, mem_ranked_accepted, permits_eq_true_iff,
    permits_eq_true_iff, decide_eq_true_iff, Excludes]
  constructor
  · rintro ⟨found, legal⟩
    obtain ⟨wide_legal, cpu_le, ram_le, ratio_lt⟩ := (narrows.legal_iff found.2.1).mp legal
    refine ⟨⟨narrows.inSearchSpace found, wide_legal⟩, ?_⟩
    rintro (outside | absent | absent | above | above | ratio_ge)
    · exact outside found.1
    · exact absent found.2.1
    · exact absent found.2.2
    · exact cpu_le above
    · exact ram_le above
    · exact UInt32.not_le.mpr ratio_lt ratio_ge
  · rintro ⟨⟨_, wide_legal⟩, kept⟩
    simp only [not_or, not_not, UInt32.not_le] at kept
    obtain ⟨range, cpu_mem, ram_mem, cpu_le, ram_le, ratio_lt⟩ := kept
    exact ⟨⟨range, cpu_mem, ram_mem⟩,
      (narrows.legal_iff cpu_mem).mpr ⟨wide_legal, cpu_le, ram_le, ratio_lt⟩⟩

end Narrows

/-- A narrowed table enumerates the rows of the wider one that it does not exclude, in their
order. -/
theorem enumerate_narrowed {l wide : Limits} (narrows : l.Narrows wide)
    (valid : l.validate = .ok ()) (wide_valid : wide.validate = .ok ()) (fits : wide.TopFits) :
    ∃ rows, wide.enumerate = .ok rows ∧
      l.enumerate = .ok (rows.filter fun f => ¬ l.Excludes f) := by
  have valid := validate_eq_ok_iff.mp valid
  have wide_valid := validate_eq_ok_iff.mp wide_valid
  have kept_ranked := wide_valid.ranked_pairwise.filter fun f => decide (¬ l.Excludes f)
  have same_rows : (Config.ranked l.accepted).Perm
      ((Config.ranked wide.accepted).filter fun f => ¬ l.Excludes f) := by
    rw [List.perm_ext_iff_of_nodup valid.ranked_nodup (wide_valid.ranked_nodup.filter _)]
    exact fun f => narrows.mem_ranked_iff
  refine ⟨Config.ranked wide.accepted, wide_valid.enumerate_eq_ok fits, ?_⟩
  rw [valid.enumerate_eq_ok (narrows.topFits fits),
    Config.eq_of_perm_of_rankedBefore same_rows valid.ranked_pairwise kept_ranked]

theorem enumerate_narrowed_standard :
    let l := { standard with
      dividers := [1, 2, 3, 4, 6], pllMulMax := 35, cpuMaxMhz := 400, maxDividerRatio := 4 }
    l.Narrows standard ∧ l.validate = .ok () ∧ standard.validate = .ok () ∧ standard.TopFits ∧
      ∃ rows, standard.enumerate = .ok rows ∧
        l.enumerate = .ok (rows.filter fun f => ¬ l.Excludes f) := by
  intro l
  have narrows : l.Narrows standard :=
    ⟨rfl, by decide, by decide, by decide +kernel, by decide +kernel, by decide,
      ⟨[8, 12, 16, 24, 32], rfl⟩⟩
  have valid : l.validate = .ok () :=
    validate_eq_ok_iff.mpr ⟨by decide, by decide, by decide, by decide, by decide⟩
  have wide_valid := validate_eq_ok_iff.mpr standard_wellFormed
  exact ⟨narrows, valid, wide_valid, standard_topFits,
    enumerate_narrowed narrows valid wide_valid standard_topFits⟩

end Limits

end ClockTree
