import ClockTree.Candidates
import Mathlib

/-! The search space of a table. A validated table has positive dividers in strictly ascending
order and ranges that are not inverted; its candidates are then generated in strictly ascending
order of their three integers, and none of them twice. -/
namespace ClockTree

theorem pairwise_iff_getElem? {α : Type} {R : α → α → Prop} {xs : List α} :
    xs.Pairwise R ↔ ∀ (i j : Nat) a b, i < j → xs[i]? = some a → xs[j]? = some b → R a b := by
  rw [List.pairwise_iff_getElem]
  constructor
  · intro ordered i j a b lt a_at b_at
    obtain ⟨i_lt, rfl⟩ := List.getElem?_eq_some_iff.mp a_at
    obtain ⟨j_lt, rfl⟩ := List.getElem?_eq_some_iff.mp b_at
    exact ordered i j i_lt j_lt lt
  · intro ordered i j i_lt j_lt lt
    exact ordered i j _ _ lt (List.getElem?_eq_getElem i_lt) (List.getElem?_eq_getElem j_lt)

theorem firstDescent?_eq_none_iff (dividers : List UInt32) :
    firstDescent? dividers = none ↔ dividers.Pairwise (· < ·) := by
  rw [← List.isChain_iff_pairwise]
  induction dividers with
  | nil => simp [firstDescent?]
  | cons first rest ih =>
    cases rest with
    | nil => simp [firstDescent?]
    | cons second rest =>
      simp only [firstDescent?, List.tail_cons] at ih ⊢
      rw [List.zip_cons_cons, List.find?_cons, List.isChain_cons_cons, ← ih]
      by_cases ascends : first < second
      · simp [ascends, UInt32.not_le.mpr ascends]
      · simp [ascends, UInt32.not_lt.mp ascends]

namespace Limits

/-- What validation establishes about a table. -/
structure WellFormed (l : Limits) : Prop where
  dividers_ne : l.dividers ≠ []
  zero_notMem : 0 ∉ l.dividers
  ascending : l.dividers.Pairwise (· < ·)
  multipliers_le : l.pllMulMin ≤ l.pllMulMax
  band_le : l.pllMinMhz ≤ l.pllMaxMhz

theorem validate_eq_ok_iff {l : Limits} : l.validate = .ok () ↔ l.WellFormed := by
  rw [validate]
  constructor
  · intro valid
    split at valid
    · cases valid
    split at valid
    · cases valid
    split at valid
    · cases valid
    split at valid
    · cases valid
    split at valid
    · cases valid
    next nonempty positive _ ascending range band =>
      exact ⟨nonempty, positive, (firstDescent?_eq_none_iff _).mp ascending,
        UInt32.not_lt.mp range, UInt32.not_lt.mp band⟩
  · intro valid
    rw [if_neg valid.dividers_ne, if_neg valid.zero_notMem,
      (firstDescent?_eq_none_iff _).mpr valid.ascending]
    simp only [if_neg (UInt32.not_lt.mpr valid.multipliers_le),
      if_neg (UInt32.not_lt.mpr valid.band_le)]

theorem standard_wellFormed : standard.WellFormed :=
  ⟨by decide, by decide, by decide, by decide, by decide⟩

theorem WellFormed.ne_zero {l : Limits} (valid : l.WellFormed) {d : UInt32}
    (mem : d ∈ l.dividers) : d ≠ 0 :=
  fun zero => valid.zero_notMem (zero ▸ mem)

theorem mem_multipliers {l : Limits} {pllMul : UInt32} :
    pllMul ∈ l.multipliers ↔ l.pllMulMin ≤ pllMul ∧ pllMul ≤ l.pllMulMax := by
  have bound : l.pllMulMax.toNat < UInt32.size := l.pllMulMax.toNat_lt
  rw [multipliers, List.mem_map, UInt32.le_iff_toNat_le, UInt32.le_iff_toNat_le]
  constructor
  · rintro ⟨n, mem, rfl⟩
    rw [List.mem_range'_1, multiplierCount] at mem
    rw [UInt32.toNat_ofNat_of_lt' (by omega)]
    omega
  · rintro ⟨least, greatest⟩
    refine ⟨pllMul.toNat, ?_, UInt32.ofNat_toNat⟩
    rw [List.mem_range'_1, multiplierCount]
    omega

theorem multipliers_pairwise_lt (l : Limits) : l.multipliers.Pairwise (· < ·) := by
  have bound : l.pllMulMax.toNat < UInt32.size := l.pllMulMax.toNat_lt
  rw [multipliers, List.pairwise_map]
  refine (List.pairwise_lt_range' ..).imp_of_mem ?_
  intro m n m_mem n_mem lt
  rw [List.mem_range'_1, multiplierCount] at m_mem n_mem
  rw [UInt32.lt_iff_toNat_lt, UInt32.toNat_ofNat_of_lt' (by omega),
    UInt32.toNat_ofNat_of_lt' (by omega)]
  exact lt

def InSearchSpace (l : Limits) (f : Config) : Prop :=
  (l.pllMulMin ≤ f.pllMul ∧ f.pllMul ≤ l.pllMulMax) ∧
    f.cpuDiv ∈ l.dividers ∧ f.ramDiv ∈ l.dividers

instance (l : Limits) (f : Config) : Decidable (l.InSearchSpace f) :=
  inferInstanceAs (Decidable (_ ∧ _))

theorem mem_candidates {l : Limits} {f : Config} : f ∈ l.candidates ↔ l.InSearchSpace f := by
  rw [candidates, List.mem_flatMap, InSearchSpace, ← mem_multipliers]
  constructor
  · rintro ⟨pllMul, inRange, mem⟩
    obtain ⟨cpuDiv, cpu_mem, mem⟩ := List.mem_flatMap.mp mem
    obtain ⟨ramDiv, ram_mem, rfl⟩ := List.mem_map.mp mem
    exact ⟨inRange, cpu_mem, ram_mem⟩
  · rintro ⟨inRange, cpu_mem, ram_mem⟩
    refine ⟨f.pllMul, inRange, List.mem_flatMap.mpr ⟨f.cpuDiv, cpu_mem, ?_⟩⟩
    exact List.mem_map.mpr ⟨f.ramDiv, ram_mem, rfl⟩

end Limits

namespace Config

/-- Generator order: by multiplier, then CPU divider, then RAM divider, all ascending. -/
def GeneratedBefore (f g : Config) : Prop :=
  f.pllMul < g.pllMul ∨ f.pllMul = g.pllMul ∧
    (f.cpuDiv < g.cpuDiv ∨ f.cpuDiv = g.cpuDiv ∧ f.ramDiv < g.ramDiv)

theorem GeneratedBefore.asymm {f g : Config} (before : f.GeneratedBefore g) :
    ¬ g.GeneratedBefore f := by
  intro after
  simp only [GeneratedBefore, UInt32.lt_iff_toNat_lt, ← UInt32.toNat_inj] at before after
  omega

end Config

/-- The candidates of a table with ascending dividers stand in generator order. -/
theorem Limits.candidates_pairwise {l : Limits} (ascending : l.dividers.Pairwise (· < ·)) :
    l.candidates.Pairwise Config.GeneratedBefore := by
  rw [candidates, List.pairwise_flatMap]
  constructor
  · intro pllMul _
    rw [candidatesAt, List.pairwise_flatMap]
    constructor
    · intro cpuDiv _
      rw [List.pairwise_map]
      exact ascending.imp fun lt => .inr ⟨rfl, .inr ⟨rfl, lt⟩⟩
    · refine ascending.imp ?_
      intro lower higher lt f f_mem g g_mem
      obtain ⟨_, _, rfl⟩ := List.mem_map.mp f_mem
      obtain ⟨_, _, rfl⟩ := List.mem_map.mp g_mem
      exact .inr ⟨rfl, .inl lt⟩
  · refine l.multipliers_pairwise_lt.imp ?_
    intro lower higher lt f f_mem g g_mem
    left
    rwa [pllMul_of_mem_candidatesAt f_mem, pllMul_of_mem_candidatesAt g_mem]

end ClockTree
