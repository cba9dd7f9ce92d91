import ClockTree.Proofs.Binary64.Order
import ClockTree.Proofs.Enumeration
import ClockTree.Proofs.ExactLegality
import ClockTree.Proofs.LowestDivider
import ClockTree.Proofs.ZeroDivider

/-! The built-in search space misses nothing. The legality check looks at no multiplier range and
at no table for the CPU divider of a fast clock, and the PLL band alone would admit multipliers 40
and 41. A divisor of a built-in divider is one, a fast CPU at a divider of 1 or 2 meets a ceiling,
and a slow one meets a lower usable divider as soon as the PLL output is twice the least one. -/
namespace ClockTree.Limits

theorem mem_standard_of_dvd {c r : UInt32} (mem : r ∈ standard.dividers)
    (divides : c.toNat ∣ r.toNat) : c ∈ standard.dividers := by
  have divisors : ∀ n ∈ standard.dividers.map UInt32.toNat, ∀ k ≤ 32, k ∣ n →
      k ∈ standard.dividers.map UInt32.toNat := by decide
  have largest : ∀ n ∈ standard.dividers.map UInt32.toNat, 0 < n ∧ n ≤ 32 := by decide
  have r_mem := List.mem_map_of_mem (f := UInt32.toNat) mem
  obtain ⟨r_pos, r_le⟩ := largest _ r_mem
  have c_le : c.toNat ≤ 32 := (Nat.le_of_dvd r_pos divides).trans r_le
  obtain ⟨d, d_mem, same⟩ := List.mem_map.mp (divisors _ r_mem _ c_le divides)
  rwa [UInt32.toNat_inj.mp same] at d_mem

/-- A built-in divider above 1 is at most twice another one. -/
theorem exists_half_of_mem_standard {c : UInt32} (mem : c ∈ standard.dividers) :
    c = 1 ∨ ∃ i ∈ standard.dividers, i < c ∧ c.toNat ≤ 2 * i.toNat := by
  simp only [standard, List.mem_cons, List.not_mem_nil, or_false] at mem
  rcases mem with rfl | rfl | rfl | rfl | rfl | rfl | rfl | rfl | rfl | rfl
  · exact .inl rfl
  · exact .inr ⟨1, by decide⟩
  · exact .inr ⟨2, by decide⟩
  · exact .inr ⟨2, by decide⟩
  · exact .inr ⟨3, by decide⟩
  · exact .inr ⟨4, by decide⟩
  · exact .inr ⟨6, by decide⟩
  · exact .inr ⟨8, by decide⟩
  · exact .inr ⟨12, by decide⟩
  · exact .inr ⟨16, by decide⟩

section Legal

variable {f : Config} (legal : standard.Legal f) (mem : f.ramDiv ∈ standard.dividers)
include legal

theorem standard_band : 100 ≤ f.pll ∧ f.pll ≤ 500 :=
  (standard.inPllBand_ofNat legal.pllFits).mp legal.inBand

/-- A clock that does not pass a whole number of MHz bounds the PLL output. -/
theorem pll_le_of_not_lt {d : UInt32} (d_mem : d ∈ standard.dividers) {mhz : Nat}
    (small : mhz < 2 ^ 53) (ceiling : ¬ .ofNat mhz < f.pllMhz / .ofNat d.toNat) :
    f.pll ≤ mhz * d.toNat := by
  have d_exact := standard_exact d d_mem
  have d_pos : (0 : ℚ) < d.toNat := Nat.cast_pos.mpr (toNat_pos_of_ne_zero d_exact.ne_zero)
  have clock := Config.represents_pll_div legal.pllFits d_exact
  rw [clock.ofNat_lt_iff small, not_lt, div_le_iff₀ d_pos] at ceiling
  exact_mod_cast ceiling

include mem

theorem cpuDiv_mem_standard : f.cpuDiv ∈ standard.dividers :=
  mem_standard_of_dvd mem ((dividersMatch_iff legal.cpuDiv_ne).mp legal.dividers).1

/-- A fast CPU has a divider of 1, or of 2 together with the RAM. -/
theorem pll_le_of_fast (fast : standard.fastCpuMhz ≤ f.cpu) : f.pll ≤ 468 := by
  have suits := legal.suits
  rw [CpuDividerSuits, if_pos fast] at suits
  split at suits
  next coupled =>
    have pll_pos : 0 < f.pll := Nat.lt_of_lt_of_le (by decide) (standard_band legal).1
    have same : f.cpuDiv = f.ramDiv :=
      Binary64.divider_eq_of_eqv pll_pos legal.pllFits coupled
    have ram_bound : f.pll ≤ 204 * f.ramDiv.toNat :=
      pll_le_of_not_lt legal mem (by decide) legal.ram_le
    rw [← same, suits] at ram_bound
    exact ram_bound.trans (by decide)
  next =>
    have cpu_bound : f.pll ≤ 468 * f.cpuDiv.toNat :=
      pll_le_of_not_lt legal (cpuDiv_mem_standard legal mem) (by decide) legal.cpu_le
    rw [suits] at cpu_bound
    exact cpu_bound

/-- A slow CPU finds no lower usable divider only below twice the least PLL output. -/
theorem pll_lt_of_slow (slow : ¬ standard.fastCpuMhz ≤ f.cpu) : f.pll < 200 := by
  have c_mem := cpuDiv_mem_standard legal mem
  have c_exact := standard_exact _ c_mem
  have c_pos : (0 : ℚ) < f.cpuDiv.toNat := Nat.cast_pos.mpr (toNat_pos_of_ne_zero c_exact.ne_zero)
  have band := standard_band legal
  have cpu_value : f.cpu.Represents f.exactCpu := Config.represents_pll_div legal.pllFits c_exact
  rcases exists_half_of_mem_standard c_mem with one | ⟨i, i_mem, i_lt, half⟩
  · have fast : standard.fastCpuMhz ≤ f.cpu := by
      refine (cpu_value.ofNat_le_iff (n := 100) (by decide)).mpr ?_
      rw [Config.exactCpu, one, le_div_iff₀ (by decide)]
      exact_mod_cast band.1
    exact absurd fast slow
  · have found := legal.suits
    rw [CpuDividerSuits, if_neg slow] at found
    rw [lowestUsableDivider?_eq_some_iff_least standard_wellFormed.ascending] at found
    have unusable := found.2.2 i i_mem i_lt
    have product := Config.represents_cpu_mul legal.pllFits c_exact (standard_exact i i_mem)
    rw [inPllBand_iff product, Config.exactCpu, div_mul_eq_mul_div, le_div_iff₀ c_pos,
      div_le_iff₀ c_pos] at unusable
    have below_upper : f.pll * i.toNat ≤ 500 * f.cpuDiv.toNat :=
      Nat.mul_le_mul band.2 (UInt32.lt_iff_toNat_lt.mp i_lt).le
    have below_lower : f.pll * i.toNat < 100 * f.cpuDiv.toNat := by
      by_contra reaches
      exact unusable ⟨by exact_mod_cast Nat.not_lt.mp reaches, by exact_mod_cast below_upper⟩
    have doubled : f.pll * i.toNat < 200 * i.toNat := by omega
    exact Nat.lt_of_mul_lt_mul_right doubled

/-- What the built-in table permits lies in its search space. -/
theorem inSearchSpace_of_legal : standard.InSearchSpace f := by
  have band := standard_band legal
  have pll_le : f.pll ≤ 468 := by
    by_cases fast : standard.fastCpuMhz ≤ f.cpu
    · exact pll_le_of_fast legal mem fast
    · exact (pll_lt_of_slow legal mem fast).le.trans (by decide)
  rw [Config.pll, baseClockMhz] at band pll_le
  refine ⟨⟨?_, ?_⟩, cpuDiv_mem_standard legal mem, mem⟩
  · have least : 9 ≤ f.pllMul.toNat := by omega
    exact UInt32.le_iff_toNat_le.mpr least
  · have greatest : f.pllMul.toNat ≤ 39 := by omega
    exact UInt32.le_iff_toNat_le.mpr greatest

end Legal

/-- Among all multipliers and CPU dividers, zero included, the check on a built-in RAM divider
answers, and it accepts exactly the rows of the built-in enumeration. -/
theorem permits_standard_eq_mem_enumerate :
    ∃ rows, standard.enumerate = .ok rows ∧
      ∀ f : Config, f.PllFits → f.ramDiv ∈ standard.dividers →
        standard.permits f = .ok (decide (f ∈ rows)) := by
  refine ⟨_, standard_wellFormed.enumerate_eq_ok standard_topFits, fun f fits mem => ?_⟩
  by_cases zero : f.cpuDiv = 0
  · have rejected : standard.permits f = .ok false :=
      permits_of_cpuDiv_zero (by decide +kernel) (by decide) fits zero
    have absent : f ∉ Config.ranked standard.accepted := by
      intro row
      have permitted := (mem_ranked_accepted.mp row).2
      rw [rejected] at permitted
      cases permitted
    rw [rejected, decide_eq_false absent]
  · have listed_iff : standard.Legal f ↔ f ∈ Config.ranked standard.accepted := by
      rw [mem_ranked_accepted, permits_eq_true_iff]
      exact ⟨fun legal => ⟨inSearchSpace_of_legal legal mem, legal⟩, fun listed => listed.2⟩
    rw [permits_eq_decide standard fits zero, decide_eq_decide.mpr listed_iff]

/-- Multiplier 41 passes the band, but is in no row; a divider of zero is no fault. -/
theorem permits_standard_eq_mem_enumerate_beyond :
    Config.PllFits ⟨41, 6, 12⟩ ∧ Config.PllFits ⟨41, 0, 12⟩ ∧ (12 : UInt32) ∈ standard.dividers ∧
      ∃ rows, standard.enumerate = .ok rows ∧
        standard.permits ⟨41, 6, 12⟩ = .ok (decide (⟨41, 6, 12⟩ ∈ rows)) ∧
        standard.permits ⟨41, 0, 12⟩ = .ok (decide (⟨41, 0, 12⟩ ∈ rows)) := by
  obtain ⟨rows, enumerated, complete⟩ := permits_standard_eq_mem_enumerate
  exact ⟨by decide, by decide, by decide, rows, enumerated,
    complete ⟨41, 6, 12⟩ (by decide) (by decide), complete ⟨41, 0, 12⟩ (by decide) (by decide)⟩

end ClockTree.Limits
