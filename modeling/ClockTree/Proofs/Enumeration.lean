import ClockTree.Proofs.Legality
import ClockTree.Proofs.Ranking

/-! Enumeration of a validated table whose top multiplier fits. Every candidate then gets an
answer, so the enumeration is the ranked list of the legal candidates: each of them once, in
the order of the table. -/
namespace ClockTree

namespace Limits

def TopFits (l : Limits) : Prop := baseClockMhz * l.pllMulMax.toNat < 2 ^ 32

instance (l : Limits) : Decidable l.TopFits := inferInstanceAs (Decidable (_ < _))

theorem standard_topFits : standard.TopFits := by decide

theorem TopFits.pllFits {l : Limits} (fits : l.TopFits) {f : Config} (found : l.InSearchSpace f) :
    f.PllFits :=
  Nat.lt_of_le_of_lt (Nat.mul_le_mul_left _ (UInt32.le_iff_toNat_le.mp found.1.2)) fits

theorem WellFormed.hasClocks {l : Limits} (valid : l.WellFormed) (fits : l.TopFits) {f : Config}
    (found : l.InSearchSpace f) : f.HasClocks :=
  Config.hasClocks_of_ne_zero (fits.pllFits found) (valid.ne_zero found.2.1)
    (valid.ne_zero found.2.2)

def accepted (l : Limits) : List Config := l.candidates.filter (l.Legal ·)

theorem mem_accepted {l : Limits} {f : Config} :
    f ∈ l.accepted ↔ l.InSearchSpace f ∧ l.permits f = .ok true := by
  rw [accepted, List.mem_filter, mem_candidates, decide_eq_true_iff, permits_eq_true_iff]

theorem WellFormed.accepted_pairwise {l : Limits} (valid : l.WellFormed) :
    l.accepted.Pairwise Config.GeneratedBefore :=
  (candidates_pairwise valid.ascending).filter _

theorem WellFormed.legalCandidates_eq_ok {l : Limits} (valid : l.WellFormed) (fits : l.TopFits) :
    l.legalCandidates = .ok l.accepted := by
  rw [legalCandidates_eq]
  apply filterM_eq_ok
  intro f mem
  have found := mem_candidates.mp mem
  exact l.permits_eq_decide (fits.pllFits found) (valid.ne_zero found.2.1)

theorem WellFormed.enumerate_eq_ok {l : Limits} (valid : l.WellFormed) (fits : l.TopFits) :
    l.enumerate = .ok (Config.ranked l.accepted) := by
  have all_fit : ∀ f ∈ l.accepted, f.PllFits :=
    fun f mem => fits.pllFits (mem_accepted.mp mem).1
  rw [enumerate, validate_eq_ok_iff.mpr valid, valid.legalCandidates_eq_ok fits]
  change (Config.rank l.accepted).mapError _ = _
  rw [Config.rank_eq_ok all_fit]
  rfl

theorem mem_ranked_accepted {l : Limits} {f : Config} :
    f ∈ Config.ranked l.accepted ↔ l.InSearchSpace f ∧ l.permits f = .ok true := by
  rw [(Config.ranked_perm _).mem_iff, mem_accepted]

theorem WellFormed.ranked_pairwise {l : Limits} (valid : l.WellFormed) :
    (Config.ranked l.accepted).Pairwise Config.RankedBefore :=
  Config.ranked_pairwise valid.accepted_pairwise

theorem WellFormed.ranked_nodup {l : Limits} (valid : l.WellFormed) :
    (Config.ranked l.accepted).Nodup := by
  refine valid.ranked_pairwise.imp ?_
  rintro f g before rfl
  exact before.asymm before

/-- Whatever the table, an enumeration that answers lists legal configurations only. -/
theorem legal_of_mem_enumerate {l : Limits} {out : List Config} (answer : l.enumerate = .ok out)
    {f : Config} (mem : f ∈ out) : l.Legal f := by
  rw [enumerate] at answer
  split at answer
  · cases answer
  · obtain ⟨configs, found, ranking⟩ := bind_eq_ok_iff.mp (mapError_eq_ok_iff.mp answer)
    rw [legalCandidates_eq] at found
    rw [(Config.perm_of_rank_eq_ok ranking).mem_iff] at mem
    exact permits_eq_true_iff.mp (filterM_passed found mem)

/-- An enumeration holds every legal candidate once and nothing else. It descends by CPU clock,
then by RAM clock, and keeps generator order where both are equal. -/
theorem enumerate_lists_legal_ranked {l : Limits} (valid : l.validate = .ok ())
    (fits : l.TopFits) :
    ∃ out, l.enumerate = .ok out ∧
      (∀ f, out.count f = if l.InSearchSpace f ∧ l.permits f = .ok true then 1 else 0) ∧
      (∀ i j (_ : i < j) (_ : j < out.length),
        out[j].cpu < out[i].cpu ∨ out[i].cpu.Eqv out[j].cpu ∧ out[j].ram ≤ out[i].ram) ∧
      (∀ i j (_ : i < j) (_ : j < out.length),
        out[i].cpu.Eqv out[j].cpu → out[i].ram.Eqv out[j].ram →
          out[i].GeneratedBefore out[j]) := by
  have valid := validate_eq_ok_iff.mp valid
  have clocks : ∀ f ∈ Config.ranked l.accepted, f.HasClocks :=
    fun f mem => valid.hasClocks fits (mem_ranked_accepted.mp mem).1
  have ordered := List.pairwise_iff_getElem.mp valid.ranked_pairwise
  refine ⟨Config.ranked l.accepted, valid.enumerate_eq_ok fits, ?_, ?_, ?_⟩
  · intro f
    split
    next found =>
      exact List.count_eq_one_of_mem valid.ranked_nodup (mem_ranked_accepted.mpr found)
    next absent =>
      exact List.count_eq_zero_of_not_mem fun mem => absent (mem_ranked_accepted.mp mem)
  · intro i j lt j_lt
    exact (ordered i j (lt.trans j_lt) j_lt lt).descending
      (clocks _ (List.getElem_mem _)) (clocks _ (List.getElem_mem _))
  · intro i j lt j_lt same_cpu same_ram
    exact (ordered i j (lt.trans j_lt) j_lt lt).generated
      (clocks _ (List.getElem_mem _)) (clocks _ (List.getElem_mem _)) same_cpu same_ram

theorem enumerate_lists_legal_ranked_standard :
    standard.validate = .ok () ∧ standard.TopFits ∧
      ∃ out, standard.enumerate = .ok out ∧ out.count ⟨30, 1, 3⟩ = 1 ∧ out.count ⟨30, 2, 4⟩ = 0 ∧
        (∀ i j (_ : i < j) (_ : j < out.length),
          out[j].cpu < out[i].cpu ∨ out[i].cpu.Eqv out[j].cpu ∧ out[j].ram ≤ out[i].ram) := by
  have valid := validate_eq_ok_iff.mpr standard_wellFormed
  obtain ⟨out, enumerated, counts, descending, _⟩ :=
    enumerate_lists_legal_ranked valid standard_topFits
  refine ⟨valid, standard_topFits, out, enumerated, ?_, ?_, descending⟩
  · rw [counts]
    decide +kernel
  · rw [counts]
    decide +kernel

end Limits

end ClockTree
