import ClockTree.Proofs.Enumeration

/-! A legal configuration is known from its two clocks. They fix the CPU divider, because each
rule for it looks at the clocks alone; the CPU clock then fixes the PLL output, and the RAM clock
the RAM divider. So no two rows of a table have the same clocks, unless a multiplier of zero is
in range. -/
namespace ClockTree

namespace Limits

theorem cpuDiv_eq_of_suits {l : Limits} {f g : Config} (same_cpu : f.cpu = g.cpu)
    (same_ram : f.ram = g.ram) (f_suits : l.CpuDividerSuits f) (g_suits : l.CpuDividerSuits g) :
    f.cpuDiv = g.cpuDiv := by
  rw [CpuDividerSuits, same_cpu, same_ram] at f_suits
  rw [CpuDividerSuits] at g_suits
  by_cases fast : l.fastCpuMhz ≤ g.cpu
  · rw [if_pos fast] at f_suits g_suits
    exact f_suits.trans g_suits.symm
  · rw [if_neg fast] at f_suits g_suits
    exact Option.some.inj (f_suits.symm.trans g_suits)

end Limits

theorem Binary64.eq_of_unsigned_eqv {x y : Binary64} (x_unsigned : ∃ m, x = .number false m)
    (y_unsigned : ∃ m, y = .number false m) (same : x.Eqv y) : x = y := by
  obtain ⟨a, rfl⟩ := x_unsigned
  obtain ⟨b, rfl⟩ := y_unsigned
  rw [Magnitude.ext (eqv_number_false.mp same)]

namespace Config

theorem pllMul_eq_of_pll_eq {f g : Config} (same : f.pll = g.pll) : f.pllMul = g.pllMul :=
  UInt32.toNat_inj.mp (Nat.eq_of_mul_eq_mul_left (by decide) same)

theorem hasClocks_of_pll_pos {f : Config} (fits : f.PllFits) (positive : 0 < f.pll) : f.HasClocks :=
  ⟨⟨_, cpu_eq fits (.inl positive)⟩, ⟨_, ram_eq fits (.inl positive)⟩⟩

/-- The clocks of a legal configuration are those of no other. -/
theorem eq_of_legal_of_eqv {l : Limits} {f g : Config} (f_pos : 0 < f.pll) (g_pos : 0 < g.pll)
    (f_legal : l.Legal f) (g_legal : l.Legal g) (same_cpu : f.cpu.Eqv g.cpu)
    (same_ram : f.ram.Eqv g.ram) : f = g := by
  have f_clocks := hasClocks_of_pll_pos f_legal.pllFits f_pos
  have g_clocks := hasClocks_of_pll_pos g_legal.pllFits g_pos
  have cpu_eq := Binary64.eq_of_unsigned_eqv f_clocks.1 g_clocks.1 same_cpu
  have ram_eq := Binary64.eq_of_unsigned_eqv f_clocks.2 g_clocks.2 same_ram
  have cpuDiv_eq : f.cpuDiv = g.cpuDiv :=
    Limits.cpuDiv_eq_of_suits cpu_eq ram_eq f_legal.suits g_legal.suits
  have pll_eq : f.pll = g.pll := by
    rw [cpu, cpu, pllMhz, pllMhz, cpuDiv_eq] at same_cpu
    exact Binary64.dividend_eq_of_eqv f_pos g_pos f_legal.pllFits g_legal.pllFits
      g_legal.cpuDiv_ne same_cpu
  have ramDiv_eq : f.ramDiv = g.ramDiv := by
    rw [ram, ram, pllMhz, pllMhz, pll_eq] at same_ram
    exact Binary64.divider_eq_of_eqv g_pos g_legal.pllFits same_ram
  exact Config.ext (pllMul_eq_of_pll_eq pll_eq) cpuDiv_eq ramDiv_eq

end Config

namespace Limits

theorem pll_pos_of_inSearchSpace {l : Limits} (positive : 1 ≤ l.pllMulMin) {f : Config}
    (found : l.InSearchSpace f) : 0 < f.pll :=
  Config.pll_pos (UInt32.le_trans positive found.1.1)

/-- In a list of legal candidates with positive multipliers the clocks leave no choice of order. -/
theorem ranked_eq_of_perm {l : Limits} (valid : l.WellFormed) (positive : 1 ≤ l.pllMulMin)
    (fits : l.TopFits) {shuffled : List Config} (perm : shuffled.Perm (Config.ranked l.accepted)) :
    Config.ranked shuffled = Config.ranked l.accepted := by
  have descending : (Config.ranked l.accepted).Pairwise
      (ThenBy (Config.clockGe Config.cpu) (ThenBy (Config.clockGe Config.ram) fun _ _ => True)) :=
    valid.ranked_pairwise.imp (ThenBy.imp (ThenBy.imp fun _ => trivial))
  have same := (Config.ranked_perm shuffled).trans perm
  refine same.eq_of_pairwise ?_ (Config.ranked_descending shuffled) descending
  intro f g f_mem g_mem ordered reversed
  obtain ⟨f_found, f_permitted⟩ := mem_ranked_accepted.mp (same.mem_iff.mp f_mem)
  obtain ⟨g_found, g_permitted⟩ := mem_ranked_accepted.mp g_mem
  obtain ⟨same_cpu, same_ram⟩ := Config.eqv_of_thenBy_both (valid.hasClocks fits f_found)
    (valid.hasClocks fits g_found) ordered reversed
  exact Config.eq_of_legal_of_eqv (pll_pos_of_inSearchSpace positive f_found)
    (pll_pos_of_inSearchSpace positive g_found) (permits_eq_true_iff.mp f_permitted)
    (permits_eq_true_iff.mp g_permitted) same_cpu same_ram

theorem WellFormed.strictly_descending {l : Limits} (valid : l.WellFormed)
    (positive : 1 ≤ l.pllMulMin) (fits : l.TopFits) {f g : Config}
    (f_mem : f ∈ Config.ranked l.accepted) (g_mem : g ∈ Config.ranked l.accepted)
    (before : f.RankedBefore g) : g.cpu < f.cpu ∨ f.cpu.Eqv g.cpu ∧ g.ram < f.ram := by
  obtain ⟨f_found, f_permitted⟩ := mem_ranked_accepted.mp f_mem
  obtain ⟨g_found, g_permitted⟩ := mem_ranked_accepted.mp g_mem
  have f_clocks := valid.hasClocks fits f_found
  have g_clocks := valid.hasClocks fits g_found
  rcases before.descending f_clocks g_clocks with lt | ⟨same_cpu, ram_ge⟩
  · exact .inl lt
  rcases Config.lt_or_eqv_of_ge f_clocks.2 g_clocks.2 ram_ge with lt | same_ram
  · exact .inr ⟨same_cpu, lt⟩
  · have same := Config.eq_of_legal_of_eqv (pll_pos_of_inSearchSpace positive f_found)
      (pll_pos_of_inSearchSpace positive g_found) (permits_eq_true_iff.mp f_permitted)
      (permits_eq_true_iff.mp g_permitted) same_cpu same_ram
    rw [same] at before
    exact absurd before before.asymm

/-- Two legal configurations of one table with the same clocks are the same. So the rows of a
table strictly descend, and ranking them again from any order gives them back. -/
theorem clocks_identify_legal_configs :
    (∀ (l : Limits) (f g : Config), 1 ≤ f.pllMul → f.PllFits → 1 ≤ g.pllMul → g.PllFits →
      l.permits f = .ok true → l.permits g = .ok true →
      f.cpu.Eqv g.cpu → f.ram.Eqv g.ram → f = g) ∧
    (∀ l : Limits, l.validate = .ok () → 1 ≤ l.pllMulMin → l.TopFits →
      ∃ out, l.enumerate = .ok out ∧
        (out.Pairwise fun f g => g.cpu < f.cpu ∨ f.cpu.Eqv g.cpu ∧ g.ram < f.ram) ∧
        ∀ shuffled : List Config, shuffled.Perm out → Config.rank shuffled = .ok out) := by
  constructor
  · intro l f g f_positive _ g_positive _ f_permitted g_permitted
    exact Config.eq_of_legal_of_eqv (Config.pll_pos f_positive) (Config.pll_pos g_positive)
      (permits_eq_true_iff.mp f_permitted) (permits_eq_true_iff.mp g_permitted)
  · intro l valid positive fits
    have valid := validate_eq_ok_iff.mp valid
    refine ⟨Config.ranked l.accepted, valid.enumerate_eq_ok fits, ?_, ?_⟩
    · apply valid.ranked_pairwise.imp_of_mem
      intro f g f_mem g_mem before
      exact valid.strictly_descending positive fits f_mem g_mem before
    · intro shuffled perm
      have all_fit : ∀ f ∈ shuffled, f.PllFits := fun f mem =>
        fits.pllFits (mem_ranked_accepted.mp (perm.mem_iff.mp mem)).1
      rw [Config.rank_eq_ok all_fit, ranked_eq_of_perm valid positive fits perm]

theorem clocks_identify_legal_configs_standard :
    standard.permits ⟨30, 2, 2⟩ = .ok true ∧
      (Config.cpu ⟨30, 2, 2⟩).Eqv 180 ∧ (Config.ram ⟨30, 2, 2⟩).Eqv 180 ∧
      (⟨30, 2, 2⟩ : Config) = ⟨30, 2, 2⟩ ∧
      standard.validate = .ok () ∧ standard.TopFits ∧ ∃ out, standard.enumerate = .ok out ∧
        ∀ shuffled : List Config, shuffled.Perm out → Config.rank shuffled = .ok out := by
  have valid := validate_eq_ok_iff.mpr standard_wellFormed
  have permitted : standard.permits ⟨30, 2, 2⟩ = .ok true := by decide +kernel
  have same := clocks_identify_legal_configs.1 standard ⟨30, 2, 2⟩ ⟨30, 2, 2⟩ (by decide)
    (by decide) (by decide) (by decide) permitted permitted (by decide +kernel) (by decide +kernel)
  obtain ⟨out, enumerated, _, reordered⟩ :=
    clocks_identify_legal_configs.2 standard valid (by decide) standard_topFits
  exact ⟨permitted, by decide +kernel, by decide +kernel, same, valid, standard_topFits, out,
    enumerated, reordered⟩

end Limits

end ClockTree
