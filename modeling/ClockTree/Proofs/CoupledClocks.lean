import ClockTree.Proofs.ExactLegality

/-! CPU clocks against RAM clocks. Both divide one PLL output, and rounding keeps the quotients by
different dividers apart, so to compare the rounded clocks is to compare the dividers. The legality
rules that look at both clocks are therefore rules on integers: a legal CPU divider divides the RAM
divider, which leaves no RAM clock ahead of its CPU clock, and a fast CPU runs at the RAM clock if
the dividers are the same. -/
namespace ClockTree.Limits

variable {l : Limits} {f : Config}

/-- Of a fast CPU the dividers alone decide, since a clock tells its divider. -/
theorem cpuDividerSuits_iff_of_fast (positive : 0 < f.pll) (fits : f.PllFits)
    (fast : l.fastCpuMhz ≤ f.cpu) :
    l.CpuDividerSuits f ↔
      f.cpuDiv = if f.cpuDiv = f.ramDiv then l.coupledCpuDiv else l.decoupledCpuDiv := by
  simp only [CpuDividerSuits, if_pos fast, Config.cpu_eqv_ram_iff positive fits]

theorem Legal.cpuDiv_le_ramDiv (legal : l.Legal f) (ramDiv_ne : f.ramDiv ≠ 0) :
    f.cpuDiv ≤ f.ramDiv := by
  have divides := ((dividersMatch_iff legal.cpuDiv_ne).mp legal.dividers).1
  exact UInt32.le_iff_toNat_le.mpr (Nat.le_of_dvd (toNat_pos_of_ne_zero ramDiv_ne) divides)

/-- The CPU and the RAM clock of a positive PLL output compare as their dividers do, the other way
round. So what is legal, under any table and with a RAM divider other than zero, has no RAM clock
above its CPU clock, and a fast CPU takes the coupled divider if it shares its divider with the RAM
and the decoupled one if not. Unless a table sets the same divider aside for both, the divider of a
fast CPU tells whether it is shared. -/
theorem clocks_compare_as_dividers :
    (∀ f : Config, 1 ≤ f.pllMul → f.PllFits →
      (f.cpu.Eqv f.ram ↔ f.cpuDiv = f.ramDiv) ∧ (f.ram < f.cpu ↔ f.cpuDiv < f.ramDiv)) ∧
    ∀ (l : Limits) (f : Config), 1 ≤ f.pllMul → f.ramDiv ≠ 0 → l.permits f = .ok true →
      f.ram ≤ f.cpu ∧
      (l.fastCpuMhz ≤ f.cpu →
        f.cpuDiv = (if f.cpuDiv = f.ramDiv then l.coupledCpuDiv else l.decoupledCpuDiv) ∧
        (l.coupledCpuDiv ≠ l.decoupledCpuDiv →
          (f.cpuDiv = l.coupledCpuDiv ↔ f.cpuDiv = f.ramDiv))) := by
  constructor
  · intro f multiplied fits
    have positive := Config.pll_pos multiplied
    exact ⟨Config.cpu_eqv_ram_iff positive fits, Config.ram_lt_cpu_iff positive fits⟩
  · intro l f multiplied ramDiv_ne permitted
    have positive := Config.pll_pos multiplied
    have legal := permits_eq_true_iff.mp permitted
    have cpuDiv_le := legal.cpuDiv_le_ramDiv ramDiv_ne
    refine ⟨(Config.ram_le_cpu_iff positive legal.pllFits).mpr cpuDiv_le, fun fast => ?_⟩
    have suits := (cpuDividerSuits_iff_of_fast positive legal.pllFits fast).mp legal.suits
    refine ⟨suits, fun differ => ?_⟩
    by_cases coupled : f.cpuDiv = f.ramDiv
    · exact iff_of_true (suits.trans (if_pos coupled)) coupled
    · have decoupled : f.cpuDiv = l.decoupledCpuDiv := suits.trans (if_neg coupled)
      exact iff_of_false (fun same => differ (same.symm.trans decoupled)) coupled

/-- The two greatest dividers are told apart at the greatest PLL output that fits. Under the built-in
limits a CPU at 360 MHz with the RAM at 90 MHz has the decoupled divider and not the coupled one, and
one at 180 MHz with the RAM at the same speed has the coupled one. -/
theorem clocks_compare_as_dividers_at_extremes :
    let f : Config := ⟨357913941, 4294967294, 4294967295⟩
    let g : Config := ⟨30, 1, 4⟩
    let h : Config := ⟨30, 2, 2⟩
    1 ≤ f.pllMul ∧ f.PllFits ∧ ¬ f.cpu.Eqv f.ram ∧ f.ram < f.cpu ∧
      1 ≤ g.pllMul ∧ g.ramDiv ≠ 0 ∧ standard.permits g = .ok true ∧ g.ram ≤ g.cpu ∧
      standard.fastCpuMhz ≤ g.cpu ∧ standard.coupledCpuDiv ≠ standard.decoupledCpuDiv ∧
      g.cpuDiv = standard.decoupledCpuDiv ∧ g.cpuDiv ≠ standard.coupledCpuDiv ∧
      1 ≤ h.pllMul ∧ h.PllFits ∧ h.ramDiv ≠ 0 ∧ standard.permits h = .ok true ∧
      h.cpu.Eqv h.ram ∧ ¬ h.ram < h.cpu ∧ standard.fastCpuMhz ≤ h.cpu ∧
      h.cpuDiv = standard.coupledCpuDiv ∧ h.cpuDiv = h.ramDiv := by
  intro f g h
  have evaluated : (1 ≤ f.pllMul ∧ f.PllFits ∧ f.cpuDiv < f.ramDiv) ∧ (1 ≤ g.pllMul ∧
      g.ramDiv ≠ 0 ∧ g.cpuDiv ≠ g.ramDiv) ∧ (standard.permits g = .ok true ∧
      standard.fastCpuMhz ≤ g.cpu) ∧ (1 ≤ h.pllMul ∧ h.PllFits ∧ h.ramDiv ≠ 0 ∧
      h.cpuDiv = h.ramDiv) ∧ standard.permits h = .ok true ∧ standard.fastCpuMhz ≤ h.cpu := by
    decide +kernel
  -- With the values in view every step below would evaluate the clocks again.
  clear_value f g h
  obtain ⟨⟨f_multiplied, f_fits, f_lt⟩, ⟨g_multiplied, g_ramDiv, apart⟩, ⟨g_permitted, g_fast⟩,
    ⟨h_multiplied, h_fits, h_ramDiv, shared⟩, h_permitted, h_fast⟩ := evaluated
  have differ : standard.coupledCpuDiv ≠ standard.decoupledCpuDiv := by decide
  obtain ⟨f_eqv_iff, f_lt_iff⟩ := clocks_compare_as_dividers.1 f f_multiplied f_fits
  obtain ⟨h_eqv_iff, h_lt_iff⟩ := clocks_compare_as_dividers.1 h h_multiplied h_fits
  obtain ⟨ram_le, g_of_fast⟩ :=
    clocks_compare_as_dividers.2 standard g g_multiplied g_ramDiv g_permitted
  obtain ⟨-, h_of_fast⟩ :=
    clocks_compare_as_dividers.2 standard h h_multiplied h_ramDiv h_permitted
  obtain ⟨g_set_aside, g_coupled_iff⟩ := g_of_fast g_fast
  obtain ⟨-, h_coupled_iff⟩ := h_of_fast h_fast
  have level : ¬ h.cpuDiv < h.ramDiv := fun lt => UInt32.ne_of_lt lt shared
  exact ⟨f_multiplied, f_fits, mt f_eqv_iff.mp (UInt32.ne_of_lt f_lt), f_lt_iff.mpr f_lt,
    g_multiplied, g_ramDiv, g_permitted, ram_le, g_fast, differ, g_set_aside.trans (if_neg apart),
    mt (g_coupled_iff differ).mp apart, h_multiplied, h_fits, h_ramDiv, h_permitted,
    h_eqv_iff.mpr shared, mt h_lt_iff.mp level, h_fast, (h_coupled_iff differ).mpr shared, shared⟩

/-- Where both dividers set aside are 1, a CPU at 360 MHz has the coupled one without sharing its
divider with the RAM. -/
theorem coupled_divider_beside_slower_ram :
    let l := { standard with coupledCpuDiv := 1 }
    let f : Config := ⟨30, 1, 4⟩
    l.validate = .ok () ∧ 1 ≤ f.pllMul ∧ f.PllFits ∧ f.ramDiv ≠ 0 ∧ l.permits f = .ok true ∧
      l.fastCpuMhz ≤ f.cpu ∧ ¬ (f.cpuDiv = l.coupledCpuDiv ↔ f.ramDiv = f.cpuDiv) := by
  decide +kernel

end ClockTree.Limits
