import ClockTree.Proofs.Ranking

/-! Ranking as one sort. A stable sort leaves every class of ties as it was, and a sorted list is
known from its classes of ties. Two passes, the secondary key first, sort by both keys and keep the
classes of both, so they are the one stable sort by the pair of clocks. The order of the clocks is
total: it tells apart the two zeros, and it has a place for NaN. -/
namespace ClockTree

section StableSort

variable {α : Type} {le : α → α → Bool}

/-- A stable sort keeps the order of elements that may stand either way round. -/
theorem filter_mergeSort_of_ties (trans : ∀ a b c, le a b → le b c → le a c)
    (total : ∀ a b, le a b || le b a) {p : α → Bool} (either : ∀ a b, p a → p b → le a b)
    (xs : List α) : (xs.mergeSort le).filter p = xs.filter p := by
  have tied : (xs.filter p).Pairwise (le · ·) := by
    apply List.Pairwise.imp_of_mem _ (List.pairwise_of_forall fun _ _ => trivial)
    intro a b a_mem b_mem _
    exact either a b (List.mem_filter.mp a_mem).2 (List.mem_filter.mp b_mem).2
  have kept := (List.sublist_mergeSort trans total tied List.filter_sublist).filter p
  simp only [List.filter_filter, Bool.and_self] at kept
  have perm := (List.mergeSort_perm xs le).filter p
  exact (kept.eq_of_length perm.length_eq.symm).symm

def ties (le : α → α → Bool) (a b : α) : Bool := le a b && le b a

section Classes

variable (refl : ∀ a, le a a)
include refl

theorem mem_of_filter_ties_eq {xs ys : List α}
    (classes : ∀ a, xs.filter (ties le a) = ys.filter (ties le a)) {a : α} (mem : a ∈ xs) :
    a ∈ ys := by
  have in_class : a ∈ xs.filter (ties le a) := List.mem_filter.mpr ⟨mem, by simp [ties, refl a]⟩
  rw [classes] at in_class
  exact (List.mem_filter.mp in_class).1

/-- A sorted list is known from its classes of ties, each in its order. -/
theorem eq_of_filter_ties_eq {xs ys : List α} (xs_sorted : xs.Pairwise (le · ·))
    (ys_sorted : ys.Pairwise (le · ·))
    (classes : ∀ a, xs.filter (ties le a) = ys.filter (ties le a)) : xs = ys := by
  induction xs generalizing ys with
  | nil =>
    cases ys with
    | nil => rfl
    | cons b ys =>
      have mem := mem_of_filter_ties_eq refl (fun c => (classes c).symm) List.mem_cons_self
      simp at mem
  | cons a xs ih =>
    cases ys with
    | nil =>
      have mem := mem_of_filter_ties_eq refl classes List.mem_cons_self
      simp at mem
    | cons b ys =>
      obtain ⟨a_first, xs_rest⟩ := List.pairwise_cons.mp xs_sorted
      obtain ⟨b_first, ys_rest⟩ := List.pairwise_cons.mp ys_sorted
      -- Each head may stand before everything, so the heads tie and lead the same class.
      have a_le : le a b = true := by
        have mem := mem_of_filter_ties_eq refl (fun c => (classes c).symm) List.mem_cons_self
        rcases List.mem_cons.mp mem with rfl | mem
        · exact refl b
        · exact a_first b mem
      have b_le : le b a = true := by
        have mem := mem_of_filter_ties_eq refl classes List.mem_cons_self
        rcases List.mem_cons.mp mem with rfl | mem
        · exact refl a
        · exact b_first a mem
      have same_class := classes a
      rw [List.filter_cons_of_pos (by simp [ties, refl a]),
        List.filter_cons_of_pos (by simp [ties, a_le, b_le])] at same_class
      obtain ⟨rfl, -⟩ := List.cons.inj same_class
      have rest : ∀ c, xs.filter (ties le c) = ys.filter (ties le c) := by
        intro c
        have same := classes c
        by_cases tie : ties le c a = true
        · simpa [tie] using same
        · simpa [tie] using same
      rw [ih xs_rest ys_rest rest]

end Classes

end StableSort

/-- The total order of binary64 numbers has no ties. -/
theorem Binary64.orderKey_inj {x y : Binary64} : x.orderKey = y.orderKey ↔ x = y := by
  refine ⟨fun same => ?_, congrArg orderKey⟩
  cases x with
  | nan =>
    cases y with
    | nan => rfl
    | number t b =>
      have := b.place_le
      cases t <;> simp only [orderKey] at same <;> omega
  | number s a =>
    have a_le := a.place_le
    cases y with
    | nan => cases s <;> simp only [orderKey] at same <;> omega
    | number t b =>
      cases s <;> cases t <;> simp only [orderKey] at same
      · rw [Magnitude.ext (show a.place = b.place by omega)]
      · omega
      · omega
      · rw [Magnitude.ext (show a.place = b.place by omega)]

namespace Config

def clocksGe (f g : Config) : Bool :=
  g.cpu.orderKey < f.cpu.orderKey ∨
    g.cpu.orderKey = f.cpu.orderKey ∧ g.ram.orderKey ≤ f.ram.orderKey

/-- Both clocks are the same number, or NaN in both. -/
def SameClocks (f g : Config) : Prop := f.cpu = g.cpu ∧ f.ram = g.ram

instance (f g : Config) : Decidable (f.SameClocks g) := inferInstanceAs (Decidable (_ ∧ _))

theorem clocksGe_iff {f g : Config} :
    clocksGe f g = true ↔ g.cpu.orderKey < f.cpu.orderKey ∨
      g.cpu.orderKey = f.cpu.orderKey ∧ g.ram.orderKey ≤ f.ram.orderKey := by
  rw [clocksGe, decide_eq_true_iff]

theorem clocksGe_trans (f g h : Config) (first : clocksGe f g) (second : clocksGe g h) :
    clocksGe f h := by
  rw [clocksGe_iff] at first second ⊢
  omega

theorem clocksGe_total (f g : Config) : clocksGe f g || clocksGe g f := by
  rw [Bool.or_eq_true, clocksGe_iff, clocksGe_iff]
  omega

theorem clocksGe_refl (f : Config) : clocksGe f f := by
  rw [clocksGe_iff]
  omega

/-- The classes of ties in the pair of clocks are those of the same clocks. -/
theorem ties_clocksGe_iff {f g : Config} : ties clocksGe f g = true ↔ f.SameClocks g := by
  rw [ties, Bool.and_eq_true, clocksGe_iff, clocksGe_iff, SameClocks, ← Binary64.orderKey_inj,
    ← Binary64.orderKey_inj]
  omega

/-- A stable sort by the clocks keeps the order of configurations with the same clocks. -/
theorem filter_mergeSort_sameClocks {ge : Config → Config → Bool}
    (trans : ∀ f g h, ge f g → ge g h → ge f h) (total : ∀ f g, ge f g || ge g f)
    (by_clocks : ∀ f g, SameClocks f g → ge f g) (f : Config) (configs : List Config) :
    (configs.mergeSort ge).filter (f.SameClocks ·) = configs.filter (f.SameClocks ·) := by
  apply filter_mergeSort_of_ties trans total
  intro g h g_same h_same
  have g_same := of_decide_eq_true g_same
  have h_same := of_decide_eq_true h_same
  exact by_clocks g h ⟨g_same.1.symm.trans h_same.1, g_same.2.symm.trans h_same.2⟩

/-- Two passes descend by the pair of clocks. -/
theorem ranked_pairwise_clocksGe (configs : List Config) :
    (ranked configs).Pairwise (clocksGe · ·) := by
  refine (ranked_descending configs).imp ?_
  intro f g ⟨cpu_ge, ram_ge⟩
  simp only [ThenBy, clockGe, decide_eq_true_eq] at cpu_ge ram_ge
  rw [clocksGe_iff]
  rcases Int.lt_or_eq_of_le cpu_ge with lt | same
  · exact .inl lt
  · exact .inr ⟨same, (ram_ge (Int.le_of_eq same.symm)).1⟩

theorem filter_ranked (f : Config) (configs : List Config) :
    (ranked configs).filter (f.SameClocks ·) = configs.filter (f.SameClocks ·) := by
  rw [ranked, filter_mergeSort_sameClocks (clockGe_trans cpu) (clockGe_total cpu),
    filter_mergeSort_sameClocks (clockGe_trans ram) (clockGe_total ram)]
  · exact fun g h same => by simp [clockGe, same.2]
  · exact fun g h same => by simp [clockGe, same.1]

theorem ranked_eq_mergeSort (configs : List Config) :
    ranked configs = configs.mergeSort clocksGe := by
  apply eq_of_filter_ties_eq clocksGe_refl (ranked_pairwise_clocksGe configs)
    (List.pairwise_mergeSort clocksGe_trans clocksGe_total configs)
  intro f
  have class_eq : ties clocksGe f = (f.SameClocks ·) := by
    funext g
    rw [Bool.eq_iff_iff, ties_clocksGe_iff, decide_eq_true_iff]
  rw [class_eq, filter_ranked, filter_mergeSort_sameClocks clocksGe_trans clocksGe_total]
  intro g h same
  exact (Bool.and_eq_true_iff.mp (ties_clocksGe_iff.mpr same)).1

/-- Ranking is the stable sort by CPU clock, then RAM clock, both descending in the total order:
it rearranges its input, nothing stands before what its clocks should follow, and
configurations with the same clocks keep their order. -/
theorem rank_eq_lexicographic_sort {configs : List Config} (fit : ∀ f ∈ configs, f.PllFits) :
    ∃ out, rank configs = .ok out ∧ out = configs.mergeSort clocksGe ∧ out.Perm configs ∧
      out.Pairwise (clocksGe · ·) ∧
      ∀ f : Config, out.filter (f.SameClocks ·) = configs.filter (f.SameClocks ·) :=
  ⟨ranked configs, rank_eq_ok fit, ranked_eq_mergeSort configs, ranked_perm configs,
    ranked_pairwise_clocksGe configs, fun f => filter_ranked f configs⟩

/-- A clock of infinity, two clocks of NaN, and twice the clocks 360 and 120. -/
theorem rank_eq_lexicographic_sort_with_ties :
    let configs : List Config :=
      [⟨30, 1, 6⟩, ⟨0, 0, 0⟩, ⟨60, 2, 6⟩, ⟨0, 0, 0⟩, ⟨30, 1, 3⟩, ⟨30, 0, 3⟩]
    (∀ f ∈ configs, f.PllFits) ∧ ∃ out, rank configs = .ok out ∧
      out = configs.mergeSort clocksGe ∧ out.Perm configs ∧ out.Pairwise (clocksGe · ·) ∧
      out.filter (SameClocks ⟨30, 1, 3⟩ ·) = [⟨60, 2, 6⟩, ⟨30, 1, 3⟩] := by
  intro configs
  have fit : ∀ f ∈ configs, f.PllFits := by decide
  obtain ⟨out, ranking, sorted, perm, descending, kept⟩ := rank_eq_lexicographic_sort fit
  refine ⟨fit, out, ranking, sorted, perm, descending, ?_⟩
  rw [kept]
  decide +kernel

end Config

end ClockTree
