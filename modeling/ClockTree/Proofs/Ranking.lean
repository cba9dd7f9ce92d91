import ClockTree.Search
import ClockTree.Proofs.SearchSpace
import ClockTree.Proofs.Clocks

/-! Ranking. A stable sort refines the order of its input, so two passes give the order of
the second key refined by the first key refined by the input. On a list in generator order
that order is strict: a ranked list is the only one of its elements that stands in it, which
is why ranking commutes with filtering and forgets how its input was arranged. -/
namespace ClockTree

section StableSort

variable {α : Type} {le : α → α → Bool} {before : α → α → Prop}

def ThenBy (le : α → α → Bool) (before : α → α → Prop) (a b : α) : Prop :=
  le a b = true ∧ (le b a = true → before a b)

theorem ThenBy.imp {before' : α → α → Prop} {a b : α} (weaker : before a b → before' a b)
    (ordered : ThenBy le before a b) : ThenBy le before' a b :=
  ⟨ordered.1, fun tie => weaker (ordered.2 tie)⟩

theorem ThenBy.asymm {a b : α} (before_asymm : before a b → ¬ before b a)
    (ordered : ThenBy le before a b) : ¬ ThenBy le before b a :=
  fun reversed => before_asymm (ordered.2 reversed.1) (reversed.2 ordered.1)

theorem pairwise_mergeSort_thenBy (trans : ∀ a b c, le a b → le b c → le a c)
    (total : ∀ a b, le a b || le b a) {xs : List α} (arranged : xs.Pairwise before) :
    (xs.mergeSort le).Pairwise (ThenBy le before) := by
  -- Sorting `a :: xs` puts `a` into the sorted `xs`, before everything it ties with.
  induction xs with
  | nil => simp
  | cons a xs ih =>
    obtain ⟨first, ih_arranged⟩ := List.pairwise_cons.mp arranged
    obtain ⟨smaller, greater, sorted_eq, rest_eq, smaller_lt⟩ :=
      List.mergeSort_cons trans total a xs
    have rest := ih ih_arranged
    have mem_rest : ∀ b ∈ smaller ++ greater, b ∈ xs := by
      intro b b_mem
      rwa [← rest_eq, List.mem_mergeSort] at b_mem
    have sorted := List.pairwise_mergeSort trans total (a :: xs)
    rw [sorted_eq, List.pairwise_append, List.pairwise_cons] at sorted
    rw [rest_eq, List.pairwise_append] at rest
    rw [sorted_eq, List.pairwise_append, List.pairwise_cons]
    refine ⟨rest.1, ⟨?_, rest.2.1⟩, ?_⟩
    · intro b b_mem
      exact ⟨sorted.2.1.1 b b_mem, fun _ => first b (mem_rest b (List.mem_append_right _ b_mem))⟩
    · intro b b_mem c c_mem
      rcases List.mem_cons.mp c_mem with rfl | c_mem
      · have apart := smaller_lt b b_mem
        exact ⟨sorted.2.2 b b_mem c List.mem_cons_self, fun reversed => by simp [reversed] at apart⟩
      · exact rest.2.2 b b_mem c c_mem

end StableSort

namespace Config

theorem clockGe_trans (clock : Config → Binary64) (f g h : Config) (first : clockGe clock f g)
    (second : clockGe clock g h) : clockGe clock f h := by
  simp only [clockGe, decide_eq_true_eq] at first second ⊢
  exact Int.le_trans second first

theorem clockGe_total (clock : Config → Binary64) (f g : Config) :
    clockGe clock f g || clockGe clock g f := by
  simp only [clockGe, Bool.or_eq_true, decide_eq_true_eq]
  exact Int.le_total ..

def RankedBefore : Config → Config → Prop :=
  ThenBy (clockGe cpu) (ThenBy (clockGe ram) GeneratedBefore)

theorem RankedBefore.asymm {f g : Config} (before : f.RankedBefore g) : ¬ g.RankedBefore f :=
  ThenBy.asymm (ThenBy.asymm GeneratedBefore.asymm) before

theorem ranked_perm (configs : List Config) : (ranked configs).Perm configs :=
  (List.mergeSort_perm ..).trans (List.mergeSort_perm ..)

/-- Whatever order the input has decides between equal clocks. -/
theorem ranked_pairwise {before : Config → Config → Prop} {configs : List Config}
    (arranged : configs.Pairwise before) :
    (ranked configs).Pairwise (ThenBy (clockGe cpu) (ThenBy (clockGe ram) before)) :=
  pairwise_mergeSort_thenBy (clockGe_trans cpu) (clockGe_total cpu)
    (pairwise_mergeSort_thenBy (clockGe_trans ram) (clockGe_total ram) arranged)

/-- From an input in no particular order. -/
theorem ranked_descending (configs : List Config) :
    (ranked configs).Pairwise (ThenBy (clockGe cpu) (ThenBy (clockGe ram) fun _ _ => True)) :=
  ranked_pairwise (List.pairwise_of_forall fun _ _ => trivial)

theorem eq_of_perm_of_rankedBefore {xs ys : List Config} (perm : xs.Perm ys)
    (xs_ranked : xs.Pairwise RankedBefore) (ys_ranked : ys.Pairwise RankedBefore) : xs = ys :=
  perm.eq_of_pairwise (fun _ _ _ _ before after => absurd after before.asymm) xs_ranked ys_ranked

theorem rank_eq_ok {configs : List Config} (fit : ∀ f ∈ configs, f.PllFits) :
    rank configs = .ok (ranked configs) := by
  rw [rank, if_pos fit]
  split
  next short =>
    rcases configs with _ | ⟨f, _ | ⟨g, rest⟩⟩
    · simp [ranked]
    · simp [ranked]
    · simp at short
  next => rfl

/-- A ranking that answers has rearranged its input. -/
theorem perm_of_rank_eq_ok {configs out : List Config} (answer : rank configs = .ok out) :
    out.Perm configs := by
  simp only [rank] at answer
  split at answer
  · cases answer
    exact .refl _
  · split at answer
    · cases answer
      exact ranked_perm _
    · cases answer

/-- Both clocks are numbers without a sign, infinity included. -/
def HasClocks (f : Config) : Prop :=
  (∃ m, f.cpu = .number false m) ∧ ∃ m, f.ram = .number false m

theorem hasClocks_of_ne_zero {f : Config} (fits : f.PllFits) (cpuDiv_ne : f.cpuDiv ≠ 0)
    (ramDiv_ne : f.ramDiv ≠ 0) : f.HasClocks :=
  ⟨⟨_, cpu_eq fits (.inr cpuDiv_ne)⟩, ⟨_, ram_eq fits (.inr ramDiv_ne)⟩⟩

/-- Without signs the total order is the numeric one. -/
theorem clockGe_iff {clock : Config → Binary64} {f g : Config}
    (f_clock : ∃ m, clock f = .number false m) (g_clock : ∃ m, clock g = .number false m) :
    clockGe clock f g = true ↔ clock g ≤ clock f := by
  obtain ⟨a, f_eq⟩ := f_clock
  obtain ⟨b, g_eq⟩ := g_clock
  rw [clockGe, f_eq, g_eq, decide_eq_true_eq]
  rfl

theorem lt_or_eqv_of_ge {clock : Config → Binary64} {f g : Config}
    (f_clock : ∃ m, clock f = .number false m) (g_clock : ∃ m, clock g = .number false m)
    (ge : clock g ≤ clock f) : clock g < clock f ∨ (clock f).Eqv (clock g) := by
  obtain ⟨a, f_eq⟩ := f_clock
  obtain ⟨b, g_eq⟩ := g_clock
  rw [f_eq, g_eq] at ge ⊢
  rw [Binary64.number_false_le] at ge
  rw [Binary64.number_false_lt, Binary64.eqv_number_false]
  omega

theorem RankedBefore.descending {f g : Config} (f_clocks : f.HasClocks) (g_clocks : g.HasClocks)
    (before : f.RankedBefore g) :
    g.cpu < f.cpu ∨ f.cpu.Eqv g.cpu ∧ g.ram ≤ f.ram := by
  have cpu_ge := (clockGe_iff f_clocks.1 g_clocks.1).mp before.1
  rcases lt_or_eqv_of_ge f_clocks.1 g_clocks.1 cpu_ge with lt | same
  · exact .inl lt
  · have reversed := (clockGe_iff g_clocks.1 f_clocks.1).mpr (Binary64.eqv_iff_le_and_ge.mp same).1
    exact .inr ⟨same, (clockGe_iff f_clocks.2 g_clocks.2).mp (before.2 reversed).1⟩

/-- Configurations that may stand either way round have equal clocks. -/
theorem eqv_of_thenBy_both {before : Config → Config → Prop} {f g : Config}
    (f_clocks : f.HasClocks) (g_clocks : g.HasClocks)
    (ordered : ThenBy (clockGe cpu) (ThenBy (clockGe ram) before) f g)
    (reversed : ThenBy (clockGe cpu) (ThenBy (clockGe ram) before) g f) :
    f.cpu.Eqv g.cpu ∧ f.ram.Eqv g.ram := by
  have ram_ordered := ordered.2 reversed.1
  have ram_reversed := reversed.2 ordered.1
  rw [ThenBy, clockGe_iff f_clocks.1 g_clocks.1] at ordered
  rw [ThenBy, clockGe_iff g_clocks.1 f_clocks.1] at reversed
  rw [ThenBy, clockGe_iff f_clocks.2 g_clocks.2] at ram_ordered
  rw [ThenBy, clockGe_iff g_clocks.2 f_clocks.2] at ram_reversed
  exact ⟨Binary64.eqv_iff_le_and_ge.mpr ⟨reversed.1, ordered.1⟩,
    Binary64.eqv_iff_le_and_ge.mpr ⟨ram_reversed.1, ram_ordered.1⟩⟩

theorem RankedBefore.generated {f g : Config} (f_clocks : f.HasClocks) (g_clocks : g.HasClocks)
    (before : f.RankedBefore g) (same_cpu : f.cpu.Eqv g.cpu) (same_ram : f.ram.Eqv g.ram) :
    f.GeneratedBefore g := by
  have cpu_le := (clockGe_iff g_clocks.1 f_clocks.1).mpr (Binary64.eqv_iff_le_and_ge.mp same_cpu).1
  have ram_le := (clockGe_iff g_clocks.2 f_clocks.2).mpr (Binary64.eqv_iff_le_and_ge.mp same_ram).1
  exact (before.2 cpu_le).2 ram_le

end Config

end ClockTree
