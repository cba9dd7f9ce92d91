import ClockTree.Candidates
import ClockTree.Legality

/-! Search for legal configurations, and their order: CPU clock descending, then RAM
clock descending, by the total order of binary64 numbers. -/
namespace ClockTree

/-- A fold over blocks is a fold of folds. -/
theorem foldlM_flatMap {m : Type → Type} [Monad m] [LawfulMonad m] {α β σ : Type}
    (blocks : α → List β) (step : σ → β → m σ) (xs : List α) (state : σ) :
    (xs.flatMap blocks).foldlM step state =
      xs.foldlM (fun state a => (blocks a).foldlM step state) state := by
  induction xs generalizing state with
  | nil => rfl
  | cons a xs ih => simp only [List.flatMap_cons, List.foldlM_append, List.foldlM_cons, ih]

namespace Config

def clockGe (clock : Config → Binary64) (f g : Config) : Bool :=
  (clock g).orderKey ≤ (clock f).orderKey

/-- Two stable passes, the secondary key first. -/
def ranked (configs : List Config) : List Config :=
  (configs.mergeSort (clockGe ram)).mergeSort (clockGe cpu)

/-- Ranking compares every configuration as soon as there are two, so a PLL output that
does not fit is a fault from then on. -/
def rank (configs : List Config) : Except Fault (List Config) :=
  if configs.length < 2 then .ok configs
  else if ∀ f ∈ configs, f.PllFits then .ok (ranked configs)
  else .error .pllOverflow

end Config

inductive SearchError where
  | limits (error : LimitsError)
  | fault (fault : Fault)
  deriving DecidableEq, Repr

namespace Limits

/-- Adds a candidate to those found, latest first, if it is legal. The clocks are formed only
if the dividers match. -/
def keepLegal (l : Limits) (found : List Config) (f : Config) : Except Fault (List Config) :=
  if l.DividersClash f then .ok found
  else match l.permits f with
    | .error fault => .error fault
    | .ok legal => .ok (if legal then f :: found else found)

/-- Searches one multiplier. Outside the band there is nothing to find. -/
def searchAt (l : Limits) (found : List Config) (pllMul : UInt32) : Except Fault (List Config) :=
  if l.OutOfBand pllMul then .ok found
  else l.dividers.foldlM (fun found cpuDiv =>
    l.dividers.foldlM (fun found ramDiv => l.keepLegal found ⟨pllMul, cpuDiv, ramDiv⟩) found) found

def legalCandidates (l : Limits) : Except Fault (List Config) :=
  (l.foldMultipliers l.searchAt []).map List.reverse

theorem keepLegal_eq (l : Limits) (found : List Config) (f : Config) :
    l.keepLegal found f =
      (l.permits f).map fun legal => if legal then f :: found else found := by
  by_cases clash : l.DividersClash f
  · rw [keepLegal, if_pos clash, permits_of_dividersClash clash]
    rfl
  · rw [keepLegal, if_neg clash]
    cases l.permits f <;> rfl

theorem foldlM_keepLegal (l : Limits) (configs found : List Config) :
    configs.foldlM l.keepLegal found = List.filterAuxM l.permits configs found := by
  induction configs generalizing found with
  | nil => rfl
  | cons f configs ih =>
    rw [List.foldlM_cons, List.filterAuxM, keepLegal_eq]
    cases l.permits f with
    | error fault => rfl
    | ok legal => cases legal <;> exact ih _

theorem foldlM_keepLegal_outOfBand (l : Limits) {configs : List Config}
    (out : ∀ f ∈ configs, l.OutOfBand f.pllMul) (found : List Config) :
    configs.foldlM l.keepLegal found = .ok found := by
  induction configs with
  | nil => rfl
  | cons f configs ih =>
    have kept : l.keepLegal found f = .ok found := by
      rw [keepLegal_eq, permits_of_outOfBand (out f List.mem_cons_self)]
      rfl
    rw [List.foldlM_cons, kept]
    exact ih fun g g_mem => out g (List.mem_cons_of_mem f g_mem)

theorem searchAt_eq (l : Limits) (found : List Config) (pllMul : UInt32) :
    l.searchAt found pllMul = (l.candidatesAt pllMul).foldlM l.keepLegal found := by
  by_cases out : l.OutOfBand pllMul
  · rw [searchAt, if_pos out, l.foldlM_keepLegal_outOfBand fun f f_mem => ?_]
    rwa [pllMul_of_mem_candidatesAt f_mem]
  · simp only [searchAt, if_neg out, candidatesAt, foldlM_flatMap, List.foldlM_map]

theorem foldlM_searchAt (l : Limits) (multipliers : List UInt32) (found : List Config) :
    multipliers.foldlM l.searchAt found =
      (multipliers.flatMap l.candidatesAt).foldlM l.keepLegal found := by
  simp only [foldlM_flatMap, ← searchAt_eq]

theorem legalCandidates_eq (l : Limits) :
    l.legalCandidates = l.candidates.filterM l.permits := by
  rw [legalCandidates, foldMultipliers_eq, foldlM_searchAt, ← candidates, foldlM_keepLegal,
    List.filterM]
  cases List.filterAuxM l.permits l.candidates [] <;> rfl

/-- The legal candidates, ranked. The table is validated before any candidate is formed. -/
def enumerate (l : Limits) : Except SearchError (List Config) :=
  match l.validate with
  | .error error => .error (.limits error)
  | .ok () => (l.legalCandidates.bind Config.rank).mapError .fault

end Limits

end ClockTree
