import Mathlib

/-! Outcomes of computations that may fail, and of the two traversals of a list by such a
computation. A filter or a map that answers has had an answer for every element; where only one
fault can come up, it fails exactly if one of the elements does. -/
namespace ClockTree

section Outcome

variable {ε ε' α β : Type}

/-- What has no fault answers. -/
theorem exists_eq_ok_iff {x : Except ε α} : (∃ a, x = .ok a) ↔ ∀ e, x ≠ .error e := by
  cases x <;> simp

theorem bind_eq_ok_iff {x : Except ε α} {f : α → Except ε β} {b : β} :
    x >>= f = .ok b ↔ ∃ a, x = .ok a ∧ f a = .ok b := by
  cases x <;> simp [bind, Except.bind]

theorem map_eq_ok_iff {x : Except ε α} {f : α → β} {b : β} :
    x.map f = .ok b ↔ ∃ a, x = .ok a ∧ f a = b := by
  cases x <;> simp [Except.map]

theorem map_eq_error_iff {x : Except ε α} {f : α → β} {e : ε} :
    x.map f = .error e ↔ x = .error e := by
  cases x <;> simp [Except.map]

theorem mapError_eq_ok_iff {x : Except ε α} {f : ε → ε'} {a : α} :
    x.mapError f = .ok a ↔ x = .ok a := by
  cases x <;> simp [Except.mapError]

end Outcome

section Filter

variable {α ε : Type} {test : α → Except ε Bool} {accepted : α → Bool} {xs : List α} {fault : ε}

theorem filterAuxM_eq_ok (answers : ∀ a ∈ xs, test a = .ok (accepted a)) (kept : List α) :
    List.filterAuxM test xs kept = .ok ((xs.filter accepted).reverse ++ kept) := by
  induction xs generalizing kept with
  | nil => rfl
  | cons a xs ih =>
    have rest := ih fun b b_mem => answers b (List.mem_cons_of_mem a b_mem)
    rw [List.filterAuxM, answers a List.mem_cons_self]
    cases taken : accepted a with
    | false =>
      rw [List.filter_cons_of_neg (by simp [taken])]
      exact rest kept
    | true =>
      rw [List.filter_cons_of_pos taken, List.reverse_cons, List.append_assoc]
      exact rest (a :: kept)

theorem filterM_eq_ok (answers : ∀ a ∈ xs, test a = .ok (accepted a)) :
    xs.filterM test = .ok (xs.filter accepted) := by
  rw [List.filterM, filterAuxM_eq_ok answers]
  simp

/-- What a filter keeps has passed its test. -/
theorem filterAuxM_passed {kept out : List α} (answer : List.filterAuxM test xs kept = .ok out)
    {a : α} (mem : a ∈ out) : a ∈ kept ∨ test a = .ok true := by
  induction xs generalizing kept with
  | nil =>
    cases answer
    exact .inl mem
  | cons b xs ih =>
    rw [List.filterAuxM, bind_eq_ok_iff] at answer
    obtain ⟨passed, tested, answer⟩ := answer
    cases passed with
    | false => exact ih answer
    | true =>
      rcases ih answer with earlier | later
      · rcases List.mem_cons.mp earlier with rfl | earlier
        · exact .inr tested
        · exact .inl earlier
      · exact .inr later

theorem filterM_passed {out : List α} (answer : xs.filterM test = .ok out) {a : α}
    (mem : a ∈ out) : test a = .ok true := by
  rw [List.filterM, bind_eq_ok_iff] at answer
  obtain ⟨kept, filtered, answer⟩ := answer
  cases answer
  simpa using filterAuxM_passed filtered (List.mem_reverse.mp mem)

/-- Where all faults are alike, it does not matter which element is the first to stop a filter. -/
theorem filterAuxM_eq_error (alike : ∀ a ∈ xs, ∀ e, test a = .error e → e = fault)
    (stops : ∃ a ∈ xs, test a = .error fault) (kept : List α) :
    List.filterAuxM test xs kept = .error fault := by
  induction xs generalizing kept with
  | nil => simp at stops
  | cons a xs ih =>
    rw [List.filterAuxM]
    cases tested : test a with
    | error e =>
      rw [alike a List.mem_cons_self e tested]
      rfl
    | ok passed =>
      have later : ∃ b ∈ xs, test b = .error fault := by simpa [tested] using stops
      exact ih (fun b mem => alike b (List.mem_cons_of_mem a mem)) later _

theorem filterM_eq_error (alike : ∀ a ∈ xs, ∀ e, test a = .error e → e = fault)
    (stops : ∃ a ∈ xs, test a = .error fault) : xs.filterM test = .error fault := by
  rw [List.filterM, filterAuxM_eq_error alike stops]
  rfl

end Filter

section Map

variable {α β ε : Type} {f : α → Except ε β} {xs : List α} {fault e : ε}

/-- A traversal that answers has answered for every element, in order. -/
theorem mapM_eq_ok_iff {ys : List β} :
    xs.mapM f = .ok ys ↔ List.Forall₂ (fun x y => f x = .ok y) xs ys := by
  induction xs generalizing ys with
  | nil => cases ys <;> simp [pure, Except.pure]
  | cons x xs ih =>
    simp only [List.mapM_cons, bind_eq_ok_iff]
    constructor
    · rintro ⟨y, first, rest, traversed, same⟩
      cases same
      exact .cons first (ih.mp traversed)
    · rintro (_ | ⟨first, rest⟩)
      exact ⟨_, first, _, ih.mpr rest, rfl⟩

/-- Where all faults are alike, a traversal fails with one of its elements, whichever it is. -/
theorem mapM_eq_error_iff (alike : ∀ x ∈ xs, ∀ e, f x = .error e → e = fault) :
    xs.mapM f = .error e ↔ ∃ x ∈ xs, f x = .error e := by
  induction xs with
  | nil => simp [pure, Except.pure]
  | cons x xs ih =>
    have rest := ih fun y mem => alike y (List.mem_cons_of_mem x mem)
    rw [List.mapM_cons, List.exists_mem_cons_iff, ← rest]
    cases first : f x with
    | error e' =>
      -- The first fault ends the traversal, and a later one would be the same.
      have same : e' = fault := alike x List.mem_cons_self e' first
      simp only [bind, Except.bind, Except.error.injEq, iff_self_or]
      intro later
      obtain ⟨y, mem, stopped⟩ := rest.mp later
      exact same.trans (alike y (List.mem_cons_of_mem x mem) e stopped).symm
    | ok y => cases xs.mapM f <;> simp [bind, Except.bind, pure, Except.pure]

end Map

end ClockTree
