import ClockTree.Row
import Mathlib

/-! Numbers in a line of text. A written number is free of blanks and of the marks that stand before
factors or end a percentage, so a line of the table falls into words at its blanks however wide the
columns have become, and each number can be told from its word. -/
namespace ClockTree

section Characters

def IsNumberChar (c : Char) : Prop := c.isDigit = true ∨ c ∈ ['-', '.', 'i', 'n', 'f', 'N', 'a']

instance (c : Char) : Decidable (IsNumberChar c) := inferInstanceAs (Decidable (_ ∨ _))

variable {c : Char}

theorem isNumberChar_of_mem_toDigits {n : Nat} (mem : c ∈ Nat.toDigits 10 n) : IsNumberChar c :=
  .inl (Nat.isDigit_of_mem_toDigits (by decide) (by decide) mem)

theorem isNumberChar_of_mem_tenthsText {n : Nat} (mem : c ∈ (tenthsText n).toList) :
    IsNumberChar c := by
  simp only [tenthsText, String.toList_append, Nat.toList_repr, List.mem_append] at mem
  rcases mem with (whole | point) | tenth
  · exact isNumberChar_of_mem_toDigits whole
  · obtain rfl : c = '.' := by simpa using point
    decide
  · exact isNumberChar_of_mem_toDigits tenth

theorem isNumberChar_of_mem_oneDecimal {x : Binary64} (mem : c ∈ x.oneDecimal.toList) :
    IsNumberChar c := by
  cases x with
  | nan =>
    have letter : c = 'N' ∨ c = 'a' ∨ c = 'N' := by simpa [Binary64.oneDecimal] using mem
    rcases letter with rfl | rfl | rfl <;> decide
  | number s m =>
    rw [Binary64.oneDecimal, String.toList_append, List.mem_append] at mem
    rcases mem with sign | size
    · obtain rfl : c = '-' := by cases s <;> simp at sign; assumption
      decide
    · split at size
      · have letter : c = 'i' ∨ c = 'n' ∨ c = 'f' := by simpa using size
        rcases letter with rfl | rfl | rfl <;> decide
      · exact isNumberChar_of_mem_tenthsText size

variable (other : ¬ IsNumberChar c)
include other

theorem notMem_toDigits (n : Nat) : c ∉ Nat.toDigits 10 n :=
  fun mem => other (isNumberChar_of_mem_toDigits mem)

theorem notMem_oneDecimal (x : Binary64) : c ∉ x.oneDecimal.toList :=
  fun mem => other (isNumberChar_of_mem_oneDecimal mem)

theorem notMem_column (visible : c ≠ ' ') (width : Nat) (x : Binary64) :
    c ∉ (x.column width).toList := by
  simp [Binary64.column, notMem_oneDecimal other, visible]

end Characters

/-- A list is divided in one way at the first place where an element stands. -/
theorem append_cons_inj {α : Type} [BEq α] [LawfulBEq α] {a : α} {xs ys s t : List α}
    (xs_free : a ∉ xs) (ys_free : a ∉ ys) : xs ++ a :: s = ys ++ a :: t ↔ xs = ys ∧ s = t := by
  refine ⟨fun same => ?_, fun ⟨front, back⟩ => by rw [front, back]⟩
  have lengths := congrArg (List.idxOf a) same
  simp only [List.idxOf_append_of_notMem xs_free, List.idxOf_append_of_notMem ys_free,
    List.idxOf_cons_self, Nat.add_zero] at lengths
  obtain ⟨rfl, rest⟩ := List.append_inj same lengths
  exact ⟨rfl, (List.cons.inj rest).2⟩

theorem toDigits_inj {m n : Nat} : Nat.toDigits 10 m = Nat.toDigits 10 n ↔ m = n := by
  refine ⟨fun same => ?_, congrArg _⟩
  calc m = Nat.ofDigitChars 10 (Nat.toDigits 10 m) 0 := Nat.ofDigitChars_ten_toDigits.symm
    _ = Nat.ofDigitChars 10 (Nat.toDigits 10 n) 0 := by rw [same]
    _ = n := Nat.ofDigitChars_ten_toDigits

theorem oneDecimal_ne_nil (x : Binary64) : x.oneDecimal.toList ≠ [] := by
  cases x with
  | nan => decide
  | number s m =>
    by_cases infinite : m.IsInfinite
    · simp [Binary64.oneDecimal, infinite]
    · simp [Binary64.oneDecimal, infinite, tenthsText]

section Words

def words (text : List Char) : List (List Char) := (text.splitOn ' ').filter (· ≠ [])

@[simp] theorem words_nil : words [] = [] := by simp [words]

@[simp] theorem words_append_blank (s t : List Char) : words (s ++ ' ' :: t) = words s ++ words t := by
  rw [words, List.splitOn_append_cons_self, List.filter_append, words, words]

@[simp] theorem words_cons_append_blank (c : Char) (s t : List Char) :
    words (c :: (s ++ ' ' :: t)) = words (c :: s) ++ words t :=
  words_append_blank (c :: s) t

@[simp] theorem words_blank (t : List Char) : words (' ' :: t) = words t := by
  simpa using words_append_blank [] t

theorem words_of_blankFree {s : List Char} (nonempty : s ≠ []) (blankFree : ' ' ∉ s) :
    words s = [s] := by
  simp [words, List.splitOn_eq_singleton blankFree, nonempty]

@[simp] theorem words_replicate_append (k : Nat) (t : List Char) :
    words (List.replicate k ' ' ++ t) = words t := by
  induction k with
  | zero => rfl
  | succ k ih => simpa [List.replicate_succ] using ih

@[simp] theorem words_append_replicate (s : List Char) (k : Nat) :
    words (s ++ List.replicate k ' ') = words s := by
  cases k with
  | zero => simp
  | succ k =>
    have blanks : words (List.replicate k ' ') = [] := by
      simpa using words_replicate_append k []
    simp [List.replicate_succ, blanks]

@[simp] theorem words_mhzText (x : Binary64) : words (mhzText x).toList = [x.oneDecimal.toList] := by
  have number := words_of_blankFree (oneDecimal_ne_nil x) (notMem_oneDecimal (by decide) x)
  simpa [mhzText, Binary64.column] using number

/-- A factor with its mark is one word. -/
theorem words_factorText (mark : Char) (visible : ' ' ≠ mark) (factor : UInt32) :
    words (mark :: (factorText factor).toList) = [mark :: Nat.toDigits 10 factor.toNat] := by
  have blankFree : ' ' ∉ mark :: Nat.toDigits 10 factor.toNat :=
    List.not_mem_cons_of_ne_of_not_mem visible (notMem_toDigits (by decide) _)
  have number := words_of_blankFree (List.cons_ne_nil _ _) blankFree
  rw [factorText, toList_alignLeft, Nat.toList_repr, ← List.cons_append, words_append_replicate,
    number]

end Words

end ClockTree
