import ClockTree.Proofs.NumberText

/-! Numerals with one decimal, as a form of text of its own: a sign or none, an integer part without
superfluous zeros, a point and one digit. The text of a numeral has one reading, and every count of
tenths has a numeral, which is the text that is written for it. -/
namespace ClockTree

@[ext] structure Numeral where
  negative : Bool
  whole : List Char
  tenth : Char
  whole_ne : whole ≠ []
  whole_digits : ∀ c ∈ whole, c.isDigit = true
  /-- Zero is the only integer part that begins with a zero. -/
  whole_canonical : whole.head? = some '0' → whole = ['0']
  tenth_digit : tenth.isDigit = true

namespace Numeral

def text (n : Numeral) : List Char :=
  (if n.negative then ['-'] else []) ++ (n.whole ++ ['.', n.tenth])

def size (n : Numeral) : Nat := Nat.ofDigitChars 10 (n.whole ++ [n.tenth]) 0

def tenths (n : Numeral) : Int := if n.negative then -(n.size : Int) else n.size

variable {m n : Numeral}

theorem notMem_whole {c : Char} (other : c.isDigit = false) (n : Numeral) : c ∉ n.whole := by
  intro mem
  simp [n.whole_digits c mem] at other

theorem tenth_ne {c : Char} (other : c.isDigit = false) (n : Numeral) : n.tenth ≠ c := by
  rintro rfl
  simp [n.tenth_digit] at other

theorem minus_mem_text_iff : '-' ∈ n.text ↔ n.negative = true := by
  have whole := n.notMem_whole (c := '-') rfl
  have tenth := n.tenth_ne (c := '-') rfl
  cases sign : n.negative <;> simp [text, sign, whole, tenth.symm]

/-- A text is read as a numeral in one way. -/
theorem text_inj : m.text = n.text ↔ m = n := by
  refine ⟨fun same => ?_, congrArg text⟩
  have sign : m.negative = n.negative := by
    rw [Bool.eq_iff_iff, ← minus_mem_text_iff, ← minus_mem_text_iff, same]
  rw [text, text, sign, List.append_cancel_left_eq,
    append_cons_inj (m.notMem_whole rfl) (n.notMem_whole rfl)] at same
  exact Numeral.ext sign same.1 (List.cons.inj same.2).1

end Numeral

section OfTenths

theorem head?_toDigits_ne {n : Nat} (positive : 0 < n) : (Nat.toDigits 10 n).head? ≠ some '0' := by
  -- The leading digit stays when the last one is taken off.
  induction n using Nat.strong_induction_on with
  | h n ih =>
    by_cases small : n < 10
    · rw [Nat.toDigits_of_lt_base small]
      interval_cases n <;> decide
    · rw [Nat.toDigits_of_base_le (by decide) (Nat.le_of_not_lt small),
        List.head?_append_of_ne_nil _ Nat.toDigits_ne_nil]
      exact ih (n / 10) (by omega) (by omega)

theorem toDigits_canonical {n : Nat} (zero_first : (Nat.toDigits 10 n).head? = some '0') :
    Nat.toDigits 10 n = ['0'] := by
  rcases Nat.eq_zero_or_pos n with rfl | positive
  · exact Nat.toDigits_zero 10
  · exact absurd zero_first (head?_toDigits_ne positive)

theorem isDigit_digitChar {d : Nat} (small : d < 10) : d.digitChar.isDigit = true := by
  interval_cases d <;> rfl

def Numeral.ofTenths (negative : Bool) (count : Nat) : Numeral where
  negative := negative
  whole := Nat.toDigits 10 (count / 10)
  tenth := (count % 10).digitChar
  whole_ne := Nat.toDigits_ne_nil
  whole_digits := fun _ mem => Nat.isDigit_of_mem_toDigits (by decide) (by decide) mem
  whole_canonical := toDigits_canonical
  tenth_digit := isDigit_digitChar (Nat.mod_lt count (by decide))

theorem Numeral.size_ofTenths (negative : Bool) (count : Nat) :
    (ofTenths negative count).size = count := by
  rw [size, ofTenths, Nat.ofDigitChars_append, Nat.ofDigitChars_ten_toDigits,
    Nat.ofDigitChars_cons_digitChar_of_lt_ten (Nat.mod_lt count (by decide)), Nat.ofDigitChars_nil]
  exact Nat.div_add_mod count 10

theorem Numeral.tenths_ofTenths (negative : Bool) (count : Nat) :
    (ofTenths negative count).tenths = if negative then -(count : Int) else count := by
  rw [tenths, size_ofTenths]
  rfl

theorem Numeral.text_ofTenths (negative : Bool) (count : Nat) :
    (ofTenths negative count).text =
      ((if negative then "-" else "") ++ tenthsText count).toList := by
  have last := Nat.toDigits_of_lt_base (Nat.mod_lt count (y := 10) (by decide))
  cases negative <;> simp [text, ofTenths, tenthsText, last]

end OfTenths

end ClockTree
