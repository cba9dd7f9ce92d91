import ClockTree.Proofs.RowIdentity

/-! Rows under the header. While every number fits its column, each word of a line stands in a known
place: numbers end where their columns end, factors begin where theirs begin. The labels of the header
stand in the same places up to the standard storage rate. The high-capacity rate and the remark stand
one place further to the right than their labels, in every row. -/
namespace ClockTree

/-- A word of a text, with the column where it begins. Columns are counted from zero. -/
structure PlacedWord where
  start : Nat
  chars : List Char
  deriving DecidableEq, Repr

namespace PlacedWord

def stop (w : PlacedWord) : Nat := w.start + w.chars.length

/-- A word that ends before a column, which has to leave room for it. -/
def endingAt (column : Nat) (s : String) : PlacedWord := ⟨column - s.length, s.toList⟩

theorem stop_endingAt {column : Nat} {s : String} (room : s.length ≤ column) :
    (endingAt column s).stop = column := by
  rw [stop, endingAt, String.length_toList]
  exact Nat.sub_add_cancel room

end PlacedWord

section Places

def placePieces : Nat → List (List Char) → List PlacedWord
  | _, [] => []
  | column, piece :: rest =>
    (if piece = [] then [] else [⟨column, piece⟩]) ++ placePieces (column + piece.length + 1) rest

def placedWords (column : Nat) (text : List Char) : List PlacedWord :=
  placePieces column (text.splitOn ' ')

/-- The columns that pieces take up, with a blank after each of them. -/
def extent (pieces : List (List Char)) : Nat := (pieces.map fun piece => piece.length + 1).sum

@[simp] theorem extent_cons (piece : List Char) (rest : List (List Char)) :
    extent (piece :: rest) = piece.length + 1 + extent rest := by
  simp [extent]

theorem placePieces_append (column : Nat) (front back : List (List Char)) :
    placePieces column (front ++ back) =
      placePieces column front ++ placePieces (column + extent front) back := by
  induction front generalizing column with
  | nil => rfl
  | cons piece rest ih =>
    rw [List.cons_append, placePieces, ih, placePieces, List.append_assoc, extent_cons,
      Nat.add_assoc column, Nat.add_assoc column]

theorem extent_splitOn (text : List Char) : extent (text.splitOn ' ') = text.length + 1 := by
  induction text with
  | nil => rfl
  | cons c rest ih =>
    rw [List.splitOn_cons_eq_if_modifyHead]
    split
    · simp [ih, Nat.add_comm]
    · -- The character joins the first piece of the rest.
      obtain ⟨piece, pieces, split_eq⟩ := List.exists_cons_of_ne_nil (List.splitOn_ne_nil ' ' rest)
      rw [split_eq] at ih ⊢
      simp only [List.modifyHead_cons, extent_cons, List.length_cons] at ih ⊢
      omega

variable (column : Nat)

theorem placedWords_nil : placedWords column [] = [] := rfl

theorem placedWords_append_blank (s t : List Char) : placedWords column (s ++ ' ' :: t) =
    placedWords column s ++ placedWords (column + s.length + 1) t := by
  rw [placedWords, List.splitOn_append_cons_self, placePieces_append, extent_splitOn,
    ← Nat.add_assoc, placedWords, placedWords]

theorem placedWords_blank (t : List Char) :
    placedWords column (' ' :: t) = placedWords (column + 1) t :=
  placedWords_append_blank column [] t

theorem placedWords_replicate_append (k : Nat) (t : List Char) :
    placedWords column (List.replicate k ' ' ++ t) = placedWords (column + k) t := by
  induction k generalizing column with
  | zero => rfl
  | succ k ih =>
    rw [List.replicate_succ, List.cons_append, placedWords_blank, ih, Nat.add_assoc,
      Nat.add_comm 1]

theorem placedWords_append_replicate (s : List Char) (k : Nat) :
    placedWords column (s ++ List.replicate k ' ') = placedWords column s := by
  cases k with
  | zero => simp
  | succ k =>
    have blanks := placedWords_replicate_append (column + s.length + 1) k []
    rw [List.append_nil, placedWords_nil] at blanks
    rw [List.replicate_succ, placedWords_append_blank, blanks, List.append_nil]

theorem placedWords_of_blankFree {s : List Char} (nonempty : s ≠ []) (blankFree : ' ' ∉ s) :
    placedWords column s = [⟨column, s⟩] := by
  rw [placedWords, List.splitOn_eq_singleton blankFree, placePieces, if_neg nonempty]
  rfl

end Places

section Columns

variable {x : Binary64} {factor : UInt32}

theorem length_mhzText (narrow : x.oneDecimal.length ≤ 5) : (mhzText x).toList.length = 5 := by
  simp only [mhzText, Binary64.column, toList_alignRight, List.length_append,
    List.length_replicate, String.length_toList]
  exact Nat.sub_add_cancel narrow

theorem length_factorText (short : factor.toNat ≤ 99) : (factorText factor).toList.length = 2 := by
  have digits : (Nat.repr factor.toNat).length ≤ 2 :=
    Nat.repr_length _ 2 (by decide) (Nat.lt_succ_of_le short)
  simp only [factorText, toList_alignLeft, List.length_append, List.length_replicate,
    String.length_toList]
  omega

/-- A number ends where its column does. -/
theorem placedWords_mhzText (narrow : x.oneDecimal.length ≤ 5) (column : Nat) (rest : List Char) :
    placedWords column ((mhzText x).toList ++ ' ' :: rest) =
      .endingAt (column + 5) x.oneDecimal :: placedWords (column + 6) rest := by
  have number := placedWords_of_blankFree (column + (5 - x.oneDecimal.length))
    (oneDecimal_ne_nil x) (notMem_oneDecimal (by decide) x)
  rw [placedWords_append_blank, length_mhzText narrow, mhzText, Binary64.column, toList_alignRight,
    placedWords_replicate_append, number, PlacedWord.endingAt, Nat.add_sub_assoc narrow column]
  rfl

/-- A factor begins with its mark. -/
theorem placedWords_factorText (short : factor.toNat ≤ 99) (mark : Char) (visible : ' ' ≠ mark)
    (column : Nat) (rest : List Char) :
    placedWords column (mark :: ((factorText factor).toList ++ ' ' :: rest)) =
      ⟨column, mark :: Nat.toDigits 10 factor.toNat⟩ :: placedWords (column + 4) rest := by
  have blankFree : ' ' ∉ mark :: Nat.toDigits 10 factor.toNat :=
    List.not_mem_cons_of_ne_of_not_mem visible (notMem_toDigits (by decide) _)
  have number := placedWords_of_blankFree column (List.cons_ne_nil _ _) blankFree
  have width := length_factorText short
  rw [← List.cons_append, placedWords_append_blank, List.length_cons, width, factorText,
    toList_alignLeft, Nat.toList_repr, ← List.cons_append, placedWords_append_replicate, number]
  rfl

end Columns

section Width

open Magnitude (oneUnits)

theorem tenths_le_of_value_le {m : Magnitude} {n : Nat} (le : m.value ≤ n) : m.tenths ≤ 10 * n := by
  rw [Magnitude.value, div_le_iff₀ Magnitude.cast_oneUnits_pos] at le
  have units_le : m.units ≤ n * oneUnits := by exact_mod_cast le
  apply roundHalfEven_le Magnitude.oneUnits_pos
  rw [Nat.mul_assoc]
  exact Nat.mul_le_mul_left 10 units_le

/-- Up to 999 a number has three digits before the point. -/
theorem length_oneDecimal_le {q : ℚ} (le : q ≤ 999) :
    (Binary64.number false (.round q)).oneDecimal.length ≤ 5 := by
  obtain ⟨value_le, finite⟩ := Magnitude.value_round_le (n := 999) (by decide) le
  have tenths_le := tenths_le_of_value_le value_le
  have whole := Nat.repr_length ((Magnitude.round q).tenths / 10) 3 (by decide) (by omega)
  have tenth := Nat.repr_length ((Magnitude.round q).tenths % 10) 1 (by decide) (by omega)
  have point : ".".length = 1 := rfl
  simp only [Binary64.oneDecimal, if_neg finite, Bool.false_eq_true, if_false, String.empty_append,
    tenthsText, String.length_append]
  omega

end Width

namespace Config

variable {f : Config} {clocks : Clocks} {remark : String}

structure FitsColumns (f : Config) (clocks : Clocks) : Prop where
  pll : (Binary64.ofNat clocks.pll).oneDecimal.length ≤ 5
  pllMul : f.pllMul.toNat ≤ 99
  cpu : clocks.cpu.oneDecimal.length ≤ 5
  cpuDiv : f.cpuDiv.toNat ≤ 99
  ram : clocks.ram.oneDecimal.length ≤ 5
  ramDiv : f.ramDiv.toNat ≤ 99
  msd : clocks.msd.oneDecimal.length ≤ 5
  msd2 : clocks.msd2.oneDecimal.length ≤ 5

def placedNumbers (f : Config) (clocks : Clocks) : List PlacedWord := [
  .endingAt 5 (Binary64.ofNat clocks.pll).oneDecimal, ⟨6, '*' :: Nat.toDigits 10 f.pllMul.toNat⟩,
  .endingAt 17 clocks.cpu.oneDecimal, ⟨18, '/' :: Nat.toDigits 10 f.cpuDiv.toNat⟩,
  .endingAt 29 clocks.ram.oneDecimal, ⟨30, '/' :: Nat.toDigits 10 f.ramDiv.toNat⟩,
  .endingAt 41 clocks.msd.oneDecimal, .endingAt 49 clocks.msd2.oneDecimal]

section Width

variable (pll_le : f.pll ≤ 999)
include pll_le

theorem length_clock_le {d : UInt32} (nonzero : d ≠ 0) :
    (f.pllMhz / .ofNat d.toNat).oneDecimal.length ≤ 5 := by
  have fits : f.PllFits := pll_le.trans_lt (by decide)
  have one_le : (1 : ℚ) ≤ d.toNat := Nat.one_le_cast.mpr (toNat_pos_of_ne_zero nonzero)
  rw [pllMhz, Binary64.quotient_eq fits (.inr nonzero), Binary64.clockMagnitude, if_neg nonzero]
  apply length_oneDecimal_le
  calc (f.pll / d.toNat : ℚ) ≤ f.pll := div_le_self (Nat.cast_nonneg _) one_le
    _ ≤ 999 := by exact_mod_cast pll_le

theorem length_storageRate_le (factor : Nat) (factor_le : factor ≤ 48) :
    (.ofNat factor * f.pllMhz / 360 : Binary64).oneDecimal.length ≤ 5 := by
  have fits : f.PllFits := pll_le.trans_lt (by decide)
  have scaled_le : factor * f.pll ≤ 48 * 999 := Nat.mul_le_mul factor_le pll_le
  rw [storageRate_eq fits factor_le]
  apply length_oneDecimal_le
  rw [div_le_iff₀ (by norm_num)]
  calc ((factor * f.pll : Nat) : ℚ) ≤ (48 * 999 : Nat) := Nat.cast_le.mpr scaled_le
    _ ≤ 999 * (360 : Nat) := by norm_num

theorem fitsColumns (nonzero : f.DividersNonzero) (cpuDiv_le : f.cpuDiv ≤ 99)
    (ramDiv_le : f.ramDiv ≤ 99) : f.FitsColumns ⟨f.pll, f.cpu, f.ram, f.msd, f.msd2⟩ where
  pll := by
    rw [Binary64.ofNat, Magnitude.ofNat_eq_round]
    exact length_oneDecimal_le (by exact_mod_cast pll_le)
  pllMul := by
    rw [pll, baseClockMhz] at pll_le
    omega
  cpu := length_clock_le pll_le nonzero.cpuDiv_ne
  cpuDiv := UInt32.le_iff_toNat_le.mp cpuDiv_le
  ram := length_clock_le pll_le nonzero.ramDiv_ne
  ramDiv := UInt32.le_iff_toNat_le.mp ramDiv_le
  msd := length_storageRate_le pll_le 24 (by decide)
  msd2 := length_storageRate_le pll_le 48 (by decide)

end Width

section Line

variable (fits : f.FitsColumns clocks)
include fits

theorem length_columns : (f.columns clocks).toList.length = 49 := by
  simp only [columns, String.toList_append, List.length_append, length_mhzText fits.pll,
    length_factorText fits.pllMul, length_mhzText fits.cpu, length_factorText fits.cpuDiv,
    length_mhzText fits.ram, length_factorText fits.ramDiv, length_mhzText fits.msd,
    length_mhzText fits.msd2]
  rfl

theorem placedWords_columns (rest : List Char) :
    placedWords 0 ((f.columns clocks).toList ++ ' ' :: rest) =
      f.placedNumbers clocks ++ placedWords 50 rest := by
  have multiplier := placedWords_factorText fits.pllMul '*' (by decide)
  have cpu_divider := placedWords_factorText fits.cpuDiv '/' (by decide)
  have ram_divider := placedWords_factorText fits.ramDiv '/' (by decide)
  simp [columns, placedNumbers, placedWords_mhzText fits.pll, multiplier, placedWords_mhzText fits.cpu,
    cpu_divider, placedWords_mhzText fits.ram, ram_divider, placedWords_mhzText fits.msd,
    placedWords_mhzText fits.msd2, placedWords_blank]

theorem placedWords_line (remarked : remark ≠ "") :
    placedWords 0 (f.line clocks remark).toList =
      f.placedNumbers clocks ++ placedWords 51 remark.toList := by
  have columns_words := placedWords_columns fits (' ' :: remark.toList)
  rw [placedWords_blank] at columns_words
  rw [line, if_neg remarked, String.toList_append, String.toList_append, List.append_assoc]
  exact columns_words

theorem drop_line (remarked : remark ≠ "") :
    (f.line clocks remark).toList.drop 51 = remark.toList := by
  have width : ((f.columns clocks).toList ++ "  ".toList).length = 51 := by
    rw [List.length_append, length_columns fits]
    rfl
  rw [line, if_neg remarked, String.toList_append, String.toList_append, ← width,
    List.drop_left]

end Line

end Config

def placedLabels : List PlacedWord := [
  ⟨2, "PLL".toList⟩, ⟨6, "*mul".toList⟩, ⟨14, "CPU".toList⟩, ⟨18, "/div".toList⟩,
  ⟨26, "RAM".toList⟩, ⟨30, "/div".toList⟩, ⟨38, "mSD".toList⟩, ⟨45, "SD2".toList⟩,
  ⟨50, "Notes".toList⟩]

theorem placedWords_header : placedWords 0 header.toList = placedLabels := by decide

def placedWord? (text : String) (i : Nat) : Option PlacedWord := (placedWords 0 text.toList)[i]?

/-- At one position of a line and of the header stand a number and a label. They end in one column, but
for a shift of the number to the right. -/
def EndsUnder (shift : Nat) (line : String) (i : Nat) (number : List Char) (label : String) : Prop :=
  ∃ w l, placedWord? line i = some w ∧ placedWord? header i = some l ∧ w.chars = number ∧
    l.chars = label.toList ∧ w.stop = l.stop + shift

def BeginsUnder (line : String) (i : Nat) (factor : List Char) (label : String) : Prop :=
  ∃ w l, placedWord? line i = some w ∧ placedWord? header i = some l ∧ w.chars = factor ∧
    l.chars = label.toList ∧ w.start = l.start

theorem endsUnder {line label number : String} {shift i column : Nat} {l : PlacedWord}
    (at_line : placedWord? line i = some (.endingAt column number))
    (at_header : placedWord? header i = some l) (room : number.length ≤ column)
    (spelled : l.chars = label.toList) (stops : column = l.stop + shift) :
    EndsUnder shift line i number.toList label :=
  ⟨_, _, at_line, at_header, rfl, spelled, (PlacedWord.stop_endingAt room).trans stops⟩

namespace Config

variable {f : Config} {clocks : Clocks} {remark line : String} {shift : Nat}

/-- A line stands under the header, but for a shift of its last number and its remark to the right. -/
structure LinesUp (f : Config) (clocks : Clocks) (remark : String) (shift : Nat) (line : String) :
    Prop where
  pll : EndsUnder 0 line 0 (Binary64.ofNat clocks.pll).oneDecimal.toList "PLL"
  pllMul : BeginsUnder line 1 ('*' :: Nat.toDigits 10 f.pllMul.toNat) "*mul"
  cpu : EndsUnder 0 line 2 clocks.cpu.oneDecimal.toList "CPU"
  cpuDiv : BeginsUnder line 3 ('/' :: Nat.toDigits 10 f.cpuDiv.toNat) "/div"
  ram : EndsUnder 0 line 4 clocks.ram.oneDecimal.toList "RAM"
  ramDiv : BeginsUnder line 5 ('/' :: Nat.toDigits 10 f.ramDiv.toNat) "/div"
  msd : EndsUnder 0 line 6 clocks.msd.oneDecimal.toList "mSD"
  msd2 : EndsUnder shift line 7 clocks.msd2.oneDecimal.toList "SD2"
  remark : ∃ l, placedWord? header 8 = some l ∧ l.chars = "Notes".toList ∧
    line.toList.drop (l.start + shift) = remark.toList

/-- The header is one column short before its last two labels. -/
theorem linesUp_iff (fits : f.FitsColumns clocks) (remarked : remark ≠ "") :
    f.LinesUp clocks remark shift (f.line clocks remark) ↔ shift = 1 := by
  have at_line (i : Nat) : placedWord? (f.line clocks remark) i =
      (f.placedNumbers clocks ++ placedWords 51 remark.toList)[i]? := by
    rw [placedWord?, placedWords_line fits remarked]
  have at_header (i : Nat) : placedWord? header i = placedLabels[i]? := by
    rw [placedWord?, placedWords_header]
  constructor
  · -- The last number and its label are one column apart, which leaves one shift.
    intro lined_up
    obtain ⟨w, l, w_at, l_at, -, -, stops⟩ := lined_up.msd2
    obtain rfl : .endingAt 49 clocks.msd2.oneDecimal = w :=
      Option.some.inj ((at_line 7).symm.trans w_at)
    obtain rfl : ⟨45, "SD2".toList⟩ = l := Option.some.inj ((at_header 7).symm.trans l_at)
    have label_stop : (PlacedWord.mk 45 "SD2".toList).stop = 48 := rfl
    rw [PlacedWord.stop_endingAt (fits.msd2.trans (by decide)), label_stop] at stops
    omega
  · rintro rfl
    exact {
      pll := endsUnder (at_line 0) (at_header 0) fits.pll rfl rfl
      pllMul := ⟨_, _, at_line 1, at_header 1, rfl, rfl, rfl⟩
      cpu := endsUnder (at_line 2) (at_header 2) (fits.cpu.trans (by decide)) rfl rfl
      cpuDiv := ⟨_, _, at_line 3, at_header 3, rfl, rfl, rfl⟩
      ram := endsUnder (at_line 4) (at_header 4) (fits.ram.trans (by decide)) rfl rfl
      ramDiv := ⟨_, _, at_line 5, at_header 5, rfl, rfl, rfl⟩
      msd := endsUnder (at_line 6) (at_header 6) (fits.msd.trans (by decide)) rfl rfl
      msd2 := endsUnder (at_line 7) (at_header 7) (fits.msd2.trans (by decide)) rfl rfl
      remark := ⟨_, at_header 8, rfl, drop_line fits remarked⟩ }

/-- Rows with a remark, a PLL output up to 999 MHz and dividers up to 99 stand under the header, except
that the high-capacity rate and the remark are one column to the right of their labels. -/
theorem formatRow_lines_up_but_for_last (pll_le : f.pll ≤ 999) (nonzero : f.DividersNonzero)
    (cpuDiv_le : f.cpuDiv ≤ 99) (ramDiv_le : f.ramDiv ≤ 99) (remarked : remark ≠ "") :
    ∃ clocks line, f.clocks = .ok clocks ∧ f.formatRow remark = .ok line ∧
      ∀ shift, f.LinesUp clocks remark shift line ↔ shift = 1 := by
  have derived : f.clocks = .ok _ := clocks_eq_ok_iff.mpr ⟨pll_le.trans_lt (by decide), rfl⟩
  exact ⟨_, _, derived, formatRow_eq_ok derived,
    fun _ => linesUp_iff (fitsColumns pll_le nonzero cpuDiv_le ramDiv_le) remarked⟩

/-- The highest PLL output, a slow and a fast clock, and a remark that begins with a blank. -/
theorem formatRow_lines_up_but_for_last_widest :
    let f : Config := ⟨83, 99, 1⟩
    f.pll ≤ 999 ∧ f.DividersNonzero ∧ f.cpuDiv ≤ 99 ∧ f.ramDiv ≤ 99 ∧ " /3" ≠ "" ∧
      ∃ clocks line, f.clocks = .ok clocks ∧ f.formatRow " /3" = .ok line ∧
        f.LinesUp clocks " /3" 1 line ∧ ¬ f.LinesUp clocks " /3" 0 line := by
  intro f
  have pll_le : f.pll ≤ 999 := by decide
  have nonzero : f.DividersNonzero := ⟨by decide, by decide⟩
  have cpuDiv_le : f.cpuDiv ≤ 99 := by decide
  have ramDiv_le : f.ramDiv ≤ 99 := by decide
  have remarked : " /3" ≠ "" := by decide
  obtain ⟨clocks, line, derived, formatted, lined_up_iff⟩ :=
    formatRow_lines_up_but_for_last pll_le nonzero cpuDiv_le ramDiv_le remarked
  refine ⟨pll_le, nonzero, cpuDiv_le, ramDiv_le, remarked, clocks, line, derived, formatted,
    (lined_up_iff 1).mpr rfl, fun lined_up => ?_⟩
  exact Nat.zero_ne_one ((lined_up_iff 0).mp lined_up)

/-- The nominal row does not stand under the header as it is. -/
theorem formatRow_not_lined_up :
    let f : Config := ⟨30, 1, 3⟩
    let remark := "The nominal clock speed"
    let line := "360.0 *30   360.0 /1    120.0 /3     24.0    48.0  The nominal clock speed"
    f.pll ≤ 999 ∧ f.DividersNonzero ∧ f.cpuDiv ≤ 99 ∧ f.ramDiv ≤ 99 ∧ remark ≠ "" ∧
      ∃ clocks, f.clocks = .ok clocks ∧ f.formatRow remark = .ok line ∧
        ¬ f.LinesUp clocks remark 0 line := by
  intro f remark line
  have pll_le : f.pll ≤ 999 := by decide
  have nonzero : f.DividersNonzero := ⟨by decide, by decide⟩
  have cpuDiv_le : f.cpuDiv ≤ 99 := by decide
  have ramDiv_le : f.ramDiv ≤ 99 := by decide
  have remarked : remark ≠ "" := by decide
  have derived : f.clocks = .ok _ := clocks_eq_ok_iff.mpr ⟨by decide, rfl⟩
  have formatted : f.formatRow remark = .ok line := by decide +kernel
  refine ⟨pll_le, nonzero, cpuDiv_le, ramDiv_le, remarked, _, derived, formatted, fun lined_up => ?_⟩
  rw [← Except.ok.inj ((formatRow_eq_ok derived).symm.trans formatted),
    linesUp_iff (fitsColumns pll_le nonzero cpuDiv_le ramDiv_le) remarked] at lined_up
  exact Nat.zero_ne_one lined_up

end Config

end ClockTree
