import ClockTree.Proofs.TableText

/-! What a row tells. Columns overflow their widths, clocks may be infinite or NaN and any remark may
follow, but the first eight words of a line are always its numbers. The factors among them are the
integers of the configuration; with them the columns are known, and what is left is the remark. -/
namespace ClockTree.Config

variable {f g : Config} {clocks : Clocks} {s t : String}

def lineNumbers (f : Config) (clocks : Clocks) : List (List Char) := [
  (Binary64.ofNat clocks.pll).oneDecimal.toList, '*' :: Nat.toDigits 10 f.pllMul.toNat,
  clocks.cpu.oneDecimal.toList, '/' :: Nat.toDigits 10 f.cpuDiv.toNat,
  clocks.ram.oneDecimal.toList, '/' :: Nat.toDigits 10 f.ramDiv.toNat,
  clocks.msd.oneDecimal.toList, clocks.msd2.oneDecimal.toList]

theorem words_columns (f : Config) (clocks : Clocks) :
    words (f.columns clocks).toList = f.lineNumbers clocks := by
  have multiplier := words_factorText '*' (by decide)
  have divider := words_factorText '/' (by decide)
  simp [columns, lineNumbers, multiplier, divider]

theorem words_line (f : Config) (clocks : Clocks) (remark : String) :
    words (f.line clocks remark).toList = f.lineNumbers clocks ++ words remark.toList := by
  rw [line]
  split
  next blank => simp [blank, words_columns]
  next => simp [words_columns]

theorem eq_of_lineNumbers_eq {clocks' : Clocks} {rest rest' : List (List Char)}
    (same : f.lineNumbers clocks ++ rest = g.lineNumbers clocks' ++ rest') : f = g := by
  simp only [lineNumbers, List.cons_append, List.nil_append, List.cons.injEq, toDigits_inj,
    true_and] at same
  obtain ⟨-, multiplier, -, cpu_divider, -, ram_divider, -⟩ := same
  exact Config.ext (UInt32.toNat_inj.mp multiplier) (UInt32.toNat_inj.mp cpu_divider)
    (UInt32.toNat_inj.mp ram_divider)

theorem remark_eq_of_line_eq (same : f.line clocks s = f.line clocks t) : s = t := by
  by_cases blank : s = ""
  · rw [blank, eq_comm, line_eq_plain_iff] at same
    rw [blank, same]
  · by_cases blank' : t = ""
    · rw [blank', line_eq_plain_iff] at same
      exact absurd same blank
    · rw [line, line, if_neg blank, if_neg blank'] at same
      exact (String.append_right_inj _).mp same

/-- Rows are told apart by their configurations and remarks, whatever the dividers and the remarks. -/
theorem formatRow_eq_iff (f_fits : f.PllFits) (g_fits : g.PllFits) :
    (∃ line, f.formatRow s = .ok line) ∧ (f.formatRow s = g.formatRow t ↔ f = g ∧ s = t) := by
  have f_row : f.formatRow s = .ok _ := formatRow_eq_ok (clocks_eq_ok_iff.mpr ⟨f_fits, rfl⟩)
  have g_row : g.formatRow t = .ok _ := formatRow_eq_ok (clocks_eq_ok_iff.mpr ⟨g_fits, rfl⟩)
  refine ⟨⟨_, f_row⟩, fun same => ?_, ?_⟩
  · rw [f_row, g_row, Except.ok.injEq] at same
    have same_words := congrArg (fun line => words line.toList) same
    simp only [words_line] at same_words
    obtain rfl := eq_of_lineNumbers_eq same_words
    exact ⟨rfl, remark_eq_of_line_eq same⟩
  · rintro ⟨rfl, rfl⟩
    rfl

/-- Neither an overflowing column nor a clock of NaN is mistaken for another, nor a blank remark for
none. -/
theorem formatRow_eq_iff_of_wide_columns :
    let wide : Config := ⟨357913941, 0, 4294967295⟩
    let stopped : Config := ⟨0, 0, 0⟩
    wide.PllFits ∧ stopped.PllFits ∧ (∃ line, wide.formatRow " /3" = .ok line) ∧
      wide.formatRow " /3" ≠ stopped.formatRow " /3" ∧
      stopped.formatRow "" ≠ stopped.formatRow " " := by
  intro wide stopped
  have wide_fits : wide.PllFits := by decide
  have stopped_fits : stopped.PllFits := by decide
  obtain ⟨answers, same_iff⟩ := formatRow_eq_iff (s := " /3") (t := " /3") wide_fits stopped_fits
  obtain ⟨-, blank_iff⟩ := formatRow_eq_iff (s := "") (t := " ") stopped_fits stopped_fits
  refine ⟨wide_fits, stopped_fits, answers, ?_, ?_⟩
  · rw [ne_eq, same_iff]
    decide
  · rw [ne_eq, blank_iff]
    decide

end ClockTree.Config
