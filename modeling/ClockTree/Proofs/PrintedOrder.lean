import ClockTree.Proofs.Binary64.NearestTenth
import ClockTree.Proofs.RowIdentity

/-! The order of a table as it is printed. Rounding to tenths may print different clocks alike, but
never in reverse. The rows of an enumerated table descend by their clocks, so the printed CPU column
does not grow down the table, and the printed RAM column does not among rows of one CPU clock. -/
namespace ClockTree

def word? (text : String) (i : Nat) : Option (List Char) := (words text.toList)[i]?

def cpuColumn (line : String) : Option (List Char) := word? line 2

def ramColumn (line : String) : Option (List Char) := word? line 4

/-- Both words are numerals, and the first denotes at most what the second does. -/
structure PrintedLe (s t : Option (List Char)) : Prop where
  left : ∃ m : Numeral, s = some m.text
  right : ∃ n : Numeral, t = some n.text
  le : ∀ m n : Numeral, s = some m.text → t = some n.text → m.tenths ≤ n.tenths

section Numbers

variable {x y : Binary64}

theorem word?_mhzText (x : Binary64) : word? (mhzText x) 0 = some x.oneDecimal.toList := by
  simp [word?]

theorem toList_mhzText (finite : x.IsFinite) :
    (mhzText x).toList =
      List.replicate (5 - x.numeral.text.length) ' ' ++ x.numeral.text := by
  rw [mhzText, Binary64.column, toList_alignRight, ← String.length_toList,
    Binary64.toList_oneDecimal finite]

theorem printedLe_of_le (x_finite : x.IsFinite) (y_finite : y.IsFinite) (le : x ≤ y) :
    PrintedLe (some x.oneDecimal.toList) (some y.oneDecimal.toList) := by
  rw [Binary64.toList_oneDecimal x_finite, Binary64.toList_oneDecimal y_finite]
  refine ⟨⟨_, rfl⟩, ⟨_, rfl⟩, fun m n m_text n_text => ?_⟩
  obtain rfl := Numeral.text_inj.mp (Option.some.inj m_text)
  obtain rfl := Numeral.text_inj.mp (Option.some.inj n_text)
  exact Binary64.tenths_numeral_le le

end Numbers

namespace Config

variable {f : Config}

theorem cpu_finite (fits : f.PllFits) (nonzero : f.cpuDiv ≠ 0) : f.cpu.IsFinite := by
  rw [cpu_eq fits (.inr nonzero)]
  exact Binary64.clockMagnitude_finite fits nonzero

theorem ram_finite (fits : f.PllFits) (nonzero : f.ramDiv ≠ 0) : f.ram.IsFinite := by
  rw [ram_eq fits (.inr nonzero)]
  exact Binary64.clockMagnitude_finite fits nonzero

theorem cpu_clocks {clocks : Clocks} (derived : f.clocks = .ok clocks) : clocks.cpu = f.cpu := by
  rw [(clocks_eq_ok_iff.mp derived).2]

theorem ram_clocks {clocks : Clocks} (derived : f.clocks = .ok clocks) : clocks.ram = f.ram := by
  rw [(clocks_eq_ok_iff.mp derived).2]

theorem cpuColumn_line (f : Config) (clocks : Clocks) (remark : String) :
    cpuColumn (f.line clocks remark) = some clocks.cpu.oneDecimal.toList := by
  simp [cpuColumn, word?, words_line, lineNumbers]

theorem ramColumn_line (f : Config) (clocks : Clocks) (remark : String) :
    ramColumn (f.line clocks remark) = some clocks.ram.oneDecimal.toList := by
  simp [ramColumn, word?, words_line, lineNumbers]

end Config

namespace Table

variable {l : Limits} {configs : List Config} {table : Table}

/-- The lines of a table belong to configurations; down the lines its CPU column does not grow, nor
does its RAM column where the CPU clocks are equal. -/
structure DescendsAsPrinted (table : Table) (configs : List Config) : Prop where
  length_eq : (linesOf table.text).length = configs.length + 1
  descending : ∀ (i j : Nat) f g, i < j → configs[i]? = some f → configs[j]? = some g →
    ∃ upper lower, (linesOf table.text)[i + 1]? = some upper ∧
      (linesOf table.text)[j + 1]? = some lower ∧
      PrintedLe (cpuColumn lower) (cpuColumn upper) ∧
      (f.cpu.Eqv g.cpu → PrintedLe (ramColumn lower) (ramColumn upper))

theorem exists_line (rendered : ofConfigs l configs = .ok table) {i : Nat} {f : Config}
    (at_i : configs[i]? = some f) : ∃ line, (linesOf table.text)[i + 1]? = some line ∧
      cpuColumn line = some f.cpu.oneDecimal.toList ∧
      ramColumn line = some f.ram.oneDecimal.toList := by
  obtain ⟨row, at_row, made⟩ := exists_row rendered at_i
  obtain ⟨-, derived, -⟩ := Row.ofConfig_eq_ok_iff.mp made
  refine ⟨row.line, by simp [linesOf_text, at_row], ?_, ?_⟩
  · rw [Row.line, Config.cpuColumn_line, Config.cpu_clocks derived]
  · rw [Row.line, Config.ramColumn_line, Config.ram_clocks derived]

/-- Clocks in descending order are printed in descending order. -/
theorem descendsAsPrinted_of_pairwise (rendered : ofConfigs l configs = .ok table)
    (cpu_finite : ∀ f ∈ configs, f.cpu.IsFinite) (ram_finite : ∀ f ∈ configs, f.ram.IsFinite)
    (descending : configs.Pairwise fun f g =>
      g.cpu < f.cpu ∨ f.cpu.Eqv g.cpu ∧ g.ram ≤ f.ram) :
    table.DescendsAsPrinted configs where
  length_eq := by
    rw [linesOf_text, List.length_cons, List.length_map,
      (ofConfigs_eq_ok_iff.mp rendered).2.length_eq]
  descending := by
    intro i j f g lt f_at g_at
    obtain ⟨upper, upper_at, upper_cpu, upper_ram⟩ := exists_line rendered f_at
    obtain ⟨lower, lower_at, lower_cpu, lower_ram⟩ := exists_line rendered g_at
    have f_mem := List.mem_of_getElem? f_at
    have g_mem := List.mem_of_getElem? g_at
    have order := pairwise_iff_getElem?.mp descending i j f g lt f_at g_at
    refine ⟨upper, lower, upper_at, lower_at, ?cpu, fun tied => ?ram⟩
    case cpu =>
      rw [lower_cpu, upper_cpu]
      apply printedLe_of_le (cpu_finite g g_mem) (cpu_finite f f_mem)
      rcases order with lower | ⟨tied, -⟩
      · exact Binary64.le_of_lt lower
      · exact (Binary64.eqv_iff_le_and_ge.mp tied).2
    case ram =>
      rw [lower_ram, upper_ram]
      apply printedLe_of_le (ram_finite g g_mem) (ram_finite f f_mem)
      rcases order with lower | ⟨-, le⟩
      · exact absurd (Binary64.eqv_iff_le_and_ge.mp tied).1 (Binary64.not_le_of_lt lower)
      · exact le

end Table

namespace Limits.WellFormed

variable {l : Limits} (valid : l.WellFormed) (fits : l.TopFits)
include valid fits

theorem ranked_descending : (Config.ranked l.accepted).Pairwise fun f g =>
    g.cpu < f.cpu ∨ f.cpu.Eqv g.cpu ∧ g.ram ≤ f.ram := by
  apply valid.ranked_pairwise.imp_of_mem
  intro f g f_mem g_mem before
  exact before.descending (valid.hasClocks fits (mem_ranked_accepted.mp f_mem).1)
    (valid.hasClocks fits (mem_ranked_accepted.mp g_mem).1)

theorem descendsAsPrinted {l' : Limits} {table : Table}
    (rendered : Table.ofConfigs l' (Config.ranked l.accepted) = .ok table) :
    table.DescendsAsPrinted (Config.ranked l.accepted) := by
  have found : ∀ f ∈ Config.ranked l.accepted, l.InSearchSpace f :=
    fun f mem => (mem_ranked_accepted.mp mem).1
  apply Table.descendsAsPrinted_of_pairwise rendered _ _ (valid.ranked_descending fits)
  · intro f mem
    exact f.cpu_finite (fits.pllFits (found f mem)) (valid.ne_zero (found f mem).2.1)
  · intro f mem
    exact f.ram_finite (fits.pllFits (found f mem)) (valid.ne_zero (found f mem).2.2)

end Limits.WellFormed

/-- A finite number is printed as the multiple of a tenth nearest to its exact value, under its own
sign and padded to five characters. Greater numbers are not printed smaller, so an enumerated table
descends as it is printed, under whatever limits it is annotated. -/
theorem prints_nearest_tenth_in_order :
    (∀ x : Binary64, x.IsFinite → ∃ n : Numeral,
      (mhzText x).toList = List.replicate (5 - n.text.length) ' ' ++ n.text ∧
        word? (mhzText x) 0 = some n.text ∧ n.negative = x.signBit ∧
        NearestEven (10 * x.toRat) n.tenths) ∧
    (∀ x y : Binary64, x.IsFinite → y.IsFinite → x ≤ y →
      PrintedLe (word? (mhzText x) 0) (word? (mhzText y) 0)) ∧
    ∀ l l' : Limits, l.validate = .ok () → l.TopFits → ∃ configs, l.enumerate = .ok configs ∧
      (l'.nominal.PllFits → ∃ table, Table.ofConfigs l' configs = .ok table) ∧
      ∀ table, Table.ofConfigs l' configs = .ok table → table.DescendsAsPrinted configs := by
  refine ⟨fun x finite => ?number, fun x y x_finite y_finite le => ?order,
    fun l l' validated fits => ?table⟩
  case number =>
    have word_eq : word? (mhzText x) 0 = some x.numeral.text := by
      rw [word?_mhzText, Binary64.toList_oneDecimal finite]
    exact ⟨x.numeral, toList_mhzText finite, word_eq, Binary64.negative_numeral finite,
      Binary64.nearestEven_numeral x⟩
  case order =>
    rw [word?_mhzText, word?_mhzText]
    exact printedLe_of_le x_finite y_finite le
  case table =>
    have valid := Limits.validate_eq_ok_iff.mp validated
    refine ⟨_, valid.enumerate_eq_ok fits, fun nominal_fits => ?_,
      fun table => valid.descendsAsPrinted fits⟩
    apply Table.exists_ofConfigs
    intro f mem
    exact ⟨_, Limits.classify_eq_ok (fits.pllFits (Limits.mem_ranked_accepted.mp mem).1)
      nominal_fits⟩

/-- A number halfway between two tenths, the two zeros, and the built-in table. -/
theorem prints_nearest_tenth_in_order_standard :
    let halfway : Binary64 := 13 / 4
    let zero : Binary64 := .number false .zero
    let negativeZero : Binary64 := .number true .zero
    halfway.IsFinite ∧ (mhzText halfway).toList = "  3.2".toList ∧
      (∃ n : Numeral, word? "  3.2" 0 = some n.text ∧ NearestEven (10 * halfway.toRat) n.tenths) ∧
      zero.IsFinite ∧ negativeZero.IsFinite ∧ zero ≤ negativeZero ∧
      PrintedLe (word? "  0.0" 0) (word? " -0.0" 0) ∧
      Limits.standard.validate = .ok () ∧ Limits.standard.TopFits ∧
      ∃ configs table, Limits.standard.enumerate = .ok configs ∧
        Table.ofConfigs .standard configs = .ok table ∧ table.DescendsAsPrinted configs := by
  intro halfway zero negativeZero
  obtain ⟨numbers, order, tables⟩ := prints_nearest_tenth_in_order
  have halfway_finite : halfway.IsFinite := by decide +kernel
  have halfway_text : mhzText halfway = "  3.2" := by decide +kernel
  have zero_text : mhzText zero = "  0.0" := by decide +kernel
  have negativeZero_text : mhzText negativeZero = " -0.0" := by decide +kernel
  have zeros : zero ≤ negativeZero := by decide
  have validated := Limits.validate_eq_ok_iff.mpr Limits.standard_wellFormed
  obtain ⟨n, -, printed, -, nearest⟩ := numbers halfway halfway_finite
  have zeros_printed := order zero negativeZero (by decide) (by decide) zeros
  obtain ⟨configs, enumerated, exists_table, descends⟩ :=
    tables .standard .standard validated Limits.standard_topFits
  obtain ⟨table, rendered⟩ := exists_table (by decide)
  rw [halfway_text] at printed
  rw [zero_text, negativeZero_text] at zeros_printed
  exact ⟨halfway_finite, congrArg String.toList halfway_text, ⟨n, printed, nearest⟩, by decide,
    by decide, zeros, zeros_printed, validated, Limits.standard_topFits, configs, table, enumerated,
    rendered, descends table rendered⟩

end ClockTree
