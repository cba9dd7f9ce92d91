import ClockTree.Proofs.NumberText
import ClockTree.Proofs.Rows

/-! The two forms of a table. Its text and its document are made from the same rows. No number and
no remark holds a line break, whatever the clocks are, so the text falls into the header and one
line for each row; and only the blank remark has no text, so a line shows whether there is one. -/
namespace ClockTree

def OneLine (text : String) : Prop := '\n' ∉ text.toList

instance (text : String) : Decidable (OneLine text) := inferInstanceAs (Decidable (¬ _))

section OneLine

@[simp] theorem oneLine_append {s t : String} : OneLine (s ++ t) ↔ OneLine s ∧ OneLine t := by
  simp [OneLine]

@[simp] theorem oneLine_repr (n : Nat) : OneLine (Nat.repr n) := by
  rw [OneLine, Nat.toList_repr]
  exact notMem_toDigits (by decide) n

@[simp] theorem oneLine_alignRight {width : Nat} {s : String} :
    OneLine (alignRight width s) ↔ OneLine s := by
  simp [OneLine]

@[simp] theorem oneLine_alignLeft {width : Nat} {s : String} :
    OneLine (alignLeft width s) ↔ OneLine s := by
  simp [OneLine]

theorem oneLine_oneDecimal (x : Binary64) : OneLine x.oneDecimal :=
  notMem_oneDecimal (by decide) x

@[simp] theorem oneLine_column (width : Nat) (x : Binary64) : OneLine (x.column width) :=
  oneLine_alignRight.mpr (oneLine_oneDecimal x)

@[simp] theorem oneLine_percentText (ratio : Binary64) : OneLine (percentText ratio) :=
  oneLine_append.mpr ⟨oneLine_column _ _, by decide⟩

@[simp] theorem oneLine_label (stability : Stability) : OneLine stability.label := by
  cases stability <;> decide

theorem oneLine_text (note : Note) : OneLine note.text := by
  cases note with
  | blank | unstableRamDivider | nominal | storageTooSlow | sdhcTooSlow => decide
  | overclocked | cpuRamOverclocked | cpuOverclocked | ramOverclocked =>
    simp only [Note.text_overclocked, Note.text_cpuRamOverclocked, Note.text_cpuOverclocked,
      Note.text_ramOverclocked, oneLine_append, oneLine_percentText, oneLine_label, and_true]
    decide

/-- Only the blank remark has no text. -/
theorem text_eq_empty_iff {note : Note} : note.text = "" ↔ note = .blank := by
  cases note with
  | blank => exact iff_of_true rfl rfl
  | unstableRamDivider | nominal | storageTooSlow | sdhcTooSlow =>
    exact iff_of_false (by decide) Note.noConfusion
  | overclocked | cpuRamOverclocked | cpuOverclocked | ramOverclocked => simp

theorem oneLine_columns (f : Config) (clocks : Clocks) : OneLine (f.columns clocks) := by
  simp only [Config.columns, mhzText, factorText, oneLine_append, oneLine_column,
    oneLine_alignLeft, oneLine_repr, and_true, true_and]
  decide

theorem oneLine_line (row : Row) : OneLine row.line := by
  rw [Row.line, Config.line]
  split
  · exact oneLine_columns _ _
  · exact oneLine_append.mpr
      ⟨oneLine_append.mpr ⟨oneLine_columns _ _, by decide⟩, oneLine_text _⟩

end OneLine

section Lines

def linesOf (text : String) : List String :=
  ((text.toList.splitOn '\n').dropLast).map String.ofList

theorem splitOn_flatMap {lines : List (List Char)} (oneLine : ∀ s ∈ lines, '\n' ∉ s) :
    (lines.flatMap (· ++ ['\n'])).splitOn '\n' = lines ++ [[]] := by
  induction lines with
  | nil => rfl
  | cons s lines ih =>
    have rest := ih fun t mem => oneLine t (List.mem_cons_of_mem s mem)
    have first : ∀ c ∈ s, (c == '\n') = false := by
      rintro c mem
      rw [beq_eq_false_iff_ne]
      rintro rfl
      exact oneLine s List.mem_cons_self mem
    rw [List.flatMap_cons, List.append_assoc, List.singleton_append, List.splitOn,
      List.splitOnP_append_cons_of_forall_mem first '\n' rfl]
    exact congrArg (s :: ·) rest

variable {lines : List String}

theorem toList_join_lines :
    (String.join (lines.map (· ++ "\n"))).toList =
      (lines.map String.toList).flatMap (· ++ ['\n']) := by
  simp [List.flatMap_map]

/-- Lines that are joined with line breaks are the lines of the text. -/
theorem linesOf_join (oneLine : ∀ s ∈ lines, OneLine s) :
    linesOf (String.join (lines.map (· ++ "\n"))) = lines := by
  have oneLine' : ∀ s ∈ lines.map String.toList, '\n' ∉ s := by simpa [OneLine] using oneLine
  rw [linesOf, toList_join_lines, splitOn_flatMap oneLine']
  simp

theorem count_join (oneLine : ∀ s ∈ lines, OneLine s) :
    (String.join (lines.map (· ++ "\n"))).toList.count '\n' = lines.length := by
  induction lines with
  | nil => rfl
  | cons s lines ih =>
    have rest := ih fun t mem => oneLine t (List.mem_cons_of_mem s mem)
    have first := List.count_eq_zero_of_not_mem (oneLine s List.mem_cons_self)
    simp only [List.map_cons, String.join_cons, String.toList_append, List.count_append, rest,
      first, List.length_cons]
    rw [show "\n".toList.count '\n' = 1 from rfl]
    omega

theorem getLast?_join (nonempty : lines ≠ []) :
    (String.join (lines.map (· ++ "\n"))).toList.getLast? = some '\n' := by
  obtain ⟨rest, last, rfl⟩ := List.eq_nil_or_concat lines |>.resolve_left nonempty
  simp

end Lines

namespace Document

def field? : Document → String → Option Document
  | record fields, name => fields.lookup name
  | _, _ => none

structure Describes (row : Document) (f : Config) (remark : String) : Prop where
  pllMul : row.field? "pll_mul" = some (integer f.pllMul.toNat)
  cpuDiv : row.field? "cpu_div" = some (integer f.cpuDiv.toNat)
  ramDiv : row.field? "ram_div" = some (integer f.ramDiv.toNat)
  pll : row.field? "pll" = some (integer f.pll)
  cpu : row.field? "cpu" = some (if f.cpu.IsFinite then real f.cpu else null)
  ram : row.field? "ram" = some (if f.ram.IsFinite then real f.ram else null)
  msd : row.field? "msd" = some (if f.msd.IsFinite then real f.msd else null)
  msd2 : row.field? "msd2" = some (if f.msd2.IsFinite then real f.msd2 else null)
  note : row.field? "note" = some (text remark)

end Document

namespace Config

variable {f : Config} {clocks : Clocks} {remark : String}

theorem clocks_eq_ok_iff :
    f.clocks = .ok clocks ↔ f.PllFits ∧ clocks = ⟨f.pll, f.cpu, f.ram, f.msd, f.msd2⟩ := by
  rw [Config.clocks]
  split
  next fits => simp [fits, eq_comm]
  next overflow => simp [overflow]

theorem formatRow_eq_ok (derived : f.clocks = .ok clocks) :
    f.formatRow remark = .ok (f.line clocks remark) := by
  rw [formatRow, derived]
  rfl

/-- A line ends in two spaces and its remark exactly if there is one. -/
theorem line_eq_remarked_iff :
    f.line clocks remark = f.line clocks "" ++ "  " ++ remark ↔ remark ≠ "" := by
  have plain : f.line clocks "" = f.columns clocks := if_pos rfl
  rw [plain, line]
  split
  next blank =>
    refine iff_of_false (fun same => ?_) (not_not_intro blank)
    have lengths := congrArg String.length same
    rw [String.length_append, String.length_append, show "  ".length = 2 from rfl] at lengths
    omega
  next remarked => exact iff_of_true rfl remarked

theorem line_eq_plain_iff : f.line clocks remark = f.line clocks "" ↔ remark = "" := by
  have plain : f.line clocks "" = f.columns clocks := if_pos rfl
  rw [plain, line]
  split
  next blank => exact iff_of_true rfl blank
  next remarked =>
    refine iff_of_false (fun same => ?_) remarked
    have lengths := congrArg String.length same
    rw [String.length_append, String.length_append, show "  ".length = 2 from rfl] at lengths
    omega

end Config

theorem Row.describes {l : Limits} {f : Config} {row : Row} (annotated : ofConfig l f = .ok row) :
    row.document.Describes f row.note.text := by
  obtain ⟨rfl, derived, -⟩ := ofConfig_eq_ok_iff.mp annotated
  have clocks_eq := (Config.clocks_eq_ok_iff.mp derived).2
  rw [document, clocks_eq]
  exact ⟨rfl, rfl, rfl, rfl, rfl, rfl, rfl, rfl, rfl⟩

namespace Table

section Text

variable (table : Table)

theorem oneLine_of_mem {s : String} (mem : s ∈ header :: table.rows.map Row.line) :
    OneLine s := by
  rcases List.mem_cons.mp mem with rfl | mem
  · decide
  · obtain ⟨row, -, rfl⟩ := List.mem_map.mp mem
    exact oneLine_line row

theorem linesOf_text : linesOf table.text = header :: table.rows.map Row.line :=
  linesOf_join fun _ mem => table.oneLine_of_mem mem

theorem count_text : table.text.toList.count '\n' = table.rows.length + 1 := by
  rw [text, count_join fun _ mem => table.oneLine_of_mem mem, List.length_cons, List.length_map]

theorem getLast?_text : table.text.toList.getLast? = some '\n' :=
  getLast?_join (List.cons_ne_nil _ _)

end Text

/-- The text and the document of a table describe the same rows, one for each configuration. A row
of the document holds the clocks and the remark of its configuration; its line is formatted from
that remark, and ends in it unless it is blank. -/
theorem text_and_document_agree {l : Limits} {configs : List Config} {table : Table}
    (rendered : ofConfigs l configs = .ok table) :
    table.text.toList.count '\n' = configs.length + 1 ∧
      table.text.toList.getLast? = some '\n' ∧ (linesOf table.text).head? = some header ∧
      ∃ rows, table.document.field? "rows" = some (.list rows) ∧ rows.length = configs.length ∧
        ∀ i f, configs[i]? = some f →
          ∃ note row line plain, l.classify f = .ok note ∧
            rows[i]? = some row ∧ row.Describes f note.text ∧
            (linesOf table.text)[i + 1]? = some line ∧ f.formatRow note.text = .ok line ∧
            f.formatRow "" = .ok plain ∧ (line = plain ++ "  " ++ note.text ↔ note ≠ .blank) ∧
            (line = plain ↔ note = .blank) := by
  obtain ⟨rfl, annotated⟩ := ofConfigs_eq_ok_iff.mp rendered
  have lengths := annotated.length_eq
  refine ⟨by rw [count_text, lengths], getLast?_text table, by rw [linesOf_text]; rfl,
    table.rows.map Row.document, rfl, by rw [List.length_map, lengths], ?_⟩
  intro i f at_i
  obtain ⟨i_lt, rfl⟩ := List.getElem?_eq_some_iff.mp at_i
  have i_lt' : i < table.rows.length := lengths ▸ i_lt
  have made : Row.ofConfig table.limits configs[i] = .ok table.rows[i] := annotated.get i_lt i_lt'
  obtain ⟨same_config, derived, classified⟩ := Row.ofConfig_eq_ok_iff.mp made
  refine ⟨table.rows[i].note, table.rows[i].document, table.rows[i].line, _, classified, ?_,
    Row.describes made, ?_, ?_, Config.formatRow_eq_ok derived, ?_, ?_⟩
  · simp [i_lt']
  · simp [linesOf_text, i_lt']
  · rw [Row.line, same_config, Config.formatRow_eq_ok derived]
  · rw [Row.line, same_config, Config.line_eq_remarked_iff, ne_eq, text_eq_empty_iff]
  · rw [Row.line, same_config, Config.line_eq_plain_iff, text_eq_empty_iff]

/-- The nominal configuration, and one whose CPU and RAM clocks are NaN, without a remark. -/
theorem text_and_document_agree_without_clocks :
    let configs : List Config := [⟨30, 1, 3⟩, ⟨0, 0, 0⟩]
    ∃ table rows row line, ofConfigs .standard configs = .ok table ∧
      table.text.toList.count '\n' = 3 ∧ table.document.field? "rows" = some (.list rows) ∧
      rows[1]? = some row ∧ row.field? "cpu" = some .null ∧ row.field? "pll" = some (.integer 0) ∧
      (linesOf table.text)[2]? = some line ∧ Config.formatRow ⟨0, 0, 0⟩ "" = .ok line := by
  intro configs
  have unremarked : Limits.standard.classify ⟨0, 0, 0⟩ = .ok .blank := by decide +kernel
  have classified : ∀ f ∈ configs, ∃ note, Limits.standard.classify f = .ok note := by
    intro f mem
    rcases List.mem_pair.mp mem with rfl | rfl
    · exact ⟨.nominal, by decide +kernel⟩
    · exact ⟨.blank, unremarked⟩
  obtain ⟨table, rendered⟩ := exists_ofConfigs classified
  obtain ⟨count, -, -, rows, listed, -, agree⟩ := text_and_document_agree rendered
  obtain ⟨note, row, line, plain, noted, at_row, described, at_line, -, formatted, -, plain_iff⟩ :=
    agree 1 ⟨0, 0, 0⟩ rfl
  have blank : note = .blank := Except.ok.inj (noted.symm.trans unremarked)
  have no_clock : ¬ (Config.cpu ⟨0, 0, 0⟩).IsFinite := by decide +kernel
  refine ⟨table, rows, row, line, rendered, count, listed, at_row, ?_, described.pll, at_line, ?_⟩
  · rw [described.cpu, if_neg no_clock]
  · rw [plain_iff.mpr blank, formatted]

end Table

end ClockTree
