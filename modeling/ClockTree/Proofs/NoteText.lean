import ClockTree.Proofs.TableText

/-! What a remark tells. Every remark begins with the title of its kind, and no title but that of the
blank remark begins another. A percentage ends in the only percent sign it holds, so the numbers
that follow a title are told apart from the words between them, however many digits they have. -/
namespace ClockTree

namespace Note

inductive Kind where
  | blank
  | unstableRamDivider
  | nominal
  | overclocked
  | cpuRamOverclocked
  | cpuOverclocked
  | ramOverclocked
  | storageTooSlow
  | sdhcTooSlow
  deriving DecidableEq, Repr

def kind : Note → Kind
  | blank => .blank
  | unstableRamDivider => .unstableRamDivider
  | nominal => .nominal
  | overclocked .. => .overclocked
  | cpuRamOverclocked .. => .cpuRamOverclocked
  | cpuOverclocked .. => .cpuOverclocked
  | ramOverclocked .. => .ramOverclocked
  | storageTooSlow => .storageTooSlow
  | sdhcTooSlow => .sdhcTooSlow

def stability? : Note → Option Stability
  | overclocked _ stability | cpuRamOverclocked _ _ stability | cpuOverclocked _ stability
  | ramOverclocked _ stability => some stability
  | _ => none

def ratios : Note → List Binary64
  | overclocked ratio _ | cpuOverclocked ratio _ | ramOverclocked ratio _ => [ratio]
  | cpuRamOverclocked cpu ram _ => [cpu, ram]
  | _ => []

/-- The text of a remark as far as its kind decides it. -/
def Kind.title : Kind → String
  | blank => ""
  | unstableRamDivider => "Unstable: RAM div /1 > 100 MHz"
  | nominal => "The nominal clock speed"
  | overclocked => "Overclocked "
  | cpuRamOverclocked => "CPU +"
  | cpuOverclocked => "CPU overclocked "
  | ramOverclocked => "RAM overclocked "
  | storageTooSlow => "interface may be too slow for both legacy and high-capacity storage modes"
  | sdhcTooSlow => "interface may be too slow for the high-capacity storage mode"

/-- No title begins another, apart from the empty one. -/
theorem Kind.eq_of_title_prefix {j k : Kind} (titled : j ≠ blank)
    (begins : j.title.toList <+: k.title.toList) : j = k := by
  cases j <;> cases k <;> first | rfl | exact absurd rfl titled | exact absurd begins (by decide)

variable {a b : Note}

theorem title_prefix (a : Note) : a.kind.title.toList <+: a.text.toList := by
  cases a with
  | blank | unstableRamDivider | nominal | storageTooSlow | sdhcTooSlow => exact List.prefix_rfl
  | overclocked | cpuRamOverclocked | cpuOverclocked | ramOverclocked =>
    simp only [text_overclocked, text_cpuRamOverclocked, text_cpuOverclocked, text_ramOverclocked,
      String.toList_append, List.append_assoc]
    exact List.prefix_append _ _

theorem kind_eq_blank_iff : a.kind = .blank ↔ a = .blank := by
  cases a <;> simp [kind]

/-- Equal texts begin with two titles, so one of these begins the other. -/
theorem kind_eq_of_text_eq (same : a.text = b.text) : a.kind = b.kind := by
  by_cases a_blank : a = .blank
  · have b_blank : b = .blank := by rw [← text_eq_empty_iff, ← same, text_eq_empty_iff, a_blank]
    rw [a_blank, b_blank]
  · have b_titled : b ≠ .blank := by rwa [ne_eq, ← text_eq_empty_iff, ← same, text_eq_empty_iff]
    have a_title := a.title_prefix
    rw [same] at a_title
    rcases List.prefix_or_prefix_of_prefix a_title b.title_prefix with begins | begins
    · exact Kind.eq_of_title_prefix (kind_eq_blank_iff.not.mpr a_blank) begins
    · exact (Kind.eq_of_title_prefix (kind_eq_blank_iff.not.mpr b_titled) begins).symm

end Note

theorem toList_percentText (ratio : Binary64) :
    (percentText ratio).toList = (((ratio - 1) * 100).column 4).toList ++ ['%'] := by
  simp [percentText]

/-- A percentage ends at its percent sign. -/
@[simp] theorem percentText_append_inj {ratio ratio' : Binary64} {s t : String} :
    percentText ratio ++ s = percentText ratio' ++ t ↔
      percentText ratio = percentText ratio' ∧ s = t := by
  have free (x : Binary64) : '%' ∉ (x.column 4).toList := notMem_column (by decide) (by decide) 4 x
  simp only [← String.toList_inj, String.toList_append, toList_percentText, List.append_assoc,
    List.cons_append, List.nil_append]
  rw [append_cons_inj (free _) (free _)]
  simp

@[simp] theorem Stability.label_inj {s t : Stability} : s.label = t.label ↔ s = t := by
  cases s <;> cases t <;> decide

namespace Note

variable {a b : Note}

/-- Past its title a text is the percentages and the verdict, one after the other. -/
theorem text_eq_iff_of_kind_eq (same_kind : a.kind = b.kind) :
    a.text = b.text ↔
      a.ratios.map percentText = b.ratios.map percentText ∧ a.stability? = b.stability? := by
  match a, b, same_kind with
  | .blank, .blank, _ => exact iff_of_true rfl ⟨rfl, rfl⟩
  | .unstableRamDivider, .unstableRamDivider, _ => exact iff_of_true rfl ⟨rfl, rfl⟩
  | .nominal, .nominal, _ => exact iff_of_true rfl ⟨rfl, rfl⟩
  | .storageTooSlow, .storageTooSlow, _ => exact iff_of_true rfl ⟨rfl, rfl⟩
  | .sdhcTooSlow, .sdhcTooSlow, _ => exact iff_of_true rfl ⟨rfl, rfl⟩
  | .overclocked .., .overclocked .., _ => simp [String.append_assoc, ratios, stability?]
  | .cpuRamOverclocked .., .cpuRamOverclocked .., _ =>
    simp [String.append_assoc, ratios, stability?, and_assoc]
  | .cpuOverclocked .., .cpuOverclocked .., _ => simp [String.append_assoc, ratios, stability?]
  | .ramOverclocked .., .ramOverclocked .., _ => simp [String.append_assoc, ratios, stability?]

/-- A text tells the kind of the remark, its verdict and its percentages as they are written, and
nothing but the blank remark goes without one. -/
theorem text_identifies_reading (a b : Note) :
    (a.text = b.text ↔ a.kind = b.kind ∧ a.stability? = b.stability? ∧
      a.ratios.map percentText = b.ratios.map percentText) ∧
    (a.text = "" ↔ a.isEmpty = true) := by
  refine ⟨⟨fun same => ?_, ?_⟩, ?_⟩
  · have same_kind := kind_eq_of_text_eq same
    obtain ⟨percentages, verdict⟩ := (text_eq_iff_of_kind_eq same_kind).mp same
    exact ⟨same_kind, verdict, percentages⟩
  · rintro ⟨same_kind, verdict, percentages⟩
    exact (text_eq_iff_of_kind_eq same_kind).mpr ⟨percentages, verdict⟩
  · rw [text_eq_empty_iff]
    cases a <;> simp [isEmpty]

end Note

end ClockTree
