import ClockTree.Proofs.Annotation
import ClockTree.Proofs.Enumeration
import ClockTree.Table

/-! The rows of a table. A table annotates its configurations one by one and in order, each row
with the configuration, its clocks and its remark, and it exists exactly if each of them earns a
remark. -/
namespace ClockTree

theorem Limits.pllFits_of_classify_eq_ok {l : Limits} {f : Config} {note : Note}
    (classified : l.classify f = .ok note) : f.PllFits := by
  by_contra overflow
  simp [classify, overflow] at classified

theorem Row.ofConfig_eq_ok_iff {l : Limits} {f : Config} {row : Row} :
    Row.ofConfig l f = .ok row ↔
      row.config = f ∧ f.clocks = .ok row.clocks ∧ l.classify f = .ok row.note := by
  rw [Row.ofConfig]
  cases classified : l.classify f with
  | error fault => simp
  | ok note =>
    simp only [map_eq_ok_iff, Except.ok.injEq]
    constructor
    · rintro ⟨clocks, derived, rfl⟩
      exact ⟨rfl, derived, rfl⟩
    · rintro ⟨rfl, derived, rfl⟩
      exact ⟨row.clocks, derived, rfl⟩

/-- A row stops where its remark does, and nowhere else. -/
theorem Row.ofConfig_eq_error_iff {l : Limits} {f : Config} {fault : Fault} :
    Row.ofConfig l f = .error fault ↔ l.classify f = .error fault := by
  rw [Row.ofConfig]
  cases classified : l.classify f with
  | error fault => simp
  | ok note => simp [Config.clocks, Limits.pllFits_of_classify_eq_ok classified, Except.map]

namespace Table

theorem ofConfigs_eq_ok_iff {l : Limits} {configs : List Config} {table : Table} :
    ofConfigs l configs = .ok table ↔
      table.limits = l ∧
        List.Forall₂ (fun f row => Row.ofConfig l f = .ok row) configs table.rows := by
  simp only [ofConfigs, map_eq_ok_iff, mapM_eq_ok_iff]
  constructor
  · rintro ⟨rows, annotated, rfl⟩
    exact ⟨rfl, annotated⟩
  · rintro ⟨rfl, annotated⟩
    exact ⟨table.rows, annotated, rfl⟩

/-- The rows of a table stand in the places of their configurations. -/
theorem exists_row {l : Limits} {configs : List Config} {table : Table}
    (rendered : ofConfigs l configs = .ok table) {i : Nat} {f : Config}
    (at_i : configs[i]? = some f) :
    ∃ row, table.rows[i]? = some row ∧ Row.ofConfig l f = .ok row := by
  obtain ⟨-, annotated⟩ := ofConfigs_eq_ok_iff.mp rendered
  obtain ⟨i_lt, rfl⟩ := List.getElem?_eq_some_iff.mp at_i
  have i_lt' : i < table.rows.length := annotated.length_eq ▸ i_lt
  exact ⟨table.rows[i], List.getElem?_eq_getElem i_lt', annotated.get i_lt i_lt'⟩

theorem ofConfigs_eq_error_iff {l : Limits} {configs : List Config} {fault : Fault} :
    ofConfigs l configs = .error fault ↔ ∃ f ∈ configs, l.classify f = .error fault := by
  have alike : ∀ f ∈ configs, ∀ e, Row.ofConfig l f = .error e → e = .pllOverflow := by
    intro f _ e stopped
    exact (Limits.classify_eq_error_iff.mp (Row.ofConfig_eq_error_iff.mp stopped)).1
  rw [ofConfigs, map_eq_error_iff, mapM_eq_error_iff alike]
  simp only [Row.ofConfig_eq_error_iff]

theorem exists_ofConfigs {l : Limits} {configs : List Config}
    (classified : ∀ f ∈ configs, ∃ note, l.classify f = .ok note) :
    ∃ table, ofConfigs l configs = .ok table := by
  rw [exists_eq_ok_iff]
  intro fault failed
  obtain ⟨f, mem, stopped⟩ := ofConfigs_eq_error_iff.mp failed
  exact exists_eq_ok_iff.mp (classified f mem) fault stopped

theorem ofLimits_eq_ok_iff {l : Limits} {table : Table} :
    ofLimits l = .ok table ↔
      ∃ configs, l.enumerate = .ok configs ∧ ofConfigs l configs = .ok table := by
  rw [ofLimits]
  cases l.enumerate with
  | error e => simp
  | ok configs => simp [mapError_eq_ok_iff]

/-- The row of a table comes from one of the configurations it enumerates. -/
theorem exists_of_mem_rows {l : Limits} {table : Table} (rendered : ofLimits l = .ok table)
    {row : Row} (mem : row ∈ table.rows) : ∃ configs f, l.enumerate = .ok configs ∧
      f ∈ configs ∧ Row.ofConfig l f = .ok row := by
  obtain ⟨configs, enumerated, annotated⟩ := ofLimits_eq_ok_iff.mp rendered
  obtain ⟨-, rows⟩ := ofConfigs_eq_ok_iff.mp annotated
  obtain ⟨i, i_lt, rfl⟩ := List.mem_iff_getElem.mp mem
  have i_lt' : i < configs.length := rows.length_eq ▸ i_lt
  exact ⟨configs, configs[i], enumerated, List.getElem_mem i_lt', rows.get i_lt' i_lt⟩

theorem exists_ofLimits {l : Limits} (valid : l.WellFormed) (fits : l.TopFits)
    (nominal_fits : l.nominal.PllFits) : ∃ table, ofLimits l = .ok table := by
  have classified : ∀ f ∈ Config.ranked l.accepted, ∃ note, l.classify f = .ok note :=
    fun f mem => ⟨_, Limits.classify_eq_ok
      (fits.pllFits (Limits.mem_ranked_accepted.mp mem).1) nominal_fits⟩
  obtain ⟨table, annotated⟩ := exists_ofConfigs classified
  exact ⟨table, ofLimits_eq_ok_iff.mpr ⟨_, valid.enumerate_eq_ok fits, annotated⟩⟩

end Table

end ClockTree
