import ClockTree.Row
import ClockTree.Search

/-! The annotated clock table: one row for each configuration, in the given order, as
text and as a document that also records the limits. -/
namespace ClockTree

structure Table where
  limits : Limits
  rows : List Row
  deriving DecidableEq, Repr

namespace Table

/-- Annotates configurations. The first fault among them is the answer. -/
def ofConfigs (l : Limits) (configs : List Config) : Except Fault Table :=
  (configs.mapM (Row.ofConfig l)).map fun rows => ⟨l, rows⟩

def ofLimits (l : Limits) : Except SearchError Table :=
  match l.enumerate with
  | .error error => .error error
  | .ok configs => (ofConfigs l configs).mapError .fault

def text (table : Table) : String :=
  String.join ((header :: table.rows.map Row.line).map (· ++ "\n"))

def document (table : Table) : Document := .record [
  ("view", .text "clocks"),
  ("limits", .ofLimits table.limits),
  ("rows", .list (table.rows.map Row.document))]

end Table

end ClockTree
