import LogRisk.Windows.Aggregator

/-!
# Merging windows across batches

`_merge_template_windows` folds windows with the same identity into one.  Its key and
its rules are written apart from the aggregator's: the unit of a systemd event is in
the key of the aggregator only.  The windows stay in the order in which their
identities first appear.
-/

namespace LogRisk.Windows

open LogRisk.Library

variable {ν : Type}

/-- The key of the merge, which is also what a stored result window is known by. -/
structure Identity where
  windowStart : Option ℤ
  windowEnd : Option ℤ
  cluster : Option String
  entityType : EntityType
  entityId : String
  component : Option String
  templateHash : Option String
  riskType : Option String
  sourceType : Option String
  semanticExtractorVersion : Option String
  semanticDictionaryVersions : List (String × String)
deriving DecidableEq

def Window.identity (w : Window ν) : Identity where
  windowStart := w.windowStart
  windowEnd := w.windowEnd
  cluster := w.cluster
  entityType := w.entityType
  entityId := w.entityId
  component := w.component
  templateHash := w.templateHash
  riskType := w.riskSemantic.bind RiskSemantic.riskType
  sourceType := w.sourceType
  semanticExtractorVersion := w.semanticExtractorVersion
  semanticDictionaryVersions := w.semanticDictionaryVersions

/-- The table of the merge, for severities in small letters. -/
def mergeSeverityTable : List (String × ℤ) :=
  [("trace", 0), ("debug", 1), ("info", 2), ("notice", 3), ("warning", 4), ("warn", 4),
    ("error", 5), ("critical", 6), ("fatal", 7)]

def mergeSeverityOrder (severity : Option String) : ℤ :=
  (mergeSeverityTable.lookup (Text.lower (severity.getD ""))).getD (-1)

/-- A further window of the same identity. -/
def Window.merged (current window : Window ν) : Window ν :=
  { current with
    count := current.count + window.count
    semanticTags := current.semanticTags ∪ window.semanticTags
    severityDistribution := current.severityDistribution + window.severityDistribution
    typedParameters := current.typedParameters + window.typedParameters
    severity := raised mergeSeverityOrder current.severity window.severity
    firstSeen := earliest current.firstSeen window.firstSeen
    affectedNamespaces := current.affectedNamespaces ∪ window.affectedNamespaces
    affectedPods := current.affectedPods ∪ window.affectedPods
    entityKeys := current.entityKeys ∪ window.entityKeys
    entityRelations := current.entityRelations ∪ window.entityRelations
    lastSeen := latest current.lastSeen window.lastSeen
    semanticFields := current.semanticFields + window.semanticFields }

def mergeStep (current : Option (Window ν)) (window : Window ν) : Window ν :=
  match current with
  | none => window
  | some current => current.merged window

/-- `merged` after the windows. -/
def mergedWindows (windows : List (Window ν)) : Dict Identity (Window ν) :=
  Dict.groupFold Window.identity mergeStep ∅ windows

/-- `_merge_template_windows`. -/
def mergeTemplateWindows (windows : List (Window ν)) : List (Window ν) :=
  (mergedWindows windows).values

/-! ## The two tables of severities -/

theorem lookup_lower {table : List (String × ℤ)}
    (hcapital : ∀ entry ∈ table, ∀ c ∈ entry.1.toList, Text.IsCapital c) (s : String) :
    (table.map fun entry => (Text.lower entry.1, entry.2)).lookup (Text.lower s) =
      table.lookup (Text.upper s) := by
  induction table with
  | nil => rfl
  | cons entry table ih =>
      have ih := ih fun e he => hcapital e (List.mem_cons_of_mem _ he)
      have hiff := @Text.upper_eq_iff s _ (hcapital entry List.mem_cons_self)
      rw [List.map_cons, List.lookup_cons, List.lookup_cons, ih]
      by_cases heq : Text.upper s = entry.1
      · rw [beq_iff_eq.mpr heq, beq_iff_eq.mpr (hiff.mp heq)]
      · rw [beq_eq_false_iff_ne.mpr heq, beq_eq_false_iff_ne.mpr (hiff.not.mp heq)]

/-- The merge ranks severities as the aggregator does. -/
theorem mergeSeverityOrder_eq : mergeSeverityOrder = severityOrder := by
  ext severity
  have htable : mergeSeverityTable =
      severityTable.map fun entry => (Text.lower entry.1, entry.2) := by decide
  have hcapital : (severityTable.all fun entry => entry.1.toList.all fun c =>
      decide (65 ≤ c.toNat) && decide (c.toNat ≤ 90)) = true := by decide +kernel
  unfold mergeSeverityOrder severityOrder
  rw [htable, lookup_lower]
  intro entry hentry c hc
  have hchars := List.all_eq_true.mp (List.all_eq_true.mp hcapital entry hentry) c hc
  rw [Bool.and_eq_true, decide_eq_true_eq, decide_eq_true_eq] at hchars
  exact hchars

end LogRisk.Windows
