import LogRisk.Library.Dict
import LogRisk.MultiSource.Router

/-!
# Observations of several sources

What an ingestion makes of the template windows of risk entities, and the table that it
stores them in.  The name of an observation is taken from the members of the template, its
window and its cluster from what these fall back to.
-/

namespace LogRisk.MultiSource

open LogRisk.Library

structure RiskEntity where
  cluster : String := ""
  entityType : String := ""
  entityId : String := ""
  riskScore : ℚ := 0
  riskLevel : String := ""
  windowStart : String := ""
  windowEnd : String := ""
  topTemplates : List Template := []

structure Observation where
  observationId : String
  /-- Empty where there is no job. -/
  sourceJobId : String
  cluster : String
  sourceType : String
  sourceFamily : String
  component : String
  severity : Option String
  templateHash : String
  template : String
  count : ℤ
  riskScore : ℚ
  riskLevel : String
  windowStart : String
  windowEnd : String
  entityKeys : List String
  relations : List Relation

def knownSourceFamilies : List String :=
  ["audit", "containerd", "journal", "kernel", "kubelet", "podlog"]

section Observing

variable (host : Host) (aliases : Aliases)

def sourceFamily (template : Template) : String :=
  let component := host.casefold (orElse (template.get "component") "unknown")
  let sourceType := host.casefold (orElse (template.get "source_type") "unknown")
  if component ∈ knownSourceFamilies then component else sourceType

/-- What the name of an observation is the digest of. -/
def identityParts (sourceJobId : String) (template : Template) (entityKeys : List String) :
    List String :=
  [sourceJobId, orElse (template.get "cluster") "default", template.get "window_start",
    template.get "window_end", template.get "template_hash"] ++ entityKeys.insertionSort (· ≤ ·)

def observationId (sourceJobId : String) (template : Template) (entityKeys : List String) : String :=
  "observation-" ++ host.digest ("|".intercalate (identityParts sourceJobId template entityKeys))

/-- The template with what it takes over from its entity. -/
def inherited (entity : RiskEntity) (template : Template) : Template :=
  let template := template.setDefault "cluster" entity.cluster
  if entity.entityType.isEmpty ∨ entity.entityId.isEmpty then template
  else template.setDefault entity.entityType entity.entityId

/-- `datetime.fromisoformat(text.replace("Z", "+00:00"))`. -/
def parseTime (text : String) : Option IsoTime := host.fromIso (Text.replaceChar text 'Z' "+00:00")

def isUnknown (window : String) : Bool :=
  window.isEmpty || Text.lower (Text.strip window) == "unknown"

/-- A template window before it is named: the template, its job, its route and its window. -/
structure Window where
  sourceJobId : String
  template : Template
  route : Route
  windowStart : String
  windowEnd : String
  start : IsoTime

/-- The window of a template, unless it cannot be routed. -/
def windowOf (sourceJobId : String) (entity : RiskEntity) (source : Template) : Option Window := do
  let template := inherited entity source
  let route ← windowRoute host aliases template
  let windowStart := orElse (template.get "window_start") entity.windowStart
  let windowEnd := orElse (template.get "window_end") entity.windowEnd
  guard (¬ isUnknown windowStart ∧ ¬ isUnknown windowEnd ∧ (template.get "template_hash") ≠ "")
  let start ← parseTime host windowStart
  let _ ← parseTime host windowEnd
  return { sourceJobId, template, route, windowStart, windowEnd, start }

def Window.id (w : Window) : String :=
  observationId host w.sourceJobId w.template w.route.entityKeys

def observe (entity : RiskEntity) (w : Window) : Observation where
  observationId := w.id host
  sourceJobId := w.sourceJobId
  cluster := w.route.cluster
  sourceType := orElse (w.template.get "source_type") "unknown"
  sourceFamily := sourceFamily host w.template
  component := orElse (w.template.get "component") "unknown"
  severity := w.template.members "severity"
  templateHash := w.template.get "template_hash"
  template := w.template.get "template"
  count := max 1 (w.template.count.getD 1)
  riskScore := entity.riskScore
  riskLevel := orElse entity.riskLevel "unknown"
  windowStart := w.windowStart
  windowEnd := w.windowEnd
  entityKeys := w.route.entityKeys
  relations := w.route.relations

/-- The template windows of an ingestion, in their order. -/
def windows (sourceJobId : String) (entities : List RiskEntity) : List (RiskEntity × Window) :=
  entities.flatMap fun entity =>
    (entity.topTemplates.filterMap (windowOf host aliases sourceJobId entity)).map (entity, ·)

end Observing

/-! ## The table -/

abbrev Observations : Type := Dict String Observation

/-- What an upsert writes over a stored observation. -/
def Observation.update (row new : Observation) : Observation :=
  { row with
    count := new.count, riskScore := new.riskScore, riskLevel := new.riskLevel,
    entityKeys := new.entityKeys, relations := new.relations }

def upsert (row : Option Observation) (new : Observation) : Observation :=
  match row with
  | none => new
  | some row => row.update new

/-- `save_observation` of one after the other. -/
def save (table : Observations) (observations : List Observation) : Observations :=
  Dict.groupFold Observation.observationId upsert table observations

/-- The times that `ingest_risk_entities` hands to the correlation: its earliest window start. -/
def earliest : List Window → Option IsoTime
  | [] => none
  | w :: rest => some (rest.foldl (fun t w => t.earlier w.start) w.start)

/-- The observations of an ingestion. -/
def ingested (host : Host) (aliases : Aliases) (sourceJobId : String) (entities : List RiskEntity) :
    List Observation :=
  (windows host aliases sourceJobId entities).map fun w => observe host w.1 w.2

end LogRisk.MultiSource
