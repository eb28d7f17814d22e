import LogRisk.NodeRisk.Record

/-!
# Tables of the node risk ledger

Events, the contributions ingested into them, the projection revision of every
node, and what a recalculation writes: score samples, snapshots and daily rows.
-/

namespace LogRisk.NodeRisk

open LogRisk.Library

inductive EventStatus where
  | active
  | acknowledged
  | recovered
deriving DecidableEq

inductive Derivation where
  | current
  | superseded
deriving DecidableEq

/-- A row of `node_risk_events`. -/
structure RiskEvent where
  eventId : String
  cluster : String
  nodeId : String
  riskDomain : String
  riskCategory : String
  riskType : String
  riskSubtype : Option String
  severity : String
  baseScore : ℚ
  confidence : ℚ
  semanticRuleId : String
  semanticRuleVersion : ℤ
  dedupKey : String
  occurrenceCount : ℕ
  currentOccurrenceCount : Option ℕ := none
  derivationStatus : Derivation := .current
  firstSeen : IsoTime
  lastSeen : IsoTime
  windowStart : IsoTime
  windowEnd : IsoTime
  status : EventStatus
  recoveredAt : Option IsoTime := none
  acknowledgedAt : Option IsoTime := none
  acknowledgedBy : Option String := none
  semanticFields : Dict String String
  evidenceRefs : List String
  sourceJobId : Option String
  sourceTraceId : Option String
  createdAt : IsoTime
  updatedAt : IsoTime
deriving DecidableEq

/-- `contribution_json`. -/
structure Contribution where
  timestamp : IsoTime
  severity : String
  baseScore : ℚ
  confidence : ℚ
  evidenceRefs : List String
deriving DecidableEq

/-- A row of `node_risk_ingestions`. -/
structure Ingestion where
  eventId : String
  sourceJobId : Option String
  occurrenceCount : ℕ
  ingestedAt : IsoTime
  physicalKey : Option String
  semanticRevision : String
  isCurrent : Bool := true
  contribution : Option Contribution
deriving DecidableEq

/-- A row of `node_risk_projection_revisions`. -/
structure Revision where
  revision : ℕ
  projectedRevision : ℕ
  updatedAt : IsoTime
deriving DecidableEq

/-- A row of `node_risk_score_samples`. -/
structure ScoreSample where
  node : String × String
  revision : ℕ
  assessedAt : IsoTime
  overallScore : ℚ
deriving DecidableEq

/-- The event counts of `_statistics` that a snapshot keeps. -/
structure Statistics where
  activeEventCount : ℕ
  eventCount24h : ℕ
  eventCount7d : ℕ
  eventCount30d : ℕ
  occurrenceCount24h : ℕ
  distinctRiskTypes7d : ℕ
deriving DecidableEq

inductive Trend where
  | unknown
  | rising
  | falling
  | stable
deriving DecidableEq

/-- The result of `_score`; `details` stands for the lists and dictionaries that
are stored as JSON. -/
structure Score where
  overallScore : ℚ
  overallLevel : String
  confidence : ℚ
  trend : Trend
  details : Json

/-- A row of `node_risk_snapshots`. -/
structure Snapshot where
  score : Score
  statistics : Statistics
  latestRiskAt : Option IsoTime
  calculatedAt : IsoTime

/-- What a row of `node_risk_daily` counts. -/
structure DayAggregate where
  eventCount : ℕ
  occurrenceCount : ℕ
  distinctRiskTypes : ℕ
  criticalCount : ℕ
  highCount : ℕ
  mediumCount : ℕ
  lowCount : ℕ
  activeCount : ℕ
  recoveredCount : ℕ
  latestRiskAt : Option IsoTime
  domainDistribution : List (String × ℕ)
  typeDistribution : List (String × ℕ)
deriving DecidableEq

/-- A row of `node_risk_daily`: the counts, and two peaks that never fall. -/
structure DailyRow where
  aggregate : DayAggregate
  maxEventScore : ℚ
  maxOverallScore : ℚ
  updatedAt : IsoTime
deriving DecidableEq

structure Tables where
  events : Dict String RiskEvent := ∅
  ingestions : Dict String Ingestion := ∅
  revisions : Dict (String × String) Revision := ∅
  samples : List ScoreSample := []
  snapshots : Dict (String × String) Snapshot := ∅
  /-- Under the node and the date. -/
  daily : Dict ((String × String) × ℤ) DailyRow := ∅

def Tables.empty : Tables := {}

def RiskEvent.node (e : RiskEvent) : String × String := (e.cluster, e.nodeId)

/-! ## Updates -/

def Tables.setEvent (t : Tables) (eventId : String) (e : RiskEvent) : Tables :=
  { t with events := t.events.set eventId e }

def Tables.setIngestion (t : Tables) (fingerprint : String) (i : Ingestion) : Tables :=
  { t with ingestions := t.ingestions.set fingerprint i }

@[simp] theorem Tables.setEvent_events (t : Tables) (id : String) (e : RiskEvent) :
    (t.setEvent id e).events = t.events.set id e := rfl

@[simp] theorem Tables.setIngestion_ingestions (t : Tables) (fp : String) (i : Ingestion) :
    (t.setIngestion fp i).ingestions = t.ingestions.set fp i := rfl

/-- `_mark_dirty`. -/
def Tables.markDirty (t : Tables) (node : String × String) (now : IsoTime) : Tables :=
  { t with revisions := t.revisions.alter node fun old =>
      match old with
      | none => ⟨1, 0, now⟩
      | some r => ⟨r.revision + 1, r.projectedRevision, now⟩ }

@[simp] theorem Tables.markDirty_ingestions (t : Tables) (node : String × String) (now : IsoTime) :
    (t.markDirty node now).ingestions = t.ingestions := rfl

/-- The current contributions to an event, in the order they were ingested. -/
def Tables.contributionsTo (t : Tables) (eventId : String) : List Ingestion :=
  t.ingestions.values.filter fun i => i.eventId = eventId ∧ i.isCurrent

end LogRisk.NodeRisk
