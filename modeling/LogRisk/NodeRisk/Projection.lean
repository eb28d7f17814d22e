import LogRisk.NodeRisk.Ingest

/-!
# Recalculating a node

A recalculation reads the revision of the node and those of its events that are
open or were seen in the last thirty days.  It records its projection, unless the
revision has moved on, and then rewrites the row of every day it has read an
event of.
-/

namespace LogRisk.NodeRisk

open LogRisk.Library LogRisk.Library.Transaction

/-! ## Events as they are read -/

inductive ViewStatus where
  | active
  | acknowledged
  | recovered
  | superseded
deriving DecidableEq

def EventStatus.view : EventStatus → ViewStatus
  | active => .active
  | acknowledged => .acknowledged
  | recovered => .recovered

def ViewStatus.isOpen : ViewStatus → Bool
  | active | acknowledged => true
  | recovered | superseded => false

/-- `_event`. -/
structure EventView where
  event : RiskEvent
  occurrenceCount : ℕ
  status : ViewStatus
deriving DecidableEq

def RiskEvent.view (e : RiskEvent) : EventView where
  event := e
  occurrenceCount := e.currentOccurrenceCount.getD e.occurrenceCount
  status := if e.derivationStatus = .superseded then .superseded else e.status.view

def lookBack : ℤ := 30 * IsoTime.day

/-- The events a recalculation at `now` reads. -/
def visible (now : IsoTime) (e : RiskEvent) : Bool :=
  e.status.view.isOpen || decide (now.add (-lookBack) ≤ e.lastSeen)

def Tables.eventsOf (t : Tables) (node : String × String) : List RiskEvent :=
  t.events.values.filter fun e => e.node = node

def readEvents (t : Tables) (node : String × String) (now : IsoTime) : List EventView :=
  ((t.eventsOf node).filter (visible now)).map RiskEvent.view

/-- The part of `_statistics` that is stored. -/
def statistics (events : List EventView) (now : IsoTime) : Statistics :=
  let events := events.filter fun e => e.status ≠ .superseded
  let recent (days : ℤ) := events.filter fun e =>
    decide (now.instant - days * IsoTime.day ≤ e.event.lastSeen.instant)
  { activeEventCount := events.countP fun e => e.status.isOpen
    eventCount24h := (recent 1).length
    eventCount7d := (recent 7).length
    eventCount30d := (recent 30).length
    occurrenceCount24h := ((recent 1).map (·.occurrenceCount)).sum
    distinctRiskTypes7d := ((recent 7).map (·.event.riskType)).dedup.length }

/-! ## The projection -/

/-- `_score`, which works in floating point. -/
abbrev ScoreModel := List EventView → Statistics → IsoTime → Score

/-- The peak of the last day before today that has a row. -/
def previousPeak (t : Tables) (node : String × String) (now : IsoTime) : Option ℚ :=
  let rows := t.daily.entries.filter fun r => r.1.1 = node ∧ r.1.2 < now.date
  match (rows.map (·.1.2)).max? with
  | none => none
  | some date => (t.daily.get? (node, date)).map (·.maxOverallScore)

def trend (score : ℚ) : Option ℚ → Trend
  | none => .unknown
  | some previous =>
      if 10 ≤ score - previous then .rising
      else if score - previous ≤ -10 then .falling
      else .stable

/-- A recalculation that has read what it needs. -/
structure Projection where
  node : String × String
  now : IsoTime
  /-- `none` where the node has no revision row. -/
  revision : Option ℕ
  events : List EventView
  snapshot : Snapshot

def readRevision (t : Tables) (node : String × String) : Option ℕ :=
  (t.revisions.get? node).map (·.revision)

/-- The snapshot of these events. -/
def snapshotOf (model : ScoreModel) (events : List EventView) (now : IsoTime) (previous : Option ℚ) :
    Snapshot :=
  let counts := statistics events now
  let score := model events counts now
  { score := { score with
      trend := if previous.isSome then trend score.overallScore previous else score.trend }
    statistics := counts
    latestRiskAt := (events.map (·.event.lastSeen)).max?
    calculatedAt := now }

/-- Record the projected revision, unless the revision has moved on. -/
def projectRevision (t : Tables) (p : Projection) :
    Except Failure (Dict (String × String) Revision) :=
  match p.revision with
  | none => .ok t.revisions
  | some revision => do
      let row ← orFail ((t.revisions.get? p.node).filter fun r => r.revision = revision)
        (conflict "节点投影版本已变化" "node_risk_projection_conflict")
      .ok (t.revisions.set p.node { row with projectedRevision := revision })

/-- The first transaction of a recalculation. -/
def project (t : Tables) (p : Projection) : Except Failure (Unit × Tables) := do
  let revisions ← projectRevision t p
  let sample : ScoreSample :=
    ⟨p.node, p.revision.getD 0, p.now, p.snapshot.score.overallScore⟩
  .ok ((), { t with
    revisions
    samples := t.samples ++ [sample]
    snapshots := t.snapshots.set p.node p.snapshot })

/-! ## Daily rows -/

/-- `Counter`, stored with its keys in order. -/
def counter (names : List String) : List (String × ℕ) :=
  (names.dedup.insertionSort (· ≤ ·)).map fun name => (name, names.count name)

def dayAggregate (items : List EventView) : DayAggregate where
  eventCount := items.length
  occurrenceCount := (items.map (·.occurrenceCount)).sum
  distinctRiskTypes := (items.map (·.event.riskType)).dedup.length
  criticalCount := items.countP fun e => e.event.severity = "critical"
  highCount := items.countP fun e => e.event.severity = "high"
  mediumCount := items.countP fun e => e.event.severity = "medium"
  lowCount := items.countP fun e => e.event.severity = "low"
  activeCount := items.countP fun e => e.status.isOpen
  recoveredCount := items.countP fun e => e.status = .recovered
  latestRiskAt := (items.map (·.event.lastSeen)).max?
  domainDistribution := counter (items.map (·.event.riskDomain))
  typeDistribution := counter (items.map (·.event.riskType))

def eventPeak (items : List EventView) : ℚ := (items.map (·.event.baseScore)).max?.getD 0

def samplePeak (samples : List ScoreSample) (node : String × String) (day : ℤ) : ℚ :=
  ((samples.filter fun s => s.node = node ∧ s.assessedAt.date = day).map
    (·.overallScore)).max?.getD 0

/-- The row written for a day; its peaks do not fall below those of the old row. -/
def writtenRow (old : Option DailyRow) (items : List EventView) (overallPeak : ℚ) (now : IsoTime) :
    DailyRow where
  aggregate := dayAggregate items
  maxEventScore := (old.map (·.maxEventScore)).elim (eventPeak items) fun peak => max peak (eventPeak items)
  maxOverallScore := (old.map (·.maxOverallScore)).elim overallPeak fun peak => max peak overallPeak
  updatedAt := now

def counted (events : List EventView) : List EventView :=
  events.filter fun e => e.status ≠ .superseded

/-- The days of the events, and today. -/
def groupedByDay (events : List EventView) (now : IsoTime) : Dict ℤ (List EventView) :=
  (Dict.groupBy (fun e : EventView => e.event.lastSeen.date) (counted events)).alter now.date
    fun items => items.getD []

def writeDay (t : Tables) (p : Projection) (old : Option DailyRow) (entry : ℤ × List EventView) :
    DailyRow :=
  writtenRow old entry.2 (samplePeak t.samples p.node entry.1) p.now

/-- The second transaction, `_refresh_daily`. -/
def refreshDaily (t : Tables) (p : Projection) : Tables :=
  { t with
    daily := Dict.groupFold (fun entry : ℤ × List EventView => (p.node, entry.1)) (writeDay t p)
      t.daily (groupedByDay p.events p.now).entries }

/-! ## A recalculation without interference -/

def readProjection (model : ScoreModel) (t : Tables) (node : String × String) (now : IsoTime) :
    Except Failure Projection := do
  let events := readEvents t node now
  require (events ≠ [] ∨ t.eventsOf node ≠ []) (.nodeRisk ⟨"节点风险不存在", "node_risk_not_found", 404⟩)
  .ok {
    node
    now
    revision := readRevision t node
    events
    snapshot := snapshotOf model events now (previousPeak t node now) }

theorem readProjection_eq_ok {model : ScoreModel} {t : Tables} {node : String × String}
    {now : IsoTime} {p : Projection} (hok : readProjection model t node now = .ok p) :
    p.node = node ∧ p.now = now ∧ p.revision = readRevision t node ∧
      p.events = readEvents t node now ∧
      p.snapshot = snapshotOf model p.events now (previousPeak t node now) := by
  obtain ⟨-, hok⟩ := require_bind_eq_ok.mp hok
  obtain rfl := Except.ok.inj hok
  exact ⟨rfl, rfl, rfl, rfl, rfl⟩

/-- `recalculate`, where nothing happens between its steps. -/
def recalculate (model : ScoreModel) (t : Tables) (node : String × String) (now : IsoTime) :
    Except Failure (Unit × Tables) := do
  let p ← readProjection model t node now
  let ((), t) ← project t p
  .ok ((), refreshDaily t p)

end LogRisk.NodeRisk
