import LogRisk.Library.Text
import LogRisk.NodeRisk.Tables

/-!
# Ingesting a contribution

A contribution whose fingerprint is known is a replay and writes nothing.  A new
one is merged into the event of its window or opens one; a new revision of a
physical contribution takes the place of the one that was current.
-/

namespace LogRisk.NodeRisk

open LogRisk.Library LogRisk.Library.Transaction

/-- The arguments of `ingest`, the clock and the `uuid4` of a new event. -/
structure IngestCall where
  event : SemanticEvent
  record : SourceRecord
  sourceJobId : Option String := none
  sourceTraceId : Option String := none
  occurrenceCount : ℤ := 1
  now : IsoTime
  newId : String

def severityRank (severity : String) : ℕ :=
  if severity = "critical" then 4 else if severity = "high" then 3
  else if severity = "medium" then 2 else if severity = "low" then 1 else 0

/-- `max(values, key=rank)`: the first of the highest rank. -/
def worstSeverity (values : List String) : String :=
  values.foldl (fun best s => if severityRank best < severityRank s then s else best)
    (values.headD "")

/-- `sorted(set(refs))`. -/
def sortedRefs (refs : List String) : List String := refs.dedup.insertionSort (· ≤ ·)

/-- The event of `_refresh_event_contributions`: `rows` are its current contributions. -/
def refreshed (e : RiskEvent) (rows : List Ingestion) : RiskEvent :=
  if rows = [] then { e with currentOccurrenceCount := some 0, derivationStatus := .superseded }
  else
    let count := (rows.map (·.occurrenceCount)).sum
    let counted : RiskEvent :=
      { e with occurrenceCount := count, currentOccurrenceCount := some count,
               derivationStatus := .current }
    -- contributions from before the snapshots were kept leave the other fields alone
    match rows.mapM (·.contribution) with
    | none => counted
    | some values =>
        let times := values.map (·.timestamp)
        { counted with
          firstSeen := times.min?.getD e.firstSeen
          lastSeen := times.max?.getD e.lastSeen
          severity := worstSeverity (values.map (·.severity))
          baseScore := (values.map (·.baseScore)).max?.getD e.baseScore
          confidence := (values.map (·.confidence)).max?.getD e.confidence
          evidenceRefs := sortedRefs (values.flatMap (·.evidenceRefs)) }

/-- `_refresh_event_contributions`. -/
def refreshEvent (t : Tables) (eventId : String) : Tables :=
  match t.events.get? eventId with
  | none => t
  | some e => t.setEvent eventId (refreshed e (t.contributionsTo eventId))

/-- What `ingest` has worked out before its transaction. -/
structure Draft where
  cluster : String
  nodeId : String
  count : ℕ
  timestamp : IsoTime
  windowStart : IsoTime
  windowEnd : IsoTime
  fingerprint : String
  physicalKey : Option String
  revision : String
  dedupKey : String
  evidenceRefs : List String

def Draft.node (d : Draft) : String × String := (d.cluster, d.nodeId)

def draft (env : NodeRiskEnv) (c : IngestCall) : Except Failure Draft := do
  require (c.event.riskType ≠ "unknown.unclassified") (fail "只有已分类风险语义可以写入节点台账")
  let nodeId := c.record.nodeName ""
  require (nodeId ≠ "") (fail "节点风险事件缺少 node_id")
  require (0 < c.occurrenceCount) (fail "occurrence_count 必须大于 0")
  let text ← orFail ([c.record.timestamp, c.record.windowStart, c.record.firstSeen].filterMap given).head?
    (fail "节点风险事件缺少可信事件时间")
  let timestamp ← orFail (env.parse text) (fail "节点风险事件时间无效")
  let seconds := if c.event.windowSeconds = 0 then 300 else c.event.windowSeconds
  let windowStart := timestamp.floorTo seconds
  let physical := physicalKey env c.record windowStart
  let revision := (semanticRevision c.event c.record).canonical
  .ok {
    cluster := c.record.clusterName
    nodeId
    count := c.occurrenceCount.toNat
    timestamp
    windowStart
    windowEnd := windowStart.add (seconds * IsoTime.second)
    fingerprint :=
      match physical with
      | some key => env.sha256 (Json.canonical (.arr [.str key, .str revision]))
      | none => fingerprint env c.event c.record c.sourceJobId
    physicalKey := physical
    revision
    dedupKey := dedupKey env c.event c.record
    evidenceRefs := sortedRefs ([c.record.rawLogId, c.record.templateHash].filterMap given) }

/-- The contribution that is current under a physical key. -/
def Tables.currentOf (t : Tables) (physical : Option String) : Option (String × Ingestion) :=
  match physical with
  | none => none
  | some key => t.ingestions.entries.find? fun p => p.2.physicalKey = some key ∧ p.2.isCurrent

/-- The event of a window. -/
def Tables.eventAt (t : Tables) (dedup : String) (windowStart : IsoTime) : Option RiskEvent :=
  t.events.values.find? fun e => e.dedupKey = dedup ∧ e.windowStart = windowStart

/-- Take the place of the current revision: the caller has to name it. -/
def demote (t : Tables) (c : IngestCall) : Option (String × Ingestion) → Except Failure Tables
  | none => .ok t
  | some (fp, previous) => do
      require (c.record.expectedCurrentRevision.map Json.canonical = some previous.semanticRevision)
        (conflict "语义贡献修订已变化，需要 expected_current_revision" "node_risk_revision_conflict")
      .ok (t.setIngestion fp { previous with isCurrent := false })

/-- An event that more of the same is merged into. -/
def merged (d : Draft) (c : IngestCall) (e : RiskEvent) : RiskEvent :=
  let reopens := decide (e.status = .recovered) &&
    match e.recoveredAt with
    | some recoveredAt => decide (recoveredAt.instant < d.timestamp.instant)
    | none => decide (c.now.instant < d.timestamp.instant)
  { e with
    occurrenceCount := e.occurrenceCount + d.count
    firstSeen := IsoTime.earlier e.firstSeen d.timestamp
    lastSeen := IsoTime.later e.lastSeen d.timestamp
    evidenceRefs := sortedRefs (e.evidenceRefs ++ d.evidenceRefs)
    status := if reopens then .active else e.status
    recoveredAt := if reopens then none else e.recoveredAt
    updatedAt := c.now
    sourceJobId := e.sourceJobId <|> c.sourceJobId }

def opened (d : Draft) (c : IngestCall) : RiskEvent where
  eventId := c.newId
  cluster := d.cluster
  nodeId := d.nodeId
  riskDomain := c.event.domain
  riskCategory := c.event.category
  riskType := c.event.riskType
  riskSubtype := c.event.riskSubtype
  severity := c.event.severity
  baseScore := c.event.baseScore
  confidence := c.event.confidence
  semanticRuleId := c.event.semanticRuleId
  semanticRuleVersion := c.event.semanticRuleVersion
  dedupKey := d.dedupKey
  occurrenceCount := d.count
  firstSeen := d.timestamp
  lastSeen := d.timestamp
  windowStart := d.windowStart
  windowEnd := d.windowEnd
  status := .active
  semanticFields := c.event.semanticFields
  evidenceRefs := d.evidenceRefs
  sourceJobId := c.sourceJobId
  sourceTraceId := c.sourceTraceId
  createdAt := c.now
  updatedAt := c.now

/-- The event the contribution goes to, merged or opened; an event id is a
primary key. -/
def upsertEvent (t : Tables) (d : Draft) (c : IngestCall) :
    Option RiskEvent → Except Failure (RiskEvent × Tables)
  | some existing =>
      let e := merged d c existing
      .ok (e, t.setEvent e.eventId e)
  | none => do
      require (c.newId ∉ t.events.keys) .integrity
      .ok (opened d c, t.setEvent c.newId (opened d c))

def contribution (d : Draft) (c : IngestCall) (eventId : String) : Ingestion where
  eventId
  sourceJobId := c.sourceJobId
  occurrenceCount := d.count
  ingestedAt := c.now
  physicalKey := d.physicalKey
  semanticRevision := d.revision
  contribution := some {
    timestamp := d.timestamp
    severity := c.event.severity
    baseScore := c.event.baseScore
    confidence := c.event.confidence
    evidenceRefs := d.evidenceRefs }

/-- `UPDATE node_risk_events SET current_occurrence_count=occurrence_count`. -/
def settleCount (t : Tables) (e : RiskEvent) : Tables :=
  t.setEvent e.eventId { e with currentOccurrenceCount := some e.occurrenceCount }

/-- The event that lost the previous revision. -/
def releasePrevious (t : Tables) (now : IsoTime) : Option (String × Ingestion) → Tables
  | none => t
  | some (_, previous) =>
      let t := refreshEvent t previous.eventId
      match t.events.get? previous.eventId with
      | none => t
      | some e => t.markDirty e.node now

/-- The writing part of the transaction of `ingest`. -/
def contribute (t : Tables) (d : Draft) (c : IngestCall) : Except Failure (String × Tables) := do
  let previous := t.currentOf d.physicalKey
  let t ← demote t c previous
  let existing := t.eventAt d.dedupKey d.windowStart
  let (e, t) ← upsertEvent t d c existing
  let t := t.setIngestion d.fingerprint (contribution d c e.eventId)
  let t :=
    if previous.isSome ∨ (existing.any fun old => old.derivationStatus = .superseded) then
      refreshEvent t e.eventId
    else settleCount t e
  let t := releasePrevious t c.now previous
  .ok (e.eventId, t.markDirty d.node c.now)

/-- The transaction of `ingest`: the event, and whether this was a replay. -/
def ingest (env : NodeRiskEnv) (t : Tables) (c : IngestCall) :
    Except Failure ((String × Bool) × Tables) := do
  let d ← draft env c
  match t.ingestions.get? d.fingerprint with
  | some replay => .ok ((replay.eventId, true), t)
  | none => do
      let (eventId, t) ← contribute t d c
      .ok ((eventId, false), t)

/-! ## Transitions -/

/-- `acknowledge_event` or `recover_event`. -/
inductive Target where
  | acknowledged
  | recovered
deriving DecidableEq

def Target.status : Target → EventStatus
  | acknowledged => .acknowledged
  | recovered => .recovered

structure TransitionCall where
  eventId : String
  target : Target
  operator : String
  reason : String
  expectedUpdatedAt : Option IsoTime := none
  now : IsoTime

def transitioned (c : TransitionCall) (e : RiskEvent) : RiskEvent :=
  match c.target with
  | .recovered => { e with status := .recovered, recoveredAt := some c.now, updatedAt := c.now }
  | .acknowledged =>
      { e with status := .acknowledged, acknowledgedAt := some c.now,
               acknowledgedBy := some c.operator, updatedAt := c.now }

/-- The transaction of `_transition_event`: the event, where it has changed. -/
def transition (t : Tables) (c : TransitionCall) : Except Failure (Option RiskEvent × Tables) := do
  require (Text.strip c.operator ≠ "" ∧ Text.strip c.reason ≠ "") (fail "事件操作需要操作人和原因")
  let e ← orFail (t.events.get? c.eventId)
    (.nodeRisk ⟨"风险事件不存在", "node_risk_event_not_found", 404⟩)
  require (∀ expected ∈ c.expectedUpdatedAt, e.updatedAt = expected)
    (conflict "风险事件版本已变化" "node_risk_version_conflict")
  if e.status = c.target.status then .ok (none, t)
  else do
    require (e.status ≠ .recovered) (conflict "已恢复事件不能重新知悉" "node_risk_state_conflict")
    .ok (some e, (t.setEvent c.eventId (transitioned c e)).markDirty e.node c.now)

end LogRisk.NodeRisk
