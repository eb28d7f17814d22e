import LogRisk.Library.Text
import LogRisk.ServerRisk.Observation

/-!
# Submitting observations

A registered source submits a batch of observations.  The batch has a receipt under its
idempotency key; every observation is a fact of its source, which is stored once for each
revision of the registration.  One transaction stores the receipt, the facts, a reference to the
latest revision of each and the assessment of the nodes they are about.
-/

namespace LogRisk.ServerRisk

open LogRisk.Library LogRisk.Library.Text LogRisk.Library.Transaction

variable {ι α : Type}

/-! ## Batches -/

/-- An observation of a batch; `content` has its times, count, typed fields and coverage. -/
structure SubmittedItem (ι : Type) where
  identity : Identity
  kind : String
  signalCode : String
  riskType : String
  sourceSequence : ℤ
  sourcePositionRef : String
  templateRef : Option String
  evidenceRefs : List String
  content : ι

structure SubmittedBatch (ι : Type) where
  schemaVersion : String
  mode : String
  sourceId : String
  sourceEpoch : String
  configRevision : String
  batchId : String
  idempotencyKey : String
  observations : List (SubmittedItem ι)

/-- What `digest` is taken of, by its shape as JSON. -/
inductive Digested (ι : Type) where
  | batch (b : SubmittedBatch ι)
  | payload (item : SubmittedItem ι)
  | texts (parts : List String)
  | fact (sourceId sourceEpoch : String) (sequence : ℤ) (positionRef : String)

/-- What the registration of a source says about its observations. -/
structure Registration where
  permittedActors : List String
  sourceEpoch : String
  configRevision : String
  environment : String
  cluster : String
  nodeIds : List String
  objects : List (String × String)
  /-- The kind and the type of risk of a signal. -/
  signals : String → Option (String × String)

structure Validated (ι : Type) where
  observationId : String
  sourceFactKey : String
  subjectKey : String
  start : String
  stop : String
  payload : SubmittedItem ι
  payloadDigest : String

/-! ## Tables -/

structure StoredObservation (ι : Type) where
  observationId : String
  sourceFactKey : String
  sourceId : String
  sourceEpoch : String
  /-- Also the semantic revision. -/
  configRevision : String
  subjectKey : String
  intervalStart : String
  intervalEnd : String
  receivedAt : String
  mode : String
  payload : SubmittedItem ι
  payloadDigest : String
  batchId : String
  idempotencyKey : String
  batchDigest : String

/-- `UNIQUE(source_fact_key,semantic_revision)`. -/
def StoredObservation.key (row : StoredObservation ι) : String × String :=
  (row.sourceFactKey, row.configRevision)

/-- A row of `server_risk_projection_state`. -/
structure ProjectionState where
  inputRevision : String
  lastFactRef : Option String := none
  evaluatedThrough : Option String := none
  status : String
  updatedAt : String

/-- `derived` are the tables of the assessment. -/
structure SubmissionTables (ι α : Type) where
  observations : Dict (String × String) (StoredObservation ι) := ∅
  projection : Dict String ProjectionState := ∅
  templates : List String
  derived : α

/-- The policies, the digest, the checks of an observation's content, which give the ends of its
interval, and the assessment of a node. -/
structure SubmissionHost (ι α : Type) where
  source : String → Except Fault Registration
  digest : Digested ι → String
  examine : SubmittedBatch ι → Registration → String → SubmittedItem ι → Except Fault (String × String)
  persist : String → String → String → SubmissionTables ι α → Except Fault α
  /-- No two values have one digest. -/
  digest_injective : Function.Injective digest

/-! ## Validation -/

/-- `identifier`. -/
def isIdentifier (text : String) : Bool :=
  decide (strip text ≠ "") && decide (text.length ≤ 256) && text.toList.all fun c => 32 ≤ c.toNat

def identityTexts (identity : Identity) : List String :=
  [identity.cluster, identity.nodeId, identity.objectKind, identity.objectId] ++
    identity.nodeUid.toList ++ identity.bootId.toList

local instance lawfulObject : LawfulBEq (String × String) := inferInstance

/-- The subject is in the scope of the registration. -/
def Registration.inScope (source : Registration) (identity : Identity) : Bool :=
  decide (identity.cluster = source.cluster) && decide (identity.nodeId ∈ source.nodeIds) &&
    (decide (source.objects = []) || decide ((identity.objectKind, identity.objectId) ∈ source.objects))

def observationKinds : List String := ["adverse", "state_snapshot", "recovery_candidate", "coverage"]

section Submit

variable (H : SubmissionHost ι α) (T : SubmissionTables ι α)

/-- The `source_fact_key` of an observation. -/
def factKey (batch : SubmittedBatch ι) (item : SubmittedItem ι) : String :=
  H.digest (.fact batch.sourceId batch.sourceEpoch item.sourceSequence item.sourcePositionRef)

/-- `ObservationService.validate`. -/
def validate (now : String) (batch : SubmittedBatch ι) (source : Registration)
    (item : SubmittedItem ι) : Except Fault (Validated ι) := do
  require (∀ text ∈ identityTexts item.identity, isIdentifier text) (.serverRisk "invalid_identifier")
  require (source.inScope item.identity) (.serverRisk "observation_scope_mismatch")
  require (item.kind ∈ observationKinds) (.serverRisk "invalid_schema")
  require (source.signals item.signalCode = some (item.kind, item.riskType))
    (.serverRisk "observation_signal_unregistered")
  require (0 ≤ item.sourceSequence ∧ item.sourceSequence ≤ 2 ^ 53 - 1) (.serverRisk "invalid_limit")
  require (isIdentifier item.sourcePositionRef) (.serverRisk "invalid_identifier")
  let (start, stop) ← H.examine batch source now item
  require (∀ template ∈ item.templateRef, isIdentifier template) (.serverRisk "invalid_identifier")
  require (∀ template ∈ item.templateRef, template ∈ T.templates)
    (.serverRisk "observation_template_unknown")
  require (item.evidenceRefs.length ≤ 100 ∧ ∀ ref ∈ item.evidenceRefs,
      ref ∈ T.observations.values.map fun row => "observation:" ++ row.observationId)
    (.serverRisk "observation_evidence_ref_invalid")
  return {
    observationId := H.digest (.texts [factKey H batch item, source.configRevision])
    sourceFactKey := factKey H batch item
    subjectKey := H.digest (.texts [source.environment, item.identity.cluster,
      item.identity.nodeUid.getD item.identity.nodeId, item.riskType, item.identity.objectKind,
      item.identity.objectId])
    start, stop
    payload := item
    payloadDigest := H.digest (.payload item) }

/-- An observation known by its physical contribution. -/
def Validated.asCommitted (source : Registration) (item : Validated ι) (physical : String) :
    Validated ι :=
  { item with
    sourceFactKey := "committed:" ++ physical
    observationId := H.digest (.texts ["committed:" ++ physical, source.configRevision]) }

/-! ## Calls -/

/-- A call of `submit` and what the clock says. -/
structure Submission (ι : Type) where
  payload : SubmittedBatch ι
  actor : Option String
  physicalKeys : Option (List String) := none
  deferPersist : Bool := false
  now : String

structure SubmissionReceipt where
  batchId : String
  idempotentReplay : Bool
  acceptedCount : Option ℕ := none
  projectionComplete : Bool

def batchDigest (batch : SubmittedBatch ι) : String := H.digest (.batch batch)

def receiptKey (batch : SubmittedBatch ι) : String :=
  "batch:" ++ H.digest (.texts [batch.sourceId, batch.idempotencyKey])

variable (call : Submission ι)

/-- The checks of the batch itself. -/
def admission : Except Fault Registration := do
  let batch := call.payload
  require (batch.schemaVersion = "server_risk_observation_batch_v1" ∧
    batch.mode ∈ ["historical", "current"]) (.serverRisk "invalid_schema")
  require (∀ text ∈ [batch.sourceId, batch.sourceEpoch, batch.configRevision, batch.batchId,
    batch.idempotencyKey], isIdentifier text) (.serverRisk "invalid_identifier")
  let source ← H.source batch.sourceId
  require (∃ actor ∈ call.actor, actor ∈ source.permittedActors)
    (.serverRisk "observation_actor_forbidden")
  require (batch.sourceEpoch = source.sourceEpoch ∧ batch.configRevision = source.configRevision)
    (.serverRisk "observation_epoch_mismatch")
  require (1 ≤ batch.observations.length ∧ batch.observations.length ≤ 500)
    (.serverRisk "observation_batch_limit")
  return source

/-- `physical_keys`. -/
def identified (source : Registration) (validated : List (Validated ι)) :
    Except Fault (List (Validated ι)) :=
  match call.physicalKeys with
  | none => .ok validated
  | some keys => do
      require (keys.length = validated.length) (.serverRisk "commit_identity_invalid")
      return (validated.zip keys).map fun pair => pair.1.asCommitted H source pair.2

/-- The row that an observation is stored as. -/
def Validated.row (item : Validated ι) : StoredObservation ι where
  observationId := item.observationId
  sourceFactKey := item.sourceFactKey
  sourceId := call.payload.sourceId
  sourceEpoch := call.payload.sourceEpoch
  configRevision := call.payload.configRevision
  subjectKey := item.subjectKey
  intervalStart := item.start
  intervalEnd := item.stop
  receivedAt := call.now
  mode := call.payload.mode
  payload := item.payload
  payloadDigest := item.payloadDigest
  batchId := call.payload.batchId
  idempotencyKey := call.payload.idempotencyKey
  batchDigest := batchDigest H call.payload

def factConflict : Fault := .serverRisk "observation_fact_conflict"

/-- A fact that is stored already has the same content, else it is stored. -/
def insertFact (T : SubmissionTables ι α) (row : StoredObservation ι) :
    Except Fault (Dict (String × String) (StoredObservation ι)) :=
  match T.observations.get? row.key with
  | some old => do
      require (old.payloadDigest = row.payloadDigest) factConflict
      return T.observations
  | none => do
      require (row.observationId ∉ T.observations.values.map StoredObservation.observationId)
        (.serverRisk "database_integrity")
      return T.observations.set row.key row

/-- The reference to the latest revision of a fact. -/
def factState (now : String) (T : SubmissionTables ι α) (row : StoredObservation ι) : ProjectionState :=
  { (T.projection.get? ("fact:" ++ row.sourceFactKey)).getD
      { inputRevision := "", status := "complete", updatedAt := now } with
    inputRevision := row.configRevision
    lastFactRef := some row.observationId
    updatedAt := now }

def storeFact (now : String) (T : SubmissionTables ι α) (row : StoredObservation ι) :
    Except Fault (SubmissionTables ι α) := do
  let observations ← insertFact T row
  return { T with
    observations
    projection := T.projection.set ("fact:" ++ row.sourceFactKey) (factState now T row) }

/-- The state of a receipt when all its facts are stored. -/
def completed (rows : List (StoredObservation ι)) : ProjectionState where
  inputRevision := batchDigest H call.payload
  lastFactRef := (rows.getLast?).map StoredObservation.observationId
  evaluatedThrough := (rows.map StoredObservation.intervalEnd).max?
  status := "complete"
  updatedAt := call.now

/-- `assessment.persist` of one node. -/
def persistNode (now : String) (T : SubmissionTables ι α) (subject : String × String) :
    Except Fault (SubmissionTables ι α) := do
  let derived ← H.persist subject.1 subject.2 now T
  return { T with derived }

/-- The nodes that the rows are about. -/
def subjects (rows : List (StoredObservation ι)) : List (String × String) :=
  (rows.map fun row => (row.payload.identity.cluster, row.payload.identity.nodeId)).dedup

def idempotencyConflict : Fault := .serverRisk "observation_idempotency_conflict"

/-- The batch under whose receipt something is found. -/
def replayed (previous : ProjectionState) : Except Fault (SubmissionReceipt × SubmissionTables ι α) := do
  require (previous.inputRevision = batchDigest H call.payload) idempotencyConflict
  return ({ batchId := call.payload.batchId
            idempotentReplay := true
            projectionComplete := previous.status = "complete" }, T)

/-- The rows of a batch whose observations are valid. -/
def incoming (source : Registration) : Except Fault (List (StoredObservation ι)) := do
  let validated ← call.payload.observations.mapM (validate H T call.now call.payload source)
  let items ← identified H call source validated
  require (items.map Validated.sourceFactKey).Nodup (.serverRisk "observation_duplicate_fact")
  return items.map (Validated.row H call)

/-- The assessment of the nodes, unless it is left to the caller. -/
def assessed (rows : List (StoredObservation ι)) (T : SubmissionTables ι α) :
    Except Fault (SubmissionTables ι α) :=
  if call.deferPersist then .ok T else (subjects rows).foldlM (persistNode H call.now) T

/-- The transaction. -/
def store (rows : List (StoredObservation ι)) :
    Except Fault (SubmissionReceipt × SubmissionTables ι α) :=
  let key := receiptKey H call.payload
  match T.projection.get? key with
  | some saved => replayed H T call saved
  | none => do
      let pending : ProjectionState :=
        { inputRevision := batchDigest H call.payload, status := "pending", updatedAt := call.now }
      let stored ← rows.foldlM (storeFact call.now)
        { T with projection := T.projection.set key pending }
      let T ← assessed H call rows
        { stored with projection := stored.projection.set key (completed H call rows) }
      return ({ batchId := call.payload.batchId
                idempotentReplay := false
                acceptedCount := some rows.length
                projectionComplete := true }, T)

/-- `ObservationService.submit`. -/
def submit : Except Fault (SubmissionReceipt × SubmissionTables ι α) := do
  let source ← admission H call
  match T.projection.get? (receiptKey H call.payload) with
  | some previous => replayed H T call previous
  | none => do
      let rows ← incoming H T call source
      store H T call rows

end Submit

end LogRisk.ServerRisk
