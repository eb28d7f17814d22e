import LogRisk.Kafka.Adapter

/-!
# The pipeline around a Kafka source

A worker claims the task, opens the source at the stored cursor and cuts the
records into batches.  A full batch, and the last one, is committed under a
window id drawn from its checkpoint; then the position is acknowledged to the
broker.  A worker can stop between any two of these steps.
-/

namespace LogRisk.Kafka

open LogRisk.Library LogRisk.Library.Transaction LogRisk.Streaming

variable {ν ω Λ ρ : Type}

inductive Phase where
  | reading
  /-- A batch waits for its commit; after the `last` one the source is at its end. -/
  | flushing (last : Bool)
  /-- A batch is committed and the broker is not told yet. -/
  | acknowledging (last : Bool)
  | drained
deriving DecidableEq

/-- The local variables of the batch loop. -/
structure Worker (ν : Type) where
  leaseToken : String
  reader : Reader ν
  taskCursor : SourceCursor
  currentCursor : SourceCursor
  batch : List (Message ν)
  batchBytes : ℕ
  receiptPositions : List (ℕ × ℕ)
  seenPositions : List (ℕ × ℕ)
  phase : Phase

/-- What the loop is configured with: batch limits, the size of a record, the
bootstrap fingerprint and the digest window ids are made of. -/
structure Settings (ν : Type) where
  batchRecords : ℕ
  maxBatchBytes : ℕ
  recordBytes : Message ν → ℕ
  bootstrapFingerprint : String
  cursorDigest : SourceCursor → String

def Settings.windowId (settings : Settings ν) (checkpoint : SourceCursor) : String :=
  "kafka-cursor:" ++ settings.cursorDigest checkpoint

/-- The digest tells the cursors of one reading apart. -/
def Settings.CollisionFree (topic : Topic ν) (settings : Settings ν) : Prop :=
  ∀ ends, Set.InjOn settings.cursorDigest
    {c | Storable topic settings.bootstrapFingerprint ends c}

namespace Worker

def start (leaseToken : String) (cursor : SourceCursor) (reader : Reader ν) : Worker ν where
  leaseToken := leaseToken
  reader := reader
  taskCursor := cursor
  currentCursor := cursor
  batch := []
  batchBytes := 0
  receiptPositions := []
  seenPositions := []
  phase := .reading

/-- The batch after one more record, and whether it is full. -/
def append (settings : Settings ν) (m : Message ν) (w : Worker ν) : Worker ν :=
  let batch := w.batch ++ [m]
  let batchBytes := w.batchBytes + settings.recordBytes m
  { w with
    batch := batch
    batchBytes := batchBytes
    seenPositions := (m.partition, m.offset) :: w.seenPositions
    phase := if settings.batchRecords ≤ batch.length ∨ settings.maxBatchBytes ≤ batchBytes
      then .flushing false else .reading }

/-- The body of the loop for one record. -/
def handle (topic : Topic ν) (settings : Settings ν) (m : Message ν) (w : Worker ν) :
    Except CursorError (Worker ν) := do
  let reader := w.reader.consume m
  let cursor ← cursorAtLeast (reader.cursor topic settings.bootstrapFingerprint) w.currentCursor
  let w' := { w with
    reader := reader
    currentCursor := cursor
    receiptPositions := w.receiptPositions ++ [(m.partition, m.offset)] }
  if (m.partition, m.offset) ∈ w.seenPositions then return w'
  else return w'.append settings m

/-- The request a worker commits its batch with.  `payload` holds what mining made
of the batch. -/
def request (settings : Settings ν) (payload : CommitRequest ω ρ) (w : Worker ν) :
    CommitRequest ω ρ :=
  { payload with
    windowId := settings.windowId w.currentCursor
    cursor := w.currentCursor
    fencingToken := some w.leaseToken
    expectedCursor := some w.taskCursor }

/-- The worker after its batch was committed. -/
def committed (last : Bool) (w : Worker ν) : Worker ν :=
  { w with
    taskCursor := w.currentCursor, batch := [], batchBytes := 0, receiptPositions := []
    phase := .acknowledging last }

end Worker

/-- The store, the worker, if one runs, and two records kept for the statement:
the batches of the recorded windows, and the ends locked when reading began. -/
structure KafkaState (ν ω Λ : Type) where
  store : Store ω Λ
  worker : Option (Worker ν)
  batches : List (String × List (Message ν))
  locked : ℕ → ℕ

/-- The records in the committed batches. -/
def KafkaState.records (s : KafkaState ν ω Λ) : List (Message ν) := s.batches.flatMap Prod.snd

/-- Calls other workers and operators may make at any time. -/
def Call.foreign : Call ω ρ → Prop
  | .commitWindow .. | .completeClaim .. => False
  | _ => True

inductive KafkaStep (topic : Topic ν) (settings : Settings ν) (env : Env ω Λ ρ) (taskId : String) :
    KafkaState ν ω Λ → KafkaState ν ω Λ → Prop
  /-- A worker claims the task and opens the source at the stored cursor. -/
  | start {s now token task store reader} (brokerEnds : ℕ → ℕ) (hidle : s.worker = none)
      (hclaim : s.store.claimTask now token taskId = .ok (task, store))
      (hopen : openReader topic settings.bootstrapFingerprint brokerEnds task.cursor =
        .ok reader) :
      KafkaStep topic settings env taskId s { s with
        store := store
        worker := some (Worker.start token task.cursor reader)
        locked := if task.cursor.value.highWater.getD ∅ = ∅ then reader.ends else s.locked }
  | poll {s w} (advance : ℕ → ℕ) (hworker : s.worker = some w) (hphase : w.phase = .reading)
      (hpending : w.reader.pending = [])
      (hmore : w.reader.polled = true → ¬w.reader.Reached topic) :
      KafkaStep topic settings env taskId s { s with
        worker := some { w with reader := w.reader.poll topic advance } }
  | skip {s w m rest} (hworker : s.worker = some w) (hphase : w.phase = .reading)
      (hpending : w.reader.pending = m :: rest) (hend : w.reader.ends m.partition ≤ m.offset) :
      KafkaStep topic settings env taskId s { s with
        worker := some { w with reader := w.reader.skip } }
  | handle {s w w' m rest} (hworker : s.worker = some w) (hphase : w.phase = .reading)
      (hpending : w.reader.pending = m :: rest) (hend : m.offset < w.reader.ends m.partition)
      (hhandle : w.handle topic settings m = .ok w') :
      KafkaStep topic settings env taskId s { s with worker := some w' }
  /-- The source is at its end: what is left is flushed. -/
  | sourceEnds {s w} (hworker : s.worker = some w) (hphase : w.phase = .reading)
      (hpending : w.reader.pending = []) (hpolled : w.reader.polled = true)
      (hreached : w.reader.Reached topic) :
      KafkaStep topic settings env taskId s { s with
        worker := some { w with
          phase := if w.batch ≠ [] ∨ w.receiptPositions ≠ [] then .flushing true
            else .drained } }
  /-- With a ledger, a source without records still commits an empty receipt. -/
  | emptyReceipt {s w} (hworker : s.worker = some w) (hphase : w.phase = .drained)
      (hledger : env.recordIngestionBatch.isSome) :
      KafkaStep topic settings env taskId s { s with
        worker := some { w with phase := .flushing true } }
  | commit {s w last now store fresh} (payload : CommitRequest ω ρ) (hworker : s.worker = some w)
      (hphase : w.phase = .flushing last)
      (hcommit : s.store.commitWindow env now taskId (w.request settings payload) =
        .ok (fresh, store)) :
      KafkaStep topic settings env taskId s { s with
        store := store
        worker := some (w.committed last)
        batches := if fresh then s.batches ++ [(settings.windowId w.currentCursor, w.batch)]
          else s.batches }
  /-- Without a ledger an empty batch is not committed. -/
  | skipEmpty {s w last} (hworker : s.worker = some w) (hphase : w.phase = .flushing last)
      (hempty : w.batch = []) (hledger : env.recordIngestionBatch = none) :
      KafkaStep topic settings env taskId s { s with
        worker := some { w with
          receiptPositions := [], phase := if last then .drained else .reading } }
  /-- The broker is told, and the pending external commit is cleared. -/
  | acknowledge {s w last} (now : String) (hworker : s.worker = some w)
      (hphase : w.phase = .acknowledging last) :
      KafkaStep topic settings env taskId s { s with
        store := Call.apply env s.store
          (.clearPendingExternalCommit now taskId w.currentCursor (some w.leaseToken))
        worker := some { w with phase := if last then .drained else .reading } }
  /-- A drained source lets the worker complete the task. -/
  | complete {s w} (now : String) (reference : Option ResultReference)
      (evidence : Option PrefixEvidence) (hworker : s.worker = some w)
      (hphase : w.phase = .drained) :
      KafkaStep topic settings env taskId s { s with
        store := Call.apply env s.store
          (.completeClaim now taskId w.leaseToken reference evidence)
        worker := none }
  | crash {s} : KafkaStep topic settings env taskId s { s with worker := none }
  /-- Stage marks, saved results, interruptions and other tasks. -/
  | foreign {s} (call : Call ω ρ) (hforeign : Call.foreign call) :
      KafkaStep topic settings env taskId s { s with store := call.apply env s.store }
  /-- A result build writes generations. -/
  | build {s t} (generations : Dict String Generation)
      (ht : s.store.tasks.get? taskId = some t) :
      KafkaStep topic settings env taskId s { s with
        store := { s.store with
          tasks := s.store.tasks.set taskId { t with generations := generations } } }

/-- The system starts with a created task and no worker. -/
def kafkaSystem (topic : Topic ν) (settings : Settings ν) (env : Env ω Λ ρ) (taskId : String) :
    System (KafkaState ν ω Λ) where
  Init s := (∃ now configHash descriptor, s.store.tasks.get? taskId =
      some (newTables (newTask taskId now descriptor configHash))) ∧
    s.worker = none ∧ s.batches = []
  Step := KafkaStep topic settings env taskId

end LogRisk.Kafka
