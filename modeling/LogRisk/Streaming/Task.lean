import LogRisk.Library.Dict
import LogRisk.Library.Transaction
import LogRisk.Streaming.Cursor

/-!
# Streaming tasks and their tables

The rows the streaming store keeps for a task.  The status is stored twice, in a
column of the task row and inside the task payload; so are the stage and the
cursor.
-/

namespace LogRisk.Streaming

open LogRisk.Library

inductive StreamingError where
  | notFound (taskId : String)
  | state (message : String)
  | conflict (message : String)
  | busy (message : String)
  | incomplete (message : String) (reason : String)
  /-- A `TypeError`, a `ValueError` or a violated key of a table. -/
  | value (message : String)
deriving DecidableEq

inductive TaskStatus where
  | queued
  | running
  | interrupted
  | failed
  | conflict
  | completed
deriving DecidableEq

inductive Stage where
  | reading
  | spooling
  | mining
  | aggregating
  | failed
  | conflict
  | completed
deriving DecidableEq

/-- The stages a worker may report. -/
def Stage.allowed : Stage → Bool
  | reading | spooling | mining | aggregating => true
  | failed | conflict | completed => false

structure SourceDescriptor where
  kind : String
  identity : List (String × Json)
  configuration : List (String × Json)

/-- The miner state a batch was mined with.  `files` is `none` where the manifest
holds no mapping under that name. -/
structure Manifest where
  generation : String
  files : Option (Finmap fun _ : String => String)
deriving DecidableEq

structure ResultReference where
  taskId : String
  generation : String
deriving DecidableEq

structure TaskResult where
  resultRef : Option ResultReference
  body : List (String × Json)

/-- The payload of a task row. -/
structure Task where
  taskId : String
  source : SourceDescriptor
  configHash : String
  status : TaskStatus
  stage : Stage
  cursor : SourceCursor
  windowsCommitted : ℕ
  recordsProcessed : ℤ
  pendingExternalCommit : Option SourceCursor
  minerGeneration : Option Manifest
  leaseToken : Option String
  result : Option TaskResult
  resultReference : Option ResultReference
  error : Option String
  errorDetails : Option (List (String × Json))
  createdAt : String
  updatedAt : String

structure TaskRow where
  configHash : String
  status : TaskStatus
  stage : Stage
  cursor : SourceCursor
  task : Task
  updatedAt : String

structure CommitRow where
  windowId : String
  cursor : SourceCursor
  summary : List (String × Json)
  committedAt : String
  payloadHash : String
  stateManifest : Option Manifest

structure BatchWindow (ω : Type) where
  windowId : String
  itemIndex : ℕ
  window : ω

structure SafeTemplate where
  templateHash : String
  component : String
  template : String
  count : ℕ
  windowStart : String
  windowEnd : String
  timeQuality : String
  severity : Option String
  category : Option String
  semanticFields : List (String × Json)

/-- A row of the queue of unknown templates. -/
structure UnknownTemplate where
  component : String
  configHash : String
  occurrenceCount : ℕ
  template : SafeTemplate
  createdAt : String
  updatedAt : String

structure TaskEvent where
  sequence : ℕ
  eventType : String
  payload : List (String × Json)
  createdAt : String

/-- What a committed prefix proves about a task. -/
structure PrefixEvidence where
  taskId : String
  frontier : SourceCursor
  committedBatches : ℕ
  recordCount : ℕ
  resultCompleteness : String
  manifestHistory : String
  summaryUnknownFields : List String
  summaryInvalidFields : List String
  evidenceDigest : String
deriving DecidableEq

structure Integrity where
  taskId : String
  frontier : SourceCursor
  commitCount : ℕ
  recordCount : ℕ
  prefixDigest : String
  leaseToken : String
deriving DecidableEq

def PrefixEvidence.integrity (evidence : PrefixEvidence) (leaseToken : String) : Integrity where
  taskId := evidence.taskId
  frontier := evidence.frontier
  commitCount := evidence.committedBatches
  recordCount := evidence.recordCount
  prefixDigest := evidence.evidenceDigest
  leaseToken := leaseToken

inductive GenerationStatus where
  | building
  | ready
deriving DecidableEq

/-- A result generation, as far as completing a task reads it. -/
structure Generation where
  status : GenerationStatus
  frontier : SourceCursor
  integrity : Option Integrity
deriving DecidableEq

/-- All rows of one task. -/
structure TaskTables (ω : Type) where
  row : TaskRow
  commits : List CommitRow
  batchWindows : List (BatchWindow ω)
  unknownTemplates : Dict (String × String) UnknownTemplate
  events : List TaskEvent
  generations : Dict String Generation

/-- The tables of all tasks, and those of the ingestion ledger. -/
structure Store (ω Λ : Type) where
  tasks : Dict String (TaskTables ω)
  ledger : Λ

variable {ω Λ : Type}

namespace TaskTables

def task (t : TaskTables ω) : Task := t.row.task

def nextSequence (t : TaskTables ω) : ℕ := (t.events.map TaskEvent.sequence).foldl max 0 + 1

def appendEvent (t : TaskTables ω) (eventType : String) (payload : List (String × Json))
    (createdAt : String) : TaskTables ω :=
  { t with events := t.events ++ [⟨t.nextSequence, eventType, payload, createdAt⟩] }

/-- Store a payload; the columns beside it stay. -/
def setTask (t : TaskTables ω) (task : Task) : TaskTables ω :=
  { t with row := { t.row with task := task, updatedAt := task.updatedAt } }

/-- Store a payload together with the status and the stage it holds. -/
def setStatus (t : TaskTables ω) (task : Task) : TaskTables ω :=
  { t with
    row := { t.row with
      status := task.status, stage := task.stage, task := task, updatedAt := task.updatedAt } }

end TaskTables

end LogRisk.Streaming
