import LogRisk.Streaming.Store

/-!
# Committing a window

`commit_window` sanitizes what it is given, and then, in one transaction, checks
the lease, books the ingestion receipt, recognises a window that is already
recorded, compares cursors and writes the commit.
-/

namespace LogRisk.Streaming

open LogRisk.Library LogRisk.Library.Transaction

structure CommitRequest (ω ρ : Type) where
  windowId : String
  cursor : SourceCursor
  templates : List ω
  windows : Option (List ω) := none
  summary : List (String × Json) := []
  ledgerBatch : Option ρ := none
  fencingToken : Option String := none
  minerGeneration : Option Manifest := none
  expectedCursor : Option SourceCursor := none

/-- The sanitized part of a request. -/
structure PreparedCommit (ω : Type) where
  templates : List SafeTemplate
  windows : List ω
  payloadHash : String

variable {ω Λ ρ : Type}

/-! ## The summary of a batch -/

def summaryIntegerFields : List String :=
  ["record_count", "template_count", "unknown_template_count", "risk_semantic_matches",
    "template_event_count", "partition_count", "worker_count"]

def summaryBooleanFields : List String := ["parallel", "node_risk_enabled"]

def processStartMethods : List String := ["spawn", "fork", "forkserver", "not_applicable"]

/-- The first element that fails its check, reported. -/
def checkAll (check : String → Bool) (message : String → String) : List String → Result Unit
  | [] => .ok ()
  | key :: rest => do
      require (check key) (.state (message key))
      checkAll check message rest

def isStartMethod : Json → Bool
  | .str method => processStartMethods.contains method
  | _ => false

/-- `summary.get("summary_schema_version") != 2`, negated. -/
def isVersionTwo : Json → Bool
  | .num 2 => true
  | _ => false

def validateNewSummary (summary : List (String × Json)) : Result Unit :=
  match Json.field "summary_schema_version" summary with
  | .null => .ok ()
  | version => do
      require (isVersionTwo version) (.state "批摘要 schema version 无效")
      checkAll (fun key => (Json.nonnegativeInt? (Json.field key summary)).isSome)
        (fun key => "批摘要 " ++ key ++ " 必须是非负整数") summaryIntegerFields
      checkAll (fun key => Json.isBool (Json.field key summary))
        (fun key => "批摘要 " ++ key ++ " 必须是布尔值") summaryBooleanFields
      require (isStartMethod (Json.field "process_start_method" summary))
        (.state "批摘要 process_start_method 无效")

/-- `int(value or 0)`. -/
def intOrZero : Json → Result ℤ
  | .null => .ok 0
  | .bool b => .ok (if b then 1 else 0)
  | .num n => .ok n
  | .str "" => .ok 0
  | .str s => orFail s.toInt? (.value "invalid literal for int()")
  | .arr [] => .ok 0
  | .obj [] => .ok 0
  | _ => .error (.value "int() argument must be a string or a number")

/-! ## The payload hash -/

def payloadJson (env : Env ω Λ ρ) (cursor : SourceCursor) (windows : List ω)
    (summary : List (String × Json)) : Json :=
  .obj [("cursor", cursor.toJson), ("windows", .arr (windows.map env.windowJson)),
    ("summary", .obj summary)]

def payloadHash (env : Env ω Λ ρ) (cursor : SourceCursor) (windows : List ω)
    (summary : List (String × Json)) : String :=
  env.sha256 (payloadJson env cursor windows summary).canonical

/-! ## The transaction -/

def prepareCommit (env : Env ω Λ ρ) (request : CommitRequest ω ρ) :
    Result (PreparedCommit ω) := do
  require (request.windowId ≠ "") (.state "窗口标识不能为空")
  let templates ← request.templates.mapM env.safeTemplate
  let windows ← (request.windows.getD request.templates).mapM env.safeWindow
  validateNewSummary request.summary
  return ⟨templates, windows, payloadHash env request.cursor windows request.summary⟩

/-- The receipt goes to the ledger, where there is one. -/
def bookReceipt (env : Env ω Λ ρ) (batch : Option ρ) (ledger : Λ) : Result Λ :=
  match env.recordIngestionBatch, batch with
  | none, _ => .ok ledger
  | some _, none => .error (.state "启用 operational ledger 时窗口缺少 ingestion receipt")
  | some record, some receipt => record ledger receipt

/-- Insert a template into the queue, or add to the row it has there. -/
def queueTemplate (now configHash : String) (queue : Dict (String × String) UnknownTemplate)
    (template : SafeTemplate) : Dict (String × String) UnknownTemplate :=
  queue.alter (template.templateHash, template.windowStart) fun
    | none => ⟨template.component, configHash, template.count, template, now, now⟩
    | some old =>
        { old with
          occurrenceCount := old.occurrenceCount + template.count
          template := template, updatedAt := now }

namespace TaskTables

def hasCommit (t : TaskTables ω) (windowId : String) : Option CommitRow :=
  t.commits.find? fun commit => commit.windowId == windowId

/-- The payload of the task after a commit. -/
def committedTask (now : String) (request : CommitRequest ω ρ) (recordCount : ℤ) (task : Task) :
    Task :=
  { task with
    status := .running
    stage := .aggregating
    cursor := request.cursor
    windowsCommitted := task.windowsCommitted + 1
    recordsProcessed := task.recordsProcessed + recordCount
    pendingExternalCommit := some request.cursor
    minerGeneration := request.minerGeneration <|> task.minerGeneration
    updatedAt := now }

/-- The rows a commit writes. -/
def insertCommit (now : String) (request : CommitRequest ω ρ) (prepared : PreparedCommit ω)
    (recordCount : ℤ) (t : TaskTables ω) : TaskTables ω :=
  let task := committedTask now request recordCount t.task
  let commit : CommitRow :=
    { windowId := request.windowId
      cursor := request.cursor
      summary := request.summary
      committedAt := now
      payloadHash := prepared.payloadHash
      stateManifest := request.minerGeneration <|> t.task.minerGeneration }
  let t' : TaskTables ω :=
    { t with
      row := { t.row with
        status := task.status, stage := task.stage, cursor := request.cursor, task := task
        updatedAt := now }
      commits := t.commits ++ [commit]
      batchWindows := t.batchWindows ++
        prepared.windows.zipIdx.map fun item => ⟨request.windowId, item.2, item.1⟩
      unknownTemplates :=
        prepared.templates.foldl (queueTemplate now t.row.configHash) t.unknownTemplates }
  t'.appendEvent "window_committed"
    [("window_id", .str request.windowId), ("template_count", .num prepared.templates.length)] now

/-- A window that is not recorded yet: the cursor checks, then the writes. -/
def commitNew (now : String) (request : CommitRequest ω ρ) (prepared : PreparedCommit ω)
    (t : TaskTables ω) : Result (TaskTables ω) := do
  require (∀ expected ∈ request.expectedCursor, expected = t.task.cursor)
    (.conflict "流式提交前沿已变化")
  require (cursorIsAtLeast request.cursor t.task.cursor) (.conflict "新批次不能回退检查点")
  let recordCount ← intOrZero (Json.field "record_count" request.summary)
  return t.insertCommit now request prepared recordCount

def commitWindow (env : Env ω Λ ρ) (now : String) (request : CommitRequest ω ρ)
    (prepared : PreparedCommit ω) (t : TaskTables ω) (ledger : Λ) :
    Result (Bool × TaskTables ω × Λ) := do
  require (t.task.heldBy? request.fencingToken)
    (.conflict "流式任务租约已变化，迟到 Worker 不能提交")
  let ledger ← bookReceipt env request.ledgerBatch ledger
  match t.hasCommit request.windowId with
  | some existing =>
      require (existing.payloadHash = "" ∨ existing.payloadHash = prepared.payloadHash)
        (.conflict "相同批次标识对应不同内容")
      return (false, t, ledger)
  | none =>
      let t' ← t.commitNew now request prepared
      return (true, t', ledger)

end TaskTables

def Store.commitWindow (env : Env ω Λ ρ) (now taskId : String) (request : CommitRequest ω ρ)
    (store : Store ω Λ) : Result (Bool × Store ω Λ) := do
  let prepared ← prepareCommit env request
  store.onTask taskId (TaskTables.commitWindow env now request prepared)

end LogRisk.Streaming
