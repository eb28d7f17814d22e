import LogRisk.Streaming.Task

/-!
# The streaming state repository

Every operation is one transaction: it raises and writes nothing, or it returns
a value and the new tables.  Most operations touch the rows of one task only;
`onTask` lifts them to the store.  What the repository calls but does not define
is collected in `Env`.
-/

namespace LogRisk.Streaming

open LogRisk.Library LogRisk.Library.Transaction

/-- The hash function, the sanitizers of windows and templates and the ingestion
ledger the repository may be given. -/
structure Env (ω Λ ρ : Type) where
  sha256 : String → String
  sha256_ne_empty : ∀ text, sha256 text ≠ ""
  safeWindow : ω → Except StreamingError ω
  safeTemplate : ω → Except StreamingError SafeTemplate
  windowJson : ω → Json
  recordIngestionBatch : Option (Λ → ρ → Except StreamingError Λ)

variable {ω Λ ρ : Type} {α : Type}

abbrev Result (α : Type) := Except StreamingError α

/-- Run a transaction on the rows of one task. -/
def Store.onTask (taskId : String) (f : TaskTables ω → Λ → Result (α × TaskTables ω × Λ))
    (store : Store ω Λ) : Result (α × Store ω Λ) := do
  let t ← orFail (store.tasks.get? taskId) (.notFound taskId)
  let (a, t', ledger) ← f t store.ledger
  return (a, { tasks := store.tasks.set taskId t', ledger := ledger })

/-- A transaction that leaves the ledger alone. -/
def keepLedger (f : TaskTables ω → Result (α × TaskTables ω)) (t : TaskTables ω) (ledger : Λ) :
    Result (α × TaskTables ω × Λ) := do
  let (a, t') ← f t
  return (a, t', ledger)

/-! ## Creating a task -/

def newTask (taskId now : String) (descriptor : SourceDescriptor) (configHash : String) : Task where
  taskId := taskId
  source := descriptor
  configHash := configHash
  status := .queued
  stage := .reading
  cursor := SourceCursor.empty
  windowsCommitted := 0
  recordsProcessed := 0
  pendingExternalCommit := none
  minerGeneration := none
  leaseToken := none
  result := none
  resultReference := none
  error := none
  errorDetails := none
  createdAt := now
  updatedAt := now

def newTables (task : Task) : TaskTables ω :=
  let t : TaskTables ω :=
    { row := ⟨task.configHash, task.status, task.stage, task.cursor, task, task.updatedAt⟩
      commits := []
      batchWindows := []
      unknownTemplates := ∅
      events := []
      generations := ∅ }
  t.appendEvent "task_created"
    [("source_kind", .str task.source.kind), ("config_hash", .str task.configHash)] task.createdAt

/-- `generatedId` is the identifier drawn where the caller names none. -/
def createOrLoad (now generatedId : String) (descriptor : SourceDescriptor) (configHash : String)
    (taskId : Option String) (store : Store ω Λ) : Result (Task × Store ω Λ) := do
  require (configHash ≠ "") (.state "缺少 Drain3 配置摘要")
  let requested := taskId.filter fun id => id ≠ ""
  match requested.bind store.tasks.get? with
  | some t => return (t.task, store)
  | none =>
      let newId := requested.getD generatedId
      require (store.tasks.get? newId = none)
        (.value "UNIQUE constraint failed: streaming_tasks.task_id")
      let task := newTask newId now descriptor configHash
      return (task, { store with tasks := store.tasks.set newId (newTables task) })

/-! ## The lease -/

/-- `task.get("status") == "running"` and the token is the stored one. -/
def Task.heldBy (task : Task) (leaseToken : String) : Prop :=
  task.status = .running ∧ task.leaseToken.getD "" = leaseToken

instance (task : Task) (leaseToken : String) : Decidable (task.heldBy leaseToken) :=
  inferInstanceAs (Decidable (_ ∧ _))

/-- The check of an operation that may be called without a token. -/
def Task.heldBy? (task : Task) : Option String → Prop
  | none => True
  | some leaseToken => task.heldBy leaseToken

instance (task : Task) : (leaseToken : Option String) → Decidable (task.heldBy? leaseToken)
  | none => inferInstanceAs (Decidable True)
  | some leaseToken => inferInstanceAs (Decidable (task.heldBy leaseToken))

/-- The result reference the task was bound to. -/
def Task.savedReference (task : Task) : Option ResultReference :=
  task.resultReference <|> (task.result.bind TaskResult.resultRef)

namespace TaskTables

/-- `token` is drawn afresh.  The final `UPDATE` names the status read before and
finds it, since the row is locked. -/
def claim (now token : String) (t : TaskTables ω) : Result (Task × TaskTables ω) := do
  require (t.row.status ≠ .running ∧ t.task.status ≠ .running)
    (.busy "流式任务已被其他 Worker 占用")
  let task := { t.task with
    status := .running, stage := .reading, error := none, leaseToken := some token
    updatedAt := now }
  return (task, (t.setStatus task).appendEvent "task_claimed" [] now)

def markClaimStage (now leaseToken : String) (stage : Stage) (t : TaskTables ω) :
    Result (Task × TaskTables ω) := do
  require (t.task.heldBy leaseToken) (.conflict "流式任务租约已变化，迟到 Worker 不能更新阶段")
  let task := { t.task with status := .running, stage := stage, error := none, updatedAt := now }
  return (task, (t.setStatus task).appendEvent "stage_changed" [] now)

/-- `_update_task`: no lease is looked at. -/
def update (now : String) (status : TaskStatus) (stage : Stage) (eventType : String)
    (error : Option String) (t : TaskTables ω) : Result (Task × TaskTables ω) :=
  let task := { t.task with status := status, stage := stage, error := error, updatedAt := now }
  return (task, (t.setStatus task).appendEvent eventType
    (error.map fun e => ("error", Json.str e)).toList now)

def markInterrupted (now : String) (t : TaskTables ω) : Result (Task × TaskTables ω) :=
  t.update now .interrupted .failed "task_interrupted" (some "服务重启导致任务中断")

/-- The status, stage and event a claim ends with. -/
def finishOutcome (conflict interrupted : Bool) : TaskStatus × Stage × String :=
  if conflict then (.conflict, .conflict, "task_conflict")
  else if interrupted then (.interrupted, .failed, "task_interrupted")
  else (.failed, .failed, "task_failed")

def finishClaim (now leaseToken error : String) (interrupted conflict : Bool)
    (errorDetails : Option (List (String × Json))) (t : TaskTables ω) :
    Result (Task × TaskTables ω) :=
  if t.task.heldBy leaseToken then
    let outcome := finishOutcome conflict interrupted
    let task := { t.task with
      status := outcome.1, stage := outcome.2.1, error := some error
      errorDetails := errorDetails <|> t.task.errorDetails, updatedAt := now }
    return (task, (t.setStatus task).appendEvent outcome.2.2
      (("error", .str error) :: (errorDetails.map fun d => ("details", Json.obj d)).toList) now)
  else return (t.task, t)

def completeClaim (now taskId leaseToken : String) (resultReference : Option ResultReference)
    (prefixEvidence : Option PrefixEvidence) (t : TaskTables ω) :
    Result (Task × TaskTables ω) := do
  require (t.task.heldBy leaseToken) (.conflict "流式任务租约已变化，迟到 Worker 不能完成任务")
  let missing := StreamingError.incomplete "任务缺少结果完整性证据，不能完成" ""
  let reference ← orFail resultReference missing
  let evidence ← orFail prefixEvidence missing
  require (t.task.savedReference = some reference ∧ reference.taskId = taskId)
    (.incomplete "结果引用尚未绑定到当前任务" "")
  let generation ← orFail (t.generations.get? reference.generation)
    (.incomplete "结果代次尚未就绪" "")
  require (generation.status = .ready) (.incomplete "结果代次尚未就绪" "")
  require (generation.frontier = t.task.cursor ∧ generation.frontier = evidence.frontier)
    (.incomplete "结果代次与当前提交前沿不一致" "")
  require (generation.integrity = some (evidence.integrity leaseToken))
    (.incomplete "结果完整性证据与当前任务不一致" "")
  require (t.commits.length = evidence.committedBatches)
    (.incomplete "完成任务前已提交批次数发生变化" "")
  let task := { t.task with
    status := .completed, stage := .completed, error := none, updatedAt := now }
  return (task, (t.setStatus task).appendEvent "task_completed" [] now)

def clearPendingExternalCommit (now : String) (cursor : SourceCursor)
    (expectedLeaseToken : Option String) (t : TaskTables ω) : Result (Task × TaskTables ω) := do
  require (t.task.heldBy? expectedLeaseToken)
    (.conflict "流式任务租约已变化，迟到 Worker 不能确认外部提交")
  if t.task.pendingExternalCommit = some cursor then
    let task := { t.task with pendingExternalCommit := none, updatedAt := now }
    return (task, (t.setTask task).appendEvent "external_commit_completed" [] now)
  else return (t.task, t)

def saveResult (now : String) (result : TaskResult) (expectedLeaseToken : Option String)
    (resultReference : Option ResultReference) (t : TaskTables ω) :
    Result (Task × TaskTables ω) := do
  require (t.task.heldBy? expectedLeaseToken)
    (.conflict "流式任务租约已变化，迟到 Worker 不能保存结果")
  let task := { t.task with
    result := some result
    resultReference := resultReference <|> t.task.resultReference
    updatedAt := now }
  return (task, (t.setTask task).appendEvent "result_saved" [] now)

end TaskTables

/-! ## Raw log fields -/

def rawLogKeys : List String :=
  ["raw_sample", "samples", "message", "content", "raw_log", "log_line"]

mutual

/-- Some object inside the value has a key that holds raw log text. -/
def hasRawFields : Json → Bool
  | .arr items => itemsHaveRawFields items
  | .obj fields => fieldsHaveRawFields fields
  | _ => false

def itemsHaveRawFields : List Json → Bool
  | [] => false
  | item :: rest => hasRawFields item || itemsHaveRawFields rest

def fieldsHaveRawFields : List (String × Json) → Bool
  | [] => false
  | (key, value) :: rest =>
      rawLogKeys.contains key.toLower || hasRawFields value || fieldsHaveRawFields rest

end

def rejectRawFields (fields : List (String × Json)) : Result Unit :=
  require (fieldsHaveRawFields fields = false) (.state "未知模板不能保存原始日志字段")

/-! ## The operations on the store -/

namespace Store

/-- The tasks `list_tasks` returns, in its order. -/
def listTasks (limit : ℕ) (store : Store ω Λ) : List Task :=
  ((store.tasks.values.map TaskTables.row).insertionSort fun a b =>
      toLex (b.updatedAt, b.task.taskId) ≤ toLex (a.updatedAt, a.task.taskId)).map TaskRow.task
    |>.take (max 1 (min limit 500))

def claimTask (now token taskId : String) : Store ω Λ → Result (Task × Store ω Λ) :=
  onTask taskId (keepLedger (TaskTables.claim now token))

def markClaimStage (now taskId leaseToken : String) (stage : Stage) (store : Store ω Λ) :
    Result (Task × Store ω Λ) := do
  require stage.allowed (.state "流式任务阶段无效")
  store.onTask taskId (keepLedger (TaskTables.markClaimStage now leaseToken stage))

def markInterrupted (now taskId : String) : Store ω Λ → Result (Task × Store ω Λ) :=
  onTask taskId (keepLedger (TaskTables.markInterrupted now))

def finishClaim (now taskId leaseToken error : String) (interrupted conflict : Bool)
    (errorDetails : Option (List (String × Json))) : Store ω Λ → Result (Task × Store ω Λ) :=
  onTask taskId (keepLedger
    (TaskTables.finishClaim now leaseToken error interrupted conflict errorDetails))

def completeClaim (now taskId leaseToken : String) (resultReference : Option ResultReference)
    (prefixEvidence : Option PrefixEvidence) : Store ω Λ → Result (Task × Store ω Λ) :=
  onTask taskId (keepLedger
    (TaskTables.completeClaim now taskId leaseToken resultReference prefixEvidence))

def clearPendingExternalCommit (now taskId : String) (cursor : SourceCursor)
    (expectedLeaseToken : Option String) : Store ω Λ → Result (Task × Store ω Λ) :=
  onTask taskId (keepLedger
    (TaskTables.clearPendingExternalCommit now cursor expectedLeaseToken))

def saveResult (now taskId : String) (result : TaskResult) (expectedLeaseToken : Option String)
    (resultReference : Option ResultReference) (store : Store ω Λ) :
    Result (Task × Store ω Λ) := do
  rejectRawFields result.body
  store.onTask taskId (keepLedger
    (TaskTables.saveResult now result expectedLeaseToken resultReference))

end Store

end LogRisk.Streaming
