import LogRisk.Agentic.Tables
import LogRisk.Library.Program

/-!
# The runtime of agent runs

`execute` and the calls of the service as programs whose actions are the transactions of
the repository and the calls out of the runtime: the clock, the planner, the tools, the
evidence, and the checks that either pass or raise.
-/

namespace LogRisk.Agentic

open LogRisk.Library

variable {V : Type}

/-- Computations outside of the model that pass or raise. -/
inductive Check where
  | plannerEvidenceSummary
  | planner
  | material
  | expertContext
  | ruleBindings
  | assessment
  | readToolArtifact
deriving DecidableEq

inductive Action (V : Type) where
  | getRun
  | transition (status : RunStatus) (allowedFrom : List RunStatus)
      (errorCode : Option ErrorCode) (key : Option String)
  | reserveModelPlanning
  | addContextStep (step : AgentStepPlan V)
  | replacePlan (plan : AgentPlan V) (preserveContext : Bool)
  | appendEvent (type : EventType)
  | startStep (stepId : String)
  | finishStep (stepId : String) (status : StepStatus)
  | recordToolCall (call : ToolCallRow)
  /-- With a precondition the transaction may be given up. -/
  | addArtifact (a : ArtifactRow V) (precondition : Bool)
  | recoverRun
  | recoverActiveRuns
  | monotonic
  /-- The status of the workflow that the run belongs to. -/
  | parentStatus
  | currentEvidenceHash
  | check (c : Check)
  | plan
  | execute (stepId toolName : String) (arguments : Arguments V) (evidenceHash : String)

def Action.Answer : Action V → Type
  | .getRun => RunDb V
  | .reserveModelPlanning => Bool
  | .recordToolCall _ => Bool
  | .monotonic => ℤ
  | .parentStatus => Option RunStatus
  | .currentEvidenceHash => Option String
  | .plan => AgentPlan V
  | .execute .. => Output V
  | _ => Unit

abbrev Exec (V α : Type) : Type := Program (Action V) Action.Answer Exn α

structure AgentTool where
  costUnits : ℕ
  writesCandidate : Bool := false
deriving DecidableEq

def contextTools : List String := ["get_sanitized_evidence", "find_approved_rules"]

structure ToolRegistry where
  get : String → Option AgentTool
  /-- The tools of the context phase only read. -/
  readOnly : ∀ name ∈ contextTools, ∀ tool, get name = some tool → tool.writesCandidate = false

/-- What the runtime is built with, and the fingerprint of the locked evidence summary. -/
structure Runtime (V : Type) where
  canonicalFingerprint : V → String
  tools : ToolRegistry
  /-- `requires_evidence_context` of the planner. -/
  requiresContext : Bool
  summaryHash : String

def evaluatorVersion : String := "feature_output_v1"

def expertRoles : List String := ["evidence_specialist", "rule_specialist", "feature_specialist"]

def readArtifactTools : List String :=
  ["get_sanitized_evidence", "find_approved_rules", "inspect_knowledge_assets"]

namespace Runtime

variable (rt : Runtime V)

/-! ## The repository -/

def ask (a : Action V) : Exec V a.Answer := .call a

def getRun : Exec V (RunDb V) := ask .getRun

def transition (status : RunStatus) (allowedFrom : List RunStatus)
    (errorCode : Option ErrorCode) (key : Option String) : Exec V (RunDb V) := do
  ask (.transition status allowedFrom errorCode key)
  getRun

/-- The row of a step, read after its update. -/
def stepRow (stepId : String) : Exec V (StepRow V) := do
  let run ← getRun
  match run.steps.find? (·.stepId = stepId) with
  | some row => return row
  | none => throw none

def startStep (stepId : String) : Exec V (StepRow V) := do
  ask (.startStep stepId)
  stepRow stepId

def finishStep (stepId : String) (status : StepStatus) : Exec V Unit := do
  ask (.finishStep stepId status)
  let _ ← stepRow stepId
  return ()

def recordToolCall (call : ToolCallRow) : Exec V Unit := do
  let existing : Bool ← ask (.recordToolCall call)
  if existing then return ()
  else do
    let run ← getRun
    if run.toolCalls.any (·.key = call.key) then return () else throw none

def replacePlan (plan : AgentPlan V) (preserveContext : Bool) : Exec V (RunDb V) := do
  ask (.replacePlan plan preserveContext)
  getRun

def appendEvent (type : EventType) : Exec V Unit :=
  ask (.appendEvent type)

def addArtifact (a : ArtifactRow V) (precondition : Bool := false) : Exec V Unit :=
  ask (.addArtifact a precondition)

def check (c : Check) : Exec V Unit := ask (.check c)

def monotonic : Exec V ℤ := ask .monotonic

def currentEvidenceHash : Exec V (Option String) :=
  ask .currentEvidenceHash

/-- The planner is asked for a plan. -/
def planner : Exec V (AgentPlan V) := ask .plan

/-- `ToolRegistry.execute`. -/
def executeTool (allowedTools : List String) (stepId toolName : String)
    (arguments : Arguments V) (evidenceHash : String) : Exec V (Output V) :=
  if toolName ∉ allowedTools then throw (some .toolNotAllowed)
  else match rt.tools.get toolName with
  | none => throw (some .toolNotAllowed)
  | some _ => ask (.execute stepId toolName arguments evidenceHash)

/-! ## Fingerprints -/

def evaluationFingerprint (output : Output V) (evidenceHash : String) : Option String :=
  match output.feature.map rt.canonicalFingerprint with
  | some fingerprint =>
      if output.passed ∧ output.fingerprint = some fingerprint ∧
          output.evidenceHash = some evidenceHash ∧
          output.evaluatorVersion = some evaluatorVersion then some fingerprint
      else none
  | none => none

/-- The evaluations that the artifacts of a run show as passed. -/
def passedEvaluations (artifacts : List (ArtifactRow V)) (evidenceHash : String) : List String :=
  artifacts.filterMap fun a =>
    if a.type ≠ .evaluation ∨ ¬ a.payload.passed then none
    else match rt.evaluationFingerprint a.payload evidenceHash with
    | some fingerprint => if a.fingerprint = some fingerprint then some fingerprint else none
    | none => none

/-! ## The context of an expert -/

def parentEnds : List RunStatus := [.cancelled, .paused]

/-- A run follows its workflow where that is cancelled or paused. -/
def followParent (read : RunDb V) : Exec V (RunDb V) :=
  if read.run.workflowRunId.isSome ∧ read.status ∈ RunDb.active then do
    let parent : Option RunStatus ← ask .parentStatus
    match parent with
    | some status =>
        if status ∈ parentEnds then transition status RunDb.active none none else return read
    | none => return read
  else return read

def checkActive (started : ℤ) : Exec V (RunDb V) := do
  let read ← getRun
  let run ← followParent read
  if run.status ∈ [.cancelled, .paused, .failed] then throw (some .interrupted)
  else do
    let now ← monotonic
    if run.run.timeoutSeconds < now - started then throw (some .timeout) else return run

def contextCall (step : AgentStepPlan V) (tool : AgentTool) (status : CallStatus) : ToolCallRow where
  stepId := step.stepId
  toolName := step.toolName
  key := .context step.stepId
  costUnits := tool.costUnits
  status := status

def contextStep (index : ℕ) (toolName : String) : AgentStepPlan V where
  stepId := "context-" ++ toString index
  toolName := toolName

def callContextTool (allowedTools : List String) (evidenceHash : String) (step : AgentStepPlan V)
    (tool : AgentTool) : Exec V (Output V) :=
  tryCatch (rt.executeTool allowedTools step.stepId step.toolName step.arguments evidenceHash)
    fun e => do
      recordToolCall (contextCall step tool .failed)
      finishStep step.stepId .failed
      throw e

/-- The counted read of one tool for the context of the model. -/
def readContext (allowedTools : List String) (evidenceHash : String) (started : ℤ) (index : ℕ)
    (toolName : String) : Exec V (Output V) := do
  let latest ← checkActive started
  match rt.tools.get toolName with
  | none => throw (some .toolNotAllowed)
  | some tool =>
    if toolName ∉ allowedTools then throw (some .toolNotAllowed)
    else if latest.run.maxToolCalls < latest.used + tool.costUnits then
      throw (some .budgetExhausted)
    else do
      let step := contextStep index toolName
      ask (.addContextStep step)
      let _ ← startStep step.stepId
      let _ ← monotonic
      appendEvent .toolCallStarted
      let output ← rt.callContextTool allowedTools evidenceHash step tool
      let _ ← monotonic
      recordToolCall (contextCall step tool .completed)
      check .readToolArtifact
      addArtifact { type := .readTool, stepId := some step.stepId }
      finishStep step.stepId .completed
      appendEvent .toolCallCompleted
      let _ ← checkActive started
      return output

def expertContext (run : RunDb V) (evidenceHash : String) (started : ℤ) : Exec V Unit := do
  let _ ← rt.readContext run.run.allowedTools evidenceHash started 0 "get_sanitized_evidence"
  check .material
  if run.run.workflowRoleId ∈ [some "rule_specialist", some "feature_specialist"] then do
    let rules ← rt.readContext run.run.allowedTools evidenceHash started 1 "find_approved_rules"
    if rules.truncated then throw (some .ruleContextTruncated) else check .expertContext
  else check .expertContext

/-! ## Planning -/

def expert (run : RunDb V) : Bool :=
  run.run.workflowRoleId.any (fun role => decide (role ∈ expertRoles)) && rt.requiresContext

def planned (run : RunDb V) : Bool := run.hasEvent .planCreated

/-- The run enters or repeats its planning. -/
def entersPlanning (expert : Bool) (run : RunDb V) : Bool :=
  decide (run.status = .queued) ||
    (decide (run.status = .planning) && if expert then !planned run else run.steps.isEmpty)

def expertPlan (run : RunDb V) (evidenceHash : String) (started : ℤ) : Exec V (RunDb V) := do
  rt.expertContext run evidenceHash started
  check .ruleBindings
  let _ ← checkActive started
  let plan ← planner
  let _ ← checkActive started
  let _ ← currentEvidenceHash
  check .assessment
  check .ruleBindings
  let run ← replacePlan plan true
  addArtifact { type := .expertAssessment } true
  appendEvent .planCreated
  return run

def plainPlan : Exec V (RunDb V) := do
  let plan ← planner
  let run ← replacePlan plan false
  appendEvent .planCreated
  return run

def enterPlanning (run : RunDb V) : Exec V (RunDb V) :=
  if run.status = .queued then transition .planning [.queued] none none else return run

/-- Without an answer another execution has reserved the planning. -/
def planning (expert : Bool) (run : RunDb V) (evidenceHash : String) (started : ℤ) :
    Exec V (Option (RunDb V)) :=
  if entersPlanning expert run then do
    let run ← enterPlanning run
    if expert then do
      let reserved : Bool ← ask .reserveModelPlanning
      if reserved then some <$> rt.expertPlan run evidenceHash started else return none
    else some <$> plainPlan
  else return some run

def opinions (run : RunDb V) : ℕ := run.artifacts.countP (·.type = .expertAssessment)

/-- The artifact is added after the plan was read back. -/
def reloaded (run : RunDb V) : Exec V (RunDb V) :=
  if opinions run = 0 then getRun else return run

/-- The run with its one persisted opinion. -/
def withOpinion (run : RunDb V) : Exec V (RunDb V) := do
  let run ← reloaded run
  if opinions run ≠ 1 then throw (some .ruleReferenceChanged)
  else do
    check .ruleBindings
    return run

/-! ## Steps -/

def stepCall (step : StepRow V) (tool : AgentTool) (attempt retryIndex : ℕ)
    (status : CallStatus) : ToolCallRow where
  stepId := step.stepId
  toolName := step.toolName
  key := .attempt step.stepId attempt retryIndex
  costUnits := tool.costUnits
  status := status

/-- The second attempt comes too late. -/
def isLate (latest : RunDb V) (started : ℤ) (retryIndex : ℕ) : Exec V Bool :=
  if retryIndex = 0 then return false
  else do
    let now ← monotonic
    return decide (latest.run.timeoutSeconds < now - started)

/-- One pass of the loop over `retry_index`; `again` is the next one. -/
def attemptTool (allowedTools : List String) (evidenceHash : String) (started : ℤ)
    (step : StepRow V) (tool : AgentTool) (attempt retryIndex : ℕ)
    (again : Exec V (Output V × ℕ)) : Exec V (Output V × ℕ) := do
  let latest ← getRun
  if latest.run.maxToolCalls < latest.used + tool.costUnits then do
    finishStep step.stepId .failed
    throw (some .budgetExhausted)
  else do
    let late ← isLate latest started retryIndex
    if late then do
      finishStep step.stepId .failed
      throw (some .timeout)
    else do
      let _ ← monotonic
      appendEvent .toolCallStarted
      tryCatch
        (do
          let output ← rt.executeTool allowedTools step.stepId step.toolName step.arguments
            evidenceHash
          return (output, retryIndex))
        fun e => do
          recordToolCall (stepCall step tool attempt retryIndex .failed)
          appendEvent .toolCallFailed
          if retryIndex = 0 ∧ e.getD .toolFailed ≠ .ruleReferenceChanged then do
            appendEvent .toolCallRetrying
            again
          else do
            finishStep step.stepId .failed
            throw e

/-- The artifact that a completed call leaves, and the evaluations passed with it. -/
def settle (evidenceHash : String) (step : StepRow V) (tool : AgentTool) (output : Output V)
    (passed : List String) : Exec V (List String) :=
  let fingerprint := step.arguments.feature.map rt.canonicalFingerprint
  if step.toolName = "evaluate_candidate" then do
    let evaluated := rt.evaluationFingerprint output evidenceHash
    addArtifact
      { type := .evaluation, stepId := some step.stepId, payload := output,
        fingerprint := if evaluated = fingerprint then fingerprint else none }
    return if evaluated = fingerprint then fingerprint.toList ++ passed else passed
  else if tool.writesCandidate then do
    addArtifact { type := .candidate, stepId := some step.stepId, payload := output, fingerprint }
    return passed
  else if step.toolName ∈ readArtifactTools then do
    check .readToolArtifact
    addArtifact { type := .readTool, stepId := some step.stepId }
    return passed
  else return passed

/-- A step that its checks have admitted. -/
def performStep (allowedTools : List String) (evidenceHash : String) (started : ℤ)
    (current : RunDb V) (step : StepRow V) (tool : AgentTool) (passed : List String) :
    Exec V (List String) := do
  let row ← startStep step.stepId
  let (output, retryIndex) ←
    rt.attemptTool allowedTools evidenceHash started step tool row.attempt 0
      (rt.attemptTool allowedTools evidenceHash started step tool row.attempt 1 (throw none))
  let now ← monotonic
  if current.run.timeoutSeconds < now - started then do
    recordToolCall (stepCall step tool row.attempt retryIndex .failed)
    finishStep step.stepId .failed
    appendEvent .toolCallFailed
    throw (some .timeout)
  else do
    recordToolCall (stepCall step tool row.attempt retryIndex .completed)
    let passed ← rt.settle evidenceHash step tool output passed
    finishStep step.stepId .completed
    appendEvent .toolCallCompleted
    return passed

def executeStep (allowedTools : List String) (evidenceHash : String) (started : ℤ)
    (current : RunDb V) (step : StepRow V) (passed : List String) : Exec V (List String) := do
  let now ← monotonic
  if current.run.timeoutSeconds < now - started then throw (some .timeout)
  else match rt.tools.get step.toolName with
  | none => throw (some .toolNotAllowed)
  | some tool =>
    if current.run.maxToolCalls < current.used + tool.costUnits then throw (some .budgetExhausted)
    else if tool.writesCandidate then
      if ¬ (step.arguments.feature.map rt.canonicalFingerprint).any (· ∈ passed) then
        throw (some .humanGateBypass)
      else do
        let _ ← currentEvidenceHash
        check .ruleBindings
        rt.performStep allowedTools evidenceHash started current step tool passed
    else rt.performStep allowedTools evidenceHash started current step tool passed

def executeSteps (allowedTools : List String) (evidenceHash : String) (started : ℤ) :
    List (StepRow V) → List String → Exec V (RunDb V)
  | [], _ => transition .awaitingHuman [.running] none none
  | step :: rest, passed => do
    let current ← getRun
    if current.status ∈ [.paused, .cancelled] then return current
    else if step.status = .completed then
      executeSteps allowedTools evidenceHash started rest passed
    else do
      let passed ← rt.executeStep allowedTools evidenceHash started current step passed
      executeSteps allowedTools evidenceHash started rest passed

def checkOpinion (expert : Bool) (run : RunDb V) : Exec V (RunDb V) :=
  if expert then withOpinion run else return run

def enterRunning (run : RunDb V) : Exec V (RunDb V) :=
  if run.status ≠ .running then transition .running [.planning, .paused] none none
  else return run

/-- The plan is there: the run is running from here on. -/
def executePlan (expert : Bool) (run : RunDb V) (evidenceHash : String) (started : ℤ) :
    Exec V (RunDb V) := do
  let run ← checkOpinion expert run
  let run ← enterRunning run
  rt.executeSteps run.run.allowedTools evidenceHash started run.steps
    (rt.passedEvaluations run.artifacts evidenceHash)

def executeBody (run : RunDb V) (started : ℤ) : Exec V (RunDb V) := do
  check .plannerEvidenceSummary
  let current ← currentEvidenceHash
  let evidenceHash := match current with
    | some hash => if hash.isEmpty then rt.summaryHash else hash
    | none => rt.summaryHash
  check .planner
  let expert := rt.expert run
  if expert ∧ ¬ planned run ∧ run.status ∉ [.queued, .planning] then
    throw (some .planIndeterminate)
  else do
    let ready ← rt.planning expert run evidenceHash started
    match ready with
    | none => getRun
    | some run => rt.executePlan expert run evidenceHash started

def failureHandler (e : Exn) : Exec V (RunDb V) :=
  if e = some .interrupted then getRun
  else tryCatch
    (transition .failed [.queued, .planning, .running, .paused] (some (e.getD .runFailed)) none)
    fun _ => getRun

def execute : Exec V (RunDb V) := do
  let run ← getRun
  if run.status ∈ [.cancelled, .completed, .awaitingHuman, .failed] then return run
  else do
    let started ← monotonic
    tryCatch (rt.executeBody run started) failureHandler

end Runtime

/-! ## The service -/

namespace AgentService

open LogRisk.Agentic.Runtime

def pause (key : String) : Exec V (RunDb V) :=
  transition .paused [.queued, .planning, .running] none (some key)

def resume (key : String) : Exec V (RunDb V) := do
  let run ← getRun
  let target := if run.steps.isEmpty then RunStatus.queued else .running
  transition target [.paused] none (some key)

def cancel (key : String) : Exec V (RunDb V) :=
  transition .cancelled [.queued, .planning, .running, .paused, .awaitingHuman] none (some key)

def markDispatchFailed (errorCode : ErrorCode) : Exec V (RunDb V) :=
  transition .failed [.queued, .planning, .running] (some errorCode) none

def recoverRun : Exec V (RunDb V) := do
  ask .recoverRun
  getRun

def recoverActiveRuns : Exec V Unit :=
  ask .recoverActiveRuns

end AgentService

end LogRisk.Agentic
