import Mathlib.Data.List.Basic
import Mathlib.Algebra.BigOperators.Group.List.Basic

/-!
# The tables of an agent run

One run with its steps, tool calls, artifacts and events, and the transactions of the
repository on them.  `V` stands for the JSON values a plan or a tool may hold under the
member `feature`.
-/

namespace LogRisk.Agentic

inductive RunStatus where
  | queued | planning | running | paused | awaitingHuman | completed | failed | cancelled
deriving DecidableEq, Repr

inductive ErrorCode where
  | contextIncomplete
  | planInvalid
  | stateConflict
  | budgetExhausted
  | stepConflict
  | interrupted
  | timeout
  | toolNotAllowed
  | ruleContextTruncated
  | planIndeterminate
  | ruleReferenceChanged
  | humanGateBypass
  | toolFailed
  | runFailed
  | other (code : String)
deriving DecidableEq, Repr

/-- An exception, with the code it carries. -/
abbrev Exn := Option ErrorCode

inductive StepStatus where
  | pending | running | completed | failed
deriving DecidableEq, Repr

inductive CallStatus where
  | completed | failed
deriving DecidableEq, Repr

inductive EventType where
  | runCreated
  | run (status : RunStatus)
  | runRecovered
  | modelPlanningReserved
  | planningRecoveryBlocked
  | planCreated
  | toolCallStarted
  | toolCallCompleted
  | toolCallFailed
  | toolCallRetrying
deriving DecidableEq, Repr

inductive ArtifactType where
  | evaluation | candidate | readTool | expertAssessment
deriving DecidableEq, Repr

variable {V : Type}

/-- `arguments` of a step, as far as the runtime reads them. -/
structure Arguments (V : Type) where
  feature : Option V := none
deriving DecidableEq

/-- The members of a tool's result that the runtime reads. -/
structure Output (V : Type) where
  /-- `passed` is the JSON value `true`. -/
  passed : Bool := false
  /-- `feature` where it is an object. -/
  feature : Option V := none
  fingerprint : Option String := none
  evidenceHash : Option String := none
  evaluatorVersion : Option String := none
  truncated : Bool := false
deriving DecidableEq

structure AgentStepPlan (V : Type) where
  stepId : String
  toolName : String
  arguments : Arguments V := {}
deriving DecidableEq

structure AgentPlan (V : Type) where
  steps : List (AgentStepPlan V)
deriving DecidableEq

structure RunRow where
  status : RunStatus := .queued
  maxSteps : ℕ
  maxToolCalls : ℕ
  usedToolCalls : ℕ := 0
  timeoutSeconds : ℤ
  allowedTools : List String
  /-- `workflow_run_id` and `workflow_role_id` of the locked snapshot. -/
  workflowRunId : Option String := none
  workflowRoleId : Option String := none
  errorCode : Option ErrorCode := none

structure StepRow (V : Type) where
  stepId : String
  toolName : String
  arguments : Arguments V
  status : StepStatus := .pending
  attempt : ℕ := 0
deriving DecidableEq

/-- The idempotency key of a tool call: `context:{step}` or `{run}:{step}:{attempt}:{retry}`. -/
inductive CallKey where
  | context (stepId : String)
  | attempt (stepId : String) (attempt retry : ℕ)
deriving DecidableEq

structure ToolCallRow where
  stepId : String
  toolName : String
  key : CallKey
  costUnits : ℕ
  status : CallStatus
deriving DecidableEq

structure ArtifactRow (V : Type) where
  type : ArtifactType
  stepId : Option String := none
  payload : Output V := {}
  fingerprint : Option String := none

structure EventRow where
  type : EventType
  key : Option String := none
deriving DecidableEq

structure RunDb (V : Type) where
  run : RunRow
  steps : List (StepRow V) := []
  toolCalls : List ToolCallRow := []
  artifacts : List (ArtifactRow V) := []
  events : List EventRow := []

namespace RunDb

def status (db : RunDb V) : RunStatus := db.run.status

def used (db : RunDb V) : ℕ := db.run.usedToolCalls

def stepIds (db : RunDb V) : List String := db.steps.map (·.stepId)

def hasKey (db : RunDb V) (key : String) : Bool := db.events.any (·.key = some key)

def hasEvent (db : RunDb V) (type : EventType) : Bool := db.events.any (·.type = type)

def appendEvent (db : RunDb V) (type : EventType) (key : Option String) : RunDb V :=
  { db with events := db.events ++ [{ type, key }] }

def setStatus (db : RunDb V) (status : RunStatus) (errorCode : Option ErrorCode) : RunDb V :=
  { db with run := { db.run with status, errorCode } }

def mapSteps (db : RunDb V) (f : StepRow V → StepRow V) : RunDb V :=
  { db with steps := db.steps.map f }

/-! ## Transactions -/

def transition (db : RunDb V) (status : RunStatus) (allowedFrom : List RunStatus)
    (errorCode : Option ErrorCode) (key : Option String) : Except Exn (RunDb V) :=
  if key.any db.hasKey then .ok db
  else if db.status ∈ allowedFrom then
    .ok ((db.setStatus status errorCode).appendEvent (.run status) key)
  else .error (some .stateConflict)

def planningKey : String := "model-planning-reservation"

def reserveModelPlanning (db : RunDb V) : Except Exn (Bool × RunDb V) :=
  if db.status ≠ .planning then .error (some .stateConflict)
  else if db.hasKey planningKey then .ok (false, db)
  else .ok (true, db.appendEvent .modelPlanningReserved (some planningKey))

def newStep (step : AgentStepPlan V) : StepRow V where
  stepId := step.stepId
  toolName := step.toolName
  arguments := step.arguments

def addContextStep (db : RunDb V) (step : AgentStepPlan V) : Except Exn (RunDb V) :=
  if db.status ≠ .planning ∨ db.run.maxSteps ≤ db.steps.length then
    .error (some .budgetExhausted)
  else if step.stepId ∈ db.stepIds then .error none
  else .ok { db with steps := db.steps ++ [newStep step] }

def keptSteps (db : RunDb V) (preserveContext : Bool) : List (StepRow V) :=
  if preserveContext then db.steps else []

def deletedSteps (db : RunDb V) (preserveContext : Bool) : List String :=
  if preserveContext then [] else db.stepIds

/-- With the deleted steps their tool calls and artifacts are deleted. -/
def storePlan (db : RunDb V) (plan : AgentPlan V) (preserveContext : Bool) : RunDb V :=
  let deleted := db.deletedSteps preserveContext
  { db with
    steps := db.keptSteps preserveContext ++ plan.steps.map newStep
    toolCalls := db.toolCalls.filter fun call => decide (call.stepId ∉ deleted)
    artifacts := db.artifacts.filter fun a => !a.stepId.any fun id => decide (id ∈ deleted) }

def replacePlan (db : RunDb V) (plan : AgentPlan V) (preserveContext : Bool) :
    Except Exn (RunDb V) :=
  let kept := db.keptSteps preserveContext
  let ids := plan.steps.map (·.stepId)
  if kept.any fun row => !row.stepId.startsWith "context-" || decide (row.status ≠ .completed) then
    .error (some .contextIncomplete)
  else if kept.any fun row => decide (row.stepId ∈ ids) then .error (some .planInvalid)
  else if ids.Nodup then .ok (db.storePlan plan preserveContext)
  else .error none

/-- A guarded update of one step. -/
def updateStep (db : RunDb V) (stepId : String) (guard : StepStatus)
    (f : StepRow V → StepRow V) : Except Exn (RunDb V) :=
  if db.steps.any fun row => decide (row.stepId = stepId ∧ row.status = guard) then
    .ok (db.mapSteps fun row => if row.stepId = stepId ∧ row.status = guard then f row else row)
  else .error (some .stepConflict)

def startStep (db : RunDb V) (stepId : String) : Except Exn (RunDb V) :=
  db.updateStep stepId .pending fun row =>
    { row with status := .running, attempt := row.attempt + 1 }

def finishStep (db : RunDb V) (stepId : String) (status : StepStatus) : Except Exn (RunDb V) :=
  db.updateStep stepId .running fun row => { row with status }

def recordToolCall (db : RunDb V) (call : ToolCallRow) : Except Exn (RunDb V) :=
  if db.toolCalls.any (·.key = call.key) then .ok db
  else if call.stepId ∈ db.stepIds then
    .ok { db with
      toolCalls := db.toolCalls ++ [call]
      run := { db.run with usedToolCalls := db.run.usedToolCalls + call.costUnits } }
  else .error none

def addArtifact (db : RunDb V) (a : ArtifactRow V) : Except Exn (RunDb V) :=
  if a.stepId.all fun id => decide (id ∈ db.stepIds) then
    .ok { db with artifacts := db.artifacts ++ [a] }
  else .error none

/-! ## Recovery -/

def active : List RunStatus := [.queued, .planning, .running]

/-- A reserved planning without a plan is settled as failed. -/
def uncertain (db : RunDb V) : Bool :=
  db.hasEvent .modelPlanningReserved && !db.hasEvent .planCreated

def blockUncertainPlanning (db : RunDb V) : RunDb V :=
  if db.uncertain then
    (db.setStatus .failed (some .planIndeterminate)).appendEvent .planningRecoveryBlocked none
  else db

def resetRunning (row : StepRow V) : StepRow V :=
  if row.status = .running then { row with status := .pending } else row

def recoverActiveRuns (db : RunDb V) : RunDb V :=
  if db.status ∈ active then
    if db.uncertain then db.blockUncertainPlanning
    else (db.mapSteps resetRunning).appendEvent .runRecovered none
  else db

def recoverRun (db : RunDb V) : Except Exn (RunDb V) :=
  if db.status ∈ active then
    let blocked := db.blockUncertainPlanning
    let reset := if blocked.status = .failed then blocked else blocked.mapSteps resetRunning
    .ok (reset.appendEvent .runRecovered none)
  else .error (some .stateConflict)

/-! ## What a committed transaction has done -/

variable {db db' : RunDb V}

theorem transition_ok {status : RunStatus} {allowedFrom : List RunStatus}
    {errorCode : Option ErrorCode} {key : Option String}
    (h : db.transition status allowedFrom errorCode key = .ok db') :
    db' = db ∨ db.status ∈ allowedFrom ∧
      db' = (db.setStatus status errorCode).appendEvent (.run status) key := by
  unfold transition at h
  split at h
  · exact .inl (Except.ok.inj h).symm
  · split at h
    · rename_i hallowed
      exact .inr ⟨hallowed, (Except.ok.inj h).symm⟩
    · cases h

theorem addContextStep_ok {step : AgentStepPlan V} (h : db.addContextStep step = .ok db') :
    db.status = .planning ∧ db.steps.length < db.run.maxSteps ∧ step.stepId ∉ db.stepIds ∧
      db' = { db with steps := db.steps ++ [newStep step] } := by
  unfold addContextStep at h
  split at h
  · cases h
  · rename_i hopen
    split at h
    · cases h
    · rename_i hfresh
      obtain ⟨hstatus, hroom⟩ := not_or.mp hopen
      exact ⟨not_not.mp hstatus, Nat.lt_of_not_le hroom, hfresh, (Except.ok.inj h).symm⟩

theorem updateStep_ok {stepId : String} {guard : StepStatus} {f : StepRow V → StepRow V}
    (h : db.updateStep stepId guard f = .ok db') :
    (∃ row ∈ db.steps, row.stepId = stepId ∧ row.status = guard) ∧
      db' = db.mapSteps fun row => if row.stepId = stepId ∧ row.status = guard then f row else row := by
  unfold updateStep at h
  split at h
  · rename_i hany
    exact ⟨by simpa using hany, (Except.ok.inj h).symm⟩
  · cases h

theorem recordToolCall_ok {call : ToolCallRow} (h : db.recordToolCall call = .ok db') :
    db' = db ∨ call.stepId ∈ db.stepIds ∧
      db' = { db with
        toolCalls := db.toolCalls ++ [call]
        run := { db.run with usedToolCalls := db.run.usedToolCalls + call.costUnits } } := by
  unfold recordToolCall at h
  split at h
  · exact .inl (Except.ok.inj h).symm
  · split at h
    · rename_i hstep
      exact .inr ⟨hstep, (Except.ok.inj h).symm⟩
    · cases h

theorem addArtifact_ok {a : ArtifactRow V} (h : db.addArtifact a = .ok db') :
    db' = { db with artifacts := db.artifacts ++ [a] } := by
  unfold addArtifact at h
  split at h
  · exact (Except.ok.inj h).symm
  · cases h

theorem replacePlan_ok {plan : AgentPlan V} {preserveContext : Bool}
    (h : db.replacePlan plan preserveContext = .ok db') :
    (plan.steps.map (·.stepId)).Nodup ∧ db' = db.storePlan plan preserveContext ∧
      ∀ row ∈ db.keptSteps preserveContext, row.status = .completed ∧
        row.stepId ∉ plan.steps.map (·.stepId) := by
  unfold replacePlan at h
  dsimp only at h
  split at h
  · cases h
  rename_i hcontext
  split at h
  · cases h
  rename_i hapart
  split at h
  · rename_i hnodup
    refine ⟨hnodup, (Except.ok.inj h).symm, fun row hrow => ?_⟩
    have hrow' := List.any_eq_false.mp (Bool.eq_false_iff.mpr hcontext) row hrow
    have happ := List.any_eq_false.mp (Bool.eq_false_iff.mpr hapart) row hrow
    simp only [ne_eq, Bool.or_eq_true, decide_eq_true_eq, not_or, not_not] at hrow' happ
    exact ⟨hrow'.2, happ⟩
  · cases h

theorem reserveModelPlanning_ok {reserved : Bool}
    (h : db.reserveModelPlanning = .ok (reserved, db')) :
    db.status = .planning ∧
      if reserved then db.hasKey planningKey = false ∧
        db' = db.appendEvent .modelPlanningReserved (some planningKey)
      else db' = db := by
  unfold reserveModelPlanning at h
  split at h
  · cases h
  · rename_i hstatus
    split at h
    · obtain ⟨rfl, rfl⟩ := Prod.mk.inj (Except.ok.inj h)
      exact ⟨not_not.mp hstatus, rfl⟩
    · rename_i hkey
      obtain ⟨rfl, rfl⟩ := Prod.mk.inj (Except.ok.inj h)
      exact ⟨not_not.mp hstatus, Bool.eq_false_iff.mpr hkey, rfl⟩

theorem recoverRun_ok (h : db.recoverRun = .ok db') :
    db.status ∈ active ∧ db' =
      (if db.blockUncertainPlanning.status = .failed then db.blockUncertainPlanning
        else db.blockUncertainPlanning.mapSteps resetRunning).appendEvent .runRecovered none := by
  unfold recoverRun at h
  split at h
  · rename_i hactive
    exact ⟨hactive, (Except.ok.inj h).symm⟩
  · cases h

/-! ## Fields that a change leaves alone -/

section Frames

variable (db) (status : RunStatus) (errorCode : Option ErrorCode) (type : EventType)
  (key : Option String) (f : StepRow V → StepRow V)

@[simp] theorem mapSteps_steps : (db.mapSteps f).steps = db.steps.map f := rfl
end Frames

theorem blockUncertainPlanning_cases : db.blockUncertainPlanning = db ∨
    db.blockUncertainPlanning =
      (db.setStatus .failed (some .planIndeterminate)).appendEvent .planningRecoveryBlocked none := by
  unfold blockUncertainPlanning
  split
  · exact .inr rfl
  · exact .inl rfl

end RunDb

end LogRisk.Agentic
