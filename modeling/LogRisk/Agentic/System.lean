import LogRisk.Agentic.Runtime
import LogRisk.Library.Pool

/-!
# Executions and calls around one agent run

Any number of executions and service calls work on one run.  Each is a program whose
actions may be separated by actions of the others, and each may die at any point.  The
log keeps what leaves the runtime: reservations, requests to the planner and tool
executions, oldest first.
-/

namespace LogRisk.Agentic

open LogRisk.Library

variable {V : Type}

inductive Dispatch (V : Type) where
  | reserved (executor : ℕ)
  | plan (executor : ℕ)
  | tool (stepId toolName : String) (arguments : Arguments V) (evidenceHash : String)
      (result : Except Exn (Output V))

structure World (V : Type) where
  db : RunDb V
  log : List (Dispatch V) := []
  /-- How many executions have started. -/
  executions : ℕ := 0

namespace World

def commit (w : World V) (t : Except Exn (RunDb V)) : Except Exn Unit × World V :=
  match t with
  | .ok db => (.ok (), { w with db })
  | .error e => (.error e, w)

def record (w : World V) (d : Dispatch V) : World V := { w with log := w.log ++ [d] }

theorem commit_cases {w w' : World V} {t : Except Exn (RunDb V)} {r : Except Exn Unit}
    (h : (r, w') = w.commit t) :
    (∃ db, t = .ok db ∧ r = .ok () ∧ w' = { w with db }) ∨
      ∃ e, t = .error e ∧ r = .error e ∧ w' = w := by
  unfold commit at h
  cases t with
  | ok db =>
      obtain ⟨hr, hw⟩ := Prod.mk.inj h
      exact .inl ⟨db, rfl, hr, hw⟩
  | error e =>
      obtain ⟨hr, hw⟩ := Prod.mk.inj h
      exact .inr ⟨e, rfl, hr, hw⟩

theorem commit_log {w w' : World V} {t : Except Exn (RunDb V)} {r : Except Exn Unit}
    (h : (r, w') = w.commit t) : w'.log = w.log := by
  obtain ⟨db, _, _, rfl⟩ | ⟨e, _, _, rfl⟩ := commit_cases h
  · rfl
  · rfl

theorem commit_db {w w' : World V} {t : Except Exn (RunDb V)} {r : Except Exn Unit}
    (h : (r, w') = w.commit t) : w'.db = w.db ∨ t = .ok w'.db := by
  obtain ⟨db, ht, _, rfl⟩ | ⟨e, _, _, rfl⟩ := commit_cases h
  · exact .inr ht
  · exact .inl rfl

end World

inductive Caller where
  | execute (executor : ℕ)
  | pause (key : String)
  | resume (key : String)
  | cancel (key : String)
  | markDispatchFailed (errorCode : ErrorCode)
  | recoverRun
  | recoverActiveRuns
deriving DecidableEq

def Caller.executor : Caller → ℕ
  | .execute executor => executor
  | _ => 0

def Caller.isExecution : Caller → Bool
  | .execute _ => true
  | _ => false

def performReserve (caller : Caller) (w : World V) (r : Except Exn Bool) (w' : World V) : Prop :=
  match w.db.reserveModelPlanning with
  | .ok (true, db) => r = .ok true ∧ w' = { w with db }.record (.reserved caller.executor)
  | .ok (false, _) => r = .ok false ∧ w' = w
  | .error e => r = .error e ∧ w' = w

def performRecord (call : ToolCallRow) (w : World V) (r : Except Exn Bool) (w' : World V) : Prop :=
  match w.db.recordToolCall call with
  | .ok db => r = .ok (w.db.toolCalls.any (·.key = call.key)) ∧ w' = { w with db }
  | .error e => r = .error e ∧ w' = w

/-- What an action answers and leaves. -/
def perform (caller : Caller) :
    (a : Action V) → World V → Except Exn a.Answer → World V → Prop
  | .getRun, w, r, w' => r = .ok w.db ∧ w' = w
  | .transition status allowedFrom errorCode key, w, r, w' =>
      (r, w') = w.commit (w.db.transition status allowedFrom errorCode key)
  | .reserveModelPlanning, w, r, w' => performReserve caller w r w'
  | .addContextStep step, w, r, w' => (r, w') = w.commit (w.db.addContextStep step)
  | .replacePlan plan preserveContext, w, r, w' =>
      (r, w') = w.commit (w.db.replacePlan plan preserveContext)
  | .appendEvent type, w, r, w' => (r, w') = w.commit (.ok (w.db.appendEvent type none))
  | .startStep stepId, w, r, w' => (r, w') = w.commit (w.db.startStep stepId)
  | .finishStep stepId status, w, r, w' => (r, w') = w.commit (w.db.finishStep stepId status)
  | .recordToolCall call, w, r, w' => performRecord call w r w'
  | .addArtifact a precondition, w, r, w' =>
      (r, w') = w.commit (w.db.addArtifact a) ∨
        precondition = true ∧ w' = w ∧ ∃ e, r = .error e
  | .recoverRun, w, r, w' => (r, w') = w.commit w.db.recoverRun
  | .recoverActiveRuns, w, r, w' => (r, w') = w.commit (.ok w.db.recoverActiveRuns)
  | .monotonic, w, r, w' => w' = w ∧ ∃ now, r = .ok now
  | .parentStatus, w, _, w' => w' = w
  | .currentEvidenceHash, w, _, w' => w' = w
  | .check _, w, _, w' => w' = w
  | .plan, w, _, w' => w' = w.record (.plan caller.executor)
  | .execute stepId toolName arguments evidenceHash, w, r, w' =>
      w' = w.record (.tool stepId toolName arguments evidenceHash r)

/-- The entries that an action adds to the log. -/
def Action.Records : Action V → Dispatch V → Prop
  | .reserveModelPlanning, .reserved _ => True
  | .plan, .plan _ => True
  | .execute stepId toolName arguments evidenceHash, .tool stepId' toolName' arguments' hash' _ =>
      stepId' = stepId ∧ toolName' = toolName ∧ arguments' = arguments ∧ hash' = evidenceHash
  | _, _ => False

theorem perform_log {k : Caller} {a : Action V} {w w' : World V} {r : Except Exn a.Answer}
    (h : perform k a w r w') :
    w'.log = w.log ∨ ∃ d, a.Records d ∧ w'.log = w.log ++ [d] := by
  cases a with
  | getRun => exact .inl (by rw [h.2])
  | transition _ _ _ _ => exact .inl (World.commit_log h)
  | reserveModelPlanning =>
      change performReserve k w r w' at h
      unfold performReserve at h
      split at h
      · exact .inr ⟨.reserved k.executor, trivial, by rw [h.2]; rfl⟩
      · exact .inl (by rw [h.2])
      · exact .inl (by rw [h.2])
  | addContextStep _ => exact .inl (World.commit_log h)
  | replacePlan _ _ => exact .inl (World.commit_log h)
  | appendEvent _ => exact .inl (World.commit_log h)
  | startStep _ => exact .inl (World.commit_log h)
  | finishStep _ _ => exact .inl (World.commit_log h)
  | recordToolCall call =>
      change performRecord call w r w' at h
      unfold performRecord at h
      split at h
      · exact .inl (by rw [h.2])
      · exact .inl (by rw [h.2])
  | addArtifact _ _ =>
      rcases h with h | ⟨_, rfl, _⟩
      · exact .inl (World.commit_log h)
      · exact .inl rfl
  | recoverRun => exact .inl (World.commit_log h)
  | recoverActiveRuns => exact .inl (World.commit_log h)
  | monotonic => exact .inl (by rw [h.1])
  | parentStatus => exact .inl (congrArg World.log h)
  | currentEvidenceHash => exact .inl (congrArg World.log h)
  | check _ => exact .inl (congrArg World.log h)
  | plan => exact .inr ⟨.plan k.executor, trivial, congrArg World.log h⟩
  | execute stepId toolName arguments evidenceHash =>
      exact .inr ⟨.tool stepId toolName arguments evidenceHash r, ⟨rfl, rfl, rfl, rfl⟩,
        congrArg World.log h⟩

/-- The log only grows. -/
theorem log_extended {k : Caller} {a : Action V} {w w' : World V} {r : Except Exn a.Answer}
    (h : perform k a w r w') : w.log <+: w'.log := by
  rcases perform_log h with hlog | ⟨d, _, hlog⟩
  · exact hlog.symm ▸ List.prefix_refl _
  · exact ⟨[d], hlog.symm⟩

/-- The transaction behind an action. -/
inductive Commits : Action V → RunDb V → RunDb V → Prop
  | transition {db db' s f e k} : RunDb.transition db s f e k = .ok db' →
      Commits (.transition s f e k) db db'
  | reserve {db db'} : RunDb.reserveModelPlanning db = .ok (true, db') →
      Commits .reserveModelPlanning db db'
  | addContextStep {db db' step} : RunDb.addContextStep db step = .ok db' →
      Commits (.addContextStep step) db db'
  | replacePlan {db db' plan p} : RunDb.replacePlan db plan p = .ok db' →
      Commits (.replacePlan plan p) db db'
  | appendEvent {db type} : Commits (.appendEvent type) db (RunDb.appendEvent db type none)
  | startStep {db db' stepId} : RunDb.startStep db stepId = .ok db' →
      Commits (.startStep stepId) db db'
  | finishStep {db db' stepId status} : RunDb.finishStep db stepId status = .ok db' →
      Commits (.finishStep stepId status) db db'
  | recordToolCall {db db' call} : RunDb.recordToolCall db call = .ok db' →
      Commits (.recordToolCall call) db db'
  | addArtifact {db db' a p} : RunDb.addArtifact db a = .ok db' →
      Commits (.addArtifact a p) db db'
  | recoverRun {db db'} : RunDb.recoverRun db = .ok db' → Commits .recoverRun db db'
  | recoverActiveRuns {db} : Commits .recoverActiveRuns db db.recoverActiveRuns

/-- An action leaves the tables alone or commits its transaction. -/
theorem perform_db {k : Caller} {a : Action V} {w w' : World V} {r : Except Exn a.Answer}
    (h : perform k a w r w') : w'.db = w.db ∨ Commits a w.db w'.db := by
  cases a with
  | getRun => exact .inl (by rw [h.2])
  | transition _ _ _ _ => exact (World.commit_db h).imp_right .transition
  | reserveModelPlanning =>
      change performReserve k w r w' at h
      unfold performReserve at h
      split at h
      · rename_i db hreserve
        rw [h.2]
        exact .inr (.reserve hreserve)
      · exact .inl (by rw [h.2])
      · exact .inl (by rw [h.2])
  | addContextStep _ => exact (World.commit_db h).imp_right .addContextStep
  | replacePlan _ _ => exact (World.commit_db h).imp_right .replacePlan
  | appendEvent _ =>
      refine (World.commit_db h).imp_right fun hok => ?_
      rw [← Except.ok.inj hok]
      exact .appendEvent
  | startStep _ => exact (World.commit_db h).imp_right .startStep
  | finishStep _ _ => exact (World.commit_db h).imp_right .finishStep
  | recordToolCall call =>
      change performRecord call w r w' at h
      unfold performRecord at h
      split at h
      · rename_i db hrecord
        rw [h.2]
        exact .inr (.recordToolCall hrecord)
      · exact .inl (by rw [h.2])
  | addArtifact _ _ =>
      rcases h with h | ⟨_, rfl, _⟩
      · exact (World.commit_db h).imp_right .addArtifact
      · exact .inl rfl
  | recoverRun => exact (World.commit_db h).imp_right .recoverRun
  | recoverActiveRuns =>
      refine (World.commit_db h).imp_right fun hok => ?_
      rw [← Except.ok.inj hok]
      exact .recoverActiveRuns
  | monotonic => exact .inl (by rw [h.1])
  | parentStatus => exact .inl (congrArg World.db h)
  | currentEvidenceHash => exact .inl (congrArg World.db h)
  | check _ => exact .inl (congrArg World.db h)
  | plan =>
      have hw : w' = w.record (.plan k.executor) := h
      exact .inl (by rw [hw]; rfl)
  | execute stepId toolName arguments evidenceHash =>
      have hw : w' = w.record (.tool stepId toolName arguments evidenceHash r) := h
      exact .inl (by rw [hw]; rfl)

/-- The program of a caller. -/
def entry (rt : Runtime V) : Caller → Exec V Unit
  | .execute _ => do let _ ← rt.execute
  | .pause key => do let _ ← AgentService.pause key
  | .resume key => do let _ ← AgentService.resume key
  | .cancel key => do let _ ← AgentService.cancel key
  | .markDispatchFailed errorCode => do let _ ← AgentService.markDispatchFailed errorCode
  | .recoverRun => do let _ ← AgentService.recoverRun
  | .recoverActiveRuns => AgentService.recoverActiveRuns

/-- `admits` tells which callers may start beside which others, `permits` which actions
are considered in a state. -/
def agentSystem (rt : Runtime V) (admits : Caller → List Caller → World V → Prop)
    (permits : Caller → Action V → World V → Prop) :
    System Caller (Action V) Action.Answer Exn Unit (World V) where
  entry := entry rt
  does k a w r w' := permits k a w ∧ perform k a w r w'
  start k others w w' := admits k others w ∧
    if k.isExecution then k = .execute w.executions ∧ w' = { w with executions := w.executions + 1 }
    else w' = w
  finish _ _ w next w' := next = none ∧ w' = w
  dies _ w w' := w' = w

/-- A caller that starts leaves the tables and the log alone. -/
theorem start_same {rt : Runtime V} {admits : Caller → List Caller → World V → Prop}
    {permits : Caller → Action V → World V → Prop} {k : Caller} {others : List Caller}
    {w w' : World V} (h : (agentSystem rt admits permits).start k others w w') :
    w'.db = w.db ∧ w'.log = w.log := by
  obtain ⟨_, h⟩ := h
  split at h
  · rw [h.2]
    exact ⟨rfl, rfl⟩
  · rw [h]
    exact ⟨rfl, rfl⟩

/-- Executions and calls without any restriction. -/
abbrev freeSystem (rt : Runtime V) :
    System Caller (Action V) Action.Answer Exn Unit (World V) :=
  agentSystem rt (fun _ _ _ => True) fun _ _ _ => True

structure AgentRunRequest where
  maxSteps : ℕ
  maxToolCalls : ℕ
  timeoutSeconds : ℤ
  allowedTools : List String
  workflowRunId : Option String := none
  workflowRoleId : Option String := none

def createRun (request : AgentRunRequest) : RunDb V where
  run :=
    { maxSteps := request.maxSteps, maxToolCalls := request.maxToolCalls,
      timeoutSeconds := request.timeoutSeconds, allowedTools := request.allowedTools,
      workflowRunId := request.workflowRunId, workflowRoleId := request.workflowRoleId }
  events := [{ type := .runCreated }]

/-- The run before the first call. -/
def createdPool (request : AgentRunRequest) :
    Pool Caller (Action V) Action.Answer Exn Unit (World V) :=
  ⟨{ db := createRun request }, []⟩

/-! ## Runs in which everything outside answers alike -/

structure Answers (V : Type) where
  now : ℤ := 0
  parent : Option RunStatus := none
  evidenceHash : Option String := none
  plan : AgentPlan V
  result : Except Exn (Output V) := .ok {}

namespace Answers

variable (o : Answers V)

def reserve (k : Caller) (w : World V) : Except Exn Bool × World V :=
  match w.db.reserveModelPlanning with
  | .ok (true, db) => (.ok true, { w with db }.record (.reserved k.executor))
  | .ok (false, _) => (.ok false, w)
  | .error e => (.error e, w)

def recordCall (call : ToolCallRow) (w : World V) : Except Exn Bool × World V :=
  match w.db.recordToolCall call with
  | .ok db => (.ok (w.db.toolCalls.any (·.key = call.key)), { w with db })
  | .error e => (.error e, w)

def ask (k : Caller) : (a : Action V) → World V → Except Exn a.Answer × World V
  | .getRun, w => (.ok w.db, w)
  | .transition status allowedFrom errorCode key, w =>
      w.commit (w.db.transition status allowedFrom errorCode key)
  | .reserveModelPlanning, w => reserve k w
  | .addContextStep step, w => w.commit (w.db.addContextStep step)
  | .replacePlan plan preserveContext, w => w.commit (w.db.replacePlan plan preserveContext)
  | .appendEvent type, w => w.commit (.ok (w.db.appendEvent type none))
  | .startStep stepId, w => w.commit (w.db.startStep stepId)
  | .finishStep stepId status, w => w.commit (w.db.finishStep stepId status)
  | .recordToolCall call, w => recordCall call w
  | .addArtifact a _, w => w.commit (w.db.addArtifact a)
  | .recoverRun, w => w.commit w.db.recoverRun
  | .recoverActiveRuns, w => w.commit (.ok w.db.recoverActiveRuns)
  | .monotonic, w => (.ok o.now, w)
  | .parentStatus, w => (.ok o.parent, w)
  | .currentEvidenceHash, w => (.ok o.evidenceHash, w)
  | .check _, w => (.ok (), w)
  | .plan, w => (.ok o.plan, w.record (.plan k.executor))
  | .execute stepId toolName arguments evidenceHash, w =>
      (o.result, w.record (.tool stepId toolName arguments evidenceHash o.result))

theorem performs (k : Caller) (a : Action V) (w : World V) :
    perform k a w (o.ask k a w).1 (o.ask k a w).2 := by
  cases a with
  | reserveModelPlanning =>
      change performReserve k w (reserve k w).1 (reserve k w).2
      unfold performReserve reserve
      split
      · exact ⟨rfl, rfl⟩
      · exact ⟨rfl, rfl⟩
      · exact ⟨rfl, rfl⟩
  | recordToolCall call =>
      change performRecord call w (recordCall call w).1 (recordCall call w).2
      unfold performRecord recordCall
      split
      · exact ⟨rfl, rfl⟩
      · exact ⟨rfl, rfl⟩
  | addArtifact a precondition => exact .inl rfl
  | getRun => exact ⟨rfl, rfl⟩
  | monotonic => exact ⟨rfl, o.now, rfl⟩
  | _ => rfl

end Answers

/-- The caller has started. -/
def joined (rt : Runtime V) (c : Pool Caller (Action V) Action.Answer Exn Unit (World V))
    (k : Caller) : Pool Caller (Action V) Action.Answer Exn Unit (World V) :=
  ⟨if k.isExecution then { c.state with executions := c.state.executions + 1 } else c.state,
    c.threads ++ [(k, entry rt k)]⟩

theorem run_joined {rt : Runtime V} {admits : Caller → List Caller → World V → Prop}
    {permits : Caller → Action V → World V → Prop}
    {c : Pool Caller (Action V) Action.Answer Exn Unit (World V)} {k : Caller}
    (hadmits : admits k (c.threads.map Prod.fst) c.state)
    (hnumber : k.isExecution = true → k = .execute c.state.executions) :
    (agentSystem rt admits permits).Run c (joined rt c k) := by
  refine .single (.start k ⟨hadmits, ?_⟩)
  split
  · rename_i hk
    exact ⟨hnumber hk, rfl⟩
  · rfl

/-- Every execution has died. -/
def widowed (c : Pool Caller (Action V) Action.Answer Exn Unit (World V)) :
    Pool Caller (Action V) Action.Answer Exn Unit (World V) :=
  ⟨c.state, c.threads.filter fun x => !x.1.isExecution⟩

theorem run_widowed {rt : Runtime V} {admits : Caller → List Caller → World V → Prop}
    {permits : Caller → Action V → World V → Prop}
    (c : Pool Caller (Action V) Action.Answer Exn Unit (World V)) :
    (agentSystem rt admits permits).Run c (widowed c) :=
  .single (.die Caller.isExecution rfl)

/-! ## What the actions of the programs are -/

section Uses

open Program LogRisk.Agentic.Runtime

/-- The actions that every part of an execution may take. -/
structure Quiet (only : Action V → Prop) : Prop where
  getRun : only .getRun
  monotonic : only .monotonic
  parentStatus : only .parentStatus
  currentEvidenceHash : only .currentEvidenceHash
  check : ∀ c, only (.check c)
  transition : ∀ status allowedFrom errorCode, status ≠ .queued →
    only (.transition status allowedFrom errorCode none)
  startStep : ∀ stepId, only (.startStep stepId)
  failStep : ∀ stepId, only (.finishStep stepId .failed)
  appendEvent : ∀ type, only (.appendEvent type)
  addArtifact : ∀ a precondition, a.type ≠ .evaluation → only (.addArtifact a precondition)

/-- With the actions of the counted reads. -/
structure Reading (only : Action V → Prop) : Prop extends Quiet only where
  addContextStep : ∀ step, only (.addContextStep step)
  completeStep : ∀ stepId, only (.finishStep stepId .completed)
  recordToolCall : ∀ call, only (.recordToolCall call)
  execute : ∀ stepId toolName arguments evidenceHash, toolName ∈ contextTools →
    only (.execute stepId toolName arguments evidenceHash)

variable {only : Action V → Prop}

theorem uses_ask {a : Action V} (h : only a) : (ask a).Uses only := ⟨h, fun _ => trivial⟩

theorem Quiet.uses_transition (h : Quiet only) {status : RunStatus} (hstatus : status ≠ .queued)
    (allowedFrom : List RunStatus) (errorCode : Option ErrorCode) :
    (Runtime.transition status allowedFrom errorCode none : Exec V (RunDb V)).Uses only :=
  (uses_ask (h.transition status allowedFrom errorCode hstatus)).bind fun _ => uses_ask h.getRun

theorem Quiet.uses_stepRow (h : Quiet only) (stepId : String) :
    (stepRow stepId : Exec V (StepRow V)).Uses only := by
  refine (uses_ask h.getRun).bind fun run => ?_
  split
  · exact uses_pure _
  · exact uses_throw _

theorem Quiet.uses_startStep (h : Quiet only) (stepId : String) :
    (Runtime.startStep stepId : Exec V (StepRow V)).Uses only :=
  (uses_ask (h.startStep stepId)).bind fun _ => h.uses_stepRow stepId

theorem Quiet.uses_finishStep (h : Quiet only) {stepId : String} {status : StepStatus}
    (hfinish : only (.finishStep stepId status)) :
    (Runtime.finishStep stepId status : Exec V Unit).Uses only :=
  (uses_ask hfinish).bind fun _ => (h.uses_stepRow stepId).bind fun _ => uses_pure _

theorem Quiet.uses_recordToolCall (h : Quiet only) {call : ToolCallRow}
    (hrecord : only (.recordToolCall call)) :
    (recordToolCall call : Exec V Unit).Uses only := by
  refine (uses_ask hrecord).bind fun existing => ?_
  split
  · exact uses_pure _
  · refine (uses_ask h.getRun).bind fun run => ?_
    split
    · exact uses_pure _
    · exact uses_throw _

theorem Quiet.uses_followParent (h : Quiet only) (read : RunDb V) :
    (followParent read).Uses only := by
  unfold followParent
  split
  · refine (uses_ask h.parentStatus).bind fun parent => ?_
    split
    · split
      · rename_i status hstatus
        refine h.uses_transition ?_ _ _
        rintro rfl
        simp [parentEnds] at hstatus
      · exact uses_pure _
    · exact uses_pure _
  · exact uses_pure _

theorem Quiet.uses_checkActive (h : Quiet only) (started : ℤ) :
    (checkActive started : Exec V (RunDb V)).Uses only := by
  unfold checkActive
  refine (uses_ask h.getRun).bind fun read => ?_
  refine (h.uses_followParent read).bind fun run => ?_
  split
  · exact uses_throw _
  · refine (uses_ask h.monotonic).bind fun now => ?_
    split
    · exact uses_throw _
    · exact uses_pure _

variable (rt : Runtime V)

theorem uses_executeTool (allowedTools : List String) (stepId toolName : String)
    (arguments : Arguments V) (evidenceHash : String)
    (h : only (.execute stepId toolName arguments evidenceHash)) :
    (rt.executeTool allowedTools stepId toolName arguments evidenceHash).Uses only := by
  unfold Runtime.executeTool
  split
  · exact uses_throw _
  · split
    · exact uses_throw _
    · exact uses_ask h

theorem Reading.uses_readContext (h : Reading only) (allowedTools : List String)
    (evidenceHash : String) (started : ℤ) (index : ℕ) {toolName : String}
    (htool : toolName ∈ contextTools) :
    (rt.readContext allowedTools evidenceHash started index toolName).Uses only := by
  have hq := h.toQuiet
  unfold Runtime.readContext
  refine (hq.uses_checkActive started).bind fun latest => ?_
  split
  · exact uses_throw _
  · split
    · exact uses_throw _
    split
    · exact uses_throw _
    refine (uses_ask (h.addContextStep _)).bind fun _ => ?_
    refine (hq.uses_startStep _).bind fun _ => ?_
    refine (uses_ask hq.monotonic).bind fun _ => ?_
    refine (uses_ask (hq.appendEvent _)).bind fun _ => ?_
    refine Uses.bind ?_ fun output => ?_
    · unfold Runtime.callContextTool
      refine (uses_executeTool rt _ _ _ _ _ (h.execute _ _ _ _ htool)).tryCatch fun e => ?_
      refine (hq.uses_recordToolCall (h.recordToolCall _)).bind fun _ => ?_
      exact (hq.uses_finishStep (hq.failStep _)).bind fun _ => uses_throw _
    · refine (uses_ask hq.monotonic).bind fun _ => ?_
      refine (hq.uses_recordToolCall (h.recordToolCall _)).bind fun _ => ?_
      refine (uses_ask (hq.check _)).bind fun _ => ?_
      refine (uses_ask (hq.addArtifact _ _ (by simp))).bind fun _ => ?_
      refine (hq.uses_finishStep (h.completeStep _)).bind fun _ => ?_
      refine (uses_ask (hq.appendEvent _)).bind fun _ => ?_
      exact (hq.uses_checkActive started).bind fun _ => uses_pure _

theorem Reading.uses_expertContext (h : Reading only) (run : RunDb V) (evidenceHash : String)
    (started : ℤ) : (rt.expertContext run evidenceHash started).Uses only := by
  have hq := h.toQuiet
  unfold Runtime.expertContext
  refine (h.uses_readContext rt _ _ _ _ (by simp [contextTools])).bind fun _ => ?_
  refine (uses_ask (hq.check _)).bind fun _ => ?_
  split
  · refine (h.uses_readContext rt _ _ _ _ (by simp [contextTools])).bind fun rules => ?_
    split
    · exact uses_throw _
    · exact uses_ask (hq.check _)
  · exact uses_ask (hq.check _)

theorem uses_isLate (h : Quiet only) (latest : RunDb V) (started : ℤ) (retryIndex : ℕ) :
    (isLate latest started retryIndex).Uses only := by
  unfold isLate
  split
  · exact uses_pure _
  · exact (uses_ask h.monotonic).bind fun _ => uses_pure _

theorem Quiet.uses_failureHandler (h : Quiet only) (e : Exn) :
    (failureHandler e : Exec V (RunDb V)).Uses only := by
  unfold failureHandler
  split
  · exact uses_ask h.getRun
  · have hfailed : RunStatus.failed ≠ .queued := by decide
    exact (h.uses_transition hfailed _ _).tryCatch fun _ => uses_ask h.getRun

theorem Quiet.uses_settle (h : Quiet only) (evidenceHash : String) (step : StepRow V)
    (tool : AgentTool) (output : Output V) (passed : List String)
    (hadd : ∀ a, only (.addArtifact a false)) :
    (rt.settle evidenceHash step tool output passed).Uses only := by
  unfold Runtime.settle
  split
  · exact (uses_ask (hadd _)).bind fun _ => uses_pure _
  · split
    · exact (uses_ask (hadd _)).bind fun _ => uses_pure _
    · split
      · refine (uses_ask (h.check _)).bind fun _ => ?_
        exact (uses_ask (hadd _)).bind fun _ => uses_pure _
      · exact uses_pure _

end Uses

end LogRisk.Agentic
