import LogRisk.Agentic.Compiler
import LogRisk.Agentic.Tables
import LogRisk.Library.Pool
import Mathlib.Data.Rat.Defs

/-!
# Workflow runs

The rows of one workflow run with the transactions of the repository, and as programs on them
the scheduler, the worker that executes a node, and the calls of the service.  The scheduler
claims nodes that are ready, hands them to workers and settles what comes back.
-/

namespace LogRisk.Agentic.Workflow

open LogRisk.Library

variable {V : Type}

/-! ## Rows -/

inductive NodeStatus where
  | pending | running | completed | failed | cancelled
deriving DecidableEq, Repr

/-- `result_summary` of a completed node. -/
structure Summary (V : Type) where
  childAgentRunId : Option String
  artifacts : List V

structure Node (V : Type) where
  nodeId : String
  dependencies : List String
  maxToolCalls : ℕ
  status : NodeStatus := .pending
  attempt : ℕ := 0
  usedToolCalls : ℕ := 0
  childAgentRunId : Option String := none
  result : Option (Summary V) := none
  errorCode : Option String := none

structure Run where
  status : RunStatus := .queued
  maxConcurrency : ℤ
  maxToolCalls : ℤ
  usedToolCalls : ℕ := 0
  timeoutSeconds : Floating
  maxAttempts : ℤ
  stateVersion : ℕ := 1

inductive EventKind where
  | runCreated
  | run (status : RunStatus)
  | node (status : NodeStatus)
  | retryQueued
  | recovered
deriving DecidableEq, Repr

structure Event where
  kind : EventKind
  nodeId : Option String := none
  key : Option String := none
deriving DecidableEq

structure Db (V : Type) where
  run : Run
  nodes : List (Node V)
  events : List Event

/-- An exception, with the code it carries. -/
abbrev Exn := Option String

/-- The rows that `create_run` inserts for a compiled workflow. -/
def created (workflow : Compiler.CompiledWorkflow) : Db V where
  run :=
    { maxConcurrency := workflow.budget.maxConcurrency
      maxToolCalls := workflow.budget.maxToolCalls
      timeoutSeconds := workflow.budget.timeoutSeconds
      maxAttempts := workflow.maxAttempts }
  nodes := workflow.nodes.map fun node =>
    { nodeId := node.nodeId, dependencies := node.dependsOn, maxToolCalls := node.maxToolCalls }
  events := [{ kind := .runCreated }]

/-! ## Transactions -/

namespace Db

variable (db : Db V)

def find (nodeId : String) : Option (Node V) := db.nodes.find? fun n => n.nodeId = nodeId

def append (e : Event) : Db V := { db with events := db.events ++ [e] }

def hasKey (key : String) : Bool := db.events.any fun e => e.key = some key

/-- `UPDATE … WHERE node_id=? AND status IN (…)`, which has to meet a row. -/
def updateNode (nodeId : String) (expected : List NodeStatus) (f : Node V → Node V) :
    Except Exn (Db V) :=
  if db.nodes.any fun n => n.nodeId = nodeId && decide (n.status ∈ expected) then
    .ok { db with nodes := db.nodes.map fun n =>
      if n.nodeId = nodeId && decide (n.status ∈ expected) then f n else n }
  else .error (some "workflow_node_conflict")

/-- `transition_run`: a key that has been used already changes nothing. -/
def transitionRun (status : RunStatus) (allowedFrom : List RunStatus) (key : Option String) :
    Except Exn (Db V) :=
  if key.any db.hasKey then .ok db
  else if db.run.status ∈ allowedFrom then
    .ok ({ db with run := { db.run with status, stateVersion := db.run.stateVersion + 1 } }.append
      { kind := .run status, key })
  else .error (some "workflow_state_conflict")

def claimNode (nodeId : String) : Except Exn (Db V) := do
  let db ← db.updateNode nodeId [.pending] fun n =>
    { n with status := .running, attempt := n.attempt + 1 }
  return db.append { kind := .node .running, nodeId := some nodeId }

/-- The row is left alone where the node does not run. -/
def attachChildRun (nodeId child : String) : Db V :=
  { db with nodes := db.nodes.map fun n =>
      if n.nodeId = nodeId && decide (n.status = .running) then
        { n with childAgentRunId := some child }
      else n }

def finishNode (nodeId : String) (status : NodeStatus) (used : ℕ) (result : Option (Summary V))
    (errorCode : Option String) : Except Exn (Db V) := do
  let db ← db.updateNode nodeId [.running] fun n =>
    { n with status, usedToolCalls := n.usedToolCalls + used, result, errorCode }
  return ({ db with run := { db.run with
      usedToolCalls := db.run.usedToolCalls + used
      stateVersion := db.run.stateVersion + 1 } } : Db V).append
    { kind := .node status, nodeId := some nodeId }

def requeueNode (nodeId : String) : Except Exn (Db V) := do
  let db ← db.updateNode nodeId [.running] fun n =>
    { n with status := .pending, childAgentRunId := none, result := none, errorCode := none }
  return db.append { kind := .node .pending, nodeId := some nodeId }

/-- A node goes back to the queue; a child that has reserved its planning is kept. -/
def backToQueue (reserved : String → Bool) (n : Node V) : Node V :=
  { n with
    status := .pending
    childAgentRunId := n.childAgentRunId.filter reserved
    errorCode := none }

def resetNode (reserved : String → Bool) (nodeId : String) (key : Option String) :
    Except Exn (Db V) :=
  if key.any db.hasKey then .ok db
  else do
    let db ← db.updateNode nodeId [.running, .failed] (backToQueue reserved)
    return db.append { kind := .retryQueued, nodeId := some nodeId, key }

def recover (reserved : String → Bool) : Db V :=
  ({ db with nodes := db.nodes.map fun n =>
      if n.status = .running then backToQueue reserved n else n } : Db V).append { kind := .recovered }

def recoverRun (reserved : String → Bool) : Except Exn (Db V) :=
  if db.run.status ∈ [.queued, .running] then .ok (db.recover reserved)
  else .error (some "workflow_state_conflict")

def recoverActiveRuns (reserved : String → Bool) : Db V :=
  if db.run.status ∈ [.queued, .running] then db.recover reserved else db

/-! ## What is read off the rows -/

def completedIds : List String := (db.nodes.filter fun n => n.status = .completed).map (·.nodeId)

def readyNodes : List (Node V) :=
  db.nodes.filter fun n => n.status = .pending && n.dependencies.all (· ∈ db.completedIds)

/-- What a child is told of the nodes it depends on. -/
def dependencyArtifacts (dependencies : List String) : List (String × Option (Summary V)) :=
  (db.nodes.filter fun n => n.nodeId ∈ dependencies).map fun n => (n.nodeId, n.result)

end Db

/-! ## Actions -/

/-- What a worker answers. -/
structure Outcome (V : Type) where
  status : RunStatus
  childAgentRunId : Option String := none
  usedToolCalls : ℤ := 0
  artifacts : List V := []
  errorCode : Option String := none
  /-- The child has reserved its planning. -/
  reserved : Bool := false

inductive Act (V : Type) where
  | getRun
  | transitionRun (status : RunStatus) (allowedFrom : List RunStatus) (key : Option String)
  | claimNode (nodeId : String)
  | attachChildRun (nodeId child : String)
  | finishNode (nodeId : String) (status : NodeStatus) (used : ℕ) (result : Option (Summary V))
      (errorCode : Option String)
  | requeueNode (nodeId : String)
  | resetNode (nodeId : String) (key : Option String)
  | recoverRun
  | recoverActiveRuns
  | monotonic
  /-- A node is handed to the thread pool. -/
  | submit (nodeId : String)
  /-- The next of the submitted nodes that is done, and what came of it. -/
  | await (outstanding : List String)
  /-- Computations and services outside of the model that pass or raise. -/
  | check
  | createChild (nodeId : String) (attempt : ℕ) (inputs : List (String × Option (Summary V)))
  | executeChild (child : String)

def Act.Answer : Act V → Type
  | .getRun => Db V
  | .monotonic => ℚ
  | .await _ => String × Except Exn (Outcome V)
  | .createChild .. => String
  | .executeChild _ => Outcome V
  | _ => Unit

abbrev Exec (V α : Type) : Type := Program (Act V) Act.Answer Exn α

def ask (a : Act V) : Exec V a.Answer := .call a

def raise {α : Type} (code : String) : Exec V α := throw (some code)

/-! ## The worker -/

/-- The child that a node has already, or a new one. -/
def childOf (db : Db V) (node : Node V) : Exec V String :=
  match node.childAgentRunId with
  | some child => do
      let _ : Unit ← ask .check
      return child
  | none => ask (.createChild node.nodeId node.attempt (db.dependencyArtifacts node.dependencies))

/-- `execute_node`. -/
def executeNode (nodeId : String) : Exec V (Outcome V) := do
  let db : Db V ← ask .getRun
  match db.find nodeId with
  | none => throw none
  | some node =>
    if db.run.status ∈ [.cancelled, .paused] then
      return { status := db.run.status, childAgentRunId := node.childAgentRunId }
    else do
      let _ : Unit ← ask .check
      let child ← childOf db node
      let _ : Unit ← ask (.attachChildRun nodeId child)
      ask (.executeChild child)

/-! ## The scheduler -/

/-- The first nodes that the remaining calls suffice for, one after the other. -/
def admitted (remaining : ℤ) : ℕ → List (Node V) → List (Node V)
  | _, [] => []
  | reserved, n :: rest =>
      if (reserved + n.maxToolCalls : ℤ) ≤ remaining then
        n :: admitted remaining (reserved + n.maxToolCalls) rest
      else admitted remaining reserved rest

/-- What a future holds, an exception as a failure. -/
def outcomeOf : Except Exn (Outcome V) → Outcome V
  | .ok outcome => outcome
  | .error e => { status := .failed, errorCode := some (e.getD "workflow_node_failed") }

/-- What the scheduler does with the outcome of a node. -/
def settle (maxAttempts : ℤ) (nodeId : String) (outcome : Outcome V) : Exec V Unit := do
  let current : Db V ← ask .getRun
  match current.find nodeId with
  | none => throw none
  | some row =>
    let used := outcome.usedToolCalls
    if used < 0 ∨ row.maxToolCalls < used ∨
        current.run.maxToolCalls < current.run.usedToolCalls + used then
      raise "workflow_budget_exhausted"
    else if current.run.status = .paused ∨ outcome.status = .paused then
      if outcome.reserved then
        ask (.finishNode nodeId .failed used.toNat none (some "agent_plan_indeterminate"))
      else ask (.requeueNode nodeId)
    else if current.run.status = .cancelled ∨ outcome.status = .cancelled then
      ask (.finishNode nodeId .cancelled used.toNat none (some "workflow_cancelled"))
    else if outcome.status ∈ [.awaitingHuman, .completed] then
      ask (.finishNode nodeId .completed used.toNat
        (some ⟨outcome.childAgentRunId, outcome.artifacts⟩) none)
    else do
      let fresh : Db V ← ask .getRun
      let _ : Unit ← ask (.finishNode nodeId .failed used.toNat none
        (some (outcome.errorCode.getD "workflow_node_failed")))
      if outcome.reserved then raise (outcome.errorCode.getD "agent_plan_indeterminate")
      else match fresh.find nodeId with
        | none => throw none
        | some node =>
          if node.attempt < maxAttempts then ask (.resetNode nodeId none) else pure ()

/-- The nodes that are out come back in any order. -/
def collect (maxAttempts : ℤ) : ℕ → List String → Exec V Unit
  | 0, _ => pure ()
  | n + 1, outstanding => do
      let done : String × Except Exn (Outcome V) ← ask (.await outstanding)
      settle maxAttempts done.1 (outcomeOf done.2)
      collect maxAttempts n (outstanding.erase done.1)

def claimAll : List String → Exec V Unit
  | [] => pure ()
  | nodeId :: rest => do
      let _ : Unit ← ask (.claimNode nodeId)
      claimAll rest

def submitAll : List String → Exec V Unit
  | [] => pure ()
  | nodeId :: rest => do
      let _ : Unit ← ask (.submit nodeId)
      submitAll rest

def dispatch (maxAttempts : ℤ) (nodeIds : List String) : Exec V Unit := do
  claimAll nodeIds
  submitAll nodeIds
  collect maxAttempts nodeIds.length nodeIds

/-- The code of the first node of a list, where there is one. -/
def failureOf : List (Node V) → Option String
  | [] => none
  | n :: _ => some (n.errorCode.getD "workflow_node_failed")

/-- One pass of `while True` on the rows it begins with; true where the loop is left. -/
def pass (db : Db V) : Exec V Bool :=
  let pending := db.nodes.filter fun n => n.status = .pending
  let failed := db.nodes.filter fun n => n.status = .failed
  if pending.any fun n => db.run.maxAttempts ≤ n.attempt then raise "workflow_retry_exhausted"
  else match failureOf (failed.filter fun n => db.run.maxAttempts ≤ n.attempt) with
  | some code => raise code
  | none =>
    if pending.isEmpty then
      match failureOf failed with
      | some code => raise code
      | none => do
          let _ : Unit ← ask (.transitionRun .awaitingHuman [.running] none)
          return true
    else do
      let fresh : Db V ← ask .getRun
      let ready := fresh.readyNodes.take db.run.maxConcurrency.toNat
      if ready.isEmpty then raise "workflow_dependency_blocked"
      else
        let nodes := admitted (db.run.maxToolCalls - db.run.usedToolCalls) 0 ready
        if nodes.isEmpty then raise "workflow_budget_exhausted"
        else do
          dispatch db.run.maxAttempts (nodes.map (·.nodeId))
          return false

/-- `elapsed > timeout`. -/
def exceeds (elapsed : ℚ) : Floating → Bool
  | .finite timeout => timeout < elapsed
  | _ => false

/-- `while True`, so many passes at most. -/
def loop (started : ℚ) : ℕ → Exec V Unit
  | 0 => pure ()
  | fuel + 1 => do
      let db : Db V ← ask .getRun
      if db.run.status ∈ [.paused, .cancelled] then return
      else do
        let now : ℚ ← ask .monotonic
        if exceeds (now - started) db.run.timeoutSeconds then raise "workflow_timeout"
        else do
          let left ← pass db
          if left then return else loop started fuel

/-- A queued run is set running. -/
def setRunning (db : Db V) : Exec V Unit :=
  if db.run.status = .queued then ask (.transitionRun .running [.queued] none) else pure ()

def execute (fuel : ℕ) : Exec V Unit := do
  let db : Db V ← ask .getRun
  if db.run.status ∈ [.paused, .cancelled, .awaitingHuman, .completed] then return
  else do
    let started : ℚ ← ask .monotonic
    tryCatch
      (do
        setRunning db
        loop started fuel)
      fun _ => tryCatch (ask (.transitionRun .failed [.queued, .running, .paused] none))
        fun _ => pure ()

/-! ## Calls of the service -/

def pause (key : String) : Exec V Unit := do
  let _ : Db V ← ask .getRun
  let _ : Unit ← ask .check
  ask (.transitionRun .paused [.queued, .running] (some key))

def resume (key : String) : Exec V Unit := ask (.transitionRun .running [.paused] (some key))

def cancel (key : String) : Exec V Unit := do
  let _ : Db V ← ask .getRun
  let _ : Unit ← ask .check
  ask (.transitionRun .cancelled [.queued, .running, .paused, .failed, .awaitingHuman] (some key))

def retryNode (nodeId key : String) : Exec V Unit := do
  let _ : Unit ← ask (.resetNode nodeId (some key))
  let db : Db V ← ask .getRun
  if db.run.status = .failed then ask (.transitionRun .queued [.failed] none) else pure ()

/-! ## The system -/

inductive Caller where
  /-- An execution that makes so many passes at most. -/
  | execute (fuel : ℕ)
  | worker (nodeId : String)
  | pause (key : String)
  | resume (key : String)
  | cancel (key : String)
  | retryNode (nodeId key : String)
  | recoverRun
  | recoverActiveRuns
deriving DecidableEq

def entry : Caller → Exec V Unit
  | .execute fuel => execute fuel
  | .worker nodeId => do
      let _ ← executeNode nodeId
      return
  | .pause key => pause key
  | .resume key => resume key
  | .cancel key => cancel key
  | .retryNode nodeId key => retryNode nodeId key
  | .recoverRun => ask .recoverRun
  | .recoverActiveRuns => ask .recoverActiveRuns

/-- A child run that was created for a node. -/
structure Launch (V : Type) where
  nodeId : String
  attempt : ℕ
  inputs : List (String × Option (Summary V))

structure World (V : Type) where
  db : Db V
  /-- The nodes that have been handed to the pool. -/
  submitted : List String := []
  launches : List (Launch V) := []

def World.commit (w : World V) (t : Except Exn (Db V)) : Except Exn Unit × World V :=
  match t with
  | .ok db => (.ok (), { w with db })
  | .error e => (.error e, w)

/-- What an action answers and leaves.  Which children have reserved their planning, what comes
back from a worker and what a child does is left open. -/
def perform : (a : Act V) → World V → Except Exn a.Answer → World V → Prop
  | .getRun, w, r, w' => r = .ok w.db ∧ w' = w
  | .transitionRun status allowedFrom key, w, r, w' =>
      (r, w') = w.commit (w.db.transitionRun status allowedFrom key)
  | .claimNode nodeId, w, r, w' => (r, w') = w.commit (w.db.claimNode nodeId)
  | .attachChildRun nodeId child, w, r, w' =>
      (r, w') = w.commit (.ok (w.db.attachChildRun nodeId child))
  | .finishNode nodeId status used result errorCode, w, r, w' =>
      (r, w') = w.commit (w.db.finishNode nodeId status used result errorCode)
  | .requeueNode nodeId, w, r, w' => (r, w') = w.commit (w.db.requeueNode nodeId)
  | .resetNode nodeId key, w, r, w' =>
      ∃ reserved, (r, w') = w.commit (w.db.resetNode reserved nodeId key)
  | .recoverRun, w, r, w' => ∃ reserved, (r, w') = w.commit (w.db.recoverRun reserved)
  | .recoverActiveRuns, w, r, w' =>
      ∃ reserved, (r, w') = w.commit (.ok (w.db.recoverActiveRuns reserved))
  | .monotonic, w, r, w' => w' = w ∧ ∃ now, r = .ok now
  | .submit nodeId, w, r, w' => r = .ok () ∧ w' = { w with submitted := nodeId :: w.submitted }
  | .await _, w, _, w' => w' = w
  | .check, w, _, w' => w' = w
  | .createChild nodeId attempt inputs, w, _, w' =>
      w' = { w with launches := w.launches ++ [⟨nodeId, attempt, inputs⟩] }
  | .executeChild _, w, _, w' => w' = w

/-- Everyone may start at any time, a worker on a node that has been handed over; every program
may die at any point. -/
def system : System Caller (Act V) Act.Answer Exn Unit (World V) where
  entry := entry
  does _ := perform
  start k _ w w' := w' = w ∧ ∀ nodeId, k = .worker nodeId → nodeId ∈ w.submitted
  finish _ _ w next w' := next = none ∧ w' = w
  dies _ w w' := w' = w

end LogRisk.Agentic.Workflow
