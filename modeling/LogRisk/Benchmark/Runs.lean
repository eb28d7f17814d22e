import LogRisk.Library.Dict
import LogRisk.Library.Pool
import LogRisk.Library.Text
import Mathlib.Logic.Function.Basic

/-!
# Benchmark runs

A run is executed case by case and may be cancelled meanwhile.  Workers and those who
cancel read the status of the run, decide, and write it; each read and each write is a
transaction of the repository, and between two of them others may act.
-/

namespace LogRisk.Benchmark

open LogRisk.Library

inductive RunStatus where
  | pending | running | completed | failed | cancelled
deriving DecidableEq

def RunStatus.terminal (status : RunStatus) : Bool :=
  status = .completed || status = .failed || status = .cancelled

inductive RunMode where
  | fake | history | real
deriving DecidableEq

structure BenchmarkError where
  message : String
  code : String := "invalid_request"
  statusCode : ℕ := 400

/-- A case of a suite, under the name it has or none. -/
structure Case where
  name : String := ""
  input : String := ""

/-- `str(case.get("name") or f"case-{index}")`. -/
def Case.id (case : Case) (index : ℕ) : String :=
  if case.name = "" then "case-" ++ toString index else case.name

/-- An evaluated case. -/
structure Evaluation where
  passed : Bool
  jsonValid : Bool
  schemaValid : Bool
  templateReferenceOk : Bool
  errorType : Option String

/-- The run's row, apart from what `create_run` fixes. -/
structure RunRow where
  status : RunStatus := .pending
  progressCompleted : ℕ := 0
  metrics : String := "\x7b\x7d"
  error : Option String := none
  version : ℕ := 1

/-- What is fixed for a run: the suite, the snapshot, and the functions that evaluate. -/
structure Bench where
  cases : List Case
  mode : RunMode
  caseLimit : ℕ
  retryCount : ℕ
  budgetUnits : ℕ
  hasRealExtractor : Bool
  evaluate : Case → String → Option String → Except BenchmarkError Evaluation
  normalizeCaseResults : List Evaluation → ℕ → String

namespace Bench

variable (B : Bench)

/-- The cases of this run; a limit of zero counts as none. -/
def selected : List Case := B.cases.take (if B.caseLimit = 0 then B.cases.length else B.caseLimit)

def countsCalls : Bool := B.mode = .real

def retries : ℕ := if B.mode = .real then B.retryCount else 0

/-- The number of calls after one more. -/
def counted (calls : ℕ) : ℕ := if B.countsCalls then calls + 1 else calls

end Bench

/-! ## Transactions -/

structure Update where
  status : RunStatus
  progressCompleted : ℕ
  metrics : Option String := none
  error : Option String := none

def RunRow.update (row : RunRow) (u : Update) : RunRow where
  status := u.status
  progressCompleted := u.progressCompleted
  metrics := u.metrics.getD row.metrics
  error := u.error
  version := row.version + 1

/-- Transactions of the repository, and the call of the extractor. -/
inductive Act where
  | getRun
  | getSuite
  | updateRun (u : Update)
  | addCaseResult (caseId : String) (result : Evaluation)
  | extract (case : Case)

def Act.isExtract : Act → Bool
  | .extract _ => true
  | _ => false

/-- An extractor answers with features or raises; that it raises is part of the result. -/
abbrev Ans : Act → Type
  | .getRun => RunRow
  | .getSuite => List Case
  | .updateRun _ => Unit
  | .addCaseResult .. => Unit
  | .extract _ => Except String String

abbrev Work := Program Act Ans BenchmarkError

def getRun : Work RunRow := Program.call Act.getRun

def getSuite : Work (List Case) := Program.call Act.getSuite

def updateRun (u : Update) : Work Unit := Program.call (Act.updateRun u)

def addCaseResult (caseId : String) (result : Evaluation) : Work Unit :=
  Program.call (Act.addCaseResult caseId result)

def extract (case : Case) : Work (Except String String) := Program.call (Act.extract case)

def caseIdMissing : BenchmarkError := { message := "Case ID 不能为空" }

def progressInvalid : BenchmarkError := { message := "Run 进度无效" }

def transitionInvalid : BenchmarkError :=
  { message := "当前 Run 状态不可取消", code := "invalid_transition", statusCode := 409 }

def executorUnavailable : BenchmarkError :=
  { message := "当前服务未配置真实模型评测执行器", code := "real_executor_unavailable", statusCode := 422 }

/-! ## Programs -/

/-- What the attempts at one case came to. -/
structure Attempt where
  calls : ℕ
  features : String := "[]"
  error : Option String

/-- The attempts at one case: `remaining` more, after so many calls of the model. -/
def attempts (B : Bench) (case : Case) : ℕ → ℕ → Option String → Work Attempt
  | 0, calls, error => pure { calls, error }
  | remaining + 1, calls, _ =>
      if B.countsCalls ∧ B.budgetUnits ≤ calls then
        pure { calls, error := some "benchmark call budget exhausted" }
      else do
        let answer ← extract case
        match answer with
        | .ok features => pure { calls := B.counted calls, features, error := none }
        | .error message => attempts B case remaining (B.counted calls) (some message)

structure Execution where
  cancelled : Bool
  metrics : String

def raised {α : Type} (result : Except BenchmarkError α) : Work α :=
  match result with
  | .ok value => pure value
  | .error e => throw e

/-- The progress after a case, unless the run has been cancelled. -/
def reportProgress (index : ℕ) : Work Unit := do
  let run ← getRun
  if run.status = .cancelled then pure ()
  else updateRun { status := .running, progressCompleted := index }

/-- `save_case`. -/
def saveCase (caseId : String) (index : ℕ) (result : Evaluation) : Work Unit := do
  addCaseResult (Text.strip caseId) result
  reportProgress index

/-- `execute_cases`, from the case with this index on. -/
def executeCases (B : Bench) : List Case → ℕ → ℕ → List Evaluation → Work Execution
  | [], _, calls, results => pure ⟨false, B.normalizeCaseResults results calls⟩
  | case :: rest, index, calls, results => do
      let run ← getRun
      if run.status = .cancelled then pure ⟨true, B.normalizeCaseResults results calls⟩
      else do
        let tried ← attempts B case (B.retries + 1) calls none
        let evaluated ← raised (B.evaluate case tried.features tried.error)
        saveCase (case.id index) index evaluated
        executeCases B rest (index + 1) tried.calls (results ++ [evaluated])

/-- The last step: the run is completed, unless it has been cancelled. -/
def complete (B : Bench) (execution : Execution) : Work Unit :=
  if execution.cancelled then pure ()
  else do
    let run ← getRun
    if run.status = .cancelled then pure ()
    else updateRun {
      status := .completed
      progressCompleted := B.selected.length
      metrics := some execution.metrics }

def executeSuite (B : Bench) : Work Unit := do
  let _ ← getSuite
  if B.mode = .real ∧ B.hasRealExtractor = false then throw executorUnavailable
  else do
    updateRun { status := .running, progressCompleted := 0 }
    let execution ← executeCases B B.selected 1 0 []
    complete B execution

/-- The `except` branch. -/
def recordFailure (e : BenchmarkError) : Work Unit := do
  let current ← getRun
  if current.status = .cancelled then pure ()
  else updateRun {
    status := .failed
    progressCompleted := current.progressCompleted
    error := some e.message }

def executeRun (B : Bench) : Work Unit := do
  let run ← getRun
  if run.status.terminal then pure ()
  else tryCatch (executeSuite B) recordFailure

def cancelRun : Work Unit := do
  let run ← getRun
  if run.status.terminal then throw transitionInvalid
  else updateRun { status := .cancelled, progressCompleted := run.progressCompleted }

/-! ## Runs -/

/-- An execution of the run or a cancellation, by its thread. -/
inductive Caller where
  | worker (thread : ℕ)
  | canceller (thread : ℕ)
deriving DecidableEq

def Caller.isWorker : Caller → Bool
  | .worker _ => true
  | .canceller _ => false

/-- The run's row and results; `seen` is not stored: it keeps which version of the row
every caller has read last. -/
structure State where
  row : RunRow := {}
  results : Dict String Evaluation := ∅
  seen : Caller → ℕ := fun _ => 0

def entry (B : Bench) : Caller → Work Unit
  | .worker _ => executeRun B
  | .canceller _ => cancelRun

/-- A transaction that fails leaves no trace. -/
def Fails {α : Type} (s : State) (r : Except BenchmarkError α) (s' : State) : Prop :=
  (∃ e, r = .error e) ∧ s' = s

def does (B : Bench) (k : Caller) :
    (a : Act) → State → Except BenchmarkError (Ans a) → State → Prop
  | .getRun, s, r, s' =>
      (r = .ok s.row ∧ s' = { s with seen := Function.update s.seen k s.row.version }) ∨ Fails s r s'
  | .getSuite, s, r, s' => (r = .ok B.cases ∧ s' = s) ∨ Fails s r s'
  | .updateRun u, s, r, s' =>
      (u.progressCompleted ≤ B.cases.length ∧ r = .ok () ∧ s' = { s with row := s.row.update u }) ∨
        Fails s r s'
  | .addCaseResult caseId result, s, r, s' =>
      (caseId ≠ "" ∧ r = .ok () ∧ s' = { s with results := s.results.set caseId result }) ∨
        Fails s r s'
  | .extract _, s, r, s' => (∃ answer, r = .ok answer) ∧ s' = s

/-- The status is written as it was read: no one has written the row since. -/
def Undisturbed (k : Caller) : Act → State → Prop
  | .updateRun _, s => s.seen k = s.row.version
  | _, _ => True

/-- Executions and cancellations of one run.  In a quiet system no execution starts beside
another, and the row is written only as it was read. -/
def system (B : Bench) (quiet : Bool) : System Caller Act Ans BenchmarkError Unit State where
  entry := entry B
  does k a s r s' := does B k a s r s' ∧ (quiet = true → Undisturbed k a s)
  start k ks s s' := k ∉ ks ∧ s' = s ∧
    (quiet = true → k.isWorker = true → ∀ j ∈ ks, j.isWorker = false)
  finish _ _ s next s' := next = none ∧ s' = s
  dies _ s s' := s' = s

/-- A run that has been created. -/
def created : Pool Caller Act Ans BenchmarkError Unit State := ⟨{}, []⟩

end LogRisk.Benchmark
