import LogRisk.Streaming.Rules

/-!
# Runs of the store

A call names the operation and everything it is given, the clock text and the
identifiers it draws included.  A call that raises leaves the store as it was.
-/

namespace LogRisk.Streaming

open LogRisk.Library LogRisk.Library.Transaction

variable {ω Λ ρ α : Type}

inductive Call (ω ρ : Type) where
  | createOrLoad (now generatedId : String) (descriptor : SourceDescriptor)
      (configHash : String) (taskId : Option String)
  | claimTask (now token taskId : String)
  | markClaimStage (now taskId leaseToken : String) (stage : Stage)
  | commitWindow (now taskId : String) (request : CommitRequest ω ρ)
  | saveResult (now taskId : String) (result : TaskResult) (expectedLeaseToken : Option String)
      (resultReference : Option ResultReference)
  | clearPendingExternalCommit (now taskId : String) (cursor : SourceCursor)
      (expectedLeaseToken : Option String)
  | finishClaim (now taskId leaseToken error : String) (interrupted conflict : Bool)
      (errorDetails : Option (List (String × Json)))
  | completeClaim (now taskId leaseToken : String) (resultReference : Option ResultReference)
      (prefixEvidence : Option PrefixEvidence)
  | markInterrupted (now taskId : String)

/-- Forget the value a call returns. -/
def forget {σ : Type} (r : Result (α × σ)) : Result (Unit × σ) := r.map fun x => ((), x.2)

theorem forget_eq_ok {σ : Type} {r : Result (α × σ)} {u : Unit} {s : σ} :
    forget r = .ok (u, s) ↔ ∃ a, r = .ok (a, s) := by
  cases r with
  | error e => simp [forget, Except.map]
  | ok x =>
      obtain ⟨a, s'⟩ := x
      simp [forget, Except.map]

def Call.run (env : Env ω Λ ρ) (store : Store ω Λ) : Call ω ρ → Result (Unit × Store ω Λ)
  | .createOrLoad now generatedId descriptor configHash taskId =>
      forget (Streaming.createOrLoad now generatedId descriptor configHash taskId store)
  | .claimTask now token taskId => forget (store.claimTask now token taskId)
  | .markClaimStage now taskId leaseToken stage =>
      forget (store.markClaimStage now taskId leaseToken stage)
  | .commitWindow now taskId request => forget (store.commitWindow env now taskId request)
  | .saveResult now taskId result expectedLeaseToken resultReference =>
      forget (store.saveResult now taskId result expectedLeaseToken resultReference)
  | .clearPendingExternalCommit now taskId cursor expectedLeaseToken =>
      forget (store.clearPendingExternalCommit now taskId cursor expectedLeaseToken)
  | .finishClaim now taskId leaseToken error interrupted conflict errorDetails =>
      forget (store.finishClaim now taskId leaseToken error interrupted conflict errorDetails)
  | .completeClaim now taskId leaseToken resultReference prefixEvidence =>
      forget (store.completeClaim now taskId leaseToken resultReference prefixEvidence)
  | .markInterrupted now taskId => forget (store.markInterrupted now taskId)

/-- The store after a call. -/
def Call.apply (env : Env ω Λ ρ) (store : Store ω Λ) (call : Call ω ρ) : Store ω Λ :=
  settled store (call.run env store)

/-- A store without a ledger, for windows that carry nothing. -/
def bareEnv : Env Unit Unit Unit where
  sha256 text := "sha256:" ++ text
  sha256_ne_empty text h := by simpa using congrArg String.toList h
  safeWindow := .ok
  safeTemplate := fun _ => .error (.state "未知模板缺少 template_hash")
  windowJson := fun _ => .null
  recordIngestionBatch := none

/-! ## One task in a run -/

/-- What a call can do to the rows of one task: nothing, create them, or one
transaction of its own. -/
inductive TaskStep (env : Env ω Λ ρ) (call : Call ω ρ) (taskId : String) :
    Option (TaskTables ω) → Option (TaskTables ω) → Prop
  | unchanged (t) : TaskStep env call taskId t t
  | created {now generatedId descriptor configHash requested}
      (hcall : call = .createOrLoad now generatedId descriptor configHash requested) :
      TaskStep env call taskId none
        (some (newTables (newTask taskId now descriptor configHash)))
  | claim {now token t t' a} (hcall : call = .claimTask now token taskId)
      (h : t.claim now token = .ok (a, t')) : TaskStep env call taskId (some t) (some t')
  | markClaimStage {now leaseToken stage t t' a}
      (hcall : call = .markClaimStage now taskId leaseToken stage)
      (h : t.markClaimStage now leaseToken stage = .ok (a, t')) :
      TaskStep env call taskId (some t) (some t')
  | commit {now request prepared t t' ledger ledger'}
      (hcall : call = .commitWindow now taskId request)
      (hprepared : prepareCommit env request = .ok prepared)
      (h : t.commitWindow env now request prepared ledger = .ok (true, t', ledger')) :
      TaskStep env call taskId (some t) (some t')
  | saveResult {now result expected reference t t' a}
      (hcall : call = .saveResult now taskId result expected reference)
      (h : t.saveResult now result expected reference = .ok (a, t')) :
      TaskStep env call taskId (some t) (some t')
  | clearPending {now cursor expected t t' a}
      (hcall : call = .clearPendingExternalCommit now taskId cursor expected)
      (h : t.clearPendingExternalCommit now cursor expected = .ok (a, t')) :
      TaskStep env call taskId (some t) (some t')
  | finishClaim {now leaseToken error interrupted conflict errorDetails t t' a}
      (hcall : call = .finishClaim now taskId leaseToken error interrupted conflict errorDetails)
      (h : t.finishClaim now leaseToken error interrupted conflict errorDetails = .ok (a, t')) :
      TaskStep env call taskId (some t) (some t')
  | completeClaim {now leaseToken reference evidence t t' a}
      (hcall : call = .completeClaim now taskId leaseToken reference evidence)
      (h : t.completeClaim now taskId leaseToken reference evidence = .ok (a, t')) :
      TaskStep env call taskId (some t) (some t')
  | markInterrupted {now t t' a} (hcall : call = .markInterrupted now taskId)
      (h : t.markInterrupted now = .ok (a, t')) : TaskStep env call taskId (some t) (some t')

/-- A transaction on one task is a step of that task; every other task keeps its
rows. -/
theorem TaskStep.of_onTask {env : Env ω Λ ρ} {call : Call ω ρ} {taskId other : String}
    {f : TaskTables ω → Result (α × TaskTables ω)} {store store' : Store ω Λ} {a : α}
    (h : store.onTask taskId (keepLedger f) = .ok (a, store'))
    (hstep : ∀ t t' a, f t = .ok (a, t') → TaskStep env call taskId (some t) (some t')) :
    TaskStep env call other (store.tasks.get? other) (store'.tasks.get? other) := by
  by_cases hid : taskId = other
  · subst hid
    obtain ⟨t, t', ledger, ht, hf, rfl⟩ := Store.onTask_eq_ok.mp h
    rw [ht, Dict.get?_set_self]
    exact hstep t t' a (keepLedger_eq_ok.mp hf).1
  · rw [Store.onTask_frame h hid]
    exact .unchanged _

theorem TaskStep.of_commitWindow {env : Env ω Λ ρ} {now taskId other : String}
    {request : CommitRequest ω ρ} {store store' : Store ω Λ} {fresh : Bool}
    (h : store.commitWindow env now taskId request = .ok (fresh, store')) :
    TaskStep env (.commitWindow now taskId request) other (store.tasks.get? other)
      (store'.tasks.get? other) := by
  obtain ⟨prepared, hprepared, h⟩ := bind_eq_ok.mp h
  by_cases hid : taskId = other
  · subst hid
    obtain ⟨t, t', ledger, ht, hf, rfl⟩ := Store.onTask_eq_ok.mp h
    rw [ht, Dict.get?_set_self]
    rcases (TaskTables.commitWindow_cases hf).2.2 with ⟨_, rfl, _⟩ | ⟨rfl, _, _⟩
    · exact .unchanged _
    · exact .commit rfl hprepared hf
  · rw [Store.onTask_frame h hid]
    exact .unchanged _

theorem TaskStep.of_createOrLoad {env : Env ω Λ ρ} {now generatedId : String}
    {descriptor : SourceDescriptor} {configHash other : String} {taskId : Option String}
    {store store' : Store ω Λ} {a : Task}
    (h : Streaming.createOrLoad now generatedId descriptor configHash taskId store =
      .ok (a, store')) :
    TaskStep env (.createOrLoad now generatedId descriptor configHash taskId) other
      (store.tasks.get? other) (store'.tasks.get? other) := by
  rcases createOrLoad_cases h with rfl | ⟨newId, hfree, rfl⟩
  · exact .unchanged _
  · by_cases hid : newId = other
    · subst hid
      rw [hfree, Dict.get?_set_self]
      exact .created rfl
    · rw [Dict.get?_set_of_ne hid]
      exact .unchanged _

/-- The step rule: a call takes every task of the store one step of its own. -/
theorem Call.taskStep (env : Env ω Λ ρ) (store : Store ω Λ) (call : Call ω ρ) (taskId : String) :
    TaskStep env call taskId (store.tasks.get? taskId)
      ((call.apply env store).tasks.get? taskId) := by
  rw [Call.apply]
  generalize h : call.run env store = result
  rcases result with e | ⟨u, store'⟩
  · exact .unchanged _
  rw [settled_ok]
  cases call with
  | createOrLoad => exact .of_createOrLoad (forget_eq_ok.mp h).choose_spec
  | claimTask =>
      exact .of_onTask (forget_eq_ok.mp h).choose_spec fun t t' a h => .claim rfl h
  | markClaimStage =>
      obtain ⟨a, h⟩ := forget_eq_ok.mp h
      exact .of_onTask (require_bind_eq_ok.mp h).2 fun t t' a h => .markClaimStage rfl h
  | commitWindow => exact .of_commitWindow (forget_eq_ok.mp h).choose_spec
  | saveResult =>
      obtain ⟨a, h⟩ := forget_eq_ok.mp h
      obtain ⟨_, _, h⟩ := bind_eq_ok.mp h
      exact .of_onTask h fun t t' a h => .saveResult rfl h
  | clearPendingExternalCommit =>
      exact .of_onTask (forget_eq_ok.mp h).choose_spec fun t t' a h => .clearPending rfl h
  | finishClaim =>
      exact .of_onTask (forget_eq_ok.mp h).choose_spec fun t t' a h => .finishClaim rfl h
  | completeClaim =>
      exact .of_onTask (forget_eq_ok.mp h).choose_spec fun t t' a h => .completeClaim rfl h
  | markInterrupted =>
      exact .of_onTask (forget_eq_ok.mp h).choose_spec fun t t' a h => .markInterrupted rfl h

theorem TaskTables.finishOutcome_ne_completed (conflict interrupted : Bool) :
    (finishOutcome conflict interrupted).1 ≠ .completed := by
  cases conflict <;> cases interrupted <;> decide

/-- Only `complete_claim` completes a task. -/
theorem TaskStep.completed {env : Env ω Λ ρ} {call : Call ω ρ} {taskId : String}
    {t t' : TaskTables ω} (h : TaskStep env call taskId (some t) (some t'))
    (hcompleted : t'.task.status = .completed) :
    t.task.status = .completed ∨
      ∃ now leaseToken reference evidence,
        call = .completeClaim now taskId leaseToken reference evidence := by
  cases h with
  | unchanged => exact .inl hcompleted
  | claim _ h =>
      obtain ⟨_, _, rfl⟩ := TaskTables.claim_cases h
      cases hcompleted
  | markClaimStage _ h =>
      obtain ⟨_, rfl⟩ := TaskTables.markClaimStage_cases h
      cases hcompleted
  | commit _ _ h =>
      obtain ⟨_, _, ⟨hfalse, _⟩ | ⟨_, _, hwritten⟩⟩ := TaskTables.commitWindow_cases h
      · cases hfalse
      · obtain ⟨_, _, _, _, rfl⟩ := TaskTables.commitNew_cases hwritten
        cases hcompleted
  | saveResult _ h =>
      obtain ⟨_, rfl⟩ := TaskTables.saveResult_cases h
      exact .inl hcompleted
  | clearPending _ h =>
      obtain ⟨_, rfl | rfl⟩ := TaskTables.clearPendingExternalCommit_cases h
      · exact .inl hcompleted
      · exact .inl hcompleted
  | finishClaim _ h =>
      obtain ⟨_, rfl⟩ | ⟨_, _, _, rfl⟩ := TaskTables.finishClaim_cases h
      · exact .inl hcompleted
      · exact absurd hcompleted (TaskTables.finishOutcome_ne_completed _ _)
  | completeClaim hcall _ => exact .inr ⟨_, _, _, _, hcall⟩
  | markInterrupted _ h =>
      obtain rfl := TaskTables.markInterrupted_cases h
      cases hcompleted

/-! ## What a step does to the committed prefix -/

/-- Everything a commit writes is as it was; a pending external commit may have
been cleared. -/
structure TaskTables.SameProgress (t t' : TaskTables ω) : Prop where
  commits : t'.commits = t.commits
  batchWindows : t'.batchWindows = t.batchWindows
  rowCursor : t'.row.cursor = t.row.cursor
  cursor : t'.task.cursor = t.task.cursor
  windowsCommitted : t'.task.windowsCommitted = t.task.windowsCommitted
  recordsProcessed : t'.task.recordsProcessed = t.task.recordsProcessed
  minerGeneration : t'.task.minerGeneration = t.task.minerGeneration
  pending : t'.task.pendingExternalCommit = t.task.pendingExternalCommit ∨
    t'.task.pendingExternalCommit = none
  generations : t'.generations = t.generations

theorem TaskTables.SameProgress.refl (t : TaskTables ω) : t.SameProgress t :=
  ⟨rfl, rfl, rfl, rfl, rfl, rfl, rfl, .inl rfl, rfl⟩

/-- A window that a call records anew on a task. -/
structure NewCommit (env : Env ω Λ ρ) (call : Call ω ρ) (taskId now : String)
    (request : CommitRequest ω ρ) (prepared : PreparedCommit ω) (t t' : TaskTables ω) : Prop where
  hcall : call = .commitWindow now taskId request
  hprepared : prepareCommit env request = .ok prepared
  held : t.task.heldBy? request.fencingToken
  absent : t.hasCommit request.windowId = none
  written : t.commitNew now request prepared = .ok t'

theorem TaskStep.progress {env : Env ω Λ ρ} {call : Call ω ρ} {taskId : String}
    {t : TaskTables ω} {o : Option (TaskTables ω)} (h : TaskStep env call taskId (some t) o) :
    ∃ t', o = some t' ∧
      (t.SameProgress t' ∨
        ∃ now request prepared, NewCommit env call taskId now request prepared t t') := by
  cases h with
  | unchanged => exact ⟨t, rfl, .inl (.refl t)⟩
  | claim _ h =>
      obtain ⟨_, _, rfl⟩ := TaskTables.claim_cases h
      exact ⟨_, rfl, .inl ⟨rfl, rfl, rfl, rfl, rfl, rfl, rfl, .inl rfl, rfl⟩⟩
  | markClaimStage _ h =>
      obtain ⟨_, rfl⟩ := TaskTables.markClaimStage_cases h
      exact ⟨_, rfl, .inl ⟨rfl, rfl, rfl, rfl, rfl, rfl, rfl, .inl rfl, rfl⟩⟩
  | commit hcall hprepared h =>
      obtain ⟨hheld, _, ⟨hfalse, _⟩ | ⟨_, habsent, hwritten⟩⟩ := TaskTables.commitWindow_cases h
      · cases hfalse
      · exact ⟨_, rfl, .inr ⟨_, _, _, hcall, hprepared, hheld, habsent, hwritten⟩⟩
  | saveResult _ h =>
      obtain ⟨_, rfl⟩ := TaskTables.saveResult_cases h
      exact ⟨_, rfl, .inl ⟨rfl, rfl, rfl, rfl, rfl, rfl, rfl, .inl rfl, rfl⟩⟩
  | clearPending _ h =>
      obtain ⟨_, rfl | rfl⟩ := TaskTables.clearPendingExternalCommit_cases h
      · exact ⟨_, rfl, .inl (.refl _)⟩
      · exact ⟨_, rfl, .inl ⟨rfl, rfl, rfl, rfl, rfl, rfl, rfl, .inr rfl, rfl⟩⟩
  | finishClaim _ h =>
      obtain ⟨_, rfl⟩ | ⟨_, _, _, rfl⟩ := TaskTables.finishClaim_cases h
      · exact ⟨_, rfl, .inl (.refl _)⟩
      · exact ⟨_, rfl, .inl ⟨rfl, rfl, rfl, rfl, rfl, rfl, rfl, .inl rfl, rfl⟩⟩
  | completeClaim _ h =>
      obtain ⟨_, _, rfl⟩ := TaskTables.completeClaim_cases h
      exact ⟨_, rfl, .inl ⟨rfl, rfl, rfl, rfl, rfl, rfl, rfl, .inl rfl, rfl⟩⟩
  | markInterrupted _ h =>
      obtain rfl := TaskTables.markInterrupted_cases h
      exact ⟨_, rfl, .inl ⟨rfl, rfl, rfl, rfl, rfl, rfl, rfl, .inl rfl, rfl⟩⟩

end LogRisk.Streaming
