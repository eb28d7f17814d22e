import LogRisk.Streaming.Commit

/-!
# What each transaction can do

One rule per operation of the store: what must have held for it to succeed and
what it then wrote.  Later proofs use these rules and never unfold an operation.
-/

namespace LogRisk.Streaming

open LogRisk.Library LogRisk.Library.Transaction

variable {ω Λ ρ α : Type}

theorem keepLedger_eq_ok {f : TaskTables ω → Result (α × TaskTables ω)} {t t' : TaskTables ω}
    {ledger ledger' : Λ} {a : α} :
    keepLedger f t ledger = .ok (a, t', ledger') ↔ f t = .ok (a, t') ∧ ledger' = ledger := by
  rw [keepLedger, bind_eq_ok]
  constructor
  · rintro ⟨⟨b, u⟩, hf, hpure⟩
    cases hpure
    exact ⟨hf, rfl⟩
  · rintro ⟨hf, rfl⟩
    exact ⟨_, hf, rfl⟩

theorem Store.onTask_eq_ok {taskId : String}
    {f : TaskTables ω → Λ → Result (α × TaskTables ω × Λ)} {store store' : Store ω Λ} {a : α} :
    store.onTask taskId f = .ok (a, store') ↔
      ∃ t t' ledger, store.tasks.get? taskId = some t ∧ f t store.ledger = .ok (a, t', ledger) ∧
        store' = ⟨store.tasks.set taskId t', ledger⟩ := by
  rw [Store.onTask, orFail_bind_eq_ok]
  constructor
  · rintro ⟨t, ht, hbind⟩
    obtain ⟨⟨b, t', ledger⟩, hf, hpure⟩ := bind_eq_ok.mp hbind
    cases hpure
    exact ⟨t, t', ledger, ht, hf, rfl⟩
  · rintro ⟨t, t', ledger, ht, hf, rfl⟩
    exact ⟨t, ht, bind_eq_ok.mpr ⟨_, hf, rfl⟩⟩

/-- The task a transaction did not name keeps its rows. -/
theorem Store.onTask_frame {taskId other : String}
    {f : TaskTables ω → Λ → Result (α × TaskTables ω × Λ)} {store store' : Store ω Λ} {a : α}
    (h : store.onTask taskId f = .ok (a, store')) (hne : taskId ≠ other) :
    store'.tasks.get? other = store.tasks.get? other := by
  obtain ⟨t, t', ledger, _, _, rfl⟩ := Store.onTask_eq_ok.mp h
  exact Dict.get?_set_of_ne hne

theorem createOrLoad_cases {now generatedId configHash : String} {descriptor : SourceDescriptor}
    {taskId : Option String} {store store' : Store ω Λ} {a : Task}
    (h : createOrLoad now generatedId descriptor configHash taskId store = .ok (a, store')) :
    store' = store ∨ ∃ newId, store.tasks.get? newId = none ∧
      store' = { store with
        tasks := store.tasks.set newId (newTables (newTask newId now descriptor configHash)) } := by
  obtain ⟨_, h⟩ := require_bind_eq_ok.mp h
  dsimp only at h
  split at h
  · cases h
    exact .inl rfl
  · obtain ⟨hfree, hpure⟩ := require_bind_eq_ok.mp h
    cases hpure
    exact .inr ⟨_, hfree, rfl⟩

namespace TaskTables

variable {now leaseToken taskId : String} {t t' : TaskTables ω} {a : Task}

theorem claim_cases {token : String} (h : t.claim now token = .ok (a, t')) :
    t.row.status ≠ .running ∧ t.task.status ≠ .running ∧
      t' = (t.setStatus { t.task with
        status := .running, stage := .reading, error := none, leaseToken := some token
        updatedAt := now }).appendEvent "task_claimed" [] now := by
  obtain ⟨hfree, hpure⟩ := require_bind_eq_ok.mp h
  cases hpure
  exact ⟨hfree.1, hfree.2, rfl⟩

/-- A claim returns the payload it stored. -/
theorem claim_returns {token : String} (h : t.claim now token = .ok (a, t')) : a = t'.task := by
  obtain ⟨_, hpure⟩ := require_bind_eq_ok.mp h
  cases hpure
  rfl

theorem markClaimStage_cases {stage : Stage}
    (h : t.markClaimStage now leaseToken stage = .ok (a, t')) :
    t.task.heldBy leaseToken ∧
      t' = (t.setStatus { t.task with
        status := .running, stage := stage, error := none
        updatedAt := now }).appendEvent "stage_changed" [] now := by
  obtain ⟨hheld, hpure⟩ := require_bind_eq_ok.mp h
  cases hpure
  exact ⟨hheld, rfl⟩

theorem markInterrupted_cases (h : t.markInterrupted now = .ok (a, t')) :
    t' = (t.setStatus { t.task with
      status := .interrupted, stage := .failed, error := some "服务重启导致任务中断"
      updatedAt := now }).appendEvent "task_interrupted"
        [("error", .str "服务重启导致任务中断")] now := by
  cases h
  rfl

theorem finishClaim_cases {error : String} {interrupted conflict : Bool}
    {errorDetails : Option (List (String × Json))}
    (h : t.finishClaim now leaseToken error interrupted conflict errorDetails = .ok (a, t')) :
    (¬t.task.heldBy leaseToken ∧ t' = t) ∨
      (t.task.heldBy leaseToken ∧ ∃ eventType payload,
        t' = (t.setStatus { t.task with
          status := (finishOutcome conflict interrupted).1
          stage := (finishOutcome conflict interrupted).2.1
          error := some error
          errorDetails := errorDetails <|> t.task.errorDetails
          updatedAt := now }).appendEvent eventType payload now) := by
  unfold finishClaim at h
  split at h
  · rename_i hheld
    cases h
    exact .inr ⟨hheld, _, _, rfl⟩
  · rename_i hheld
    cases h
    exact .inl ⟨hheld, rfl⟩

/-- Some result generation of the task is ready, ends at the task's cursor and
counts as many batches as the task has commits. -/
def ReadyResult (t : TaskTables ω) : Prop :=
  ∃ name generation integrity, t.generations.get? name = some generation ∧
    generation.status = .ready ∧ generation.frontier = t.task.cursor ∧
    generation.integrity = some integrity ∧ integrity.commitCount = t.commits.length

theorem completeClaim_cases {r : Option ResultReference} {e : Option PrefixEvidence}
    (h : t.completeClaim now taskId leaseToken r e = .ok (a, t')) :
    t.task.heldBy leaseToken ∧ t.ReadyResult ∧
      t' = (t.setStatus { t.task with
        status := .completed, stage := .completed, error := none
        updatedAt := now }).appendEvent "task_completed" [] now := by
  obtain ⟨hheld, h⟩ := require_bind_eq_ok.mp h
  obtain ⟨reference, _, h⟩ := orFail_bind_eq_ok.mp h
  obtain ⟨evidence, _, h⟩ := orFail_bind_eq_ok.mp h
  obtain ⟨_, h⟩ := require_bind_eq_ok.mp h
  obtain ⟨generation, hgeneration, h⟩ := orFail_bind_eq_ok.mp h
  obtain ⟨hready, h⟩ := require_bind_eq_ok.mp h
  obtain ⟨⟨hcursor, _⟩, h⟩ := require_bind_eq_ok.mp h
  obtain ⟨hintegrity, h⟩ := require_bind_eq_ok.mp h
  obtain ⟨hcount, h⟩ := require_bind_eq_ok.mp h
  cases h
  exact ⟨hheld, ⟨_, generation, _, hgeneration, hready, hcursor, hintegrity, hcount.symm⟩, rfl⟩

theorem clearPendingExternalCommit_cases {cursor : SourceCursor} {expected : Option String}
    (h : t.clearPendingExternalCommit now cursor expected = .ok (a, t')) :
    t.task.heldBy? expected ∧ (t' = t ∨
      t' = (t.setTask { t.task with
        pendingExternalCommit := none
        updatedAt := now }).appendEvent "external_commit_completed" [] now) := by
  obtain ⟨hheld, h⟩ := require_bind_eq_ok.mp h
  split at h
  · cases h
    exact ⟨hheld, .inr rfl⟩
  · cases h
    exact ⟨hheld, .inl rfl⟩

theorem saveResult_cases {result : TaskResult} {expected : Option String}
    {reference : Option ResultReference}
    (h : t.saveResult now result expected reference = .ok (a, t')) :
    t.task.heldBy? expected ∧
      t' = (t.setTask { t.task with
        result := some result
        resultReference := reference <|> t.task.resultReference
        updatedAt := now }).appendEvent "result_saved" [] now := by
  obtain ⟨hheld, hpure⟩ := require_bind_eq_ok.mp h
  cases hpure
  exact ⟨hheld, rfl⟩

variable {request : CommitRequest ω ρ} {prepared : PreparedCommit ω}

theorem commitNew_cases (h : t.commitNew now request prepared = .ok t') :
    (∀ expected ∈ request.expectedCursor, expected = t.task.cursor) ∧
      cursorIsAtLeast request.cursor t.task.cursor = true ∧
      ∃ recordCount, intOrZero (Json.field "record_count" request.summary) = .ok recordCount ∧
        t' = t.insertCommit now request prepared recordCount := by
  obtain ⟨hexpected, h⟩ := require_bind_eq_ok.mp h
  obtain ⟨hcursor, h⟩ := require_bind_eq_ok.mp h
  obtain ⟨recordCount, hcount, hpure⟩ := bind_eq_ok.mp h
  cases hpure
  exact ⟨hexpected, hcursor, recordCount, hcount, rfl⟩

theorem commitWindow_cases {env : Env ω Λ ρ} {ledger ledger' : Λ} {fresh : Bool}
    (h : t.commitWindow env now request prepared ledger = .ok (fresh, t', ledger')) :
    t.task.heldBy? request.fencingToken ∧
      bookReceipt env request.ledgerBatch ledger = .ok ledger' ∧
      ((fresh = false ∧ t' = t ∧ ∃ existing, t.hasCommit request.windowId = some existing ∧
          (existing.payloadHash = "" ∨ existing.payloadHash = prepared.payloadHash)) ∨
        (fresh = true ∧ t.hasCommit request.windowId = none ∧
          t.commitNew now request prepared = .ok t')) := by
  obtain ⟨hheld, h⟩ := require_bind_eq_ok.mp h
  obtain ⟨booked, hbooked, h⟩ := bind_eq_ok.mp h
  refine ⟨hheld, ?_⟩
  split at h
  · rename_i existing hexisting
    obtain ⟨hsame, hpure⟩ := require_bind_eq_ok.mp h
    cases hpure
    exact ⟨hbooked, .inl ⟨rfl, rfl, existing, hexisting, hsame⟩⟩
  · rename_i hnew
    obtain ⟨u, hcommit, hpure⟩ := bind_eq_ok.mp h
    cases hpure
    exact ⟨hbooked, .inr ⟨rfl, hnew, hcommit⟩⟩

/-- The last commit recorded for a window id is looked up by that id. -/
theorem hasCommit_eq_none {windowId : String} :
    t.hasCommit windowId = none ↔ windowId ∉ t.commits.map CommitRow.windowId := by
  rw [hasCommit, List.find?_eq_none]
  simp only [beq_iff_eq, List.mem_map, not_exists, not_and]

end TaskTables

theorem prepareCommit_cases {env : Env ω Λ ρ} {request : CommitRequest ω ρ}
    {prepared : PreparedCommit ω} (h : prepareCommit env request = .ok prepared) :
    request.windowId ≠ "" ∧ validateNewSummary request.summary = .ok () ∧
      (request.windows.getD request.templates).mapM env.safeWindow = .ok prepared.windows ∧
      prepared.payloadHash = payloadHash env request.cursor prepared.windows request.summary := by
  obtain ⟨hid, h⟩ := require_bind_eq_ok.mp h
  obtain ⟨templates, _, h⟩ := bind_eq_ok.mp h
  obtain ⟨windows, hwindows, h⟩ := bind_eq_ok.mp h
  obtain ⟨_, hsummary, hpure⟩ := bind_eq_ok.mp h
  cases hpure
  exact ⟨hid, hsummary, hwindows, rfl⟩

end LogRisk.Streaming
