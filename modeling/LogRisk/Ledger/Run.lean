import LogRisk.Ledger.Analysis
import LogRisk.Ledger.Ingestion

/-!
# Calls on the operational ledgers

The operations as inputs of one transition function, and what a call can do to
the tables: nothing, or one of the writes of `LedgerStep`.
-/

namespace LogRisk.Ledger

open LogRisk.Library LogRisk.Library.Transaction

inductive LedgerCall where
  | recordIngestionBatch (now : String) (batch : IngestionBatch)
  | createAnalysisRun (now generatedId : String) (request : AnalysisRequest)
  | registerAnalysisMember (now analysisRunId memberId : String) (createdAt : Option String)
  | bindAnalysisMember (now analysisRunId memberId featureJobId : String)
  | finishAnalysisMember (now analysisRunId memberId : String) (target : Status)
      (finishedAt : Option String)
  | completeAnalysisRun (now analysisRunId : String) (completedAt : Option String)

/-- The tables a call that goes through leaves behind. -/
def LedgerCall.run (env : LedgerEnv) (ledger : LedgerTables) : LedgerCall → Result LedgerTables
  | .recordIngestionBatch now batch => (ledger.recordIngestionBatch env now batch).map Prod.snd
  | .createAnalysisRun now generatedId request =>
      (ledger.createAnalysisRun env now generatedId request).map Prod.snd
  | .registerAnalysisMember now analysisRunId memberId createdAt =>
      (ledger.registerAnalysisMember env now analysisRunId memberId createdAt).map Prod.snd
  | .bindAnalysisMember now analysisRunId memberId featureJobId =>
      (ledger.bindAnalysisMember now analysisRunId memberId featureJobId).map Prod.snd
  | .finishAnalysisMember now analysisRunId memberId target finishedAt =>
      (ledger.finishAnalysisMember env now analysisRunId memberId target finishedAt).map Prod.snd
  | .completeAnalysisRun now analysisRunId completedAt =>
      (ledger.completeAnalysisRun env now analysisRunId completedAt).map Prod.snd

/-- The tables after a call: a failed one writes nothing. -/
def LedgerCall.apply (env : LedgerEnv) (ledger : LedgerTables) (call : LedgerCall) :
    LedgerTables :=
  match call.run env ledger with
  | .ok ledger' => ledger'
  | .error _ => ledger

variable {env : LedgerEnv} {ledger ledger' : LedgerTables}

/-- Settling books ranges and completes a root whose members are all completed;
any other root stays. -/
inductive Settles (env : LedgerEnv) (now rootId : String) (root : Root) (ledger : LedgerTables) :
    LedgerTables → Prop
  | stays (h : root.status.terminalRoot = true ∨ ¬allCompleted root (ledger.membersOf rootId)) :
      Settles env now rootId root ledger ledger
  | settled {rows} (hstatus : root.status.terminalRoot = false)
      (hall : allCompleted root (ledger.membersOf rootId))
      (hrows : coverSources env root (completionTime now (ledger.membersOf rootId))
        ledger.sources ledger.sourceRanges = .ok rows) :
      Settles env now rootId root ledger { ledger with
        sourceRanges := rows
        roots := ledger.roots.set rootId
          (settledRoot (completionTime now (ledger.membersOf rootId)) root) }

theorem LedgerTables.settleAnalysisRun_cases {now rootId : String} {root : Root}
    (h : ledger.settleAnalysisRun env now rootId root = .ok ledger') :
    Settles env now rootId root ledger ledger' := by
  unfold settleAnalysisRun at h
  split at h
  · rename_i hstays
    cases h
    exact .stays hstays
  · rename_i hopen
    obtain ⟨hstatus, hall⟩ := not_or.mp hopen
    obtain ⟨rows, hrows, h⟩ := bind_eq_ok.mp h
    obtain rfl := pure_eq_ok.mp h
    exact .settled (by simpa using hstatus) (not_not.mp hall) hrows

/-- What a call can do to the tables. -/
inductive LedgerStep (env : LedgerEnv) (ledger : LedgerTables) : LedgerTables → Prop
  | unchanged : LedgerStep env ledger ledger
  | recorded {now batch prepared receipt ledger'}
      (hprepared : prepareBatch env now batch = .ok prepared)
      (hnew : NewBatch env prepared ledger ledger' receipt) : LedgerStep env ledger ledger'
  | created {root} (hnone : ledger.roots.get? root.analysisRunId = none)
      (hstatus : root.status = .pending) (hexpected : 1 ≤ root.expectedMembers) :
      LedgerStep env ledger { ledger with roots := ledger.roots.set root.analysisRunId root }
  | registered {rootId memberId root} (created : String)
      (hroot : ledger.roots.get? rootId = some root)
      (hnone : ledger.members.get? memberId = none)
      (hstatus : root.status.terminalRoot = false)
      (hcount : (ledger.membersOf rootId).length < root.expectedMembers) :
      LedgerStep env ledger
        (ledger.setMember memberId ⟨memberId, rootId, none, .pending, created, created⟩)
  | bound {rootId memberId root member} (now jobId : String)
      (hroot : ledger.roots.get? rootId = some root)
      (hmember : ledger.members.get? memberId = some member)
      (howner : member.analysisRunId = rootId) (hunbound : member.featureJobId = none)
      (hstatus : root.status.terminalRoot = false) :
      LedgerStep env ledger
        (ledger.setMember memberId { member with featureJobId := some jobId, updatedAt := now })
  | finished {rootId memberId root member at' target}
      (hroot : ledger.roots.get? rootId = some root)
      (hmember : ledger.members.get? memberId = some member)
      (howner : member.analysisRunId = rootId)
      (hrootOpen : root.status ≠ .completed ∧ root.status ≠ .cancelled)
      (hmemberOpen : member.status ≠ .completed ∧ member.status ≠ .cancelled)
      (htarget : target ≠ .completed) :
      LedgerStep env ledger (ledger.writeFinished at' target root rootId memberId member)
  | completed {rootId memberId root member at' now ledger'}
      (hroot : ledger.roots.get? rootId = some root)
      (hmember : ledger.members.get? memberId = some member)
      (howner : member.analysisRunId = rootId)
      (hrootOpen : root.status ≠ .completed ∧ root.status ≠ .cancelled)
      (hmemberOpen : member.status ≠ .completed ∧ member.status ≠ .cancelled)
      (hsettles : Settles env now rootId (root.afterMember at' .completed)
        (ledger.writeFinished at' .completed root rootId memberId member) ledger') :
      LedgerStep env ledger ledger'
  | settled {rootId root now ledger'} (hroot : ledger.roots.get? rootId = some root)
      (hsettles : Settles env now rootId root ledger ledger') : LedgerStep env ledger ledger'

/-- Covering sources leaves what was ingested alone. -/
theorem coverSources_frame {root : Root} {completedAt : String} {sources : Dict String SourceRow}
    {rows rows' : List SourceRange} (h : coverSources env root completedAt sources rows = .ok rows')
    (sourceId : String) : rangeRows .ingested sourceId rows' = rangeRows .ingested sourceId rows := by
  have hfold : ∀ {ids : List String} {rows : List SourceRange},
      ids.foldlM (coverSource env root completedAt sources) rows = .ok rows' →
        rangeRows .ingested sourceId rows' = rangeRows .ingested sourceId rows := by
    intro ids
    induction ids with
    | nil =>
        intro rows h
        rw [List.foldlM_nil] at h
        rw [← pure_eq_ok.mp h]
    | cons id ids ih =>
        intro rows h
        rw [List.foldlM_cons] at h
        obtain ⟨next, hnext, h⟩ := bind_eq_ok.mp h
        obtain ⟨_, hnext⟩ := require_bind_eq_ok.mp hnext
        obtain ⟨_, _, hbook⟩ := bind_eq_ok.mp hnext
        rw [ih h, booked_frame hbook fun hkind => by cases hkind.1]
  unfold coverSources at h
  split at h
  · exact hfold h
  · cases h
    rfl

/-- Settling changes neither the receipts nor what was ingested. -/
theorem Settles.ingested {now rootId : String} {root : Root}
    (h : Settles env now rootId root ledger ledger') : ledger'.receipts = ledger.receipts ∧
      ∀ sourceId, rangeRows .ingested sourceId ledger'.sourceRanges =
        rangeRows .ingested sourceId ledger.sourceRanges := by
  cases h with
  | stays => exact ⟨rfl, fun _ => rfl⟩
  | settled hstatus hall hrows => exact ⟨rfl, coverSources_frame hrows⟩

theorem map_snd_eq_ok {α σ : Type} {r : Result (α × σ)} {s : σ} :
    r.map Prod.snd = .ok s ↔ ∃ a, r = .ok (a, s) := by
  cases r with
  | error e => simp [Except.map]
  | ok x =>
      obtain ⟨a, s'⟩ := x
      simp [Except.map]

/-! ## Spec lemmas of the operations -/

theorem prepareRoot_eq_ok {now generatedId : String} {request : AnalysisRequest} {root : Root}
    (h : prepareRoot env now generatedId request = .ok root) :
    root.status = .pending ∧ 1 ≤ root.expectedMembers := by
  obtain ⟨_, _, h⟩ := bind_eq_ok.mp h
  obtain ⟨_, _, h⟩ := bind_eq_ok.mp h
  obtain ⟨_, _, h⟩ := bind_eq_ok.mp h
  obtain ⟨_, _, h⟩ := bind_eq_ok.mp h
  obtain ⟨_, _, h⟩ := bind_eq_ok.mp h
  obtain ⟨_, _, h⟩ := bind_eq_ok.mp h
  obtain ⟨members, _, h⟩ := bind_eq_ok.mp h
  obtain ⟨hmembers, h⟩ := require_bind_eq_ok.mp h
  obtain ⟨_, _, h⟩ := bind_eq_ok.mp h
  obtain ⟨_, _, h⟩ := bind_eq_ok.mp h
  obtain ⟨_, _, h⟩ := bind_eq_ok.mp h
  obtain ⟨_, _, h⟩ := bind_eq_ok.mp h
  obtain ⟨_, _, h⟩ := bind_eq_ok.mp h
  obtain ⟨_, _, h⟩ := bind_eq_ok.mp h
  obtain rfl := pure_eq_ok.mp h
  exact ⟨rfl, hmembers⟩

theorem LedgerTables.createAnalysisRun_step {now generatedId : String} {request : AnalysisRequest}
    {detail : AnalysisDetail}
    (h : ledger.createAnalysisRun env now generatedId request = .ok (detail, ledger')) :
    LedgerStep env ledger ledger' := by
  obtain ⟨root, hroot, h⟩ := bind_eq_ok.mp h
  obtain ⟨hstatus, hexpected⟩ := prepareRoot_eq_ok hroot
  split at h
  · obtain ⟨_, _, h⟩ := bind_eq_ok.mp h
    obtain ⟨_, _, h⟩ := bind_eq_ok.mp h
    obtain ⟨-, rfl⟩ := Prod.mk.inj (pure_eq_ok.mp h)
    exact .unchanged
  · obtain ⟨hnone, h⟩ := require_bind_eq_ok.mp h
    obtain ⟨_, _, h⟩ := bind_eq_ok.mp h
    obtain ⟨_, _, h⟩ := bind_eq_ok.mp h
    obtain ⟨_, _, h⟩ := bind_eq_ok.mp h
    obtain ⟨-, rfl⟩ := Prod.mk.inj (pure_eq_ok.mp h)
    exact .created hnone hstatus hexpected

theorem LedgerTables.lookupMember_eq_ok {rootId memberId : String} {member : Member}
    (h : ledger.lookupMember rootId memberId = .ok member) :
    ledger.members.get? memberId = some member ∧ member.analysisRunId = rootId := by
  obtain ⟨found, hfound, h⟩ := orFail_bind_eq_ok.mp h
  obtain ⟨howner, h⟩ := require_bind_eq_ok.mp h
  obtain rfl := pure_eq_ok.mp h
  exact ⟨hfound, howner⟩

theorem LedgerTables.registerAnalysisMember_step {now analysisRunId memberId : String}
    {createdAt : Option String} {member : Member}
    (h : ledger.registerAnalysisMember env now analysisRunId memberId createdAt =
      .ok (member, ledger')) : LedgerStep env ledger ledger' := by
  obtain ⟨rootId, _, h⟩ := bind_eq_ok.mp h
  obtain ⟨memberKey, _, h⟩ := bind_eq_ok.mp h
  obtain ⟨created, _, h⟩ := bind_eq_ok.mp h
  obtain ⟨root, hroot, h⟩ := bind_eq_ok.mp h
  split at h
  · obtain ⟨_, h⟩ := require_bind_eq_ok.mp h
    obtain ⟨-, rfl⟩ := Prod.mk.inj (pure_eq_ok.mp h)
    exact .unchanged
  · rename_i hnone
    obtain ⟨hstatus, h⟩ := require_bind_eq_ok.mp h
    obtain ⟨_, h⟩ := require_bind_eq_ok.mp h
    obtain ⟨hcount, h⟩ := require_bind_eq_ok.mp h
    obtain ⟨-, rfl⟩ := Prod.mk.inj (pure_eq_ok.mp h)
    exact .registered created (orFail_eq_ok.mp hroot) hnone hstatus hcount

theorem LedgerTables.bindAnalysisMember_step {now analysisRunId memberId featureJobId : String}
    {member : Member}
    (h : ledger.bindAnalysisMember now analysisRunId memberId featureJobId =
      .ok (member, ledger')) : LedgerStep env ledger ledger' := by
  obtain ⟨rootId, _, h⟩ := bind_eq_ok.mp h
  obtain ⟨memberKey, _, h⟩ := bind_eq_ok.mp h
  obtain ⟨jobKey, _, h⟩ := bind_eq_ok.mp h
  obtain ⟨root, hroot, h⟩ := bind_eq_ok.mp h
  obtain ⟨found, hfound, h⟩ := bind_eq_ok.mp h
  obtain ⟨hmember, howner⟩ := lookupMember_eq_ok hfound
  split at h
  · obtain ⟨_, h⟩ := require_bind_eq_ok.mp h
    obtain ⟨-, rfl⟩ := Prod.mk.inj (pure_eq_ok.mp h)
    exact .unchanged
  · rename_i hunbound
    obtain ⟨hstatus, h⟩ := require_bind_eq_ok.mp h
    obtain ⟨-, rfl⟩ := Prod.mk.inj (pure_eq_ok.mp h)
    exact .bound now jobKey (orFail_eq_ok.mp hroot) hmember howner hunbound hstatus

/-- A member that may be finished is open, and so is its root. -/
theorem open_of_finishRefused {target : Status} {root : Root} {member : Member}
    (h : finishRefused target root member = none) :
    (root.status ≠ .completed ∧ root.status ≠ .cancelled) ∧
      (member.status ≠ .completed ∧ member.status ≠ .cancelled) := by
  unfold finishRefused at h
  split_ifs at h with hcompleted hcancelled hmember
  · obtain ⟨hroot, hcancelledMember⟩ := not_or.mp hcancelled
    exact ⟨⟨hcompleted, hroot⟩, hmember, hcancelledMember⟩

theorem LedgerTables.finishAnalysisMember_step {now analysisRunId memberId : String}
    {target : Status} {finishedAt : Option String} {member : Member}
    (h : ledger.finishAnalysisMember env now analysisRunId memberId target finishedAt =
      .ok (member, ledger')) : LedgerStep env ledger ledger' := by
  obtain ⟨rootId, _, h⟩ := bind_eq_ok.mp h
  obtain ⟨memberKey, _, h⟩ := bind_eq_ok.mp h
  obtain ⟨at', _, h⟩ := bind_eq_ok.mp h
  obtain ⟨root, hroot, h⟩ := bind_eq_ok.mp h
  obtain ⟨found, hfound, h⟩ := bind_eq_ok.mp h
  obtain ⟨hmember, howner⟩ := lookupMember_eq_ok hfound
  split at h
  · obtain ⟨_, _, h⟩ := bind_eq_ok.mp h
    obtain ⟨-, rfl⟩ := Prod.mk.inj (pure_eq_ok.mp h)
    exact .unchanged
  · rename_i hnone
    obtain ⟨hrootOpen, hmemberOpen⟩ := open_of_finishRefused hnone
    obtain ⟨_, h⟩ := require_bind_eq_ok.mp h
    split at h
    · rename_i htarget
      subst htarget
      obtain ⟨settled, hsettled, h⟩ := bind_eq_ok.mp h
      obtain ⟨-, rfl⟩ := Prod.mk.inj (pure_eq_ok.mp h)
      exact .completed (orFail_eq_ok.mp hroot) hmember howner hrootOpen hmemberOpen
        (settleAnalysisRun_cases hsettled)
    · rename_i htarget
      obtain ⟨-, rfl⟩ := Prod.mk.inj (pure_eq_ok.mp h)
      exact .finished (orFail_eq_ok.mp hroot) hmember howner hrootOpen hmemberOpen htarget

theorem LedgerTables.completeAnalysisRun_step {now analysisRunId : String}
    {completedAt : Option String} {detail : AnalysisDetail}
    (h : ledger.completeAnalysisRun env now analysisRunId completedAt = .ok (detail, ledger')) :
    LedgerStep env ledger ledger' := by
  obtain ⟨rootId, _, h⟩ := bind_eq_ok.mp h
  obtain ⟨_, _, h⟩ := bind_eq_ok.mp h
  obtain ⟨root, hroot, h⟩ := bind_eq_ok.mp h
  obtain ⟨settled, hsettled, h⟩ := bind_eq_ok.mp h
  obtain ⟨_, _, h⟩ := bind_eq_ok.mp h
  obtain ⟨-, rfl⟩ := Prod.mk.inj (pure_eq_ok.mp h)
  exact .settled (orFail_eq_ok.mp hroot) (settleAnalysisRun_cases hsettled)

theorem LedgerTables.recordIngestionBatch_step {now : String} {batch : IngestionBatch}
    {receipt : Receipt}
    (h : ledger.recordIngestionBatch env now batch = .ok (receipt, ledger')) :
    LedgerStep env ledger ledger' := by
  obtain ⟨prepared, hprepared, ⟨rfl, _⟩ | hnew⟩ := recordIngestionBatch_cases h
  · exact .unchanged
  · exact .recorded hprepared hnew

theorem LedgerCall.step (call : LedgerCall) (ledger : LedgerTables) :
    LedgerStep env ledger (call.apply env ledger) := by
  unfold LedgerCall.apply
  split
  · rename_i ledger' h
    cases call <;> obtain ⟨a, h⟩ := map_snd_eq_ok.mp h
    case recordIngestionBatch => exact LedgerTables.recordIngestionBatch_step h
    case createAnalysisRun => exact LedgerTables.createAnalysisRun_step h
    case registerAnalysisMember => exact LedgerTables.registerAnalysisMember_step h
    case bindAnalysisMember => exact LedgerTables.bindAnalysisMember_step h
    case finishAnalysisMember => exact LedgerTables.finishAnalysisMember_step h
    case completeAnalysisRun => exact LedgerTables.completeAnalysisRun_step h
  · exact .unchanged

/-- The tables after a run of calls on empty ones. -/
def ledgerAfter (env : LedgerEnv) (calls : List LedgerCall) : LedgerTables :=
  exec (LedgerCall.apply env) LedgerTables.empty calls

/-- The run rule of the ledgers: what holds of the empty tables and is kept by
every step holds after every run of calls. -/
theorem LedgerCall.run_invariant (I : LedgerTables → Prop) (hinit : I LedgerTables.empty)
    (hstep : ∀ ledger ledger', I ledger → LedgerStep env ledger ledger' → I ledger')
    (calls : List LedgerCall) : I (ledgerAfter env calls) :=
  exec_invariant' (fun ledger call hinv => hstep ledger _ hinv (call.step ledger)) hinit calls

end LogRisk.Ledger
