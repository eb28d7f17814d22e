import LogRisk.Library.Dict
import LogRisk.Library.Text
import LogRisk.Library.Transaction

/-!
# Reports in the database

The table of reports and the transactions on it.  A report is queued, is taken by an
executor and ends completed, failed or cancelled; every update names the statuses it
applies to.
-/

namespace LogRisk.Reports

open LogRisk.Library LogRisk.Library.Transaction

inductive Status where
  | queued
  | running
  | completed
  | failed
  | cancelled
deriving DecidableEq

/-- `status IN ('queued','running')`. -/
def Status.live : Status → Bool
  | .queued | .running => true
  | _ => false

/-- A row without the texts that the executor only reads. -/
structure Report where
  scope : String
  key : String
  requestDigest : String
  status : Status := .queued
  claim : Option String := none
  cancelRequested : Bool := false
  deadline : ℤ
  modelCalls : ℕ := 0
  errorCode : Option String := none
  artifactPath : Option String := none
  artifactDigest : Option String := none
  artifactBytes : Option ℕ := none
  version : ℕ := 0
deriving DecidableEq

/-- Reports under their ids. -/
abbrev Table := Dict String Report

inductive ReportError where
  | idempotencyConflict
  /-- The primary key is taken. -/
  | integrity
  | invalidIdentifier
  | notFound
  | notCompleted
  | artifactPath
  | artifactIntegrity
deriving DecidableEq

/-- `UPDATE … SET … WHERE report_id=? AND …`. -/
def updateWhere (id : String) (cond : Report → Bool) (set : Report → Report) (rows : Table) : Table :=
  rows.mapEntries fun k row => if k = id ∧ cond row then set row else row

/-- Whether the update finds its row: `rowcount = 1`. -/
def matched (id : String) (cond : Report → Bool) (rows : Table) : Bool := (rows.get? id).any cond

/-! ## Creation -/

/-- `0` to `9` and `a` to `f`. -/
def isHexDigit (c : Char) : Bool :=
  let n := c.toNat
  (48 ≤ n && n ≤ 57) || (97 ≤ n && n ≤ 102)

/-- What `create` inserts; the id is `uuid4().hex`. -/
structure NewReport where
  reportId : String
  scope : String
  key : String
  requestDigest : String
  /-- The clock when the deadline was computed. -/
  now : ℤ
  length : reportId.length = 32
  hex : ∀ c ∈ reportId.toList, isHexDigit c = true

/-- 120 seconds in microseconds. -/
def executionWindow : ℤ := 120 * 1000000

def NewReport.row (new : NewReport) : Report :=
  { scope := new.scope, key := new.key, requestDigest := new.requestDigest
    deadline := new.now + executionWindow }

/-- The transaction of `create`: the id of the report that has the key. -/
def create (new : NewReport) (rows : Table) : Except ReportError (String × Table) :=
  match rows.entries.find? fun e => e.2.scope = new.scope ∧ e.2.key = new.key with
  | some saved =>
      if saved.2.requestDigest = new.requestDigest then .ok (saved.1, rows)
      else .error .idempotencyConflict
  | none =>
      match rows.get? new.reportId with
      | some _ => .error .integrity
      | none => .ok (new.reportId, rows.set new.reportId new.row)

/-! ## Updates -/

def Report.claimable (row : Report) : Bool := row.status = .queued && !row.cancelRequested

/-- An executor takes the report. -/
def Report.take (claim : String) (row : Report) : Report :=
  { row with status := .running, claim := some claim, version := row.version + 1 }

def Report.isLive (row : Report) : Bool := row.status.live

def Report.cancel (row : Report) : Report :=
  { row with
    cancelRequested := true
    status := if row.status = .queued then .cancelled else row.status
    version := row.version + 1 }

def Report.fail (code : String) (row : Report) : Report :=
  { row with
    status := if row.cancelRequested then .cancelled else .failed
    errorCode := if row.cancelRequested then none else some code
    version := row.version + 1 }

def Report.reservable (claim : String) (row : Report) : Bool :=
  row.claim = some claim && row.status = .running && row.modelCalls = 0 && !row.cancelRequested

def Report.reserve (row : Report) : Report := { row with modelCalls := 1 }

def Report.completable (claim : String) (now : ℤ) (row : Report) : Bool :=
  row.claim = some claim && row.status = .running && !row.cancelRequested && now < row.deadline

def Report.complete (path digest : String) (bytes : ℕ) (row : Report) : Report :=
  { row with
    status := .completed
    artifactPath := some path
    artifactDigest := some digest
    artifactBytes := some bytes
    version := row.version + 1 }

def Report.expired (now : ℤ) (row : Report) : Bool := row.isLive && row.deadline ≤ now

def Report.expire (row : Report) : Report :=
  { row with
    errorCode :=
      if row.cancelRequested then none
      else if row.status = .running then some "report_interrupted"
      else some "report_deadline_exceeded"
    status := if row.cancelRequested then .cancelled else .failed
    version := row.version + 1 }

def cancelReport (id : String) : Table → Table := updateWhere id Report.isLive Report.cancel

def failReport (id code : String) : Table → Table := updateWhere id Report.isLive (Report.fail code)

/-- `recover_interrupted`. -/
def recoverInterrupted (now : ℤ) (rows : Table) : Table :=
  rows.mapEntries fun _ row => if row.expired now then row.expire else row

/-! ## What an update can do to a row -/

/-- How a transaction may change a row. -/
inductive Change (now : ℤ) : Report → Report → Prop
  | keep (row : Report) : Change now row row
  | take (row : Report) (claim : String) (h : row.claimable) : Change now row (row.take claim)
  | cancel (row : Report) (h : row.isLive) : Change now row row.cancel
  | fail (row : Report) (code : String) (h : row.isLive) : Change now row (row.fail code)
  | reserve (row : Report) (claim : String) (h : row.reservable claim) : Change now row row.reserve
  | complete (row : Report) (claim path digest : String) (bytes : ℕ)
      (h : row.completable claim now) : Change now row (row.complete path digest bytes)
  | expire (row : Report) (h : row.expired now) : Change now row row.expire

/-- The report has ended. -/
def Status.Terminal (status : Status) : Prop :=
  status = .completed ∨ status = .failed ∨ status = .cancelled

theorem not_live_of_terminal {status : Status} (h : status.Terminal) : status.live = false := by
  rcases h with rfl | rfl | rfl <;> rfl

theorem Change.eq_of_terminal {now : ℤ} {row row' : Report} (h : Change now row row')
    (hterminal : row.status.Terminal) : row' = row := by
  have hlive := not_live_of_terminal hterminal
  have hqueued : row.status ≠ .queued := by
    intro hq
    rw [hq] at hlive
    cases hlive
  have hrunning : row.status ≠ .running := by
    intro hr
    rw [hr] at hlive
    cases hlive
  cases h with
  | keep => rfl
  | take claim h => simp [Report.claimable, hqueued] at h
  | cancel h => simp [Report.isLive, hlive] at h
  | fail code h => simp [Report.isLive, hlive] at h
  | reserve claim h => simp [Report.reservable, hrunning] at h
  | complete claim path digest bytes h => simp [Report.completable, hrunning] at h
  | expire h => simp [Report.expired, Report.isLive, hlive] at h

theorem Change.cancelRequested {now : ℤ} {row row' : Report} (h : Change now row row')
    (hcancel : row.cancelRequested = true) : row'.cancelRequested = true := by
  cases h with
  | cancel h => rfl
  | _ => exact hcancel

/-- A report is completed by its completion alone. -/
theorem Change.of_completed {now : ℤ} {row row' : Report} (h : Change now row row')
    (hnot : row.status ≠ .completed) (hdone : row'.status = .completed) :
    row.cancelRequested = false ∧ now < row.deadline := by
  cases h with
  | keep => exact absurd hdone hnot
  | take => cases hdone
  | cancel =>
      have hstatus : (if row.status = .queued then Status.cancelled else row.status) = .completed :=
        hdone
      split at hstatus
      · cases hstatus
      · exact absurd hstatus hnot
  | fail code =>
      have hstatus : (if row.cancelRequested then Status.cancelled else .failed) = .completed := hdone
      split at hstatus <;> cases hstatus
  | reserve => exact absurd hdone hnot
  | complete claim path digest bytes h =>
      unfold Report.completable at h
      simp only [Bool.and_eq_true, decide_eq_true_eq, Bool.not_eq_true'] at h
      exact ⟨h.1.2, h.2⟩
  | expire =>
      have hstatus : (if row.cancelRequested then Status.cancelled else .failed) = .completed := hdone
      split at hstatus <;> cases hstatus

end LogRisk.Reports
