import LogRisk.Reports.Tables

/-!
# Executors of reports

An executor takes a queued report, prepares the model's input, reserves the one model
call, renders the narrative, publishes the file and completes the report.  Between two
accesses to the database or to a file any other process may act, and at each of its
steps an exception may be raised or the process may die.
-/

namespace LogRisk.Reports

open LogRisk.Library LogRisk.Library.Transaction

abbrev Body := List UInt8

/-- The places where `check_cancel` is called. -/
inductive CheckPoint where
  | taken
  | prepared (deadline : ℤ)
  /-- The reservation found no row. -/
  | unreserved
  | answered
  | rendered
  | written
  /-- The completion found no row. -/
  | withdrawn
deriving DecidableEq

/-- What an executor does next. -/
inductive Pc where
  /-- The transaction that takes the report. -/
  | take
  /-- `check_cancel` reads the row. -/
  | check (point : CheckPoint)
  /-- `check_cancel` compares the clock with the deadline it has read. -/
  | deadline (point : CheckPoint) (deadline : ℤ)
  /-- `check_cancel` has found a cancel: `fail` and return. -/
  | cancelled (point : CheckPoint)
  /-- The row and the profile are read and the model's input is made. -/
  | prepare
  /-- The transaction that reserves the model call. -/
  | reserve (deadline : ℤ)
  /-- The last look at the deadline before the call. -/
  | ready (deadline : ℤ)
  /-- `client.generate_json`. -/
  | invoke
  /-- The narrative is validated and rendered. -/
  | render
  | writeTemporary
  /-- `os.stat` of the published name. -/
  | stat
  | replace
  /-- The transaction that completes the report. -/
  | complete
  /-- The published file is removed where the completion found no row. -/
  | withdraw
  /-- An exception is being handled. -/
  | fail (code : String)
  | cleanTemporary
  /-- The status is read where a file was published. -/
  | cleanPublished
  | unlinkPublished
  | closed
deriving DecidableEq

structure Executor where
  reportId : String
  claim : String
  pc : Pc := .take
  temporary : Bool := false
  published : Bool := false
  body : Body := []
deriving DecidableEq

/-- The database, the files of the reports and the executors of all processes. -/
structure World where
  rows : Table := ∅
  /-- `report.html` in the directory of a report. -/
  html : String → Option Body := fun _ => none
  /-- `claim.tmp` in the directory of a report. -/
  temps : String × String → Option Body := fun _ => none
  executors : ℕ → Option Executor := fun _ => none
  /-- How often the model client was invoked for a report. -/
  calls : String → ℕ := fun _ => 0
  clock : ℤ := 0

/-- What is decided outside of the model at one step. -/
structure Outside where
  /-- The code under which an exception is handled, where one is raised. -/
  raises : Option String := none
  /-- The rendered page. -/
  body : Body := []
  /-- What a failed write leaves in the temporary file. -/
  leftover : Option Body := none

def htmlLimit : ℕ := 5242880

/-- Where the execution goes on when `check_cancel` lets it. -/
def CheckPoint.next : CheckPoint → Pc
  | .taken => .prepare
  | .prepared deadline => .reserve deadline
  | .unreserved => .cleanTemporary
  | .answered => .render
  | .rendered => .writeTemporary
  | .written => .stat
  | .withdrawn => .cleanTemporary

def Executor.goto (e : Executor) (pc : Pc) : Executor := { e with pc }

/-- An exception at a step: where it is handled, and what it leaves of the step. -/
def raiseAt (w : World) (e : Executor) (code : String) (outside : Outside) : World × Executor :=
  match e.pc with
  | .take => (w, e.goto .closed)
  | .fail _ => (w, e.goto .cleanTemporary)
  | .cleanTemporary | .cleanPublished | .unlinkPublished | .closed => (w, e.goto .closed)
  | .invoke =>
      ({ w with calls := Function.update w.calls e.reportId (w.calls e.reportId + 1) },
        e.goto (.fail code))
  | .writeTemporary =>
      ({ w with temps := Function.update w.temps (e.reportId, e.claim) outside.leftover },
        { e with temporary := true, pc := .fail code })
  | _ => (w, e.goto (.fail code))

variable (sha256 : Body → String)

/-- One step of an executor. -/
def advance (w : World) (e : Executor) (outside : Outside) : World × Executor :=
  match outside.raises with
  | some code => raiseAt w e code outside
  | none =>
      match e.pc with
      | .take =>
          if matched e.reportId Report.claimable w.rows then
            ({ w with rows := updateWhere e.reportId Report.claimable (Report.take e.claim) w.rows },
              e.goto (.check .taken))
          else (w, e.goto .closed)
      | .check point =>
          match w.rows.get? e.reportId with
          | none => (w, e.goto (.fail "report_not_found"))
          | some row =>
              if row.cancelRequested then (w, e.goto (.cancelled point))
              else (w, e.goto (.deadline point row.deadline))
      | .deadline point deadline =>
          if deadline ≤ w.clock then (w, e.goto (.fail "report_deadline_exceeded"))
          else (w, e.goto point.next)
      | .cancelled _ =>
          ({ w with rows := failReport e.reportId "report_cancelled" w.rows }, e.goto .cleanTemporary)
      | .prepare =>
          match w.rows.get? e.reportId with
          | none => (w, e.goto (.fail "report_not_found"))
          | some row => (w, e.goto (.check (.prepared row.deadline)))
      | .reserve deadline =>
          if matched e.reportId (Report.reservable e.claim) w.rows then
            ({ w with
                rows := updateWhere e.reportId (Report.reservable e.claim) Report.reserve w.rows },
              e.goto (.ready deadline))
          else (w, e.goto (.check .unreserved))
      | .ready deadline =>
          if deadline ≤ w.clock then (w, e.goto (.fail "report_deadline_exceeded"))
          else (w, e.goto .invoke)
      | .invoke =>
          ({ w with calls := Function.update w.calls e.reportId (w.calls e.reportId + 1) },
            e.goto (.check .answered))
      | .render =>
          if htmlLimit < outside.body.length then (w, e.goto (.fail "report_html_limit"))
          else (w, { e with body := outside.body, pc := .check .rendered })
      | .writeTemporary =>
          match w.temps (e.reportId, e.claim) with
          | some _ => (w, { e with temporary := true, pc := .fail "report_internal_error" })
          | none =>
              ({ w with temps := Function.update w.temps (e.reportId, e.claim) (some e.body) },
                { e with temporary := true, pc := .check .written })
      | .stat =>
          match w.html e.reportId with
          | some _ => (w, e.goto (.fail "artifact_path_error"))
          | none => (w, e.goto .replace)
      | .replace =>
          match w.temps (e.reportId, e.claim) with
          | none => (w, e.goto (.fail "report_internal_error"))
          | some content =>
              ({ w with
                  html := Function.update w.html e.reportId (some content)
                  temps := Function.update w.temps (e.reportId, e.claim) none },
                { e with published := true, temporary := false, pc := .complete })
      | .complete =>
          if matched e.reportId (Report.completable e.claim w.clock) w.rows then
            ({ w with
                rows := updateWhere e.reportId (Report.completable e.claim w.clock)
                  (Report.complete (e.reportId ++ "/report.html") (sha256 e.body) e.body.length)
                    w.rows },
              e.goto .cleanTemporary)
          else (w, e.goto .withdraw)
      | .withdraw =>
          match w.html e.reportId with
          | none => (w, e.goto (.fail "report_internal_error"))
          | some _ =>
              ({ w with html := Function.update w.html e.reportId none },
                { e with published := false, pc := .check .withdrawn })
      | .fail code =>
          ({ w with rows := failReport e.reportId code w.rows }, e.goto .cleanTemporary)
      | .cleanTemporary =>
          if e.temporary then
            ({ w with temps := Function.update w.temps (e.reportId, e.claim) none },
              e.goto .cleanPublished)
          else (w, e.goto .cleanPublished)
      | .cleanPublished =>
          if e.published then
            match w.rows.get? e.reportId with
            | none => (w, e.goto .closed)
            | some row =>
                if row.status = .completed then (w, e.goto .closed) else (w, e.goto .unlinkPublished)
          else (w, e.goto .closed)
      | .unlinkPublished =>
          ({ w with html := Function.update w.html e.reportId none }, e.goto .closed)
      | .closed => (w, e)

inductive Event where
  | create (new : NewReport)
  | cancel (id : String)
  | fail (id code : String)
  | recover
  /-- A process calls `execute`; the claim is its `uuid4().hex`. -/
  | execute (worker : ℕ) (id claim : String)
  | step (worker : ℕ) (outside : Outside)
  /-- The process dies. -/
  | crash (worker : ℕ)

/-- An event, and how much later than the one before it. -/
structure Action where
  elapsed : ℕ := 0
  event : Event

def World.busy (w : World) (worker : ℕ) : Bool :=
  (w.executors worker).any fun e => e.pc ≠ .closed

def World.put (w : World) (worker : ℕ) (e : Option Executor) : World :=
  { w with executors := Function.update w.executors worker e }

def World.event (w : World) : Event → World
  | .create new => { w with rows := settled w.rows (create new w.rows) }
  | .cancel id => { w with rows := cancelReport id w.rows }
  | .fail id code => { w with rows := failReport id code w.rows }
  | .recover => { w with rows := recoverInterrupted w.clock w.rows }
  | .execute worker id claim =>
      if w.busy worker then w else w.put worker (some { reportId := id, claim })
  | .step worker outside =>
      match w.executors worker with
      | none => w
      | some e =>
          let (next, e) := advance sha256 w e outside
          next.put worker (some e)
  | .crash worker => w.put worker none

def World.act (w : World) (action : Action) : World :=
  World.event sha256 { w with clock := w.clock + action.elapsed } action.event

/-! ## Downloads -/

/-- `identifier`. -/
def isIdentifier (text : String) : Bool :=
  Text.strip text ≠ "" && text.length ≤ 256 && text.toList.all fun c => 32 ≤ c.toNat

/-- The pieces of a text between slashes. -/
def splitSlash : List Char → List (List Char)
  | [] => [[]]
  | c :: rest =>
      if c = '/' then [] :: splitSlash rest
      else
        match splitSlash rest with
        | [] => [[c]]
        | piece :: pieces => (c :: piece) :: pieces

/-- The parts of a relative path; `none` for an absolute one. -/
def relativeParts (path : String) : Option (List String) :=
  if path.toList.head? = some '/' then none
  else
    some (((splitSlash path.toList).filter fun piece => piece ≠ [] ∧ piece ≠ ['.']).map
      String.ofList)

def download (w : World) (id : String) : Except ReportError Body := do
  require (isIdentifier id) .invalidIdentifier
  let row ← orFail (w.rows.get? id) .notFound
  require (row.status = .completed) .notCompleted
  let path ← orFail row.artifactPath .notCompleted
  require (path ≠ "") .notCompleted
  require (relativeParts path = some [id, "report.html"]) .artifactPath
  let content ← orFail (w.html id) .artifactPath
  let body := content.take (htmlLimit + 1)
  require (some body.length = row.artifactBytes ∧ some (sha256 body) = row.artifactDigest)
    .artifactIntegrity
  return body

end LogRisk.Reports
