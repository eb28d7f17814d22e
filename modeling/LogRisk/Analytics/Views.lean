import LogRisk.Analytics.Filters
import LogRisk.Library.Pages
import Mathlib.Order.WithBot

/-!
# Views of the ledger tables

A view selects the rows of analysis runs, or of physical calls, that the filters admit, newest
first.  A page is read behind the position of a cursor; an export reads page after page.
-/

namespace LogRisk.Analytics

open LogRisk.Library LogRisk.Library.Transaction LogRisk.Library.Paging

/-! ## Tables -/

/-- A row of `operational_analysis_runs`. -/
structure RunRow where
  analysisRunId : String
  environment : String
  scopeKey : String
  requestKey : String
  inputJobId : Option String
  sourceId : Option String
  parentRunId : Option String
  provenance : String
  status : String
  expectedMembers : ℤ
  inputCount : Option ℤ
  reportedInputCount : Option ℤ
  createdAt : String
  updatedAt : String
  completedAt : Option String
  settledAt : Option String
deriving DecidableEq

/-- A row of `operational_physical_calls`. -/
structure CallRow where
  callId : String
  analysisRunId : Option String
  logicalCallId : String
  attemptIndex : ℤ
  environment : String
  scopeKey : String
  callKind : String
  provider : Option String
  model : Option String
  toolName : Option String
  callerKind : String
  callerId : Option String
  status : String
  preparedAt : String
  startedAt : Option String
  finishedAt : Option String
  inputTokens : Option ℤ
  outputTokens : Option ℤ
  totalTokens : Option ℤ
  cachedInputTokens : Option ℤ
  reasoningTokens : Option ℤ
  usageQuality : String
  invalidUsage : ℤ
  errorCode : Option String
  provenance : String
  metadataContract : String
deriving DecidableEq

/-- The tables with their primary keys; identifiers and times are not empty, which is checked
when a row is written. -/
structure Ledger where
  runs : List RunRow
  calls : List CallRow
  runs_nodup : (runs.map RunRow.analysisRunId).Nodup
  calls_nodup : (calls.map CallRow.callId).Nodup
  run_written : ∀ r ∈ runs, r.analysisRunId ≠ "" ∧ r.updatedAt ≠ "" ∧ r.completedAt ≠ some ""
  call_written : ∀ c ∈ calls, c.callId ≠ "" ∧ c.startedAt ≠ some ""

/-! ## Views -/

/-- The position of a row, newest first; the start is before all positions. -/
abbrev Position := WithBot (String ×ₗ String)ᵒᵈ

def positionOf (orderAt itemId : String) : Position := ↑(OrderDual.toDual (toLex (orderAt, itemId)))

/-- What a page selects from: the table, the conditions on its rows and what they are ordered
by. -/
structure View (α : Type) where
  rows : List α
  clauses : List (α → Bool)
  orderAt : α → String
  itemId : α → String

section View

variable {α : Type}

def View.position (view : View α) (row : α) : Position :=
  positionOf (view.orderAt row) (view.itemId row)

/-- `order < timestamp OR (order = timestamp AND id < item_id)`. -/
def View.behind (view : View α) (timestamp itemId : String) (row : α) : Bool :=
  decide (view.orderAt row < timestamp ∨ view.orderAt row = timestamp ∧ view.itemId row < itemId)

/-- `SELECT … WHERE …`; without a condition there is nothing behind `WHERE`. -/
def View.select (view : View α) (clauses : List (α → Bool)) : Outcome (List α) := do
  require (clauses.isEmpty = false) (.database "near \"ORDER\": syntax error")
  return view.rows.filter fun row => clauses.all fun clause => clause row

/-- `_environment_clause`. -/
def environmentClause (environment : α → Option String) (f : Filters) : List (α → Bool) :=
  if f.environment = "all" then [] else [fun row => environment row = some f.environment]

/-- `_scope_clause`. -/
def scopeClause (scopeKey : α → Option String) (f : Filters) : List (α → Bool) :=
  match f.scopeKey with
  | none => []
  | some scope => [fun row => scopeKey row = some scope]

/-- `_window_clause`; a condition on `NULL` does not hold. -/
def windowClause (column : α → Option String) (f : Filters) : List (α → Bool) :=
  (match f.fromTime with
    | none => []
    | some t => [fun row => (column row).any fun c => decide (t ≤ c)]) ++
  match f.toTime with
    | none => []
    | some t => [fun row => (column row).any fun c => decide (c < t)]

end View

/-- `_activity_root_clause`. -/
def activityClause (f : Filters) : List (RunRow → Bool) :=
  if f.fromTime = none ∧ f.toTime = none then []
  else [fun row => [RunRow.updatedAt, RunRow.createdAt].any fun column =>
    (windowClause (fun r => some (column r)) f).all fun clause => clause row]

/-- `_cohort_root_clause`. -/
def cohortClauses {α : Type} (run : α → Option RunRow) (f : Filters) : List (α → Bool) :=
  [fun row => (run row).any fun r => r.status = "completed",
    fun row => ((run row).bind RunRow.completedAt).isSome] ++
  windowClause (fun row => (run row).bind RunRow.completedAt) f

/-- `COALESCE(r.updated_at, r.created_at, r.analysis_run_id)`. -/
def RunRow.activityAt (r : RunRow) : String :=
  ([some r.updatedAt, some r.createdAt, some r.analysisRunId].findSome? id).getD ""

/-- The rows of `runs`. -/
def runsView (ledger : Ledger) (f : Filters) : View RunRow where
  rows := ledger.runs
  clauses := environmentClause (fun r => some r.environment) f ++
    scopeClause (fun r => some r.scopeKey) f ++
    match f.timeBasis with
    | .completedRunCohort => cohortClauses some f
    | .activity => activityClause f
  orderAt r :=
    match f.timeBasis with
    | .completedRunCohort => r.completedAt.getD ""
    | .activity => r.activityAt
  itemId := RunRow.analysisRunId

/-- A call, and the run it is joined with. -/
abbrev JoinedCall := CallRow × Option RunRow

/-- `operational_physical_calls pc`, joined with the runs for a cohort. -/
def Ledger.joined (ledger : Ledger) : TimeBasis → List JoinedCall
  | .activity => ledger.calls.map fun call => (call, none)
  | .completedRunCohort => ledger.calls.flatMap fun call =>
      (ledger.runs.filter fun r => some r.analysisRunId = call.analysisRunId).map fun r =>
        (call, some r)

def optionalClause (column : CallRow → Option String) (value : Option String) :
    List (JoinedCall → Bool) :=
  match value with
  | none => []
  | some v => [fun row => column row.1 = some v]

/-- The rows of `calls`. -/
def callsView (ledger : Ledger) (f : Filters) : View JoinedCall where
  rows := ledger.joined f.timeBasis
  clauses := [fun row : JoinedCall => row.1.startedAt.isSome] ++
    (match f.timeBasis with
      | .completedRunCohort =>
          environmentClause (fun row : JoinedCall => row.2.map RunRow.environment) f ++
          scopeClause (fun row => row.2.map RunRow.scopeKey) f ++ cohortClauses Prod.snd f
      | .activity =>
          environmentClause (fun row : JoinedCall => some row.1.environment) f ++
          scopeClause (fun row => some row.1.scopeKey) f ++
          windowClause (fun row => row.1.startedAt) f) ++
    optionalClause CallRow.provider f.provider ++ optionalClause CallRow.model f.model
  orderAt row := row.1.startedAt.getD ""
  itemId row := row.1.callId

/-! ## Pages -/

structure Page (α : Type) where
  items : List α
  nextCursor : Option String
  hasMore : Bool

variable {α : Type}

/-- The condition that a cursor adds. -/
def View.continued (view : View α) (host : Host) (f : Filters) :
    Option String → Outcome (List (α → Bool))
  | none => return []
  | some cursor => do
      let (timestamp, itemId) ← cursorPayload host f cursor
      return [view.behind timestamp itemId]

def View.cursor (view : View α) (host : Host) (f : Filters) (row : α) : String :=
  makeCursor host f (view.orderAt row) (view.itemId row)

/-- `_page`. -/
def View.page (view : View α) (host : Host) (f : Filters) (cursor : Option String) :
    Outcome (Page α) := do
  let continued ← view.continued host f cursor
  let selected ← view.select (view.clauses ++ continued)
  let rows := (ordered view.position selected).take (f.pageSize + 1)
  let items := rows.take f.pageSize
  return { items := items
           nextCursor := if f.pageSize < rows.length then items.getLast?.map (view.cursor host f)
             else none
           hasMore := f.pageSize < rows.length }

/-- The answer of `runs` and `calls`. -/
structure Response (β : Type) where
  items : List β
  nextCursor : Option String
  hasMore : Bool
  filters : Filters

/-- `runs`. -/
def runs (host : Host) (ledger : Ledger) (request : Entries) : Outcome (Response RunRow) := do
  let normalized ← normalizeFilters host request
  let page ← (runsView ledger normalized.filters).page host normalized.filters normalized.cursor
  return ⟨page.items, page.nextCursor, page.hasMore, normalized.filters⟩

/-- `calls`. -/
def calls (host : Host) (ledger : Ledger) (request : Entries) : Outcome (Response CallRow) := do
  let normalized ← normalizeFilters host request
  let page ← (callsView ledger normalized.filters).page host normalized.filters normalized.cursor
  return ⟨page.items.map Prod.fst, page.nextCursor, page.hasMore, normalized.filters⟩

/-! ## Export -/

def textValue : Option String → Value
  | none => .null
  | some s => .str s

def countValue : Option ℤ → Value
  | none => .null
  | some n => .int n

/-- `_RUN_COLUMNS`. -/
def RunRow.values (r : RunRow) : List Value :=
  [.str r.analysisRunId, .str r.environment, .str r.scopeKey, .str r.requestKey,
    textValue r.inputJobId, textValue r.sourceId, textValue r.parentRunId, .str r.provenance,
    .str r.status, .int r.expectedMembers, countValue r.inputCount,
    countValue r.reportedInputCount, .str r.createdAt, .str r.updatedAt, textValue r.completedAt,
    textValue r.settledAt]

/-- `_CALL_COLUMNS`. -/
def CallRow.values (c : CallRow) : List Value :=
  [.str c.callId, textValue c.analysisRunId, .str c.logicalCallId, .int c.attemptIndex,
    .str c.environment, .str c.scopeKey, .str c.callKind, textValue c.provider, textValue c.model,
    textValue c.toolName, .str c.callerKind, textValue c.callerId, .str c.status,
    .str c.preparedAt, textValue c.startedAt, textValue c.finishedAt, countValue c.inputTokens,
    countValue c.outputTokens, countValue c.totalTokens, countValue c.cachedInputTokens,
    countValue c.reasoningTokens, .str c.usageQuality, .int c.invalidUsage,
    textValue c.errorCode, .str c.provenance, .str c.metadataContract]

/-- The columns before those of a row. -/
def metadata (f : Filters) : List Value :=
  [.str "operational-ledgers-v1", .str f.timeBasis.name, .str "Asia/Shanghai",
    .str f.environment, textValue f.scopeKey, .str "ledger"]

def isLeading (c : Char) : Bool := c ∈ [' ', '\t', '\r', '\n']

/-- `_safe_csv_value`, for the values of columns. -/
def safeCsvValue : Value → Value
  | .null => .str ""
  | .bool b => .int (if b then 1 else 0)
  | .str s =>
      let leading := s.toList.takeWhile isLeading
      let stripped := s.toList.dropWhile isLeading
      if leading.any (· ∈ ['\t', '\r']) ∨ (stripped.head?.any (· ∈ ['=', '+', '-', '@'])) then
        .str ("\x27" ++ s)
      else .str s
  | value => value

/-- A row of the file. -/
def csvRow (f : Filters) (values : List Value) : List Value :=
  (metadata f ++ values).map safeCsvValue

/-- The loop of `_export_csv`; no answer where the fuel does not last. -/
def View.exportFrom (view : View α) (host : Host) (f : Filters) (values : α → List Value) :
    ℕ → Option String → Outcome (Option (List (List Value)))
  | 0, _ => .ok none
  | fuel + 1, cursor => do
      let page ← view.page host f cursor
      let written := page.items.map fun item => csvRow f (values item)
      if page.items.isEmpty then return some []
      else if page.hasMore = false then return some written
      else do
        let rest ← view.exportFrom host f values fuel page.nextCursor
        return rest.map (written ++ ·)

/-- `export_csv`, the rows below the header. -/
def exportCsv (host : Host) (ledger : Ledger) (request : Entries) (kind : String) (fuel : ℕ) :
    Outcome (Option (List (List Value))) := do
  let normalized ← normalizeFilters host request
  let f := normalized.filters
  match kind with
  | "runs" => (runsView ledger f).exportFrom host f RunRow.values fuel none
  | "calls" => (callsView ledger f).exportFrom host f (fun row => row.1.values) fuel none
  | _ => .error (invalid "export kind 无效")

end LogRisk.Analytics
