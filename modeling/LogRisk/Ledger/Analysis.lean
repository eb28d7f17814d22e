import LogRisk.Ledger.Tables

/-!
# Analysis roots and their members

A root is created with the ranges it covers and the number of members it
expects.  Members register, are bound to a job and finish; when all expected
members are completed the root is settled, and the ranges of a verified root that
no earlier root covered are booked.
-/

namespace LogRisk.Ledger

open LogRisk.Library LogRisk.Library.Transaction

structure AnalysisRequest where
  analysisRunId : Option String := none
  requestKey : String
  environment : String
  scopeKey : String
  inputJobId : Option String := none
  sourceId : Option String := none
  ranges : List Json := []
  inputCount : Option ℤ := none
  reportedInputCount : Option ℤ := none
  provenance : Provenance := .verified
  expectedMembers : ℤ := 1
  parentRunId : Option String := none
  createdAt : Option String := none

def optionalText (value : Option String) (field : String) : Result (Option String) :=
  match value with
  | none => .ok none
  | some s => (text s field).map some

/-! ## Creating a root -/

/-- One range of a root under the source it belongs to. -/
def analysisRange (sourceId : Option String) (item : Range) : Result Range :=
  match item.key.1, sourceId with
  | none, none => .error (.invalid "analysis ranges 必须携带 source_id")
  | none, some source => .ok ⟨(some source, item.key.2), item.span⟩
  | some own, none => .ok ⟨(some own, item.key.2), item.span⟩
  | some own, some source => do
      require (own = source) (.invalid "analysis source_id 与区间来源不一致")
      return ⟨(some own, item.key.2), item.span⟩

def normalizedAnalysisRanges (sourceId : Option String) (ranges : List Json) :
    Result (List Range) := do
  let normalized ← canonicalRanges ranges
  let items ← normalized.mapM (analysisRange sourceId)
  canonicalItems items

/-- The counts of a request: only a verified root names an input count, only the
others a reported one. -/
def requestCounts (request : AnalysisRequest) : Result (Option ℕ × Option ℕ) := do
  let verifiedCount ← nullableInt request.inputCount "input_count"
  let reportedCount ← nullableInt request.reportedInputCount "reported_input_count"
  if request.provenance = .verified then
    require (reportedCount = none) (.invalid "verified root 不得填写 reported_input_count")
    return (verifiedCount, reportedCount)
  else
    require (verifiedCount = none) (.invalid "reported root 不得填写 input_count")
    return (verifiedCount, reportedCount)

/-- The input count a root is stored with. -/
def inputCountOf (provenance : Provenance) (verifiedCount : Option ℕ) (rangeCount : ℕ) :
    Result (Option ℕ) :=
  if provenance = .verified then do
    require (∀ n ∈ verifiedCount, n = rangeCount)
      (.invalid "verified input_count 必须等于冻结区间并集长度")
    return some rangeCount
  else .ok verifiedCount

/-- The row a request asks for.  `generatedId` is drawn where it names none. -/
def prepareRoot (env : LedgerEnv) (now generatedId : String) (request : AnalysisRequest) :
    Result Root := do
  let rootId ← text (request.analysisRunId.getD generatedId) "analysis_run_id"
  let requestKey ← text request.requestKey "request_key"
  let environment ← text request.environment "environment"
  let scopeKey ← text request.scopeKey "scope_key"
  let inputJobId ← optionalText request.inputJobId "input_job_id"
  let sourceId ← optionalText request.sourceId "source_id"
  let members ← boundedInt request.expectedMembers "expected_members"
  require (1 ≤ members) (.invalid "expected_members 必须大于零")
  let counts ← requestCounts request
  let ranges ← normalizedAnalysisRanges sourceId request.ranges
  let rangeCount ← sumLengths ranges
  let inputCount ← inputCountOf request.provenance counts.1 rangeCount
  let parentRunId ← optionalText request.parentRunId "parent_run_id"
  let createdAt ← timestampOr env now request.createdAt
  return {
    analysisRunId := rootId, environment, scopeKey, requestKey, inputJobId, sourceId
    parentRunId, provenance := request.provenance, status := .pending
    expectedMembers := members, inputCount, reportedInputCount := counts.2
    createdAt, updatedAt := createdAt, completedAt := none, settledAt := none, ranges }

/-- The stored root is the one asked for again. -/
def Root.sameRequest (stored root : Root) : Prop :=
  stored.scopeKey = root.scopeKey ∧ stored.inputJobId = root.inputJobId ∧
    stored.sourceId = root.sourceId ∧ stored.provenance = root.provenance ∧
    stored.expectedMembers = root.expectedMembers ∧ stored.inputCount = root.inputCount ∧
    stored.reportedInputCount = root.reportedInputCount ∧
    stored.parentRunId = root.parentRunId

instance (stored root : Root) : Decidable (stored.sameRequest root) :=
  inferInstanceAs (Decidable (_ ∧ _ ∧ _ ∧ _ ∧ _ ∧ _ ∧ _ ∧ _))

/-- The distinct sources of some ranges and, where given, one more, in order. -/
def rangeSources (ranges : List Range) (sourceId : Option String) : List String :=
  ((ranges.filterMap fun r => r.key.1) ++ sourceId.toList).dedup.insertionSort (· ≤ ·)

/-- A root with its ranges and members, as callers see it. -/
structure AnalysisDetail where
  root : Root
  ranges : List Range
  members : List Member
deriving DecidableEq

namespace LedgerTables

variable (ledger : LedgerTables)

/-- The members of a root. -/
def membersOf (rootId : String) : List Member :=
  ledger.members.values.filter fun m => decide (m.analysisRunId = rootId)

def lookupRoot (rootId : String) : Result Root :=
  orFail (ledger.roots.get? rootId) (.notFound ("分析根不存在: " ++ rootId))

def analysisDetail (rootId : String) : Result AnalysisDetail := do
  let root ← ledger.lookupRoot rootId
  let ranges ← canonicalItems root.ranges
  return ⟨root, ranges, (ledger.membersOf rootId).insertionSort fun a b => a.memberId ≤ b.memberId⟩

/-- Every source a root refers to is registered under its environment and scope. -/
def validateRootSources (root : Root) : List String → Result Unit
  | [] => .ok ()
  | sourceId :: rest => do
      let row ← orFail (ledger.sources.get? sourceId)
        (.invalid "analysis range 引用了未登记来源")
      require (row.source.environment = root.environment ∧ row.source.scopeKey = root.scopeKey)
        (.invalid "analysis root 与来源环境或作用域不一致")
      validateRootSources root rest

def validateParent (root : Root) : Result Unit :=
  match root.parentRunId with
  | none => .ok ()
  | some parent => do
      let row ← orFail (ledger.roots.get? parent) (.invalid "parent_run_id 不存在")
      require (row.environment = root.environment ∧ row.scopeKey = root.scopeKey)
        (.invalid "parent root 与新 root 环境或作用域不一致")
      require (row.createdAt ≤ root.createdAt)
        (.invalid "analysis root created_at 不得早于 parent root")

def rootOf (environment requestKey : String) : Option Root :=
  ledger.roots.values.find? fun root =>
    decide (root.environment = environment ∧ root.requestKey = requestKey)

/-- A root asked for again must be the one stored. -/
def replayRoot (explicitId : Bool) (stored root : Root) : Result Unit := do
  require (explicitId = true → stored.analysisRunId = root.analysisRunId)
    (.conflict "request_key 已绑定到其他分析根")
  let storedRanges ← canonicalItems stored.ranges
  require (stored.sameRequest root ∧ storedRanges = root.ranges)
    (.conflict "相同环境和 request_key 的分析根内容冲突")

def insertRoot (root : Root) : Result (AnalysisDetail × LedgerTables) := do
  require (ledger.roots.get? root.analysisRunId = none) (.conflict "analysis_run_id 已存在")
  ledger.validateRootSources root (rangeSources root.ranges root.sourceId)
  ledger.validateParent root
  let inserted := { ledger with roots := ledger.roots.set root.analysisRunId root }
  let detail ← inserted.analysisDetail root.analysisRunId
  return (detail, inserted)

def createAnalysisRun (env : LedgerEnv) (now generatedId : String) (request : AnalysisRequest) :
    Result (AnalysisDetail × LedgerTables) := do
  let root ← prepareRoot env now generatedId request
  match ledger.rootOf root.environment root.requestKey with
  | some stored => do
      replayRoot request.analysisRunId.isSome stored root
      let detail ← ledger.analysisDetail stored.analysisRunId
      return (detail, ledger)
  | none => ledger.insertRoot root

/-! ## Members -/

/-- Write one member row. -/
def setMember (memberId : String) (member : Member) : LedgerTables :=
  { ledger with members := ledger.members.set memberId member }

/-- The member row, which must belong to the root. -/
def lookupMember (rootId memberId : String) : Result Member := do
  let member ← orFail (ledger.members.get? memberId) (.notFound "分析成员不存在")
  require (member.analysisRunId = rootId) (.notFound "分析成员不存在")
  return member

def registerNew (root : Root) (rootId memberId created : String) :
    Result (Member × LedgerTables) := do
  require (root.status.terminalRoot = false) (.conflict "终态分析根不可新增成员")
  require (root.createdAt ≤ created) (.invalid "analysis member created_at 不得早于 root")
  require ((ledger.membersOf rootId).length < root.expectedMembers)
    (.conflict "分析根成员数已达到 expected_members")
  let member : Member := ⟨memberId, rootId, none, .pending, created, created⟩
  return (member, ledger.setMember memberId member)

def registerAnalysisMember (env : LedgerEnv) (now analysisRunId memberId : String)
    (createdAt : Option String) : Result (Member × LedgerTables) := do
  let rootId ← text analysisRunId "analysis_run_id"
  let memberKey ← text memberId "member_id"
  let created ← timestampOr env now createdAt
  let root ← ledger.lookupRoot rootId
  match ledger.members.get? memberKey with
  | some existing => do
      require (existing.analysisRunId = rootId) (.conflict "member_id 已绑定到其他分析根")
      return (existing, ledger)
  | none => ledger.registerNew root rootId memberKey created

def bindUnbound (now : String) (root : Root) (memberId jobId : String) (member : Member) :
    Result (Member × LedgerTables) := do
  require (root.status.terminalRoot = false) (.conflict "终态分析根不可绑定成员")
  let updated := { member with featureJobId := some jobId, updatedAt := now }
  return (updated, ledger.setMember memberId updated)

def bindAnalysisMember (now analysisRunId memberId featureJobId : String) :
    Result (Member × LedgerTables) := do
  let rootId ← text analysisRunId "analysis_run_id"
  let memberKey ← text memberId "member_id"
  let jobKey ← text featureJobId "feature_job_id"
  let root ← ledger.lookupRoot rootId
  let member ← ledger.lookupMember rootId memberKey
  match member.featureJobId with
  | some existing => do
      require (existing = jobKey) (.conflict "分析成员已绑定其他 feature_job_id")
      return (member, ledger)
  | none => ledger.bindUnbound now root memberKey jobKey member

end LedgerTables

/-! ## Settling a root -/

/-- The ranges of a root in one source, by partition. -/
def Root.rangesIn (root : Root) (sourceId : String) : List Range :=
  (root.ranges.filter fun r => decide (r.key.1 = some sourceId)).map fun r =>
    ⟨(none, r.key.2), r.span⟩

/-- Book what no earlier root covers of one source. -/
def coverSource (env : LedgerEnv) (root : Root) (completedAt : String)
    (sources : Dict String SourceRow) (rows : List SourceRange) (sourceId : String) :
    Result (List SourceRange) := do
  require ((sources.get? sourceId).isSome) (.invalid "分析结算引用了不存在来源")
  let uncovered ← subtractRanges (root.rangesIn sourceId) (rangeRows .covered sourceId rows)
  bookRanges env .covered sourceId root.analysisRunId completedAt uncovered rows

def coverSources (env : LedgerEnv) (root : Root) (completedAt : String)
    (sources : Dict String SourceRow) (rows : List SourceRange) : Result (List SourceRange) :=
  if root.provenance = .verified then
    (rangeSources root.ranges none).foldlM (coverSource env root completedAt sources) rows
  else .ok rows

/-- `MAX(updated_at)` of the completed members, the present time where it is
missing. -/
def completionTime (now : String) (members : List Member) : String :=
  match ((members.filter fun m => decide (m.status = .completed)).map Member.updatedAt).max? with
  | some at' => if at' = "" then now else at'
  | none => now

/-- As many members as expected are registered, and as many are completed. -/
def allCompleted (root : Root) (members : List Member) : Prop :=
  members.length = root.expectedMembers ∧
    members.countP (fun m => decide (m.status = .completed)) = root.expectedMembers

instance (root : Root) (members : List Member) : Decidable (allCompleted root members) :=
  inferInstanceAs (Decidable (_ ∧ _))

theorem allCompleted_iff {root : Root} {members : List Member} : allCompleted root members ↔
    members.length = root.expectedMembers ∧ ∀ m ∈ members, m.status = .completed := by
  rw [allCompleted]
  refine and_congr_right fun hlength => ?_
  rw [← hlength, List.countP_eq_length]
  simp

def settledRoot (completedAt : String) (root : Root) : Root :=
  { root with
    status := .completed, completedAt := some completedAt, settledAt := some completedAt
    updatedAt := completedAt }

namespace LedgerTables

variable (ledger : LedgerTables)

def settleAnalysisRun (env : LedgerEnv) (now rootId : String) (root : Root) :
    Result LedgerTables :=
  if root.status.terminalRoot = true ∨ ¬allCompleted root (ledger.membersOf rootId) then .ok ledger
  else do
    let completedAt := completionTime now (ledger.membersOf rootId)
    let rows ← coverSources env root completedAt ledger.sources ledger.sourceRanges
    return { ledger with
      sourceRanges := rows, roots := ledger.roots.set rootId (settledRoot completedAt root) }

end LedgerTables

/-- The row of a root after a member finished; it is touched where its status is
written. -/
def Root.afterMember (now : String) (target : Status) (root : Root) : Root :=
  match target with
  | .cancelled => { root with status := .cancelled, updatedAt := now }
  | .failed | .partially =>
      if root.status.terminalRoot then root else { root with status := .partially, updatedAt := now }
  | .running | .completed =>
      if root.status = .pending ∨ root.status = .partially then
        { root with status := .running, updatedAt := now }
      else root
  | .pending => root

/-- A final member answers a repetition, and nothing else. -/
def unlessChanged (target : Status) (member : Member) (message : String) : Result Member :=
  if member.status = target then .ok member else .error (.conflict message)

/-- What finishing a member answers without writing. -/
def finishRefused (target : Status) (root : Root) (member : Member) : Option (Result Member) :=
  if root.status = .completed then some (unlessChanged target member "已结算分析根不可修改")
  else if root.status = .cancelled ∨ member.status = .cancelled then
    some (unlessChanged target member "取消后的分析成员不可修改")
  else if member.status = .completed then
    some (unlessChanged target member "已完成成员不可回退")
  else if member.status = .failed ∧ target = .failed then some (.ok member)
  else none

namespace LedgerTables

variable (ledger : LedgerTables)

/-- The two rows a finished member writes. -/
def writeFinished (at' : String) (target : Status) (root : Root) (rootId memberId : String)
    (member : Member) : LedgerTables :=
  { ledger.setMember memberId { member with status := target, updatedAt := at' } with
    roots := ledger.roots.set rootId (root.afterMember at' target) }

def finishOpen (env : LedgerEnv) (now at' : String) (target : Status) (root : Root)
    (rootId memberId : String) (member : Member) : Result (Member × LedgerTables) := do
  require (member.createdAt ≤ at' ∧ root.createdAt ≤ at')
    (.invalid "finished_at 不得早于 root/member 创建时间")
  let written := ledger.writeFinished at' target root rootId memberId member
  let updated := { member with status := target, updatedAt := at' }
  if target = .completed then
    let settled ← written.settleAnalysisRun env now rootId (root.afterMember at' target)
    return (updated, settled)
  else return (updated, written)

def finishAnalysisMember (env : LedgerEnv) (now analysisRunId memberId : String) (target : Status)
    (finishedAt : Option String) : Result (Member × LedgerTables) := do
  let rootId ← text analysisRunId "analysis_run_id"
  let memberKey ← text memberId "member_id"
  let at' ← timestampOr env now finishedAt
  let root ← ledger.lookupRoot rootId
  let member ← ledger.lookupMember rootId memberKey
  match finishRefused target root member with
  | some answer => do
      let member ← answer
      return (member, ledger)
  | none => ledger.finishOpen env now at' target root rootId memberKey member

def completeAnalysisRun (env : LedgerEnv) (now analysisRunId : String)
    (completedAt : Option String) : Result (AnalysisDetail × LedgerTables) := do
  let rootId ← text analysisRunId "analysis_run_id"
  let _ ← timestampOr env now completedAt
  let root ← ledger.lookupRoot rootId
  let settled ← ledger.settleAnalysisRun env now rootId root
  let detail ← settled.analysisDetail rootId
  return (detail, settled)

end LedgerTables

end LogRisk.Ledger
