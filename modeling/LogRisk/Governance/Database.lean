import LogRisk.Approval.Store
import Mathlib.Data.Finset.Dedup

/-!
# Approved rules in the database

A row holds the rule as JSON next to the columns it is looked up by.  Reading a row lays
its life cycle columns over the JSON and compares the other columns with it.  Every new
version of a rule is kept.
-/

namespace LogRisk.Governance

open LogRisk.Library LogRisk.Library.Text LogRisk.Library.Transaction LogRisk.Approval

variable {μ : Type}

/-! ## Tables -/

/-- A row of `approved_rules`, without its id. -/
structure Row where
  signature : String
  featureType : String
  ruleJson : Rule
  approvedAt : String
  updatedAt : String
  status : String
  currentVersion : ℕ
  nextReviewAt : String
  schemaVersion : String
  problemCode : Option String
  approvalKey : Option String

/-- A row of `rule_versions`, without its id and version. -/
structure Version where
  ruleJson : Rule
  changeType : String
  changeReason : String
  operator : String
  createdAt : String

structure Database where
  approvedRules : Dict String Row
  ruleVersions : Dict (String × ℕ) Version
  /-- The id and the time of every reuse. -/
  ruleReuseEvents : List (String × String)

instance : EmptyCollection Database := ⟨⟨∅, ∅, []⟩⟩

inductive StoreError where
  | approval (error : ApprovedRuleError)
  | governance (message code : String) (statusCode : ℕ)
  | value (message : String)
  /-- A unique column of a table holds the value already. -/
  | unique (columns : String)

abbrev Result := Except StoreError

def liftApproval {α : Type} : Approval.Result α → Result α
  | .ok value => .ok value
  | .error error => .error (.approval error)

/-! ## Reading a row -/

/-- `has_v2_identity_markers`. -/
def hasV2IdentityMarkers (rule : Rule) : Bool :=
  strip rule.approvalKey ≠ "" || strip (rule.canonicalApprovalKey.getD "") ≠ "" ||
    strip rule.problemCode ≠ "" || rule.matchMode.isSome || rule.anchorSignatures ≠ [] ||
    rule.supportingSignatures ≠ []

/-- `error`, when both texts are given and differ. -/
def mismatch (json column error : String) : List String :=
  complaint (strip json ≠ "" && strip column ≠ "" && strip json ≠ strip column) error

/-- `_projection_errors`. -/
def projectionErrors (rule : Rule) (ruleId : String) (row : Row) : List String :=
  let jsonSchema := strip rule.schemaVersion
  let dbSchema := strip row.schemaVersion
  (if jsonSchema = "" ∧ dbSchema = legacySchemaVersion then
      complaint (hasV2IdentityMarkers rule) "unversioned_v2_identity_markers"
    else complaint (jsonSchema ≠ dbSchema) "schema_version_projection_mismatch") ++
    mismatch rule.ruleId ruleId "rule_id_projection_mismatch" ++
    mismatch rule.signature row.signature "signature_projection_mismatch" ++
    mismatch rule.featureType row.featureType "feature_type_projection_mismatch" ++
    if dbSchema = legacySchemaVersion then
      complaint row.problemCode.isSome "v1_problem_code_projection_not_null" ++
        complaint row.approvalKey.isSome "v1_approval_key_projection_not_null"
    else if dbSchema = v2SchemaVersion then
      complaint (strip rule.problemCode ≠ strip (row.problemCode.getD ""))
          "problem_code_projection_mismatch" ++
        complaint (strip rule.approvalKey ≠ strip (row.approvalKey.getD ""))
          "approval_key_projection_mismatch"
    else []

/-- The JSON of a row under its life cycle columns. -/
def lifecycle (row : Row) : Rule :=
  let rule := row.ruleJson
  { rule with
    schemaVersion :=
      if strip rule.schemaVersion = "" ∧ row.schemaVersion = legacySchemaVersion ∧
          hasV2IdentityMarkers rule = false then legacySchemaVersion
      else rule.schemaVersion
    status := row.status
    currentVersion := row.currentVersion
    nextReviewAt := row.nextReviewAt
    approvedAt := row.approvedAt
    updatedAt := row.updatedAt }

/-- `classify_rule` with the columns of the row. -/
def classifyRow (R : RuleResolver μ) (ruleId : String) (row : Row) : RuleClassification :=
  let rule := lifecycle row
  let candidate :=
    if strip rule.schemaVersion = "" ∧ row.schemaVersion = legacySchemaVersion then
      { rule with schemaVersion := legacySchemaVersion }
    else rule
  classifyWith R candidate (rule.integrityErrors ++ (projectionErrors rule ruleId row).eraseDups)

/-- `hydrate_persisted_rule`. -/
def hydratePersistedRule (R : RuleResolver μ) (ruleId : String) (row : Row) : Rule :=
  let rule := lifecycle row
  let classification := classifyRow R ruleId row
  { rule with
    createdAt := firstGiven rule.createdAt rule.approvedAt
    integrityErrors :=
      if classification.kind = .malformedV2 then classification.integrityErrors
      else rule.integrityErrors }

/-- `public_rule`. -/
def publicRule (rule : Rule) : Rule := { rule with integrityErrors := [] }

/-- `_read_locked`. -/
def readLocked (R : RuleResolver μ) (db : Database) : List Rule :=
  (db.approvedRules.entries.insertionSort fun entry other => entry.1 ≤ other.1).map
    fun entry => hydratePersistedRule R entry.1 entry.2

/-- `RuleGovernanceRepository.get_rule`. -/
def getRule (R : RuleResolver μ) (db : Database) (ruleId : String) : Option Rule :=
  (db.approvedRules.get? ruleId).map (hydratePersistedRule R ruleId)

/-! ## Writing rules -/

/-- Another row has the value in its column. -/
def takenBy {α : Type} [DecidableEq α] (db : Database) (ruleId : String) (column : Row → α)
    (value : α) : Bool :=
  db.approvedRules.entries.any fun entry => entry.1 ≠ ruleId && column entry.2 = value

/-- `problem_code` and `approval_key` of the row; rules of the first format have none. -/
def projection (R : RuleResolver μ) (rule : Rule) : Option String × Option String :=
  if (classifyRule R rule).kind = .legacyV1 then (none, none)
  else (some rule.problemCode, some rule.approvalKey)

/-- The row `_write_locked` inserts; a row that is there keeps `approved_at`. -/
def savedRow (R : RuleResolver μ) (rule : Rule) (old : Option Row) : Row where
  signature := rule.signature
  featureType := rule.featureType
  ruleJson := rule
  approvedAt := (old.map Row.approvedAt).getD rule.approvedAt
  updatedAt := rule.updatedAt
  status := firstGiven rule.status "active"
  currentVersion := if rule.currentVersion = 0 then 1 else rule.currentVersion
  nextReviewAt := rule.nextReviewAt
  schemaVersion := strip rule.schemaVersion
  problemCode := (projection R rule).1
  approvalKey := (projection R rule).2

/-- `_write_locked` of one rule.  A version that is there already stays as it is. -/
def writeLocked (R : RuleResolver μ) (rule : Rule) (db : Database) : Result Database := do
  let persisted := publicRule rule
  require (strip persisted.schemaVersion ≠ "")
    (.value "批准规则缺少 schema_version，不能在运行时自动归一化")
  let row := savedRow R persisted (db.approvedRules.get? persisted.ruleId)
  require (takenBy db persisted.ruleId Row.signature row.signature = false)
    (.unique "approved_rules.signature")
  require (row.approvalKey = none ∨ takenBy db persisted.ruleId Row.approvalKey row.approvalKey = false)
    (.unique "approved_rules.approval_key")
  let key := (persisted.ruleId, row.currentVersion)
  let version : Version :=
    { ruleJson := persisted
      changeType := if row.currentVersion = 1 then "rule_created" else "rule_updated"
      changeReason := if row.currentVersion = 1 then "人工批准特征" else "人工审批更新规则"
      operator := "manual-approval"
      createdAt := persisted.updatedAt }
  return { db with
    approvedRules := db.approvedRules.set persisted.ruleId row
    ruleVersions :=
      if key ∈ db.ruleVersions.keys then db.ruleVersions else db.ruleVersions.set key version }

/-- The rule `upsert_feature` arrives at, and whether it is saved. -/
def approvedRule (R : RuleResolver μ) (moment : Moment) (feature : Feature μ) (rules : List Rule) :
    Approval.Result (Rule × Bool) := do
  let baseSignature ← ruleSignature R.toResolver feature.featureType feature.sourceTemplates
  match rules.find? (occupies R feature baseSignature) with
  | some rule =>
      throw (.integrity rule.ruleId rule.approvalKey rule.signature
        (classifyRule R rule).integrityErrors)
  | none =>
      match existingRule R feature rules with
      | some existing =>
          if isLegacyFeature feature (approvalIdentity R.toResolver feature) then
            return (existing, false)
          else
            let approvalKey := firstGiven existing.approvalKey
              (approvalIdentity R.toResolver feature).approvalKey
            return (updatedRule R moment feature existing
              (chosenSignature R rules baseSignature approvalKey (some existing)), true)
      | none => return (createdRule R moment feature rules baseSignature, true)

/-- `SQLiteApprovedRuleStore.upsert_feature`. -/
def upsertFeature (R : RuleResolver μ) (moment : Moment) (feature : Feature μ) (db : Database) :
    Result (Rule × Database) := do
  let (rule, saved) ← liftApproval (approvedRule R moment feature (readLocked R db))
  if saved then
    let db ← writeLocked R rule db
    return (publicRule rule, db)
  else return (rule, db)

/-- The rule after one more reuse. -/
def reusedRule (rule : Rule) (now : String) : Rule :=
  publicRule { rule with reuseCount := rule.reuseCount + 1, lastReusedAt := some now }

/-- `record_reuse`. -/
def recordReuse (R : RuleResolver μ) (ruleId now : String) (db : Database) :
    Result (Rule × Database) := do
  let row ← orFail (db.approvedRules.get? ruleId) (.approval (.invalid "批准规则不存在"))
  let rule := hydratePersistedRule R ruleId row
  require (hasFormat R .malformedV2 rule = false) (.approval (.invalid "批准规则损坏，不能记录复用"))
  require (isActive rule = true) (.approval (.invalid "只有 active 批准规则可以记录复用"))
  let persisted := reusedRule rule now
  return (persisted, { db with
    approvedRules := db.approvedRules.set ruleId { row with ruleJson := persisted }
    ruleReuseEvents := db.ruleReuseEvents ++ [(ruleId, now)] })

/-! ## Committing versions -/

/-- What a change is recorded with. -/
structure Change where
  expectedVersion : ℕ
  changeType : String
  reason : String
  operator : String
  createdAt : String

/-- The version `commit_version` writes under the number after the current one. -/
def committedRule (rule : Rule) (version : ℕ) (createdAt : String) : Rule :=
  publicRule { rule with currentVersion := version, updatedAt := createdAt }

/-- The columns `commit_version` writes; it leaves `signature`, `feature_type` and
`approved_at`. -/
def committedRow (R : RuleResolver μ) (row : Row) (rule : Rule) (version : ℕ) (createdAt : String) :
    Row :=
  { row with
    ruleJson := committedRule rule version createdAt
    status := rule.status
    currentVersion := version
    nextReviewAt := rule.nextReviewAt
    problemCode := (projection R rule).1
    approvalKey := (projection R rule).2
    schemaVersion := rule.schemaVersion
    updatedAt := createdAt }

/-- `RuleGovernanceRepository.commit_version`. -/
def commitVersion (R : RuleResolver μ) (rule : Rule) (change : Change) (db : Database) :
    Result (Rule × Database) := do
  let row ← orFail (db.approvedRules.get? rule.ruleId)
    (.governance "规则不存在" "rule_not_found" 404)
  require (row.currentVersion = change.expectedVersion)
    (.governance ("规则版本冲突，当前版本为 " ++ toString row.currentVersion) "version_conflict" 409)
  require (hasFormat R .malformedV2 rule = false)
    (.governance "规则快照损坏，无法提交治理变更" "malformed_rule_snapshot" 409)
  let version := row.currentVersion + 1
  let snapshot := committedRule rule version change.createdAt
  let next := committedRow R row rule version change.createdAt
  require (next.approvalKey = none ∨ takenBy db rule.ruleId Row.approvalKey next.approvalKey = false)
    (.unique "approved_rules.approval_key")
  require ((rule.ruleId, version) ∉ db.ruleVersions.keys)
    (.unique "rule_versions.rule_id, rule_versions.version")
  return (snapshot, { db with
    approvedRules := db.approvedRules.set rule.ruleId next
    ruleVersions := db.ruleVersions.set (rule.ruleId, version)
      { ruleJson := snapshot
        changeType := change.changeType
        changeReason := change.reason
        operator := change.operator
        createdAt := change.createdAt } })

/-! ## Governance -/

/-- `RuleGovernanceService.change_status`, once the rule is read. -/
def statusSnapshot (status : String) (current : Rule) : Rule := { current with status := status }

/-- `RuleGovernanceService.change_status`. -/
def changeStatus (R : RuleResolver μ) (change : StatusChange) (db : Database) :
    Result (Rule × Database) := do
  require (change.status ∈ ruleStatuses) (.governance "规则状态无效" "invalid_request" 422)
  require (strip change.operator ≠ "") (.governance "字段 operator 不能为空" "invalid_request" 422)
  require (strip change.reason ≠ "") (.governance "字段 reason 不能为空" "invalid_request" 422)
  let current ← orFail (getRule R db change.ruleId) (.governance "规则不存在" "rule_not_found" 404)
  commitVersion R (statusSnapshot change.status current)
    { expectedVersion := change.expectedVersion
      changeType := "status_changed"
      reason := strip change.reason
      operator := strip change.operator
      createdAt := change.createdAt } db

/-- `normalize_legacy_rule_version`. -/
def normalizeLegacyRuleVersion (R : RuleResolver μ) (rule : Rule) : Result Rule := do
  let version := strip rule.schemaVersion
  let broken := StoreError.governance "目标规则快照损坏，无法回滚" "malformed_rule_snapshot" 409
  if version = legacySchemaVersion then return rule
  else if version = v2SchemaVersion then
    require (hasFormat R .validV2 rule = true) broken
    return rule
  else
    require (version = "" ∧ hasV2IdentityMarkers rule = false) broken
    return { rule with schemaVersion := legacySchemaVersion }

structure Rollback where
  ruleId : String
  targetVersion : ℕ
  expectedVersion : ℕ
  confirmed : Bool
  operator : String
  reason : String
  createdAt : String

/-- What a rollback keeps of the current rule. -/
def rollbackSnapshot (target current : Rule) : Rule :=
  { target with
    ruleId := current.ruleId
    signature := current.signature
    approvedAt := current.approvedAt
    createdAt := current.createdAt
    reuseCount := current.reuseCount
    lastReusedAt := current.lastReusedAt }

/-- `RuleGovernanceService.rollback`. -/
def rollback (R : RuleResolver μ) (request : Rollback) (db : Database) : Result (Rule × Database) := do
  require (request.confirmed = true) (.governance "回滚必须显式确认" "confirmation_required" 400)
  require (strip request.operator ≠ "") (.governance "字段 operator 不能为空" "invalid_request" 422)
  require (strip request.reason ≠ "") (.governance "字段 reason 不能为空" "invalid_request" 422)
  let current ← orFail (getRule R db request.ruleId) (.governance "规则不存在" "rule_not_found" 404)
  let target ← orFail (db.ruleVersions.get? (request.ruleId, request.targetVersion))
    (.governance "目标规则版本不存在" "version_not_found" 404)
  let snapshot ← normalizeLegacyRuleVersion R target.ruleJson
  require (hasFormat R .malformedV2 snapshot = false)
    (.governance "目标规则快照损坏，无法回滚" "malformed_rule_snapshot" 409)
  commitVersion R (rollbackSnapshot snapshot current)
    { expectedVersion := request.expectedVersion
      changeType := "rolled_back"
      reason := strip request.reason
      operator := strip request.operator
      createdAt := request.createdAt } db

/-- The fields the first version of an imported rule shares with it. -/
structure ImportedFields where
  ruleId : String
  signature : String
  featureType : String
  templateSignatures : List TemplateSource
  components : List String
  approvedAt : String
  lineage : List (String × String)
deriving DecidableEq

def importedFields (rule : Rule) : ImportedFields where
  ruleId := rule.ruleId
  signature := rule.signature
  featureType := rule.featureType
  templateSignatures := rule.templateSignatures
  components := rule.components
  approvedAt := rule.approvedAt
  lineage := rule.lineage

/-- The errors of a rule whose second format was only stamped on it. -/
def stampErrors : List String :=
  ["approval_key_missing", "match_mode_missing_or_invalid", "problem_code_missing"]

/-- `repair_legacy_import`. -/
def repairLegacyImport (R : RuleResolver μ) (ruleId operator now : String) (db : Database) :
    Result (Rule × Database) := do
  let unproven := StoreError.governance "没有匹配的原始迁移记录，不能将损坏的 V2 规则恢复为 V1"
    "legacy_repair_not_proven" 409
  let current ← orFail (getRule R db ruleId) unproven
  let first ← orFail (db.ruleVersions.get? (ruleId, 1)) unproven
  let previous := first.ruleJson
  require (current.schemaVersion = v2SchemaVersion ∧ current.currentVersion = 1) unproven
  require (first.changeType = "legacy_import" ∧ first.operator = "system-migration") unproven
  require (previous.schemaVersion = v2SchemaVersion) unproven
  require (hasV2IdentityMarkers current = false ∧ hasV2IdentityMarkers previous = false) unproven
  require (current.templateSignatures ≠ [] ∧ current.components ≠ []) unproven
  require (importedFields current = importedFields previous) unproven
  require ((classifyRule R current).integrityErrors.toFinset = stampErrors.toFinset) unproven
  commitVersion R
    { publicRule current with
      schemaVersion := legacySchemaVersion
      approvalKey := ""
      problemCode := "" }
    { expectedVersion := 1
      changeType := "legacy_format_repaired"
      reason := "依据未变更的 0004 迁移快照恢复 V1 格式；保留原审批范围与历史版本"
      operator := operator
      createdAt := now } db

/-! ## Calls -/

inductive Call (μ : Type) where
  | upsertFeature (moment : Moment) (feature : Feature μ)
  | recordReuse (ruleId now : String)
  | commitVersion (rule : Rule) (change : Change)
  | changeStatus (change : StatusChange)
  | rollback (request : Rollback)
  | repairLegacyImport (ruleId operator now : String)

def perform (R : RuleResolver μ) (db : Database) : Call μ → Result (Rule × Database)
  | .upsertFeature moment feature => upsertFeature R moment feature db
  | .recordReuse ruleId now => recordReuse R ruleId now db
  | .commitVersion rule change => commitVersion R rule change db
  | .changeStatus change => changeStatus R change db
  | .rollback request => rollback R request db
  | .repairLegacyImport ruleId operator now => repairLegacyImport R ruleId operator now db

/-- A call that fails writes nothing. -/
def act (R : RuleResolver μ) (db : Database) (call : Call μ) : Database :=
  settled db (perform R db call)

end LogRisk.Governance
