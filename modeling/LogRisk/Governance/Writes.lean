import LogRisk.Governance.Database

/-!
# What a call writes

Every call that succeeds leaves the tables alone, counts a reuse, saves a rule or commits
a version.
-/

namespace LogRisk.Governance

open LogRisk.Library LogRisk.Library.Text LogRisk.Library.Transaction LogRisk.Approval

variable {μ : Type}

/-! ## Reading a row -/

section Read

variable {R : RuleResolver μ} {ruleId : String} {row : Row}

@[simp] theorem ruleId_hydrate :
    (hydratePersistedRule R ruleId row).ruleId = row.ruleJson.ruleId := rfl

@[simp] theorem reuseCount_hydrate :
    (hydratePersistedRule R ruleId row).reuseCount = row.ruleJson.reuseCount := rfl

theorem createdAt_hydrate : (hydratePersistedRule R ruleId row).createdAt =
    firstGiven row.ruleJson.createdAt row.approvedAt := rfl

/-- A rule that is read has a creation time if it has an approval time. -/
theorem createdAt_hydrate_eq_empty (h : (hydratePersistedRule R ruleId row).createdAt = "") :
    row.approvedAt = "" := by
  rw [createdAt_hydrate] at h
  unfold firstGiven at h
  split at h
  · exact h
  · exact absurd h ‹_›

theorem getRule_eq_some {db : Database} {rule : Rule} :
    getRule R db ruleId = some rule ↔
      ∃ row, db.approvedRules.get? ruleId = some row ∧ hydratePersistedRule R ruleId row = rule := by
  unfold getRule
  exact Option.map_eq_some_iff

theorem mem_readLocked {db : Database} {rule : Rule} :
    rule ∈ readLocked R db ↔ ∃ ruleId, getRule R db ruleId = some rule := by
  unfold readLocked
  simp only [List.mem_map, List.mem_insertionSort, getRule_eq_some, Dict.get?_eq_some, Prod.exists]

end Read

/-- A rule of the second format is looked up by its problem code and its key. -/
theorem projection_of_v2 {R : RuleResolver μ} {rule : Rule}
    (h : strip rule.schemaVersion ≠ legacySchemaVersion) :
    projection R rule = (some rule.problemCode, some rule.approvalKey) := by
  exact if_neg fun hlegacy => h (classifyWith_legacyV1_iff.mp hlegacy).2

/-! ## Rules that are brought up to date -/

theorem firstGiven_eq_empty {first second : String} (h : firstGiven first second = "") :
    first = "" ∧ second = "" := by
  unfold firstGiven at h
  split at h
  · rename_i hfirst
    exact ⟨hfirst, h⟩
  · exact absurd h ‹_›

theorem versionedFields_currentVersion (rule : Rule) (version : ℕ) :
    versionedFields { rule with currentVersion := version } = versionedFields rule := rfl

theorem signature_eq_of_versionedFields {a b : Rule} (h : versionedFields a = versionedFields b) :
    a.signature = b.signature := by
  have hsignature := congrArg Rule.signature h
  exact hsignature

/-- A rule that is brought up to date, but for its version. -/
def updatedContent (R : RuleResolver μ) (moment : Moment) (feature : Feature μ) (existing : Rule)
    (signature : String) : Rule :=
  { newRule R moment feature none existing.ruleId
      (firstGiven existing.approvalKey (approvalIdentity R.toResolver feature).approvalKey)
      signature with
    approvedAt := existing.approvedAt
    createdAt := firstGiven (firstGiven existing.createdAt existing.approvedAt) moment.now
    reuseCount := existing.reuseCount
    lastReusedAt := existing.lastReusedAt
    nextReviewAt := existing.nextReviewAt
    lineage := if lineageOf feature = [] then existing.lineage else lineageOf feature
    predecessorRuleId := existing.predecessorRuleId
    canonicalApprovalKey := existing.canonicalApprovalKey }

theorem updatedRule_eq (R : RuleResolver μ) (moment : Moment) (feature : Feature μ)
    (existing : Rule) (signature : String) :
    updatedRule R moment feature existing signature =
      { updatedContent R moment feature existing signature with
        currentVersion := max 1 existing.currentVersion +
          if versionedFields existing =
            versionedFields (updatedContent R moment feature existing signature) then 0 else 1 } := by
  unfold updatedRule updatedContent
  rfl

/-- What an update keeps of a rule and what it sets. -/
structure Updates (existing : Rule) (now signature : String) (rule : Rule) : Prop where
  ruleId : rule.ruleId = existing.ruleId
  signature : rule.signature = signature
  approvedAt : rule.approvedAt = existing.approvedAt
  createdAt : rule.createdAt = firstGiven (firstGiven existing.createdAt existing.approvedAt) now
  updatedAt : rule.updatedAt = now
  reuseCount : rule.reuseCount = existing.reuseCount
  schemaVersion : rule.schemaVersion = v2SchemaVersion
  status : rule.status = "active"
  nextReviewAt : rule.nextReviewAt = existing.nextReviewAt
  extra : rule.extra = []
  currentVersion : rule.currentVersion = max 1 existing.currentVersion +
    if versionedFields existing = versionedFields rule then 0 else 1

theorem updates_updatedRule (R : RuleResolver μ) (moment : Moment) (feature : Feature μ)
    (existing : Rule) (signature : String) :
    Updates existing moment.now signature (updatedRule R moment feature existing signature) := by
  rw [updatedRule_eq]
  have hruleId : (updatedContent R moment feature existing signature).ruleId = existing.ruleId := rfl
  have hsignature : (updatedContent R moment feature existing signature).signature = signature := rfl
  have happroved : (updatedContent R moment feature existing signature).approvedAt =
    existing.approvedAt := rfl
  have hcreated : (updatedContent R moment feature existing signature).createdAt =
    firstGiven (firstGiven existing.createdAt existing.approvedAt) moment.now := by
    unfold updatedContent
    rfl
  have hupdated : (updatedContent R moment feature existing signature).updatedAt = moment.now := rfl
  have hreuse : (updatedContent R moment feature existing signature).reuseCount =
    existing.reuseCount := rfl
  have hschema : (updatedContent R moment feature existing signature).schemaVersion =
    v2SchemaVersion := rfl
  have hstatus : (updatedContent R moment feature existing signature).status = "active" := rfl
  have hreview : (updatedContent R moment feature existing signature).nextReviewAt =
    existing.nextReviewAt := rfl
  have hextra : (updatedContent R moment feature existing signature).extra = [] := rfl
  generalize updatedContent R moment feature existing signature = updated at *
  refine ⟨hruleId, hsignature, happroved, hcreated, hupdated, hreuse, hschema, hstatus, hreview,
    hextra, ?_⟩
  have hsame (version : ℕ) : versionedFields { updated with currentVersion := version } =
    versionedFields updated := versionedFields_currentVersion updated version
  dsimp only at hsame ⊢
  simp only [hsame]

/-! ## Effects -/

section Effects

variable (R : RuleResolver μ)

/-- `commit_version` went through: the row was at the expected version and gets the next. -/
structure Committed (rule : Rule) (change : Change) (db next : Database) (row : Row) : Prop where
  found : db.approvedRules.get? rule.ruleId = some row
  expected : row.currentVersion = change.expectedVersion
  sound : hasFormat R .malformedV2 rule = false
  fresh : (rule.ruleId, row.currentVersion + 1) ∉ db.ruleVersions.keys
  rows : next.approvedRules = db.approvedRules.set rule.ruleId
    (committedRow R row rule (row.currentVersion + 1) change.createdAt)
  versions : ∃ version : Version,
    version.ruleJson = committedRule rule (row.currentVersion + 1) change.createdAt ∧
      next.ruleVersions = db.ruleVersions.set (rule.ruleId, row.currentVersion + 1) version
  events : next.ruleReuseEvents = db.ruleReuseEvents

/-- `_write_locked` went through. -/
structure Saved (rule : Rule) (db next : Database) (row : Row) : Prop where
  row_eq : row = savedRow R (publicRule rule) (db.approvedRules.get? rule.ruleId)
  schemaVersion : strip rule.schemaVersion ≠ ""
  rows : next.approvedRules = db.approvedRules.set rule.ruleId row
  versions : ∃ version : Version, version.ruleJson = publicRule rule ∧
    next.ruleVersions =
      if (rule.ruleId, row.currentVersion) ∈ db.ruleVersions.keys then db.ruleVersions
      else db.ruleVersions.set (rule.ruleId, row.currentVersion) version
  events : next.ruleReuseEvents = db.ruleReuseEvents

/-- `record_reuse` went through. -/
structure Reused (ruleId now : String) (db next : Database) (row : Row) : Prop where
  found : db.approvedRules.get? ruleId = some row
  sound : hasFormat R .malformedV2 (hydratePersistedRule R ruleId row) = false
  active : isActive (hydratePersistedRule R ruleId row) = true
  rows : next.approvedRules = db.approvedRules.set ruleId
    { row with ruleJson := reusedRule (hydratePersistedRule R ruleId row) now }
  versions : next.ruleVersions = db.ruleVersions
  events : next.ruleReuseEvents = db.ruleReuseEvents ++ [(ruleId, now)]

end Effects

section Spec

variable {R : RuleResolver μ} {db next : Database} {rule returned : Rule}

theorem committed_of_commitVersion {change : Change}
    (h : commitVersion R rule change db = .ok (returned, next)) :
    ∃ row, Committed R rule change db next row := by
  unfold commitVersion at h
  obtain ⟨row, hrow, h⟩ := orFail_bind_eq_ok.mp h
  obtain ⟨hexpected, h⟩ := require_bind_eq_ok.mp h
  obtain ⟨hsound, h⟩ := require_bind_eq_ok.mp h
  obtain ⟨-, h⟩ := require_bind_eq_ok.mp h
  obtain ⟨hfresh, h⟩ := require_bind_eq_ok.mp h
  cases h
  exact ⟨row, hrow, hexpected, hsound, hfresh, rfl, ⟨_, rfl, rfl⟩, rfl⟩

theorem saved_of_writeLocked (h : writeLocked R rule db = .ok next) : ∃ row, Saved R rule db next row := by
  unfold writeLocked at h
  obtain ⟨hschema, h⟩ := require_bind_eq_ok.mp h
  obtain ⟨-, h⟩ := require_bind_eq_ok.mp h
  obtain ⟨-, h⟩ := require_bind_eq_ok.mp h
  cases h
  exact ⟨_, rfl, hschema, rfl, ⟨_, rfl, rfl⟩, rfl⟩

theorem reused_of_recordReuse {ruleId now : String}
    (h : recordReuse R ruleId now db = .ok (returned, next)) :
    ∃ row, Reused R ruleId now db next row := by
  unfold recordReuse at h
  obtain ⟨row, hrow, h⟩ := orFail_bind_eq_ok.mp h
  obtain ⟨hsound, h⟩ := require_bind_eq_ok.mp h
  obtain ⟨hactive, h⟩ := require_bind_eq_ok.mp h
  cases h
  exact ⟨row, hrow, hsound, hactive, rfl, rfl, rfl⟩

theorem commitVersion_of_changeStatus {change : StatusChange}
    (h : changeStatus R change db = .ok (returned, next)) :
    ∃ current, getRule R db change.ruleId = some current ∧ change.status ∈ ruleStatuses ∧
      ∃ record : Change, record.expectedVersion = change.expectedVersion ∧
        commitVersion R (statusSnapshot change.status current) record db = .ok (returned, next) := by
  unfold changeStatus at h
  obtain ⟨hstatus, h⟩ := require_bind_eq_ok.mp h
  obtain ⟨-, h⟩ := require_bind_eq_ok.mp h
  obtain ⟨-, h⟩ := require_bind_eq_ok.mp h
  obtain ⟨current, hcurrent, h⟩ := orFail_bind_eq_ok.mp h
  exact ⟨current, hcurrent, hstatus, _, rfl, h⟩

theorem commitVersion_of_rollback {request : Rollback}
    (h : rollback R request db = .ok (returned, next)) :
    ∃ current target snapshot, getRule R db request.ruleId = some current ∧
      db.ruleVersions.get? (request.ruleId, request.targetVersion) = some target ∧
      normalizeLegacyRuleVersion R target.ruleJson = .ok snapshot ∧
      ∃ record : Change, record.expectedVersion = request.expectedVersion ∧
        commitVersion R (rollbackSnapshot snapshot current) record db = .ok (returned, next) := by
  unfold rollback at h
  obtain ⟨-, h⟩ := require_bind_eq_ok.mp h
  obtain ⟨-, h⟩ := require_bind_eq_ok.mp h
  obtain ⟨-, h⟩ := require_bind_eq_ok.mp h
  obtain ⟨current, hcurrent, h⟩ := orFail_bind_eq_ok.mp h
  obtain ⟨target, htarget, h⟩ := orFail_bind_eq_ok.mp h
  obtain ⟨snapshot, hsnapshot, h⟩ := bind_eq_ok.mp h
  obtain ⟨-, h⟩ := require_bind_eq_ok.mp h
  exact ⟨current, target, snapshot, hcurrent, htarget, hsnapshot, _, rfl, h⟩

theorem commitVersion_of_repair {ruleId operator now : String}
    (h : repairLegacyImport R ruleId operator now db = .ok (returned, next)) :
    ∃ current, getRule R db ruleId = some current ∧
      ∃ record : Change, commitVersion R
        { publicRule current with
          schemaVersion := legacySchemaVersion
          approvalKey := ""
          problemCode := "" } record db = .ok (returned, next) := by
  unfold repairLegacyImport at h
  obtain ⟨current, hcurrent, h⟩ := orFail_bind_eq_ok.mp h
  obtain ⟨first, -, h⟩ := orFail_bind_eq_ok.mp h
  iterate 7 obtain ⟨-, h⟩ := require_bind_eq_ok.mp h
  exact ⟨current, hcurrent, _, h⟩

/-- What an approval saves is the rule it found, brought up to date, or a new one. -/
inductive Approving (R : RuleResolver μ) (moment : Moment) (feature : Feature μ) (rules : List Rule) :
    Rule → Bool → Prop
  | found {rule : Rule} : Approving R moment feature rules rule false
  | updated {existing : Rule} (baseSignature : String)
      (hsignature : ruleSignature R.toResolver feature.featureType feature.sourceTemplates =
        .ok baseSignature)
      (hexisting : existingRule R feature rules = some existing)
      (hformat : isLegacyFeature feature (approvalIdentity R.toResolver feature) = false) :
      Approving R moment feature rules (updatedRule R moment feature existing
        (chosenSignature R rules baseSignature
          (firstGiven existing.approvalKey (approvalIdentity R.toResolver feature).approvalKey)
          (some existing))) true
  | created (baseSignature : String)
      (hsignature : ruleSignature R.toResolver feature.featureType feature.sourceTemplates =
        .ok baseSignature)
      (hfree : ∀ rule ∈ rules, occupies R feature baseSignature rule = false)
      (hnone : existingRule R feature rules = none) :
      Approving R moment feature rules (createdRule R moment feature rules baseSignature) true

theorem approving_of_approvedRule {moment : Moment} {feature : Feature μ} {rules : List Rule}
    {saved : Bool} (h : approvedRule R moment feature rules = .ok (rule, saved)) :
    Approving R moment feature rules rule saved := by
  unfold approvedRule at h
  obtain ⟨baseSignature, hsignature, h⟩ := bind_eq_ok.mp h
  dsimp only at h
  split at h
  · cases h
  · rename_i hfree
    split at h
    · rename_i existing hexisting
      split at h
      · cases h
        exact .found
      · rename_i hformat
        cases h
        exact .updated baseSignature hsignature hexisting (Bool.eq_false_of_not_eq_true hformat)
    · rename_i hnone
      cases h
      refine .created baseSignature hsignature (fun rule hrule => ?_) hnone
      exact Bool.eq_false_of_not_eq_true (List.find?_eq_none.mp hfree rule hrule)

theorem liftApproval_eq_ok {α : Type} {x : Approval.Result α} {value : α} :
    liftApproval x = .ok value ↔ x = .ok value := by
  cases x with
  | ok found =>
      unfold liftApproval
      rw [Except.ok.injEq, Except.ok.injEq]
  | error error =>
      unfold liftApproval
      exact iff_of_false (fun h => by cases h) fun h => by cases h

theorem upsertFeature_of_writeLocked {moment : Moment} {feature : Feature μ}
    (hrule : approvedRule R moment feature (readLocked R db) = .ok (rule, true))
    (hwrite : writeLocked R rule db = .ok next) :
    upsertFeature R moment feature db = .ok (publicRule rule, next) := by
  unfold upsertFeature
  refine bind_eq_ok.mpr ⟨(rule, true), liftApproval_eq_ok.mpr hrule, ?_⟩
  dsimp only
  rw [if_pos rfl]
  exact bind_eq_ok.mpr ⟨next, hwrite, rfl⟩

theorem saved_of_upsertFeature {moment : Moment} {feature : Feature μ}
    (h : upsertFeature R moment feature db = .ok (returned, next)) :
    next = db ∨ ∃ rule row, Approving R moment feature (readLocked R db) rule true ∧
      Saved R rule db next row := by
  unfold upsertFeature at h
  obtain ⟨⟨rule, saved⟩, hrule, h⟩ := bind_eq_ok.mp h
  have happroving := approving_of_approvedRule (liftApproval_eq_ok.mp hrule)
  dsimp only at h
  cases saved with
  | false =>
      cases h
      exact .inl rfl
  | true =>
      rw [if_pos rfl] at h
      obtain ⟨written, hwritten, h⟩ := bind_eq_ok.mp h
      cases h
      obtain ⟨row, hsaved⟩ := saved_of_writeLocked hwritten
      exact .inr ⟨rule, row, happroving, hsaved⟩

end Spec

end LogRisk.Governance
