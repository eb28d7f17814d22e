import LogRisk.Approval.Rules
import LogRisk.Library.Transaction

/-!
# The store of approved rules

Approving a feature updates the rule it is matched with, or writes a new one whose id and
key are digests of its approval identity.  A choice that is taken is given up for a
digest of the identity and the rule it replaces.
-/

namespace LogRisk.Approval

open LogRisk.Library LogRisk.Library.Text LogRisk.Library.Transaction

variable {μ : Type}

/-! ## Errors -/

inductive ApprovedRuleError where
  | invalid (message : String)
  | integrity (ruleId approvalKey signature : String) (integrityErrors : List String)

abbrev Result := Except ApprovedRuleError

/-! ## Signatures -/

def ruleSignature (R : Resolver μ) (featureType : String) (sources : List TemplateSource) :
    Result String := do
  require (strip featureType ≠ "") (.invalid "批准特征缺少 feature_type 或模板 Hash，无法生成规则")
  require (templatePairs sources ≠ []) (.invalid "批准特征缺少 feature_type 或模板 Hash，无法生成规则")
  return R.sha256 (Json.arr [.str (normalizeFeatureType featureType),
    .arr ((templatePairs sources).map signatureJson)]).dumps

def approvalRuleSignature (R : Resolver μ) (baseSignature approvalKey : String) : String :=
  R.sha256 (Json.arr [.str baseSignature, .str approvalKey]).dumps

/-! ## The rules a feature meets -/

section Meets

variable (R : RuleResolver μ) (feature : Feature μ) (rules : List Rule)

/-- The keys a malformed rule may not occupy. -/
def incomingKeys : List String :=
  [(approvalIdentity R.toResolver feature).approvalKey, featureStorageKey R.toResolver feature]

/-- A malformed rule that occupies the identity of the feature. -/
def occupies (baseSignature : String) (rule : Rule) : Bool :=
  hasFormat R .malformedV2 rule &&
    ((incomingKeys R feature).contains (strip rule.approvalKey) ||
      (incomingKeys R feature).contains (strip (rule.canonicalApprovalKey.getD "")) ||
      rule.signature = baseSignature)

/-- The active rule the feature is matched with. -/
def existingRule : Option Rule :=
  let identity := approvalIdentity R.toResolver feature
  let valid := rules.filter fun rule => isActive rule && hasFormat R .validV2 rule
  if isLegacyFeature feature identity then
    preferredRule (rules.filter fun rule =>
      isActive rule && hasFormat R .legacyV1 rule && legacyFeatureMatches rule feature)
  else
    match preferredRule (valid.filter fun rule => v2ExactFeatureMatch R rule feature identity) with
    | some rule => some rule
    | none =>
        if identity.matchMode = .semantic then
          preferredRule (valid.filter fun rule => semanticMatch R rule identity)
        else none

/-- The inactive rule the feature would have been matched with. -/
def predecessorRule : Option Rule :=
  preferredRule (rules.filter fun rule =>
    hasFormat R .validV2 rule && !isActive rule && inactiveRuleMatches R rule feature)

end Meets

/-! ## New ids and keys -/

section New

variable (R : RuleResolver μ) (feature : Feature μ) (rules : List Rule)

/-- `approval_key` of a new rule. -/
def newApprovalKey (predecessor : Option Rule) : String :=
  let approvalKey := featureStorageKey R.toResolver feature
  match predecessor with
  | none => approvalKey
  | some rule =>
      if rules.any (·.approvalKey = approvalKey) then
        replacementKey R.toResolver (approvalIdentity R.toResolver feature).approvalKey rule.ruleId
      else approvalKey

/-- The id a new rule is given first. -/
def baseRuleId (approvalKey : String) : String :=
  let identity := approvalIdentity R.toResolver feature
  if identity.matchMode = .templateSet ∧ identity.semanticSafe = true then
    templateSetRuleId R.toResolver approvalKey
  else approvalRuleId identity.approvalKey

/-- What an id that is taken is derived anew from. -/
def replacedId (predecessor : Option Rule) (base : String) : String :=
  firstGiven ((predecessor.map Rule.ruleId).getD "") base

/-- `rule_id` of a new rule.  The second choice is not looked up again. -/
def newRuleId (predecessor : Option Rule) (approvalKey : String) : String :=
  let base := baseRuleId R feature approvalKey
  if rules.any (·.ruleId = base) then
    replacementRuleId R.toResolver (approvalIdentity R.toResolver feature).approvalKey
      (replacedId predecessor base)
  else base

/-- The base signature, or one of its own where another rule has it. -/
def chosenSignature (baseSignature approvalKey : String) (existing : Option Rule) : String :=
  if rules.any fun rule => rule.signature = baseSignature &&
      existing.all fun old => rule.ruleId ≠ old.ruleId then
    approvalRuleSignature R.toResolver baseSignature approvalKey
  else baseSignature

end New

/-! ## Writing a rule -/

/-- The clock, and `_next_review` of it. -/
structure Moment where
  now : String
  nextReview : String

/-- `_lineage`. -/
def lineageOf (feature : Feature μ) : List (String × String) :=
  feature.lineage.filter (·.2 ≠ "")

/-- `_versioned_fields`: the rule with all other fields left blank. -/
def versionedFields (rule : Rule) : Rule :=
  { rule with
    ruleId := ""
    approvedAt := ""
    createdAt := ""
    updatedAt := ""
    reuseCount := 0
    lastReusedAt := none
    schemaVersion := ""
    status := ""
    nextReviewAt := ""
    currentVersion := 0
    extra := []
    integrityErrors := [] }

/-- A rule for a feature no active rule matches. -/
def newRule (R : RuleResolver μ) (moment : Moment) (feature : Feature μ)
    (predecessor : Option Rule) (ruleId approvalKey signature : String) : Rule :=
  let identity := approvalIdentity R.toResolver feature
  { ruleId := ruleId
    signature := signature
    featureType := normalizeFeatureType feature.featureType
    title := strip feature.title
    summary := strip feature.summary
    importance := strip (firstGiven feature.importance "medium")
    tags := stripped feature.tags
    selectionReason := strip feature.selectionReason
    components := identity.componentScope
    templateSignatures := templatePairs feature.sourceTemplates
    problemCode := identity.problemCode
    approvalKey := approvalKey
    anchorSignatures := identity.anchorSignatures
    supportingSignatures := feature.supportingSignatures
    matchMode := some identity.matchMode
    approvedAt := moment.now
    createdAt := moment.now
    updatedAt := moment.now
    reuseCount := 0
    lastReusedAt := none
    schemaVersion := v2SchemaVersion
    status := "active"
    nextReviewAt := moment.nextReview
    lineage := lineageOf feature ++
      (predecessor.map fun rule => ("predecessor_rule_id", rule.ruleId)).toList
    predecessorRuleId := predecessor.map Rule.ruleId
    canonicalApprovalKey :=
      if predecessor.isSome = true ∨ identity.matchMode = .templateSet ∧ identity.semanticSafe = true
      then some identity.approvalKey else none
    currentVersion := 1
    extra := []
    integrityErrors := [] }

/-- The rule a matched feature leaves behind; a change of content is a new version. -/
def updatedRule (R : RuleResolver μ) (moment : Moment) (feature : Feature μ) (existing : Rule)
    (signature : String) : Rule :=
  let identity := approvalIdentity R.toResolver feature
  let content :=
    { newRule R moment feature none existing.ruleId
        (firstGiven existing.approvalKey identity.approvalKey) signature with
      approvedAt := existing.approvedAt
      createdAt := firstGiven (firstGiven existing.createdAt existing.approvedAt) moment.now
      reuseCount := existing.reuseCount
      lastReusedAt := existing.lastReusedAt
      nextReviewAt := existing.nextReviewAt
      lineage := if lineageOf feature = [] then existing.lineage else lineageOf feature
      predecessorRuleId := existing.predecessorRuleId
      canonicalApprovalKey := existing.canonicalApprovalKey }
  { content with
    currentVersion :=
      max 1 existing.currentVersion +
        if versionedFields existing = versionedFields content then 0 else 1 }

/-- `rules.sort(key=...)`. -/
def sortRules (rules : List Rule) : List Rule := rules.insertionSort (·.ruleId ≤ ·.ruleId)

/-! ## Calls -/

section Calls

variable (R : RuleResolver μ)

/-- The new rule of a feature that matches none. -/
def createdRule (moment : Moment) (feature : Feature μ) (rules : List Rule)
    (baseSignature : String) : Rule :=
  let predecessor := predecessorRule R feature rules
  let approvalKey := newApprovalKey R feature rules predecessor
  newRule R moment feature predecessor (newRuleId R feature rules predecessor approvalKey)
    approvalKey (chosenSignature R rules baseSignature approvalKey none)

/-- `ApprovedRuleStore.upsert_feature`, over the rules of the file. -/
def upsertFeature (moment : Moment) (feature : Feature μ) (rules : List Rule) :
    Result (Rule × List Rule) := do
  let baseSignature ← ruleSignature R.toResolver feature.featureType feature.sourceTemplates
  match rules.find? (occupies R feature baseSignature) with
  | some rule =>
      throw (.integrity rule.ruleId rule.approvalKey rule.signature
        (classifyRule R rule).integrityErrors)
  | none =>
      match existingRule R feature rules with
      | some existing =>
          if isLegacyFeature feature (approvalIdentity R.toResolver feature) then
            return (existing, rules)
          else
            let approvalKey := firstGiven existing.approvalKey
              (approvalIdentity R.toResolver feature).approvalKey
            let rule := updatedRule R moment feature existing
              (chosenSignature R rules baseSignature approvalKey (some existing))
            return (rule, sortRules (rules.replace existing rule))
      | none =>
          let rule := createdRule R moment feature rules baseSignature
          return (rule, sortRules (rules ++ [rule]))

structure StatusChange where
  ruleId : String
  status : String
  expectedVersion : ℕ
  operator : String
  reason : String
  createdAt : String

/-- `RuleGovernanceService.change_status` and `commit_version`. -/
def changeStatus (change : StatusChange) (rules : List Rule) : Result (Rule × List Rule) := do
  require (change.status ∈ ruleStatuses) (.invalid "规则状态无效")
  require (strip change.operator ≠ "") (.invalid "字段 operator 不能为空")
  require (strip change.reason ≠ "") (.invalid "字段 reason 不能为空")
  let current ← orFail (rules.find? (·.ruleId = change.ruleId)) (.invalid "规则不存在")
  require (current.currentVersion = change.expectedVersion)
    (.invalid ("规则版本冲突，当前版本为 " ++ toString current.currentVersion))
  let snapshot := { current with status := change.status }
  require (hasFormat R .malformedV2 snapshot = false) (.invalid "规则快照损坏，无法提交治理变更")
  let committed := { snapshot with
    currentVersion := current.currentVersion + 1
    updatedAt := change.createdAt }
  return (committed, rules.map fun rule => if rule.ruleId = change.ruleId then committed else rule)

inductive Call (μ : Type) where
  | upsertFeature (moment : Moment) (feature : Feature μ)
  | changeStatus (change : StatusChange)

def perform (rules : List Rule) : Call μ → Result (Rule × List Rule)
  | .upsertFeature moment feature => upsertFeature R moment feature rules
  | .changeStatus change => changeStatus R change rules

/-- A call that fails writes nothing. -/
def act (rules : List Rule) (call : Call μ) : List Rule := settled rules (perform R rules call)

end Calls

/-! ## What a call can do -/

@[simp] theorem mem_sortRules {rules : List Rule} {rule : Rule} :
    rule ∈ sortRules rules ↔ rule ∈ rules := List.mem_insertionSort _

theorem perm_sortRules (rules : List Rule) : (sortRules rules).Perm rules :=
  List.perm_insertionSort _ _

theorem mem_of_preferredRule {rules : List Rule} {rule : Rule} (h : preferredRule rules = some rule) :
    rule ∈ rules := by
  unfold preferredRule at h
  cases hlatest : (rules.map Rule.updatedAt).max? with
  | none =>
      rw [hlatest] at h
      cases h
  | some latest =>
      rw [hlatest] at h
      have hmem := List.mem_of_mem_head? (Option.mem_def.mpr h)
      rw [List.mem_insertionSort] at hmem
      exact List.mem_of_mem_filter hmem

/-- Some rule is preferred unless there is none. -/
theorem preferredRule_eq_none {rules : List Rule} : preferredRule rules = none ↔ rules = [] := by
  constructor
  · intro h
    unfold preferredRule at h
    cases hlatest : (rules.map Rule.updatedAt).max? with
    | none => exact List.map_eq_nil_iff.mp (List.max?_eq_none_iff.mp hlatest)
    | some latest =>
        rw [hlatest] at h
        obtain ⟨rule, hrule, hupdated⟩ := List.mem_map.mp (List.max?_mem hlatest)
        have hmem : rule ∈ ((rules.filter (·.updatedAt = latest)).insertionSort
            (·.ruleId ≤ ·.ruleId)) := by
          rw [List.mem_insertionSort]
          exact List.mem_filter.mpr ⟨hrule, decide_eq_true hupdated⟩
        rw [List.head?_eq_none_iff.mp h] at hmem
        cases hmem
  · rintro rfl
    rfl

theorem mem_of_existingRule {R : RuleResolver μ} {feature : Feature μ} {rules : List Rule}
    {rule : Rule} (h : existingRule R feature rules = some rule) : rule ∈ rules := by
  unfold existingRule at h
  dsimp only at h
  split at h
  · exact List.mem_of_mem_filter (mem_of_preferredRule h)
  · split at h
    · rename_i found hfound
      cases h
      exact List.mem_of_mem_filter (List.mem_of_mem_filter (mem_of_preferredRule hfound))
    · split at h
      · exact List.mem_of_mem_filter (List.mem_of_mem_filter (mem_of_preferredRule h))
      · cases h

/-- The rule a feature of the second format is matched with is stored, active and well
formed. -/
theorem existingRule_spec {R : RuleResolver μ} {feature : Feature μ} {rules : List Rule}
    {rule : Rule} (h : existingRule R feature rules = some rule)
    (hformat : isLegacyFeature feature (approvalIdentity R.toResolver feature) = false) :
    rule ∈ rules ∧ isActive rule = true ∧ hasFormat R .validV2 rule = true := by
  have hvalid : rule ∈ rules.filter fun rule => isActive rule && hasFormat R .validV2 rule := by
    unfold existingRule at h
    dsimp only at h
    rw [hformat, if_neg Bool.false_ne_true] at h
    split at h
    · rename_i found hfound
      cases h
      exact List.mem_of_mem_filter (mem_of_preferredRule hfound)
    · split at h
      · exact List.mem_of_mem_filter (mem_of_preferredRule h)
      · cases h
  obtain ⟨hmem, hboth⟩ := List.mem_filter.mp hvalid
  rw [Bool.and_eq_true] at hboth
  exact ⟨hmem, hboth⟩

end LogRisk.Approval
