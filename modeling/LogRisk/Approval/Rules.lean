import LogRisk.Approval.Identity

/-!
# Approved rules

A rule as it is stored, what makes it well formed, and which rules a feature is matched
with.  A rule of the first format is matched by its exact templates, one of the second by
its approval key or, where its problem is resolved safely, by its problem code.
-/

namespace LogRisk.Approval

open LogRisk.Library LogRisk.Library.Text

variable {μ : Type}

/-! ## Rules -/

/-- `extra` are the keys a new rule is not written with, `integrityErrors` what reading a
row of the database found wrong with it. -/
structure Rule where
  ruleId : String
  signature : String
  featureType : String
  title : String
  summary : String
  importance : String
  tags : List String
  selectionReason : String
  components : List String
  templateSignatures : List TemplateSource
  problemCode : String
  approvalKey : String
  anchorSignatures : List String
  supportingSignatures : List String
  matchMode : Option MatchMode
  approvedAt : String
  createdAt : String
  updatedAt : String
  reuseCount : ℕ
  lastReusedAt : Option String
  schemaVersion : String
  status : String
  nextReviewAt : String
  lineage : List (String × String)
  predecessorRuleId : Option String
  canonicalApprovalKey : Option String
  currentVersion : ℕ
  extra : List (String × String)
  integrityErrors : List String
deriving DecidableEq

/-- A resolver that also resolves the problem of a stored rule. -/
structure RuleResolver (μ : Type) extends Resolver μ where
  resolveRule : Rule → Resolution

def legacySchemaVersion : String := "approved_rule_v1"

def v2SchemaVersion : String := "approved_rule_v2"

/-- `_RULE_STATUSES`. -/
def ruleStatuses : List String := ["active", "disabled", "under_review", "deprecated", "archived"]

/-- `_is_active`. -/
def isActive (rule : Rule) : Bool := firstGiven rule.status "active" = "active"

/-- `_preferred_rule`: the least id among the rules updated last. -/
def preferredRule (rules : List Rule) : Option Rule :=
  match (rules.map Rule.updatedAt).max? with
  | none => none
  | some latest =>
      ((rules.filter (·.updatedAt = latest)).insertionSort (·.ruleId ≤ ·.ruleId)).head?

/-- `_legacy_components`. -/
def ruleComponents (components : List String) (templates : List TemplateSource) : List String :=
  if lowered components ≠ [] then sortedSet (lowered components)
  else sortedSet (lowered (templates.map TemplateSource.component))

/-- `_legacy_anchors`. -/
def legacyAnchors (anchors : List String) (templates : List TemplateSource) : List String :=
  if stripped anchors ≠ [] then sortedSet (stripped anchors)
  else sortedSet ((v2TemplatePairs templates).map fun pair =>
    (ofLex pair).1 ++ "|" ++ (ofLex pair).2)

/-! ## Well-formed rules -/

/-- `_rule_identity`. -/
def ruleIdentity (R : RuleResolver μ) (rule : Rule) : Identity where
  problemCode := (R.normalizeProblemCode rule.problemCode).getD ""
  approvalKey := R.buildApprovalKey rule.featureType
    ((R.normalizeProblemCode rule.problemCode).getD "")
    (ruleComponents rule.components rule.templateSignatures)
    (sortedSet (stripped rule.anchorSignatures)) (some (decide (rule.matchMode = some .semantic)))
  componentScope := ruleComponents rule.components rule.templateSignatures
  anchorSignatures := sortedSet (stripped rule.anchorSignatures)
  matchMode := rule.matchMode.getD .templateSet
  semanticSafe := false

/-- `_key_matches_expected`. -/
def keyMatchesExpected (stored expected : String) : Bool :=
  stored = expected || (expected ++ ":replacement-").toList.isPrefixOf stored.toList

/-- `_valid_template_list`, for one item. -/
def validTemplate (item : TemplateSource) : Bool :=
  strip (firstGiven item.templateFingerprint item.templateHash) ≠ ""

/-- `error`, when the check fails. -/
def complaint (failed : Bool) (error : String) : List String := if failed then [error] else []

/-- The errors of a rule matched by its problem code. -/
def semanticErrors (R : RuleResolver μ) (rule : Rule) : List String :=
  let expected := R.buildApprovalKey rule.featureType
    ((R.normalizeProblemCode rule.problemCode).getD "") rule.components rule.anchorSignatures none
  let canonical := strip (rule.canonicalApprovalKey.getD "")
  complaint (!(R.resolveRule rule).semanticSafe) "semantic_problem_code_invalid" ++
    complaint (!keyMatchesExpected (strip rule.approvalKey) expected) "approval_key_mismatch" ++
    complaint (canonical ≠ "" && canonical ≠ expected) "canonical_approval_key_mismatch"

/-- The errors of a rule matched by its templates. -/
def templateSetErrors (R : RuleResolver μ) (rule : Rule) : List String :=
  let identity := ruleIdentity R rule
  let expected := storageKey R.toResolver rule.featureType rule.templateSignatures identity
  let stored := strip rule.approvalKey
  complaint (identity.componentScope = []) "template_set_components_missing" ++
    complaint (v2TemplatePairs rule.templateSignatures = []) "template_set_templates_missing" ++
    complaint (!keyMatchesExpected stored expected && !keyMatchesExpected stored identity.approvalKey)
      "approval_key_mismatch" ++
    complaint (strip (rule.canonicalApprovalKey.getD "") ≠ "") "canonical_approval_key_unexpected"

/-- `validate_v2_rule`. -/
def validateV2Rule (R : RuleResolver μ) (rule : Rule) : List String :=
  complaint (rule.schemaVersion ≠ v2SchemaVersion) "schema_version_invalid" ++
    complaint (strip rule.ruleId = "") "rule_id_missing" ++
    complaint (strip rule.signature = "") "signature_missing" ++
    complaint (strip rule.featureType = "") "feature_type_missing" ++
    complaint (strip rule.approvalKey = "") "approval_key_missing" ++
    complaint (normalizeFeatureType rule.featureType = "unknown_feature") "feature_type_invalid" ++
    complaint (rule.components.any (strip · = "")) "components_invalid" ++
    complaint (rule.anchorSignatures.any (strip · = "")) "anchor_signatures_invalid" ++
    complaint (!rule.templateSignatures.all validTemplate) "template_signatures_invalid" ++
    complaint (!ruleStatuses.contains rule.status) "status_invalid" ++
    complaint (rule.currentVersion < 1) "current_version_invalid" ++
    complaint (rule.matchMode = none) "match_mode_missing_or_invalid" ++
    complaint ((R.normalizeProblemCode rule.problemCode).getD "" = "") "problem_code_missing" ++
    match rule.matchMode with
    | some .semantic => semanticErrors R rule
    | some .templateSet => templateSetErrors R rule
    | none => []

inductive RuleFormat where
  | legacyV1
  | validV2
  | malformedV2
deriving DecidableEq

structure RuleClassification where
  kind : RuleFormat
  integrityErrors : List String

/-- `classify_rule`, after the errors found before. -/
def classifyWith (R : RuleResolver μ) (rule : Rule) (found : List String) : RuleClassification :=
  let version := strip rule.schemaVersion
  if version = legacySchemaVersion then
    if found = [] then ⟨.legacyV1, []⟩ else ⟨.malformedV2, found.eraseDups⟩
  else
    let errors := found ++
      if version = v2SchemaVersion then validateV2Rule R rule
      else ["schema_version_missing_or_unknown"]
    if version = v2SchemaVersion ∧ errors = [] then ⟨.validV2, []⟩
    else ⟨.malformedV2, errors.eraseDups⟩

/-- `classify_rule`. -/
def classifyRule (R : RuleResolver μ) (rule : Rule) : RuleClassification :=
  classifyWith R rule rule.integrityErrors

def hasFormat (R : RuleResolver μ) (format : RuleFormat) (rule : Rule) : Bool :=
  (classifyRule R rule).kind = format

theorem classifyWith_validV2_iff {R : RuleResolver μ} {rule : Rule} {found : List String} :
    (classifyWith R rule found).kind = .validV2 ↔
      found = [] ∧ strip rule.schemaVersion = v2SchemaVersion ∧ validateV2Rule R rule = [] := by
  unfold classifyWith
  dsimp only
  by_cases hlegacy : strip rule.schemaVersion = legacySchemaVersion
  · rw [if_pos hlegacy]
    refine iff_of_false (fun h => ?_) fun h => ?_
    · split at h <;> cases h
    · rw [h.2.1] at hlegacy
      exact absurd hlegacy (by decide)
  · rw [if_neg hlegacy]
    by_cases hversion : strip rule.schemaVersion = v2SchemaVersion
    · rw [if_pos hversion]
      split
      · rename_i hvalid
        exact iff_of_true rfl ⟨(List.append_eq_nil_iff.mp hvalid.2).1, hversion,
          (List.append_eq_nil_iff.mp hvalid.2).2⟩
      · rename_i hno
        refine iff_of_false (fun h => by cases h) fun h => hno ⟨hversion, ?_⟩
        rw [h.1, h.2.2]
        rfl
    · rw [if_neg hversion, if_neg fun hboth => hversion hboth.1]
      exact iff_of_false (fun h => by cases h) fun h => hversion h.2.1

theorem classifyWith_legacyV1_iff {R : RuleResolver μ} {rule : Rule} {found : List String} :
    (classifyWith R rule found).kind = .legacyV1 ↔
      found = [] ∧ strip rule.schemaVersion = legacySchemaVersion := by
  unfold classifyWith
  dsimp only
  by_cases hlegacy : strip rule.schemaVersion = legacySchemaVersion
  · rw [if_pos hlegacy]
    split
    · rename_i hnone
      exact iff_of_true rfl ⟨hnone, hlegacy⟩
    · rename_i hsome
      exact iff_of_false (fun h => by cases h) fun h => hsome h.1
  · rw [if_neg hlegacy]
    refine iff_of_false (fun h => ?_) fun h => hlegacy h.2
    by_cases hvalid : strip rule.schemaVersion = v2SchemaVersion ∧
        (found ++ if strip rule.schemaVersion = v2SchemaVersion then validateV2Rule R rule
          else ["schema_version_missing_or_unknown"]) = []
    · rw [if_pos hvalid] at h
      cases h
    · rw [if_neg hvalid] at h
      cases h

theorem complaint_eq_nil {failed : Bool} {error : String} :
    complaint failed error = [] ↔ failed = false := by
  unfold complaint
  cases failed with
  | false => exact iff_of_true rfl rfl
  | true => exact iff_of_false (List.cons_ne_nil _ _) Bool.noConfusion

/-- The key a semantic rule is expected under. -/
def expectedKey (R : RuleResolver μ) (rule : Rule) : String :=
  R.buildApprovalKey rule.featureType ((R.normalizeProblemCode rule.problemCode).getD "")
    rule.components rule.anchorSignatures none

theorem semanticErrors_eq_nil_iff {R : RuleResolver μ} {rule : Rule} :
    semanticErrors R rule = [] ↔ (R.resolveRule rule).semanticSafe = true ∧
      keyMatchesExpected (strip rule.approvalKey) (expectedKey R rule) = true ∧
      (strip (rule.canonicalApprovalKey.getD "") = "" ∨
        strip (rule.canonicalApprovalKey.getD "") = expectedKey R rule) := by
  unfold semanticErrors expectedKey
  simp only [List.append_eq_nil_iff, complaint_eq_nil, Bool.not_eq_false', Bool.and_eq_false_iff,
    decide_eq_false_iff_not, not_not, and_assoc]

theorem templateSetErrors_eq_nil_iff {R : RuleResolver μ} {rule : Rule} :
    templateSetErrors R rule = [] ↔ ruleComponents rule.components rule.templateSignatures ≠ [] ∧
      v2TemplatePairs rule.templateSignatures ≠ [] ∧
      (keyMatchesExpected (strip rule.approvalKey)
          (storageKey R.toResolver rule.featureType rule.templateSignatures
            (ruleIdentity R rule)) = true ∨
        keyMatchesExpected (strip rule.approvalKey) (ruleIdentity R rule).approvalKey = true) ∧
      strip (rule.canonicalApprovalKey.getD "") = "" := by
  unfold templateSetErrors
  simp only [List.append_eq_nil_iff, complaint_eq_nil, Bool.not_eq_false', Bool.and_eq_false_iff,
    decide_eq_false_iff_not, not_not, and_assoc, ne_eq]
  exact Iff.rfl

/-- The checks of `validate_v2_rule`. -/
structure WellFormed (R : RuleResolver μ) (rule : Rule) : Prop where
  schemaVersion : rule.schemaVersion = v2SchemaVersion
  ruleId : strip rule.ruleId ≠ ""
  signature : strip rule.signature ≠ ""
  featureType : strip rule.featureType ≠ ""
  approvalKey : strip rule.approvalKey ≠ ""
  knownType : normalizeFeatureType rule.featureType ≠ "unknown_feature"
  components : ∀ component ∈ rule.components, strip component ≠ ""
  anchorSignatures : ∀ anchor ∈ rule.anchorSignatures, strip anchor ≠ ""
  templateSignatures : ∀ item ∈ rule.templateSignatures, validTemplate item = true
  status : rule.status ∈ ruleStatuses
  currentVersion : 1 ≤ rule.currentVersion
  problemCode : (R.normalizeProblemCode rule.problemCode).getD "" ≠ ""
  mode : rule.matchMode = some .semantic ∧ semanticErrors R rule = [] ∨
    rule.matchMode = some .templateSet ∧ templateSetErrors R rule = []

theorem validateV2Rule_eq_nil_iff {R : RuleResolver μ} {rule : Rule} :
    validateV2Rule R rule = [] ↔ WellFormed R rule := by
  unfold validateV2Rule
  simp only [List.append_eq_nil_iff, complaint_eq_nil, decide_eq_false_iff_not, not_not,
    List.any_eq_false, decide_eq_true_eq, Bool.not_eq_false', List.all_eq_true,
    List.contains_iff_mem, not_lt]
  constructor
  · rintro ⟨⟨⟨⟨⟨⟨⟨⟨⟨⟨⟨⟨⟨hschema, hid⟩, hsignature⟩, htype⟩, hkey⟩, hknown⟩, hcomponents⟩, hanchors⟩,
      htemplates⟩, hstatus⟩, hversion⟩, hmode⟩, hcode⟩, herrors⟩
    refine ⟨hschema, hid, hsignature, htype, hkey, hknown, hcomponents, hanchors, htemplates, hstatus,
      hversion, hcode, ?_⟩
    cases hcases : rule.matchMode with
    | none => exact absurd hcases hmode
    | some mode =>
        rw [hcases] at herrors
        cases mode with
        | semantic => exact .inl ⟨rfl, herrors⟩
        | templateSet => exact .inr ⟨rfl, herrors⟩
  · intro h
    refine ⟨⟨⟨⟨⟨⟨⟨⟨⟨⟨⟨⟨⟨h.schemaVersion, h.ruleId⟩, h.signature⟩, h.featureType⟩, h.approvalKey⟩,
      h.knownType⟩, h.components⟩, h.anchorSignatures⟩, h.templateSignatures⟩, h.status⟩,
      h.currentVersion⟩, ?_⟩, h.problemCode⟩, ?_⟩
    · rcases h.mode with ⟨hmode, -⟩ | ⟨hmode, -⟩
      · rw [hmode]
        exact Option.some_ne_none _
      · rw [hmode]
        exact Option.some_ne_none _
    · rcases h.mode with ⟨hmode, herrors⟩ | ⟨hmode, herrors⟩
      · rw [hmode]
        exact herrors
      · rw [hmode]
        exact herrors

theorem hasFormat_validV2_iff {R : RuleResolver μ} {rule : Rule} :
    hasFormat R .validV2 rule = true ↔ rule.integrityErrors = [] ∧
      strip rule.schemaVersion = v2SchemaVersion ∧ WellFormed R rule := by
  unfold hasFormat classifyRule
  rw [decide_eq_true_eq, classifyWith_validV2_iff, validateV2Rule_eq_nil_iff]

theorem wellFormed_of_validV2 {R : RuleResolver μ} {rule : Rule}
    (h : hasFormat R .validV2 rule = true) : WellFormed R rule :=
  (hasFormat_validV2_iff.mp h).2.2

/-- A well-formed rule has an approval key. -/
theorem approvalKey_ne_empty {R : RuleResolver μ} {rule : Rule}
    (h : hasFormat R .validV2 rule = true) : rule.approvalKey ≠ "" := by
  intro hempty
  have hkey := (wellFormed_of_validV2 h).approvalKey
  rw [hempty] at hkey
  exact hkey (by decide)

/-- A well-formed active rule says so. -/
theorem status_eq_active {R : RuleResolver μ} {rule : Rule} (h : hasFormat R .validV2 rule = true)
    (hactive : isActive rule = true) : rule.status = "active" := by
  have hactive : firstGiven rule.status "active" = "active" := of_decide_eq_true hactive
  unfold firstGiven at hactive
  split at hactive
  · rename_i hempty
    have hmem := (wellFormed_of_validV2 h).status
    rw [hempty] at hmem
    exact absurd hmem (by decide)
  · exact hactive

/-! ## Matching -/

/-- `_is_legacy_feature`. -/
def isLegacyFeature (feature : Feature μ) (identity : Identity) : Bool :=
  let version := strip feature.schemaVersion
  let key := strip feature.approvalKey
  if version = legacySchemaVersion then true
  else if version ≠ "" ∧ version ≠ v2SchemaVersion then true
  else if version = v2SchemaVersion then false
  else if feature.problemResolved = true ∧ feature.matchMode.isSome = true then false
  else key ≠ "" && key ≠ identity.approvalKey &&
    strip feature.canonicalApprovalKey ≠ identity.approvalKey

/-- The hash and the fingerprint of a template. -/
def templateIds (item : TemplateSource) : List String :=
  stripped [item.templateHash, item.templateFingerprint]

/-- `_selected_template_ids_covered`. -/
def selectedTemplateIdsCovered (feature : Feature μ) : Bool :=
  (stripped feature.templateHashes).all fun selected =>
    (feature.sources.flatMap templateIds).contains selected

/-- `_v2_exact_feature_match`. -/
def v2ExactFeatureMatch (R : RuleResolver μ) (rule : Rule) (feature : Feature μ)
    (identity : Identity) : Bool :=
  if !hasFormat R .validV2 rule then false
  else if rule.approvalKey ≠ identity.approvalKey ∧
      rule.approvalKey ≠ storageKey R.toResolver feature.featureType feature.sources identity ∧
      rule.canonicalApprovalKey ≠ some identity.approvalKey then false
  else match rule.matchMode with
    | some .semantic => identity.matchMode = .semantic
    | _ =>
        if identity.matchMode ≠ .templateSet then false
        -- `_template_set_rule_complete`
        else if rule.matchMode ≠ some .templateSet ∨ normalizeFeatureType rule.featureType = "unknown_feature" ∨
            ruleComponents rule.components rule.templateSignatures = [] ∨
            v2TemplatePairs rule.templateSignatures = [] then false
        else selectedTemplateIdsCovered feature &&
          normalizeFeatureType rule.featureType = normalizeFeatureType feature.featureType &&
          ruleComponents rule.components rule.templateSignatures = sortedSet identity.componentScope &&
          sortedSet (stripped rule.anchorSignatures) = sortedSet identity.anchorSignatures &&
          v2TemplatePairs rule.templateSignatures = v2TemplatePairs feature.sources

/-- `_legacy_feature_identity`: the templates a feature of the first format stands on, none
when a selected one is missing. -/
def legacyEvidence (feature : Feature μ) : Option (List TemplateSource) :=
  let selected := stripped feature.templateHashes
  let evidence := feature.sources.filter fun item =>
    selected = [] || (templateIds item).any (selected.contains ·)
  if selected.all ((evidence.flatMap templateIds).contains ·) then some evidence else none

/-- `_legacy_feature_matches`. -/
def legacyFeatureMatches (rule : Rule) (feature : Feature μ) : Bool :=
  match legacyEvidence feature with
  | none => false
  | some evidence =>
      strip rule.featureType ≠ "" && strip feature.featureType ≠ "" &&
        normalizeFeatureType rule.featureType = normalizeFeatureType feature.featureType &&
        v2TemplatePairs rule.templateSignatures ≠ [] &&
        v2TemplatePairs rule.templateSignatures = v2TemplatePairs evidence &&
        ruleComponents rule.components rule.templateSignatures =
          ruleComponents feature.components evidence &&
        legacyAnchors rule.anchorSignatures rule.templateSignatures =
          legacyAnchors feature.anchorSignatures evidence

/-- A rule matched by the problem code of the identity. -/
def semanticMatch (R : RuleResolver μ) (rule : Rule) (identity : Identity) : Bool :=
  rule.matchMode = some .semantic && (R.resolveRule rule).semanticSafe &&
    (R.resolveRule rule).problemCode = some identity.problemCode

/-- `_rule_matches_feature(..., active_only=False)`, for a well-formed rule. -/
def inactiveRuleMatches (R : RuleResolver μ) (rule : Rule) (feature : Feature μ) : Bool :=
  let identity := approvalIdentity R.toResolver feature
  if isLegacyFeature feature identity then false
  else v2ExactFeatureMatch R rule feature identity || semanticMatch R rule identity ||
    (semanticMatch R rule identity && identity.matchMode = .semantic &&
      (R.resolveProblem feature).semanticSafe &&
      (R.resolveProblem feature).problemCode = some identity.problemCode)

end LogRisk.Approval
