import LogRisk.Approval.Reuse

/-!
# The review queue

Candidates are shown for review, and settled together, under the key of their problem: its
code where it is resolved safely, else the key of their identity.  Two candidates have one
identity where they have one code or one key, or, in the first format, the same templates.
-/

namespace LogRisk.Review

open LogRisk.Library LogRisk.Library.Text LogRisk.Approval

variable {μ : Type}

/-- The problem code within what only the classifier reads, and a rule read as a candidate. -/
structure ReviewResolver (μ : Type) extends RuleResolver μ where
  dropCode : μ → μ
  withCode : String → μ → μ
  ruleEvidence : Rule → μ

variable (H : ReviewResolver μ)

/-- A stored rule, read as a candidate. -/
def ruleFeature (rule : Rule) : Feature μ where
  featureType := rule.featureType
  title := rule.title
  summary := rule.summary
  importance := rule.importance
  tags := rule.tags
  selectionReason := rule.selectionReason
  components := rule.components
  component := ""
  sourceTemplates := []
  templateSignatures := rule.templateSignatures
  templateHashes := []
  anchorSignatures := rule.anchorSignatures
  supportingSignatures := rule.supportingSignatures
  evaluatorFailed := false
  schemaVersion := rule.schemaVersion
  approvalKey := rule.approvalKey
  canonicalApprovalKey := rule.canonicalApprovalKey.getD ""
  problemResolved := false
  matchMode := rule.matchMode
  lineage := rule.lineage
  evidence := H.ruleEvidence rule

/-! ## Review keys -/

/-- `_approval_queue_identity`: a problem code that was resolved before is left out. -/
def queueIdentity (feature : Feature μ) : Identity :=
  approvalIdentity H.toResolver
    (if feature.problemResolved then { feature with evidence := H.dropCode feature.evidence }
    else feature)

/-- The `review_key` of `build_review_groups`. -/
def reviewKey (feature : Feature μ) : String :=
  let identity := queueIdentity H feature
  if identity.semanticSafe then "semantic:" ++ identity.problemCode
  else if feature.schemaVersion = legacySchemaVersion then
    "approval:" ++ firstGiven feature.approvalKey identity.approvalKey
  else "approval:" ++ identity.approvalKey

/-! ## One identity -/

/-- The templates of a feature by identity and category. -/
def exactPairs (feature : Feature μ) : List (String ×ₗ String) :=
  sortedSet ((feature.sources.map fun item =>
    toLex (strip (firstGiven item.templateFingerprint item.templateHash), lower (strip item.category))
    ).filter fun pair => (ofLex pair).1 ≠ "")

def selectedIdsCovered (feature : Feature μ) : Bool :=
  (stripped feature.templateHashes).all fun selected =>
    (exactPairs feature).any fun pair => (ofLex pair).1 = selected

def exactAnchors (feature : Feature μ) : List String :=
  if H.canonicalTexts feature.anchorSignatures ≠ [] then H.canonicalTexts feature.anchorSignatures
  else (exactPairs feature).map fun pair => (ofLex pair).1 ++ "|" ++ (ofLex pair).2

/-- `_exact_template_set_compatible`. -/
def exactTemplateSetCompatible (left right : Feature μ) : Bool :=
  [left.schemaVersion, right.schemaVersion].contains legacySchemaVersion &&
    ([left.schemaVersion, right.schemaVersion].all fun schema =>
      schema = "" || schema = legacySchemaVersion) &&
    strip left.featureType ≠ "" && strip right.featureType ≠ "" &&
    exactPairs left ≠ [] && exactPairs left = exactPairs right &&
    selectedIdsCovered left && selectedIdsCovered right &&
    normalizeFeatureType (strip left.featureType) = normalizeFeatureType (strip right.featureType) &&
    componentScope left = componentScope right && exactAnchors H left = exactAnchors H right

/-- `same_approval_identity`. -/
def sameApprovalIdentity (left right : Feature μ) : Bool :=
  let schemas := [strip left.schemaVersion, strip right.schemaVersion]
  let l := approvalIdentity H.toResolver left
  let r := approvalIdentity H.toResolver right
  if schemas.contains legacySchemaVersion then
    (schemas.all fun schema => schema = "" || schema = legacySchemaVersion) &&
      exactTemplateSetCompatible H left right
  else if l.semanticSafe && r.semanticSafe then l.problemCode = r.problemCode
  else if l.semanticSafe != r.semanticSafe then exactTemplateSetCompatible H left right
  else l.approvalKey ≠ "" && l.approvalKey = r.approvalKey

end LogRisk.Review
