import LogRisk.Library.Json
import LogRisk.Library.Dict
import LogRisk.Library.Text
import Mathlib.Data.List.SplitOn
import Mathlib.Data.Prod.Lex
import Mathlib.Data.List.Dedup

/-!
# Approval identities

What an approved feature is known by: a digest of its problem code alone where the
problem is resolved safely, otherwise of its type, problem code, components and anchor
signatures.  The classifier of problems, the normal form of its codes and the digest are
parameters.
-/

namespace LogRisk.Approval

open LogRisk.Library LogRisk.Library.Text

variable {μ : Type}

/-! ## Texts -/

/-- `sorted(set(items))`; sets are kept in this form. -/
def sortedSet {α : Type} [LinearOrder α] (items : List α) : List α :=
  items.dedup.insertionSort (· ≤ ·)

theorem sortedSet_singleton {α : Type} [LinearOrder α] (item : α) : sortedSet [item] = [item] := by
  unfold sortedSet
  rw [List.dedup_cons_of_notMem List.not_mem_nil, List.dedup_nil]
  rfl

/-- `str(item).strip()` of the items that have one. -/
def stripped (items : List String) : List String := (items.map strip).filter (· ≠ "")

/-- `first or second`. -/
def firstGiven (first second : String) : String := if first = "" then second else first

def isWordChar (c : Char) : Bool := c.isDigit || c.isLower

def normalizeFeatureType (value : String) : String :=
  let tokens := ((lower (strip value)).toList.splitOnP (!isWordChar ·)).filter (· ≠ [])
  firstGiven (String.ofList (['_'].intercalate tokens)) "unknown_feature"

/-! ## Features -/

inductive MatchMode where
  | semantic
  | templateSet
deriving DecidableEq

/-- A template a feature or a rule was drawn from.  `descriptor` is what a template
without fingerprint and hash is described by. -/
structure TemplateSource where
  templateFingerprint : String
  templateHash : String
  category : String
  component : String
  descriptor : Option String
deriving DecidableEq

/-- A missing text is empty; `evidence` is what only the classifier reads. -/
structure Feature (μ : Type) where
  featureType : String
  title : String
  summary : String
  importance : String
  tags : List String
  selectionReason : String
  components : List String
  component : String
  sourceTemplates : List TemplateSource
  templateSignatures : List TemplateSource
  templateHashes : List String
  anchorSignatures : List String
  supportingSignatures : List String
  evaluatorFailed : Bool
  schemaVersion : String
  approvalKey : String
  canonicalApprovalKey : String
  problemResolved : Bool
  matchMode : Option MatchMode
  lineage : List (String × String)
  evidence : μ

structure Resolution where
  problemCode : Option String
  semanticSafe : Bool

/-- The classifier of problems and the digest, under the names of the source. -/
structure Resolver (μ : Type) where
  semanticResolverEnabled : Bool
  /-- The digest of a text in hexadecimal. -/
  sha256 : String → String
  removeIpLiterals : String → String
  normalizeProblemCode : String → Option String
  collectProblemCodes : Feature μ → List String
  selectPrimaryProblemCode : List String → Option String
  resolveProblem : Feature μ → Resolution
  /-- `resolve_problem` of a feature type and a problem code alone. -/
  resolveCode : String → String → Resolution

/-! ## Template pairs -/

/-- `_identity_pair`. -/
def identityPair (item : TemplateSource) : String ×ₗ String :=
  toLex (strip (firstGiven item.templateFingerprint item.templateHash), strip item.category)

/-- `_v2_template_pairs` and `_legacy_template_pairs`. -/
def v2TemplatePairs (items : List TemplateSource) : List (String ×ₗ String) :=
  sortedSet ((items.map identityPair).filter fun pair => (ofLex pair).1 ≠ "")

/-- One turn of the loop in `_template_pairs`. -/
def addTemplatePair (pairs : Dict (String ×ₗ String) TemplateSource) (item : TemplateSource) :
    Dict (String ×ₗ String) TemplateSource :=
  let fingerprint := strip item.templateFingerprint
  let legacyHash := strip item.templateHash
  let category := strip item.category
  let identity := firstGiven fingerprint legacyHash
  if identity = "" then pairs
  else pairs.set (toLex (identity, category))
    { templateFingerprint := fingerprint
      templateHash := legacyHash
      category := category
      component := ""
      descriptor := none }

/-- `_template_pairs`. -/
def templatePairs (items : List TemplateSource) : List TemplateSource :=
  let pairs := items.foldl addTemplatePair ∅
  (sortedSet pairs.keys).filterMap pairs.get?

/-- A template signature as it is written. -/
def signatureJson (item : TemplateSource) : Json :=
  .obj ([("category", .str item.category)] ++
    (if item.templateFingerprint = "" then []
      else [("template_fingerprint", .str item.templateFingerprint)]) ++
    if item.templateHash = "" then [] else [("template_hash", .str item.templateHash)])

/-- `source_templates or template_signatures`. -/
def Feature.sources (feature : Feature μ) : List TemplateSource :=
  if feature.sourceTemplates = [] then feature.templateSignatures else feature.sourceTemplates

/-! ## Components and anchors -/

def lowered (items : List String) : List String := (stripped items).map lower

/-- `component_scope`. -/
def componentScope (feature : Feature μ) : List String :=
  if lowered feature.components ≠ [] then sortedSet (lowered feature.components)
  else if feature.component ≠ "" then [lower (strip feature.component)]
  else sortedSet (lowered (feature.sources.map TemplateSource.component))

namespace Resolver

variable (R : Resolver μ)

/-- `_canonical_signatures` of a list of texts. -/
def canonicalTexts (items : List String) : List String :=
  sortedSet ((items.map fun item => R.removeIpLiterals (strip item)).filter (· ≠ ""))

/-- `_canonical_signature` of a template. -/
def canonicalSource (item : TemplateSource) : Option String :=
  let identity := R.removeIpLiterals (ofLex (identityPair item)).1
  let category := strip item.category
  if identity ≠ "" then
    some (if category = "" then identity else identity ++ "|" ++ category)
  else item.descriptor

/-- `_canonical_signatures` of a list of templates. -/
def canonicalSources (items : List TemplateSource) : List String :=
  sortedSet ((items.filterMap R.canonicalSource).filter (· ≠ ""))

/-- The anchors of the evidence: of the templates, else of their hashes. -/
def evidenceAnchors (feature : Feature μ) : List String :=
  if R.canonicalSources feature.sources ≠ [] then R.canonicalSources feature.sources
  else R.canonicalTexts feature.templateHashes

/-- `resolution.semantic_safe and not evaluator_failed`, with the resolver switched on. -/
def safeToGroup (feature : Feature μ) : Bool :=
  R.semanticResolverEnabled && !feature.evaluatorFailed && (R.resolveProblem feature).semanticSafe

/-- `anchor_signatures`. -/
def anchorSignatures (feature : Feature μ) : List String :=
  if R.canonicalTexts feature.anchorSignatures ≠ [] then R.canonicalTexts feature.anchorSignatures
  else if R.safeToGroup feature then [] else R.evidenceAnchors feature

/-! ## Problem codes -/

/-- The code of a problem nobody resolved, a digest of its codes and anchors. -/
def fallbackProblemCode (codes : List String) (feature : Feature μ) : String :=
  let anchors :=
    if R.canonicalTexts feature.anchorSignatures ≠ [] then R.canonicalTexts feature.anchorSignatures
    else R.evidenceAnchors feature
  let anchorItems := Json.arr (anchors.map .str)
  let payload :=
    if codes = [] then anchorItems
    else .obj [("problem_codes", .arr ((sortedSet codes).map .str)),
      ("anchor_signatures", anchorItems)]
  "logrisk." ++ normalizeFeatureType feature.featureType ++ "." ++
    String.ofList ((R.sha256 payload.canonical).toList.take 16)

/-- `_legacy_problem_code`. -/
def legacyProblemCode (feature : Feature μ) : String :=
  let codes := R.collectProblemCodes feature
  (R.selectPrimaryProblemCode codes).getD (R.fallbackProblemCode codes feature)

/-- The code `approval_identity` settles on. -/
def problemCode (feature : Feature μ) : String :=
  if R.semanticResolverEnabled then
    -- Generated fallback codes are outputs, not evidence.
    (R.resolveProblem feature).problemCode.getD
      (R.fallbackProblemCode
        ((R.collectProblemCodes feature).filter fun code => !code.startsWith "logrisk.") feature)
  else R.legacyProblemCode feature

/-! ## Keys -/

/-- `build_approval_key`, for a given verdict. -/
def approvalKey (semanticSafe : Bool) (featureType problemCode : String)
    (components anchors : List String) : String :=
  let code := (R.normalizeProblemCode problemCode).getD "unknown.problem"
  let payload :=
    if semanticSafe then Json.obj [("problem_code", .str code)]
    else .obj [("feature_type", .str (normalizeFeatureType featureType)),
      ("problem_code", .str code),
      ("component_scope",
        .arr ((sortedSet ((lowered components).map R.removeIpLiterals)).map .str)),
      ("anchor_signatures", .arr ((R.canonicalTexts anchors).map .str))]
  "appr_" ++ R.sha256 payload.canonical

/-- `build_approval_key`; without a verdict the code is resolved by itself. -/
def buildApprovalKey (featureType problemCode : String) (components anchors : List String)
    (semanticSafe : Option Bool) : String :=
  let code := (R.normalizeProblemCode problemCode).getD "unknown.problem"
  R.approvalKey
    (semanticSafe.getD (R.semanticResolverEnabled && (R.resolveCode featureType code).semanticSafe))
    featureType problemCode components anchors

end Resolver

structure Identity where
  problemCode : String
  approvalKey : String
  componentScope : List String
  anchorSignatures : List String
  matchMode : MatchMode
  semanticSafe : Bool

/-- `approval_identity`. -/
def approvalIdentity (R : Resolver μ) (feature : Feature μ) : Identity where
  problemCode := R.problemCode feature
  approvalKey := R.buildApprovalKey feature.featureType (R.problemCode feature)
    (componentScope feature) (R.anchorSignatures feature) (some (R.safeToGroup feature))
  componentScope := componentScope feature
  anchorSignatures := R.anchorSignatures feature
  matchMode := if R.safeToGroup feature then .semantic else .templateSet
  semanticSafe := R.safeToGroup feature

/-- The mode of a feature tells whether its problem was resolved safely. -/
theorem semanticSafe_eq_false {R : Resolver μ} {feature : Feature μ}
    (h : (approvalIdentity R feature).matchMode = .templateSet) :
    (approvalIdentity R feature).semanticSafe = false := by
  unfold approvalIdentity at h ⊢
  dsimp only at h ⊢
  cases hsafe : R.safeToGroup feature with
  | false => rfl
  | true =>
      rw [hsafe, if_pos rfl] at h
      cases h

/-! ## Storage keys -/

/-- `_template_set_storage_key`: a feature that is not resolved safely is stored under its
templates too. -/
def storageKey (R : Resolver μ) (featureType : String) (templates : List TemplateSource)
    (identity : Identity) : String :=
  if identity.matchMode ≠ .templateSet ∨ identity.semanticSafe = true then identity.approvalKey
  else
    let payload := Json.obj [
      ("approval_key", .str identity.approvalKey),
      ("feature_type", .str (normalizeFeatureType featureType)),
      ("components", .arr (identity.componentScope.map .str)),
      ("anchors", .arr (identity.anchorSignatures.map .str)),
      ("templates", .arr ((v2TemplatePairs templates).map fun pair =>
        .arr [.str (ofLex pair).1, .str (ofLex pair).2]))]
    identity.approvalKey ++ ":template-" ++
      String.ofList ((R.sha256 payload.canonical).toList.take 32)

/-- The key a feature is stored under. -/
def featureStorageKey (R : Resolver μ) (feature : Feature μ) : String :=
  storageKey R feature.featureType feature.sources (approvalIdentity R feature)

/-- The first twenty hexadecimal digits of a digest. -/
def shortDigest (digest : String) : String := String.ofList (digest.toList.take 20)

/-- `_template_set_rule_id`. -/
def templateSetRuleId (R : Resolver μ) (approvalKey : String) : String :=
  "rule-" ++ shortDigest (R.sha256 ("template-set\x1f" ++ approvalKey))

/-- `f"rule-{approval_key[5:25]}"`. -/
def approvalRuleId (approvalKey : String) : String :=
  "rule-" ++ shortDigest (String.ofList (approvalKey.toList.drop 5))

/-- `_replacement_key`. -/
def replacementKey (R : Resolver μ) (approvalKey predecessorRuleId : String) : String :=
  approvalKey ++ ":replacement-" ++
    shortDigest (R.sha256 (approvalKey ++ "\x1f" ++ predecessorRuleId))

/-- `_replacement_rule_id`. -/
def replacementRuleId (R : Resolver μ) (approvalKey predecessorRuleId : String) : String :=
  "rule-" ++ shortDigest
    (R.sha256 ("replacement\x1f" ++ approvalKey ++ "\x1f" ++ predecessorRuleId))

end LogRisk.Approval
