import LogRisk.Review.Register

/-!
# Reviewing a candidate

A review registers the candidate once more, lays its changes over what that makes of it, and
writes the fields that differ.  An approval writes a rule, whose id the candidate and its
group get, and settles what the rule covers; a rejection of the whole identity settles that.
-/

namespace LogRisk.Review

open LogRisk.Library LogRisk.Library.Text LogRisk.Library.Transaction LogRisk.Approval

variable {μ : Type}

/-! ## Requests -/

/-- The fields of a request that are there. -/
structure Changes where
  title : Option String := none
  summary : Option String := none
  importance : Option String := none
  tags : Option (List String) := none
  reviewerNote : Option String := none
  status : Option Status := none
  reviewScope : Option (Option String) := none

def importanceLevels : List String := ["critical", "high", "medium", "low"]

namespace Changes

variable (changes : Changes)

/-- `changes.get("review_scope") == "approval_identity"`. -/
def wholeIdentity : Bool := changes.reviewScope = some (some "approval_identity")

def check : Outcome Unit := do
  require (changes.reviewScope.join = none ∨ changes.wholeIdentity)
    (.invalid "字段 review_scope 无效")
  require (∀ title ∈ changes.title, strip title ≠ "") (.invalid "字段 title 无效")
  require (∀ summary ∈ changes.summary, strip summary ≠ "") (.invalid "字段 summary 无效")
  require (∀ importance ∈ changes.importance, importance ∈ importanceLevels)
    (.invalid "字段 importance 无效")
  require (∀ tags ∈ changes.tags, ∀ tag ∈ tags, strip tag ≠ "") (.invalid "字段 tags 必须是字符串数组")

/-- `list(dict.fromkeys(tag.strip() for tag in tags))`. -/
def cleanTags (tags : List String) : List String := (tags.map strip).eraseDups

/-- The request changes more than status and scope. -/
def substantive (c : Candidate μ) : Bool :=
  !(agrees (changes.title.map strip) c.feature.title &&
    agrees (changes.summary.map strip) c.feature.summary &&
    agrees changes.importance c.feature.importance &&
    agrees (changes.tags.map cleanTags) c.feature.tags &&
    agrees (changes.reviewerNote.map fun note => some (strip note)) c.reviewerNote)

/-- The request laid over a candidate. -/
def overlay (now : String) (c : Candidate μ) : Candidate μ :=
  { c with
    feature := { c.feature with
      title := (changes.title.map strip).getD c.feature.title
      summary := (changes.summary.map strip).getD c.feature.summary
      importance := changes.importance.getD c.feature.importance
      tags := (changes.tags.map cleanTags).getD c.feature.tags }
    reviewerNote := (changes.reviewerNote.map fun note => some (strip note)).getD c.reviewerNote
    reviewScope := changes.reviewScope.getD c.reviewScope
    status := changes.status.getD c.status
    approvedAt :=
      match changes.status with
      | none => c.approvedAt
      | some .approved => some now
      | some _ => none
    resolutionType :=
      match changes.status with
      | some .approved => some "manual"
      | some .rejected => if changes.wholeIdentity then some "group_rejected" else some "manual"
      | _ => c.resolutionType }

/-- A field that is written where it differs. -/
def changed {α : Type} [DecidableEq α] (old new : α) : Option α := if new ≠ old then some new else none

/-- The fields that a review writes. -/
def reviewState (original feature : Candidate μ) : ReviewState where
  title := changes.title.map fun _ => feature.feature.title
  summary := changes.summary.map fun _ => feature.feature.summary
  importance := changes.importance.map fun _ => feature.feature.importance
  tags := changes.tags.map fun _ => feature.feature.tags
  reviewerNote := changes.reviewerNote.map fun _ => feature.reviewerNote
  reviewScope := changes.reviewScope.map fun _ => feature.reviewScope
  status := changed original.status feature.status
  approvedAt := changed original.approvedAt feature.approvedAt
  resolvedRuleId := changed original.resolvedRuleId feature.resolvedRuleId
  ruleId := changed original.ruleId feature.ruleId
  resolutionType := changed original.resolutionType feature.resolutionType

end Changes

/-! ## The review -/

/-- A stored candidate, with what it lacks taken from the registered one. -/
def filled (stored feature : Candidate μ) : Candidate μ :=
  { stored with
    feature := { stored.feature with
      approvalKey := firstGiven stored.feature.approvalKey feature.feature.approvalKey
      anchorSignatures :=
        if stored.feature.anchorSignatures = [] then feature.feature.anchorSignatures
        else stored.feature.anchorSignatures
      matchMode := stored.feature.matchMode.or feature.feature.matchMode
      problemResolved := true }
    approvalGroupId := stored.approvalGroupId.or feature.approvalGroupId
    duplicateOf := stored.duplicateOf.or feature.duplicateOf }

section Reviewing

variable (H : ReviewResolver μ) (moment : Moment) (T : Tables μ) (changes : Changes)

/-- The rule of a candidate that was approved before, where it is active still. -/
def standingRule (c : Candidate μ) : Option Rule := activeRule T c.resolvedRule

/-- The approval of a candidate: its rule, and what the rule settles. -/
def approve (id : String) (feature : Feature μ) (group : Group) : Outcome (Tables μ) :=
  match upsertFeature H.toRuleResolver moment feature T.rules with
  | .error e => .error (.rule e)
  | .ok (rule, rules) => do
      let written ← updateReviewState H moment.now { T with rules } id
        { ruleId := some (some rule.ruleId)
          resolvedRuleId := some (some rule.ruleId)
          resolutionType := some (some "manual") } .approved none
      let saved ← persistFeatureGroup written
        { group with status := .approved, ruleId := some rule.ruleId, updatedAt := moment.now } id
      return reconcile H moment.now saved rule

/-- The group of a candidate that is not approved by the review. -/
def rejectedGroup (group : Group) : Group :=
  if changes.status = some .rejected ∧ changes.wholeIdentity ∧ group.status = .pending then
    { group with status := .rejected, updatedAt := moment.now }
  else group

/-- Every review but one that repeats an earlier decision. -/
def applyReview (id : String) (c : Candidate μ) : Outcome (Tables μ) := do
  let (registered, group) := registerFeatureGroup H moment.now T true c
  let feature := changes.overlay moment.now registered
  let written ← updateReviewState H moment.now T id (changes.reviewState c feature) c.status
    (some c.updatedAt)
  let latest ← orFail (written.candidates.get? id) .candidateNotFound
  if changes.status = some .approved then
    approve H moment written id (filled latest feature).feature group
  else do
    let saved ← persistFeatureGroup written (rejectedGroup moment changes group) id
    if changes.status = some .rejected ∧ changes.wholeIdentity then
      return settle moment.now saved (rejection H moment.now (filled latest feature).feature)
    else return saved

/-- `_review_feature_in_transaction`. -/
def reviewFeature (jobId id : String) : Outcome (Tables μ) := do
  changes.check
  let c ← orFail (T.candidates.get? id) .candidateNotFound
  require (c.jobId = jobId) .candidateNotFound
  if changes.status = some c.status ∧ ¬ changes.substantive c then
    match c.status, standingRule T c with
    | .approved, some rule => setGroupApproved moment.now (reconcile H moment.now T rule) c rule.ruleId
    | .rejected, _ =>
        if changes.wholeIdentity then return settle moment.now T (rejection H moment.now c.feature)
        else return T
    | _, _ => applyReview H moment T changes id c
  else applyReview H moment T changes id c

end Reviewing

end LogRisk.Review
