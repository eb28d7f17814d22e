import LogRisk.Library.Dict
import LogRisk.Review.Queue

/-!
# Candidates and approval groups

The tables of the approval store: rules, candidates, approval groups with the candidates that
belong to them, and the queue of pending candidates; what a review writes of a candidate, how
a group is saved, and how all pending candidates of one identity are settled at once.
-/

namespace LogRisk.Review

open LogRisk.Library LogRisk.Library.Text LogRisk.Library.Transaction LogRisk.Approval

variable {μ : Type}

inductive Status where
  | pending
  | approved
  | rejected
deriving DecidableEq

inductive GroupStatus where
  | pending
  | approved
  | autoResolved
  | rejected
  | superseded
deriving DecidableEq

/-- A missing text and an empty one are both `none`. -/
structure Candidate (μ : Type) where
  candidateId : String
  jobId : String
  feature : Feature μ
  status : Status
  reviewerNote : Option String := none
  approvedAt : Option String := none
  resolvedRuleId : Option String := none
  ruleId : Option String := none
  resolutionType : Option String := none
  reviewScope : Option String := none
  approvalGroupId : Option String := none
  duplicateOf : Option String := none
  updatedAt : String

/-- `resolved_rule_id or rule_id`. -/
def Candidate.resolvedRule (c : Candidate μ) : Option String := c.resolvedRuleId.or c.ruleId

structure Group where
  groupId : String
  approvalKey : String
  status : GroupStatus
  ruleId : Option String
  primaryCandidateId : String
  candidateIds : List String
  updatedAt : String

/-- `queue` holds the review keys of the pending candidates. -/
structure Tables (μ : Type) where
  rules : List Rule := []
  candidates : Dict String (Candidate μ) := ∅
  groups : Dict String Group := ∅
  members : Dict String String := ∅
  queue : String → Option String := fun _ => none

inductive ReviewError where
  | invalid (message : String)
  | candidateNotFound
  | candidateStateConflict
  | rule (e : ApprovedRuleError)
  | otherGroup
  | duplicateGroup

abbrev Outcome := Except ReviewError

/-! ## Candidates -/

/-- The review-owned fields that are written. -/
structure ReviewState where
  title : Option String := none
  summary : Option String := none
  importance : Option String := none
  tags : Option (List String) := none
  reviewerNote : Option (Option String) := none
  reviewScope : Option (Option String) := none
  status : Option Status := none
  approvedAt : Option (Option String) := none
  resolvedRuleId : Option (Option String) := none
  ruleId : Option (Option String) := none
  resolutionType : Option (Option String) := none

def ReviewState.apply (changes : ReviewState) (c : Candidate μ) : Candidate μ :=
  { c with
    feature := { c.feature with
      title := changes.title.getD c.feature.title
      summary := changes.summary.getD c.feature.summary
      importance := changes.importance.getD c.feature.importance
      tags := changes.tags.getD c.feature.tags }
    reviewerNote := changes.reviewerNote.getD c.reviewerNote
    reviewScope := changes.reviewScope.getD c.reviewScope
    status := changes.status.getD c.status
    approvedAt := changes.approvedAt.getD c.approvedAt
    resolvedRuleId := changes.resolvedRuleId.getD c.resolvedRuleId
    ruleId := changes.ruleId.getD c.ruleId
    resolutionType := changes.resolutionType.getD c.resolutionType }

/-- A field that is written has the value already. -/
def agrees {α : Type} [DecidableEq α] (new : Option α) (old : α) : Bool :=
  decide (new = none ∨ new = some old)

/-- `all(current.get(field) == value for field, value in changes.items())`. -/
def ReviewState.holds (changes : ReviewState) (c : Candidate μ) : Bool :=
  agrees changes.title c.feature.title && agrees changes.summary c.feature.summary &&
    agrees changes.importance c.feature.importance && agrees changes.tags c.feature.tags &&
    agrees changes.reviewerNote c.reviewerNote && agrees changes.reviewScope c.reviewScope &&
    agrees changes.status c.status && agrees changes.approvedAt c.approvedAt &&
    agrees changes.resolvedRuleId c.resolvedRuleId && agrees changes.ruleId c.ruleId &&
    agrees changes.resolutionType c.resolutionType

section Writing

variable (H : ReviewResolver μ) (now : String) (T : Tables μ)

/-- Store a candidate; only pending ones are queued, `update_projection`. -/
def Tables.put (id : String) (c : Candidate μ) : Tables μ :=
  { T with
    candidates := T.candidates.set id c
    queue := Function.update T.queue id
      (if c.status = .pending then some (reviewKey H c.feature) else none) }

/-- `update_candidate_review_state`. -/
def updateReviewState (id : String) (changes : ReviewState) (expectedStatus : Status)
    (expectedUpdatedAt : Option String) : Outcome (Tables μ) := do
  let current ← orFail (T.candidates.get? id) .candidateNotFound
  require (current.status = .pending ∨ agrees changes.status current.status) .candidateStateConflict
  require (agrees expectedUpdatedAt current.updatedAt) .candidateStateConflict
  if current.status ≠ expectedStatus then
    require (current.status = .approved ∧ changes.status = some .approved) .candidateStateConflict
    return T
  else if changes.holds current then return T
  else return T.put H id { changes.apply current with updatedAt := now }

/-! ## Groups -/

def Tables.groupById (id : String) : Option Group := T.groups.values.find? (·.groupId = id)

/-- A group that is saved over a stored one. -/
def Group.over (value previous : Group) : Group :=
  { value with
    groupId := previous.groupId
    candidateIds := sortedSet (previous.candidateIds ++ value.candidateIds)
    status :=
      if previous.status = .rejected ∨ previous.status = .superseded then previous.status
      else if (previous.status = .approved ∨ previous.status = .autoResolved) ∧
          value.status ≠ .approved then previous.status
      else value.status
    ruleId := value.ruleId.or previous.ruleId }

/-- `SQLiteApprovalGroupStore.save`. -/
def saveGroup (value : Group) : Outcome (Tables μ) :=
  match T.groups.get? value.approvalKey with
  | some previous =>
      .ok { T with groups := T.groups.set value.approvalKey (value.over previous) }
  | none => do
      require (T.groupById value.groupId).isNone .duplicateGroup
      return { T with groups := T.groups.set value.approvalKey value }

/-- `attach_candidate`. -/
def attachCandidate (groupId id : String) : Outcome (Tables μ) := do
  require (agrees (T.members.get? id) groupId) .otherGroup
  return { T with members := T.members.set id groupId }

/-- `_persist_feature_group_locked`. -/
def persistFeatureGroup (group : Group) (id : String) : Outcome (Tables μ) := do
  let T ← saveGroup T group
  attachCandidate T group.groupId id

/-- `_set_group_resolution_locked`, for an approval. -/
def setGroupApproved (c : Candidate μ) (ruleId : String) : Outcome (Tables μ) :=
  match (c.approvalGroupId.bind T.groupById).or
      (if c.feature.approvalKey = "" then none else T.groups.get? c.feature.approvalKey) with
  | none => .ok T
  | some group =>
      if group.status = .approved ∧ group.ruleId = some ruleId then .ok T
      else saveGroup T { group with status := .approved, ruleId := some ruleId, updatedAt := now }

/-! ## Settling an identity -/

/-- What candidates are settled by: the key they are queued under, the candidates meant, and
what becomes of them and of their groups. -/
structure Settlement (μ : Type) where
  key : String
  covers : Candidate μ → Bool
  settled : Candidate μ → Candidate μ
  groupStatus : GroupStatus
  ruleId : Option String

/-- `resolve_pending_identity` with an approved rule. -/
def approval (rule : Rule) : Settlement μ where
  key := reviewKey H (ruleFeature H rule)
  covers c := ruleMatchesFeature H.toRuleResolver rule c.feature
  settled c := { c with
    status := .approved
    approvedAt := c.approvedAt.or (some (firstGiven rule.approvedAt now))
    resolutionType := some "group_matched"
    ruleId := some rule.ruleId
    resolvedRuleId := some rule.ruleId
    updatedAt := now }
  groupStatus := .autoResolved
  ruleId := some rule.ruleId

/-- `resolve_pending_identity` with a rejected candidate. -/
def rejection (selected : Feature μ) : Settlement μ where
  key := reviewKey H selected
  covers c := sameApprovalIdentity H c.feature selected
  settled c := { c with
    status := .rejected
    approvedAt := none
    resolutionType := some "group_rejected"
    reviewScope := some "approval_identity"
    updatedAt := now }
  groupStatus := .rejected
  ruleId := none

variable (S : Settlement μ)

/-- A pending candidate that is queued under the key and meant. -/
def chosen (id : String) (c : Candidate μ) : Bool :=
  decide (c.status = .pending) && decide (T.queue id = some S.key) && S.covers c

def chosenKeys : List String :=
  (T.candidates.entries.filter fun e => chosen T S e.1 e.2).map (·.2.feature.approvalKey)

def Group.settle (g : Group) : Group :=
  { g with status := S.groupStatus, ruleId := S.ruleId.or g.ruleId, updatedAt := now }

/-- `resolve_pending_identity`. -/
def settle : Tables μ :=
  { T with
    candidates := T.candidates.mapEntries fun id c => if chosen T S id c then S.settled c else c
    queue := fun id =>
      if (T.candidates.get? id).any (chosen T S id) then none else T.queue id
    groups := T.groups.mapEntries fun key g =>
      if g.status = .pending ∧ key ≠ "" ∧ key ∈ chosenKeys T S then g.settle now S else g }

/-- `_reconcile_pending_candidates_locked`. -/
def reconcile (rule : Rule) : Tables μ :=
  if isActive rule ∧ (rule.approvalKey ≠ "" ∨ rule.problemCode ≠ "") then
    settle now T (approval H now rule)
  else T

end Writing

end LogRisk.Review
