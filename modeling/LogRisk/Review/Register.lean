import LogRisk.Review.Tables

/-!
# Registering a candidate

A candidate is given its identity and its group before it is stored or reviewed.  One that is
pending is approved where a rule matches it, by itself or through the group.
-/

namespace LogRisk.Review

open LogRisk.Library LogRisk.Library.Text LogRisk.Library.Transaction LogRisk.Approval

variable {μ : Type} (H : ReviewResolver μ) (now : String) (T : Tables μ)

/-- `_prepare_feature`. -/
def prepareFeature (c : Candidate μ) : Candidate μ :=
  let identity := approvalIdentity H.toResolver c.feature
  { c with
    feature := { c.feature with
      approvalKey := identity.approvalKey
      anchorSignatures := identity.anchorSignatures
      matchMode := some identity.matchMode
      problemResolved := true
      evidence := H.withCode identity.problemCode c.feature.evidence }
    resolutionType :=
      if c.status = .pending then c.resolutionType.or (some "manual") else c.resolutionType }

def existingGroupId (c : Candidate μ) : Option String :=
  (T.members.get? c.candidateId).or c.approvalGroupId

/-- The key a candidate keeps that has a group already. -/
def preservedKey (c : Candidate μ) : String :=
  match existingGroupId T c with
  | none => ""
  | some groupId =>
      if c.feature.approvalKey ≠ "" then c.feature.approvalKey
      else ((T.groupById groupId).map Group.approvalKey).getD ""

/-- The candidate with its identity, or with the one it keeps. -/
def identified (c : Candidate μ) : Candidate μ :=
  let prepared := prepareFeature H c
  if preservedKey T c = "" then prepared
  else { prepared with
    feature := { prepared.feature with approvalKey := preservedKey T c }
    approvalGroupId := existingGroupId T c }

def existingGroup (c : Candidate μ) : Option Group :=
  ((existingGroupId T c).bind T.groupById).or (T.groups.get? (identified H T c).feature.approvalKey)

/-! ## Approval by a rule -/

/-- The rule that a pending candidate is matched with. -/
def resolvedBy (resolveExistingRule : Bool) (c : Candidate μ) : Option Rule :=
  if c.status = .pending ∧ resolveExistingRule then
    (matchFeature H.toRuleResolver (identified H T c).feature T.rules).head?
  else none

/-- A candidate that a rule approves. -/
def Candidate.approvedBy (c : Candidate μ) (ruleId : Option String) (approvedAt : String) :
    Candidate μ :=
  { c with
    status := .approved
    resolutionType := some "group_matched"
    resolvedRuleId := ruleId
    ruleId := ruleId
    approvedAt := some approvedAt }

def matched (resolveExistingRule : Bool) (c : Candidate μ) : Candidate μ :=
  match resolvedBy H T resolveExistingRule c with
  | none => identified H T c
  | some rule => (identified H T c).approvedBy (some rule.ruleId) (firstGiven rule.approvedAt now)

/-! ## The group -/

/-- The group of the candidate, before its status is looked at. -/
def joinedGroup (resolveExistingRule : Bool) (c : Candidate μ) : Group :=
  let feature := matched H now T resolveExistingRule c
  match existingGroup H T c with
  | none =>
      { groupId := (existingGroupId T c).getD
          ("approval-group-" ++ shortDigest (H.sha256 feature.feature.approvalKey))
        approvalKey := feature.feature.approvalKey
        status := if feature.status = .approved then .approved else .pending
        ruleId := feature.resolvedRule
        primaryCandidateId := c.candidateId
        candidateIds := [c.candidateId]
        updatedAt := now }
  | some group =>
      { group with
        candidateIds :=
          if c.candidateId ∈ group.candidateIds ∧ (T.members.get? c.candidateId).isSome then
            group.candidateIds
          else group.candidateIds ++ [c.candidateId]
        updatedAt := now }

/-- The group; an approved candidate with a rule approves it. -/
def registeredGroup (resolveExistingRule : Bool) (c : Candidate μ) : Group :=
  let feature := matched H now T resolveExistingRule c
  let group := joinedGroup H now T resolveExistingRule c
  if feature.status = .approved ∧ feature.resolvedRule.isSome then
    { group with status := .approved, ruleId := feature.resolvedRule }
  else group

/-- The active rule of an id. -/
def activeRule (ruleId : Option String) : Option Rule :=
  ruleId.bind fun ruleId => T.rules.find? fun rule => rule.ruleId = ruleId ∧ isActive rule

/-- The rule of the group holds for a candidate: always for one that was not pending, else where
it matches. -/
def inherits (resolveExistingRule : Bool) (c : Candidate μ) : Bool :=
  let group := registeredGroup H now T resolveExistingRule c
  decide (group.status = .approved ∨ group.status = .autoResolved) && group.ruleId.isSome &&
    (decide (c.status ≠ .pending) || resolveExistingRule && (
      (resolvedBy H T resolveExistingRule c).isSome ||
        (activeRule T group.ruleId).any fun rule =>
          ruleMatchesFeature H.toRuleResolver rule (matched H now T resolveExistingRule c).feature))

/-- The candidate with what its group lends it. -/
def inherited (resolveExistingRule : Bool) (c : Candidate μ) : Candidate μ :=
  let feature := matched H now T resolveExistingRule c
  let group := registeredGroup H now T resolveExistingRule c
  if inherits H now T resolveExistingRule c then
    feature.approvedBy group.ruleId (feature.approvedAt.getD (firstGiven group.updatedAt now))
  else feature

/-- `_register_feature_group_in_transaction_locked`, for a candidate that is stored. -/
def registerFeatureGroup (resolveExistingRule : Bool) (c : Candidate μ) : Candidate μ × Group :=
  let feature := inherited H now T resolveExistingRule c
  let group := registeredGroup H now T resolveExistingRule c
  ({ feature with
    resolutionType :=
      if c.status ≠ .pending then feature.resolutionType
      else if feature.status = .pending then some "manual" else some "group_matched"
    duplicateOf :=
      if group.primaryCandidateId ≠ "" ∧ group.primaryCandidateId ≠ c.candidateId then
        some group.primaryCandidateId
      else feature.duplicateOf
    approvalGroupId := some group.groupId }, group)

end LogRisk.Review
