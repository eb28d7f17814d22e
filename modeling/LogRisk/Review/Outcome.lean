import LogRisk.Review.Review

/-!
# What a review leaves

The status that was asked for, or the one that was there; for a candidate that the review
approves a rule that is active; no approval time for a rejected one; and a group that is not
approved without an active rule, unless it or the candidate was approved before.
-/

namespace LogRisk.Review

open LogRisk.Library LogRisk.Library.Text LogRisk.Library.Transaction LogRisk.Approval

variable {μ : Type} {H : ReviewResolver μ} {moment : Moment} {now : String} {T T' : Tables μ}
  {id : String} {c : Candidate μ} {changes : Changes}

/-! ## Writing review state -/

theorem agrees_iff {α : Type} [DecidableEq α] {new : Option α} {old : α} :
    agrees new old = true ↔ new.getD old = old := by
  unfold agrees
  rw [decide_eq_true_iff]
  cases new with
  | none => simp
  | some x => simp

theorem apply_of_holds {state : ReviewState} (h : state.holds c = true) : state.apply c = c := by
  unfold ReviewState.holds at h
  simp only [Bool.and_eq_true, agrees_iff] at h
  obtain ⟨⟨⟨⟨⟨⟨⟨⟨⟨⟨htitle, hsummary⟩, himportance⟩, htags⟩, hnote⟩, hscope⟩, hstatus⟩, happroved⟩,
    hresolved⟩, hrule⟩, htype⟩ := h
  unfold ReviewState.apply
  rw [htitle, hsummary, himportance, htags, hnote, hscope, hstatus, happroved, hresolved, hrule, htype]

/-- A step that writes one candidate and leaves everything else. -/
structure WritesOnly (id : String) (T T' : Tables μ) : Prop where
  rules : T'.rules = T.rules
  groups : T'.groups = T.groups
  members : T'.members = T.members
  others : ∀ other, other ≠ id → T'.candidates.get? other = T.candidates.get? other

theorem WritesOnly.refl (id : String) (T : Tables μ) : WritesOnly id T T :=
  ⟨rfl, rfl, rfl, fun _ _ => rfl⟩

theorem writesOnly_put (id : String) (c : Candidate μ) (T : Tables μ) :
    WritesOnly id T (T.put H id c) where
  rules := rfl
  groups := rfl
  members := rfl
  others other hother := by
    unfold Tables.put
    rw [Dict.get?_set, if_neg hother.symm]

theorem updateReviewState_spec {state : ReviewState} {expected : Status} {version : Option String}
    (h : updateReviewState H now T id state expected version = .ok T') :
    WritesOnly id T T' ∧ ∃ current, T.candidates.get? id = some current ∧
      (current.status = .pending ∨ state.status.getD current.status = current.status) ∧
      (current.status = expected ∨ current.status = .approved) ∧
      ∃ time, T'.candidates.get? id =
        some { (if current.status = expected then state.apply current else current) with
          updatedAt := time } := by
  unfold updateReviewState at h
  obtain ⟨current, hcurrent, h⟩ := bind_eq_ok.mp h
  rw [orFail_eq_ok] at hcurrent
  obtain ⟨hstatus, h⟩ := require_bind_eq_ok.mp h
  obtain ⟨_, h⟩ := require_bind_eq_ok.mp h
  refine ⟨?_, current, hcurrent, hstatus.imp_right agrees_iff.mp, ?_⟩
  · split at h
    · obtain ⟨_, h⟩ := require_bind_eq_ok.mp h
      cases h
      exact .refl id T
    · split at h
      · cases h
        exact .refl id T
      · cases h
        exact writesOnly_put id _ T
  · split at h
    · rename_i hexpected
      obtain ⟨happroved, h⟩ := require_bind_eq_ok.mp h
      cases h
      refine ⟨.inr happroved.1, current.updatedAt, ?_⟩
      rw [if_neg hexpected]
      exact hcurrent
    · rename_i hexpected
      have hsame := not_not.mp hexpected
      refine ⟨.inl hsame, ?_⟩
      rw [if_pos hsame]
      split at h
      · rename_i hholds
        cases h
        refine ⟨current.updatedAt, ?_⟩
        rw [apply_of_holds hholds]
        exact hcurrent
      · cases h
        refine ⟨now, ?_⟩
        unfold Tables.put
        rw [Dict.get?_set, if_pos rfl]

theorem changed_getD {α : Type} [DecidableEq α] (old new : α) :
    (Changes.changed old new).getD old = new := by
  unfold Changes.changed
  split
  · rfl
  · rename_i hsame
    exact (not_not.mp hsame).symm

variable (changes) in
/-- The fields of a decision after a review wrote them. -/
theorem apply_reviewState (c feature : Candidate μ) :
    ((changes.reviewState c feature).apply c).status = feature.status ∧
      ((changes.reviewState c feature).apply c).approvedAt = feature.approvedAt ∧
      ((changes.reviewState c feature).apply c).resolvedRuleId = feature.resolvedRuleId :=
  ⟨changed_getD _ _, changed_getD _ _, changed_getD _ _⟩

/-! ## Settling -/

/-- A step that leaves candidates that are not pending and approves no group. -/
structure Settles (T T' : Tables μ) : Prop where
  rules : T'.rules = T.rules
  members : T'.members = T.members
  decided : ∀ id c, T.candidates.get? id = some c → c.status ≠ .pending →
    T'.candidates.get? id = some c
  approved : ∀ k g, T'.groups.get? k = some g → g.status = .approved → T.groups.get? k = some g

theorem Settles.refl (T : Tables μ) : Settles T T := ⟨rfl, rfl, fun _ _ h _ => h, fun _ _ h _ => h⟩

theorem settle_settles {S : Settlement μ} (hS : S.groupStatus ≠ .approved) (T : Tables μ) :
    Settles T (settle now T S) where
  rules := rfl
  members := rfl
  decided id c hc hstatus := by
    have hchosen : chosen T S id c = false := by
      unfold chosen
      rw [decide_eq_false hstatus, Bool.false_and, Bool.false_and]
    unfold settle
    dsimp only
    rw [Dict.get?_mapEntries, hc, Option.map_some, hchosen, if_neg Bool.false_ne_true]
  approved k g hg happroved := by
    unfold settle at hg
    dsimp only at hg
    rw [Dict.get?_mapEntries] at hg
    obtain ⟨g₀, hg₀, rfl⟩ := Option.map_eq_some_iff.mp hg
    split at happroved
    · exact absurd happroved hS
    · rename_i hno
      rw [if_neg hno]
      exact hg₀

variable (H now) in
theorem reconcile_settles (rule : Rule) (T : Tables μ) : Settles T (reconcile H now T rule) := by
  unfold reconcile
  split
  · exact settle_settles (fun h => by cases h) T
  · exact .refl T

/-! ## Registering -/

section Registering

variable {resolve : Bool}

theorem identified_fields (c : Candidate μ) : (identified H T c).status = c.status ∧
    (identified H T c).approvedAt = c.approvedAt ∧
    (identified H T c).resolvedRule = c.resolvedRule := by
  unfold identified prepareFeature
  dsimp only
  split
  · exact ⟨rfl, rfl, rfl⟩
  · exact ⟨rfl, rfl, rfl⟩

theorem resolvedBy_some {rule : Rule} (h : resolvedBy H T resolve c = some rule) :
    c.status = .pending ∧ rule ∈ T.rules ∧ isActive rule = true ∧
      ruleMatchesFeature H.toRuleResolver rule (identified H T c).feature = true := by
  unfold resolvedBy at h
  split at h
  · rename_i hpending
    obtain ⟨hmem, hmatch⟩ := ruleMatches_of_mem_matchFeature (List.mem_of_mem_head? h)
    refine ⟨hpending.1, hmem, ?_, hmatch⟩
    unfold ruleMatchesFeature at hmatch
    exact (Bool.and_eq_true_iff.mp hmatch).1
  · cases h

theorem matched_feature : (matched H now T resolve c).feature = (identified H T c).feature := by
  unfold matched
  split
  · rfl
  · rfl

variable (now) in
theorem matched_of_resolvedBy {rule : Rule} (h : resolvedBy H T resolve c = some rule) :
    (matched H now T resolve c).status = .approved ∧
      (matched H now T resolve c).resolvedRuleId = some rule.ruleId ∧
      (matched H now T resolve c).resolvedRule = some rule.ruleId := by
  unfold matched
  rw [h]
  exact ⟨rfl, rfl, rfl⟩

/-- A candidate that is approved before its group is looked at was so before, or has a rule. -/
theorem matched_approved (happroved : (matched H now T resolve c).status = .approved) :
    c.status = .approved ∨ ∃ rule, resolvedBy H T resolve c = some rule := by
  unfold matched at happroved
  cases hrule : resolvedBy H T resolve c with
  | none =>
      rw [hrule] at happroved
      exact .inl ((identified_fields c).1.symm.trans happroved)
  | some rule => exact .inr ⟨rule, rfl⟩

theorem activeRule_isSome {ruleId : Option String} {rule : Rule} (hrule : rule ∈ T.rules)
    (hactive : isActive rule = true) (hid : ruleId = some rule.ruleId) :
    (activeRule T ruleId).isSome = true := by
  unfold activeRule
  rw [hid, Option.bind_some, List.find?_isSome]
  exact ⟨rule, hrule, decide_eq_true ⟨rfl, hactive⟩⟩

theorem activeRule_some {ruleId : Option String} {rule : Rule} (h : activeRule T ruleId = some rule) :
    rule ∈ T.rules ∧ isActive rule = true ∧ ruleId = some rule.ruleId := by
  unfold activeRule at h
  obtain ⟨text, htext, hfind⟩ := Option.bind_eq_some_iff.mp h
  have hfound := List.find?_some hfind
  rw [decide_eq_true_iff] at hfound
  obtain ⟨hid, hactive⟩ := hfound
  exact ⟨List.mem_of_find?_eq_some hfind, hactive, htext.trans (congrArg some hid.symm)⟩

variable (now) in
theorem registeredGroup_of_resolvedBy {rule : Rule} (h : resolvedBy H T resolve c = some rule) :
    (registeredGroup H now T resolve c).ruleId = some rule.ruleId := by
  obtain ⟨hstatus, _, hrule⟩  := matched_of_resolvedBy now h
  unfold registeredGroup
  dsimp only
  rw [hstatus, hrule, if_pos ⟨rfl, rfl⟩]

/-- A pending candidate that registering approves has an active rule that matches it. -/
theorem register_approves (hpending : c.status = .pending)
    (h : (registerFeatureGroup H now T resolve c).1.status = .approved) :
    ∃ rule ∈ T.rules, isActive rule = true ∧
      ruleMatchesFeature H.toRuleResolver rule (identified H T c).feature = true ∧
      (registerFeatureGroup H now T resolve c).1.resolvedRuleId = some rule.ruleId ∧
      (registerFeatureGroup H now T resolve c).2.ruleId = some rule.ruleId := by
  have hstatus : (inherited H now T resolve c).status = .approved := h
  unfold registerFeatureGroup
  dsimp only
  unfold inherited at hstatus ⊢
  dsimp only at hstatus ⊢
  by_cases hinherits : inherits H now T resolve c = true
  · rw [if_pos hinherits]
    unfold inherits at hinherits
    dsimp only at hinherits
    rw [Bool.and_eq_true, decide_eq_false (not_not.mpr hpending), Bool.false_or] at hinherits
    obtain ⟨_, hrule⟩ := Bool.and_eq_true_iff.mp hinherits.2
    rcases Bool.or_eq_true_iff.mp hrule with hrule | hrule
    · obtain ⟨rule, hrule⟩ := Option.isSome_iff_exists.mp hrule
      obtain ⟨_, hmem, hactive, hmatch⟩ := resolvedBy_some hrule
      have hid := registeredGroup_of_resolvedBy now hrule
      exact ⟨rule, hmem, hactive, hmatch, hid, hid⟩
    · obtain ⟨rule, hrule, hmatch⟩ := (Option.any_eq_true _ _).mp hrule
      obtain ⟨hmem, hactive, hid⟩ := activeRule_some hrule
      rw [matched_feature] at hmatch
      exact ⟨rule, hmem, hactive, hmatch, hid, hid⟩
  · rw [if_neg hinherits] at hstatus ⊢
    rcases matched_approved hstatus with happroved | ⟨rule, hrule⟩
    · rw [hpending] at happroved
      cases happroved
    · obtain ⟨_, hmem, hactive, hmatch⟩ := resolvedBy_some hrule
      exact ⟨rule, hmem, hactive, hmatch, (matched_of_resolvedBy now hrule).2.1,
        registeredGroup_of_resolvedBy now hrule⟩

variable (H now T resolve c) in
/-- Registering keeps a decision or approves. -/
theorem register_status : (registerFeatureGroup H now T resolve c).1.status = .approved ∨
    (registerFeatureGroup H now T resolve c).1.status = c.status ∧
      (registerFeatureGroup H now T resolve c).1.approvedAt = c.approvedAt := by
  have hfields : ∀ {f : Candidate μ}, (f.status = .approved ∨ f.status = c.status ∧
      f.approvedAt = c.approvedAt) → f = inherited H now T resolve c →
      (registerFeatureGroup H now T resolve c).1.status = .approved ∨
        (registerFeatureGroup H now T resolve c).1.status = c.status ∧
          (registerFeatureGroup H now T resolve c).1.approvedAt = c.approvedAt := by
    rintro f hf rfl
    exact hf
  refine hfields ?_ rfl
  unfold inherited
  dsimp only
  split
  · exact .inl rfl
  · unfold matched
    split
    · exact .inr ⟨(identified_fields c).1, (identified_fields c).2.1⟩
    · exact .inl rfl

/-- A group that registering leaves approved was so before, or has an active rule, where the
candidate was not approved. -/
theorem register_group (hc : c.status ≠ .approved)
    (h : (registerFeatureGroup H now T resolve c).2.status = .approved) :
    (activeRule T (registerFeatureGroup H now T resolve c).2.ruleId).isSome = true ∨
      ∃ previous, existingGroup H T c = some previous ∧ previous.status = .approved := by
  have hgroup : (registeredGroup H now T resolve c).status = .approved := h
  show (activeRule T (registeredGroup H now T resolve c).ruleId).isSome = true ∨ _
  by_cases happroved : (matched H now T resolve c).status = .approved
  · obtain ⟨rule, hrule⟩ := (matched_approved happroved).resolve_left hc
    obtain ⟨_, hmem, hactive, _⟩ := resolvedBy_some hrule
    exact .inl (activeRule_isSome hmem hactive (registeredGroup_of_resolvedBy now hrule))
  · unfold registeredGroup at hgroup
    dsimp only at hgroup
    rw [if_neg fun hboth => happroved hboth.1] at hgroup
    unfold joinedGroup at hgroup
    dsimp only at hgroup
    split at hgroup
    · dsimp only at hgroup
      rw [if_neg happroved] at hgroup
      cases hgroup
    · rename_i previous hprevious
      exact .inr ⟨previous, hprevious, hgroup⟩

end Registering

/-! ## The group that is saved -/

/-- Groups are kept under their keys, and no two have one id. -/
structure GroupsKeyed (T : Tables μ) : Prop where
  keyed : ∀ k g, T.groups.get? k = some g → g.approvalKey = k
  distinct : ∀ k k' g g', T.groups.get? k = some g → T.groups.get? k' = some g' →
    g.groupId = g'.groupId → k = k'

theorem groupById_some {groupId : String} {g : Group} (h : T.groupById groupId = some g) :
    g.groupId = groupId ∧ ∃ k, T.groups.get? k = some g := by
  unfold Tables.groupById at h
  have hid := List.find?_some h
  rw [decide_eq_true_iff] at hid
  exact ⟨hid, Dict.mem_values.mp (List.mem_of_find?_eq_some h)⟩

theorem groupById_none {groupId : String} (h : (T.groupById groupId).isNone = true) {k : String}
    {g : Group} (hg : T.groups.get? k = some g) : g.groupId ≠ groupId := by
  rw [Option.isNone_iff_eq_none] at h
  unfold Tables.groupById at h
  have hno := List.find?_eq_none.mp h g (Dict.mem_values.mpr ⟨k, hg⟩)
  rwa [decide_eq_true_iff] at hno

/-- What saving a group leaves under its key. -/
def savedGroup (T : Tables μ) (group : Group) : Group :=
  ((T.groups.get? group.approvalKey).map group.over).getD group

theorem saveGroup_spec {group : Group} (h : saveGroup T group = .ok T') :
    T' = { T with groups := T.groups.set group.approvalKey (savedGroup T group) } ∧
      (T.groups.get? group.approvalKey = none → (T.groupById group.groupId).isNone = true) := by
  unfold saveGroup at h
  unfold savedGroup
  cases hget : T.groups.get? group.approvalKey with
  | some previous =>
      rw [hget] at h
      cases h
      exact ⟨rfl, fun hnone => by cases hnone⟩
  | none =>
      rw [hget] at h
      obtain ⟨hnone, h⟩ := require_bind_eq_ok.mp h
      cases h
      exact ⟨rfl, fun _ => hnone⟩

theorem persistFeatureGroup_spec {group : Group} (h : persistFeatureGroup T group id = .ok T') :
    T'.rules = T.rules ∧ T'.candidates = T.candidates ∧ T'.members.get? id = some group.groupId ∧
      T'.groups = T.groups.set group.approvalKey (savedGroup T group) ∧
      (T.groups.get? group.approvalKey = none → (T.groupById group.groupId).isNone = true) := by
  unfold persistFeatureGroup at h
  obtain ⟨saved, hsaved, h⟩ := bind_eq_ok.mp h
  obtain ⟨rfl, hfree⟩ := saveGroup_spec hsaved
  unfold attachCandidate at h
  obtain ⟨_, h⟩ := require_bind_eq_ok.mp h
  cases h
  refine ⟨rfl, rfl, ?_, rfl, hfree⟩
  rw [Dict.get?_set, if_pos rfl]

/-- An approved group was approved before, or approved by what is saved over it. -/
theorem over_approved {value previous : Group} (h : (value.over previous).status = .approved) :
    value.status = .approved ∧ (value.over previous).ruleId = value.ruleId.or previous.ruleId ∨
      value.status ≠ .approved ∧ previous.status = .approved := by
  unfold Group.over at h
  dsimp only at h
  split at h
  · rename_i hold
    rw [h] at hold
    rcases hold with hold | hold
    · cases hold
    · cases hold
  · split at h
    · rename_i hkept
      exact .inr ⟨hkept.2, h⟩
    · exact .inl ⟨h, rfl⟩

/-- The group of a candidate after it was saved: approved by what was saved, or before. -/
theorem persisted_group {group : Group} (hT : GroupsKeyed T)
    (hid : ∀ previous, T.groups.get? group.approvalKey = some previous →
      previous.groupId = group.groupId)
    (h : persistFeatureGroup T group id = .ok T') {k : String} {g : Group}
    (hg : T'.groups.get? k = some g) (hmember : T'.members.get? id = some g.groupId)
    (happroved : g.status = .approved) :
    group.approvalKey = k ∧ group.status = .approved ∧
        (group.ruleId.isSome = true → g.ruleId = group.ruleId) ∨
      group.status ≠ .approved ∧ ∃ previous, T.groups.get? k = some previous ∧
        previous.status = .approved := by
  obtain ⟨_, _, hmembers, hgroups, hfree⟩ := persistFeatureGroup_spec h
  have hsame : group.groupId = g.groupId := Option.some.inj (hmembers.symm.trans hmember)
  rw [hgroups, Dict.get?_set] at hg
  split at hg
  · rename_i hk
    unfold savedGroup at hg
    cases hget : T.groups.get? group.approvalKey with
    | none =>
        rw [hget] at hg
        obtain rfl := Option.some.inj hg
        exact .inl ⟨hk, happroved, fun _ => rfl⟩
    | some previous =>
        rw [hget] at hg
        obtain rfl := Option.some.inj hg
        rcases over_approved happroved with ⟨hvalue, hrule⟩ | ⟨hvalue, hprevious⟩
        · refine .inl ⟨hk, hvalue, fun hsome => hrule.trans ?_⟩
          rw [Option.or_of_isSome hsome]
        · exact .inr ⟨hvalue, previous, hk ▸ hget, hprevious⟩
  · rename_i hk
    cases hget : T.groups.get? group.approvalKey with
    | none => exact absurd hsame.symm (groupById_none (hfree hget) hg)
    | some previous =>
        exact absurd (hT.distinct _ _ _ _ hget hg ((hid previous hget).trans hsame)) hk

variable (now resolve) in
/-- The group that a candidate is registered in is the stored one under its key. -/
theorem register_stored (hT : GroupsKeyed T) {previous : Group}
    (h : existingGroup H T c = some previous) :
    T.groups.get? (registerFeatureGroup H now T resolve c).2.approvalKey = some previous := by
  have hkey : (registerFeatureGroup H now T resolve c).2.approvalKey = previous.approvalKey := by
    show (registeredGroup H now T resolve c).approvalKey = _
    unfold registeredGroup joinedGroup
    rw [h]
    dsimp only
    split
    · rfl
    · rfl
  have hstored : ∃ k, T.groups.get? k = some previous := by
    unfold existingGroup at h
    rcases Option.or_eq_some_iff.mp h with h | ⟨_, h⟩
    · obtain ⟨groupId, _, hgroup⟩ := Option.bind_eq_some_iff.mp h
      exact (groupById_some hgroup).2
    · exact ⟨_, h⟩
  obtain ⟨k, hk⟩ := hstored
  rw [hkey, hT.keyed k previous hk]
  exact hk

theorem register_groupId (hT : GroupsKeyed T) {resolve : Bool} {previous : Group}
    (h : T.groups.get? (registerFeatureGroup H now T resolve c).2.approvalKey = some previous) :
    previous.groupId = (registerFeatureGroup H now T resolve c).2.groupId := by
  cases hexisting : existingGroup H T c with
  | some existing =>
      rw [register_stored now _ hT hexisting] at h
      obtain rfl := Option.some.inj h
      show _ = (registeredGroup H now T resolve c).groupId
      unfold registeredGroup joinedGroup
      rw [hexisting]
      dsimp only
      split
      · rfl
      · rfl
  | none =>
      have hkey : (registerFeatureGroup H now T resolve c).2.approvalKey =
          (identified H T c).feature.approvalKey := by
        show (registeredGroup H now T resolve c).approvalKey = _
        unfold registeredGroup joinedGroup
        rw [hexisting]
        dsimp only
        split
        · exact congrArg Feature.approvalKey matched_feature
        · exact congrArg Feature.approvalKey matched_feature
      unfold existingGroup at hexisting
      have hnone := (Option.or_eq_none_iff.mp hexisting).2
      rw [hkey, hnone] at h
      cases h

/-! ## States -/

/-- Every group has its key and an id of its own, and no rejected candidate an approval time. -/
structure Consistent (T : Tables μ) : Prop extends GroupsKeyed T where
  times : ∀ id c, T.candidates.get? id = some c → c.status = .rejected → c.approvedAt = none

theorem savedGroup_key (T : Tables μ) (group : Group) :
    (savedGroup T group).approvalKey = group.approvalKey := by
  unfold savedGroup
  cases T.groups.get? group.approvalKey with
  | none => rfl
  | some previous => rfl

theorem savedGroup_ruleId {group : Group} (h : group.ruleId.isSome = true) :
    (savedGroup T group).ruleId = group.ruleId := by
  unfold savedGroup
  cases T.groups.get? group.approvalKey with
  | none => rfl
  | some previous => exact Option.or_of_isSome h

theorem savedGroup_apart {group g : Group} {k : String} (hT : GroupsKeyed T)
    (hfree : T.groups.get? group.approvalKey = none → (T.groupById group.groupId).isNone = true)
    (hg : T.groups.get? k = some g) (hid : (savedGroup T group).groupId = g.groupId) :
    group.approvalKey = k := by
  unfold savedGroup at hid
  cases hget : T.groups.get? group.approvalKey with
  | none =>
      rw [hget] at hid
      exact absurd hid.symm (groupById_none (hfree hget) hg)
  | some previous =>
      rw [hget] at hid
      exact hT.distinct _ _ _ _ hget hg hid

theorem groupsKeyed_saved {group : Group} (hT : GroupsKeyed T)
    (hgroups : T'.groups = T.groups.set group.approvalKey (savedGroup T group))
    (hfree : T.groups.get? group.approvalKey = none → (T.groupById group.groupId).isNone = true) :
    GroupsKeyed T' where
  keyed k g hg := by
    rw [hgroups, Dict.get?_set] at hg
    split at hg
    · rename_i hk
      obtain rfl := Option.some.inj hg
      exact (savedGroup_key T group).trans hk
    · exact hT.keyed k g hg
  distinct k k' g g' hg hg' hid := by
    rw [hgroups, Dict.get?_set] at hg hg'
    split at hg
    · rename_i hk
      split at hg'
      · rename_i hk'
        exact hk.symm.trans hk'
      · obtain rfl := Option.some.inj hg
        exact hk.symm.trans (savedGroup_apart hT hfree hg' hid)
    · split at hg'
      · rename_i hk'
        obtain rfl := Option.some.inj hg'
        exact (savedGroup_apart hT hfree hg hid.symm).symm.trans hk'
      · exact hT.distinct k k' g g' hg hg' hid

theorem consistent_persisted {group : Group} (hT : Consistent T)
    (h : persistFeatureGroup T group id = .ok T') : Consistent T' := by
  obtain ⟨_, hcandidates, _, hgroups, hfree⟩ := persistFeatureGroup_spec h
  refine ⟨groupsKeyed_saved hT.toGroupsKeyed hgroups hfree, ?_⟩
  rw [hcandidates]
  exact hT.times

theorem consistent_written (hT : Consistent T) (h : WritesOnly id T T')
    (hc : T'.candidates.get? id = some c) (htime : c.status = .rejected → c.approvedAt = none) :
    Consistent T' where
  keyed := h.groups ▸ hT.keyed
  distinct := h.groups ▸ hT.distinct
  times other c' hc' := by
    by_cases hother : other = id
    · rw [hother, hc] at hc'
      obtain rfl := Option.some.inj hc'
      exact htime
    · rw [h.others other hother] at hc'
      exact hT.times other c' hc'

theorem consistent_settle {S : Settlement μ} (hT : Consistent T)
    (hS : ∀ c, (S.settled c).status = .rejected → (S.settled c).approvedAt = none) :
    Consistent (settle now T S) where
  keyed k g hg := by
    unfold settle at hg
    dsimp only at hg
    rw [Dict.get?_mapEntries] at hg
    obtain ⟨g₀, hg₀, rfl⟩ := Option.map_eq_some_iff.mp hg
    refine Eq.trans ?_ (hT.keyed k g₀ hg₀)
    split
    · rfl
    · rfl
  distinct k k' g g' hg hg' hid := by
    unfold settle at hg hg'
    dsimp only at hg hg'
    rw [Dict.get?_mapEntries] at hg hg'
    obtain ⟨g₀, hg₀, rfl⟩ := Option.map_eq_some_iff.mp hg
    obtain ⟨g₁, hg₁, rfl⟩ := Option.map_eq_some_iff.mp hg'
    have hkept : ∀ (p : Prop) [Decidable p] (g : Group),
        (if p then g.settle now S else g).groupId = g.groupId := by
      intro p _ g
      split
      · rfl
      · rfl
    rw [hkept, hkept] at hid
    exact hT.distinct k k' g₀ g₁ hg₀ hg₁ hid
  times id c hc := by
    unfold settle at hc
    dsimp only at hc
    rw [Dict.get?_mapEntries] at hc
    obtain ⟨c₀, hc₀, rfl⟩ := Option.map_eq_some_iff.mp hc
    split
    · exact hS c₀
    · exact hT.times id c₀ hc₀

theorem consistent_reconcile (rule : Rule) (hT : Consistent T) :
    Consistent (reconcile H now T rule) := by
  unfold reconcile
  split
  · exact consistent_settle hT fun _ h => by cases h
  · exact hT

theorem consistent_rejection (selected : Feature μ) (hT : Consistent T) :
    Consistent (settle now T (rejection H now selected)) :=
  consistent_settle hT fun _ _ => rfl

/-! ## What is left -/

/-- The same templates, components and type of problem. -/
structure SameEvidence (f g : Feature μ) : Prop where
  featureType : f.featureType = g.featureType
  components : f.components = g.components
  component : f.component = g.component
  sourceTemplates : f.sourceTemplates = g.sourceTemplates
  templateSignatures : f.templateSignatures = g.templateSignatures
  templateHashes : f.templateHashes = g.templateHashes
  supportingSignatures : f.supportingSignatures = g.supportingSignatures
  evaluatorFailed : f.evaluatorFailed = g.evaluatorFailed
  schemaVersion : f.schemaVersion = g.schemaVersion

/-- A rule written for a feature matches it, where the two are well formed. -/
def MatchesWritten (R : RuleResolver μ) (rule : Rule) (f : Feature μ) : Prop :=
  Classifies R → isLegacyFeature f (approvalIdentity R.toResolver f) = false →
    hasFormat R .validV2 rule = true →
    ((approvalIdentity R.toResolver f).matchMode = .templateSet → Clean R f) →
    ruleMatchesFeature R rule f = true

/-- A candidate that is resolved by an active rule. -/
structure ResolvedBy (T : Tables μ) (c : Candidate μ) (rule : Rule) : Prop where
  stored : rule ∈ T.rules
  active : isActive rule = true
  named : c.resolvedRule = some rule.ruleId

/-- What a review of `c` leaves of it, `c'`, and of its group. -/
structure ReviewOutcome (H : ReviewResolver μ) (T T' : Tables μ) (changes : Changes) (id : String)
    (c c' : Candidate μ) : Prop where
  requested : ∀ status, changes.status = some status → c'.status = status
  unrequested : changes.status = none → c'.status = c.status ∨
    c.status = .pending ∧ c'.status = .approved ∧ ∃ rule, ResolvedBy T' c' rule ∧
      ∃ f, SameEvidence f c'.feature ∧ ruleMatchesFeature H.toRuleResolver rule f = true
  resolved : c'.status = .approved → c.status ≠ .approved ∨ changes.status = some .approved →
    ∃ rule, ResolvedBy T' c' rule ∧ (c.status ≠ .approved →
      ∃ f, SameEvidence f c'.feature ∧ MatchesWritten H.toRuleResolver rule f)
  rejected : c'.status = .rejected → c'.approvedAt = none
  group : ∀ k g, T'.groups.get? k = some g → T'.members.get? id = some g.groupId →
    g.status = .approved → (activeRule T' g.ruleId).isSome = true ∨
      (c.status = .approved ∨ changes.status ≠ some .approved) ∧
        ((∃ previous, T.groups.get? k = some previous ∧ previous.status = .approved) ∨
          c.status = .approved ∧ changes.status ≠ some .approved)

theorem resolvedRule_of_resolvedRuleId {ruleId : String} (h : c.resolvedRuleId = some ruleId) :
    c.resolvedRule = some ruleId := by
  unfold Candidate.resolvedRule
  rw [h]
  rfl

/-- An approval leaves the candidate, and its group where that is approved, with the rule it
wrote. -/
theorem approve_spec {feature : Feature μ} {group : Group} (hT : Consistent T)
    (hid : ∀ previous, T.groups.get? group.approvalKey = some previous →
      previous.groupId = group.groupId)
    (hc : T.candidates.get? id = some c) (hstatus : c.status = .approved)
    (h : approve H moment T id feature group = .ok T') :
    Consistent T' ∧ ∃ rule c',
      upsertFeature H.toRuleResolver moment feature T.rules = .ok (rule, T'.rules) ∧
      T'.candidates.get? id = some c' ∧ c'.status = .approved ∧
      c'.resolvedRuleId = some rule.ruleId ∧ c'.feature = c.feature ∧
      ∀ k g, T'.groups.get? k = some g → T'.members.get? id = some g.groupId →
        g.status = .approved → g.ruleId = some rule.ruleId := by
  unfold approve at h
  split at h
  · cases h
  · rename_i rule rules hupsert
    obtain ⟨written, hwritten, h⟩ := bind_eq_ok.mp h
    obtain ⟨saved, hsaved, h⟩ := bind_eq_ok.mp h
    obtain rfl := pure_eq_ok.mp h
    obtain ⟨honly, current, hcurrent, _, _, time, hget⟩ := updateReviewState_spec hwritten
    obtain rfl : c = current := Option.some.inj (hc.symm.trans hcurrent)
    rw [if_pos hstatus] at hget
    have hTrules : Consistent { T with rules } := ⟨⟨hT.keyed, hT.distinct⟩, hT.times⟩
    have hTwritten : Consistent written :=
      consistent_written hTrules honly hget fun hrejected => by
        have hno : Status.approved = .rejected := hstatus.symm.trans hrejected
        cases hno
    obtain ⟨hrules, hcandidates, _, _, _⟩ := persistFeatureGroup_spec hsaved
    have hsettles := reconcile_settles H moment.now rule saved
    rw [← hcandidates] at hget
    have hfinal := hsettles.decided id _ hget fun hpending => by
      have hno : Status.approved = .pending := hstatus.symm.trans hpending
      cases hno
    refine ⟨consistent_reconcile rule (consistent_persisted hTwritten hsaved), rule, _, ?_, hfinal,
      hstatus, rfl, rfl, ?_⟩
    · rw [hupsert, hsettles.rules, hrules, honly.rules]
    · intro k g hg hmember happroved
      rw [hsettles.members] at hmember
      have hprevious : ∀ previous, written.groups.get? group.approvalKey = some previous →
          previous.groupId = group.groupId := by
        rw [honly.groups]
        exact hid
      have hwhich := persisted_group hTwritten.toGroupsKeyed
        (by exact hprevious) hsaved (hsettles.approved k g hg happroved) hmember happroved
      rcases hwhich with ⟨_, _, hrule⟩ | ⟨hno, _⟩
      · exact hrule rfl
      · exact absurd rfl hno

theorem matchesWritten_of_upsertFeature {R : RuleResolver μ} {f : Feature μ} {rules next : List Rule}
    {rule : Rule} (h : upsertFeature R moment f rules = .ok (rule, next)) : MatchesWritten R rule f :=
  fun hclassifies hlegacy hvalid hclean =>
    ruleMatches_of_approved hclassifies (approved_of_upsertFeature h hlegacy) hlegacy hvalid hclean

theorem sameEvidence_identified (c : Candidate μ) :
    SameEvidence (identified H T c).feature c.feature := by
  unfold identified prepareFeature
  dsimp only
  split
  · exact ⟨rfl, rfl, rfl, rfl, rfl, rfl, rfl, rfl, rfl⟩
  · exact ⟨rfl, rfl, rfl, rfl, rfl, rfl, rfl, rfl, rfl⟩

/-- What the first step of a review leaves of the candidate. -/
theorem review_written {feature : Candidate μ} (hc : T.candidates.get? id = some c)
    (h : updateReviewState H now T id (changes.reviewState c feature) c.status (some c.updatedAt) =
      .ok T') :
    WritesOnly id T T' ∧ (c.status = .pending ∨ feature.status = c.status) ∧
      ∃ c', T'.candidates.get? id = some c' ∧ c'.status = feature.status ∧
        c'.approvedAt = feature.approvedAt ∧ c'.resolvedRuleId = feature.resolvedRuleId ∧
        SameEvidence c.feature c'.feature := by
  obtain ⟨honly, current, hcurrent, hstatus, _, time, hget⟩ := updateReviewState_spec h
  obtain rfl : c = current := Option.some.inj (hc.symm.trans hcurrent)
  rw [if_pos rfl] at hget
  obtain ⟨hnew, happroved, hresolved⟩ := apply_reviewState changes c feature
  refine ⟨honly, hstatus.imp_right fun hsame => ?_, _, hget, hnew, happroved, hresolved, ?_⟩
  · exact (changed_getD _ _).symm.trans hsame
  · exact ⟨rfl, rfl, rfl, rfl, rfl, rfl, rfl, rfl, rfl⟩

/-- The group of a candidate whose review approves nothing. -/
theorem unapproved_group (hT : Consistent T) (hno : changes.status ≠ some .approved)
    {written saved : Tables μ} (honly : WritesOnly id T written) (hsettles : Settles saved T')
    (hsaved : persistFeatureGroup written (rejectedGroup moment changes
      (registerFeatureGroup H now T true c).2) id = .ok saved)
    {k : String} {g : Group} (hg : T'.groups.get? k = some g)
    (hmember : T'.members.get? id = some g.groupId) (happroved : g.status = .approved) :
    (activeRule T' g.ruleId).isSome = true ∨
      (c.status = .approved ∨ changes.status ≠ some .approved) ∧
        ((∃ previous, T.groups.get? k = some previous ∧ previous.status = .approved) ∨
          c.status = .approved ∧ changes.status ≠ some .approved) := by
  by_cases hc : c.status = .approved
  · exact .inr ⟨.inl hc, .inr ⟨hc, hno⟩⟩
  have hgroup : ∀ group : Group, (rejectedGroup moment changes group).approvalKey = group.approvalKey ∧
      (rejectedGroup moment changes group).groupId = group.groupId ∧
      (rejectedGroup moment changes group).ruleId = group.ruleId := by
    intro group
    unfold rejectedGroup
    split
    · exact ⟨rfl, rfl, rfl⟩
    · exact ⟨rfl, rfl, rfl⟩
  obtain ⟨hkey, hgroupId, hruleId⟩ := hgroup (registerFeatureGroup H now T true c).2
  have hwritten : GroupsKeyed written := ⟨honly.groups ▸ hT.keyed, honly.groups ▸ hT.distinct⟩
  rw [hsettles.members] at hmember
  have hwhich := persisted_group hwritten (fun previous hprevious => by
    rw [hkey, honly.groups] at hprevious
    rw [hgroupId]
    exact register_groupId hT.toGroupsKeyed hprevious) hsaved (hsettles.approved k g hg happroved)
    hmember happroved
  have hrules : T'.rules = T.rules :=
    hsettles.rules.trans ((persistFeatureGroup_spec hsaved).1.trans honly.rules)
  rcases hwhich with ⟨hk, hstatus, hrule⟩ | ⟨_, previous, hprevious, happroved⟩
  · have hsame : (registerFeatureGroup H now T true c).2.status = .approved := by
      unfold rejectedGroup at hstatus
      split at hstatus
      · cases hstatus
      · exact hstatus
    rcases register_group hc hsame with hactive | ⟨previous, hprevious, happroved⟩
    · refine .inl ?_
      have hsome : (registerFeatureGroup H now T true c).2.ruleId.isSome = true := by
        obtain ⟨rule, hrule⟩ := Option.isSome_iff_exists.mp hactive
        rw [(activeRule_some hrule).2.2]
        rfl
      rw [hrule (hruleId ▸ hsome), hruleId]
      unfold activeRule
      rw [hrules]
      exact hactive
    · have hstored := register_stored now true hT.toGroupsKeyed hprevious
      rw [← hkey, hk] at hstored
      exact .inr ⟨.inr hno, .inl ⟨previous, hstored, happroved⟩⟩
  · rw [honly.groups] at hprevious
    exact .inr ⟨.inr hno, .inl ⟨previous, hprevious, happroved⟩⟩

theorem SameEvidence.trans {f g h : Feature μ} (hfg : SameEvidence f g) (hgh : SameEvidence g h) :
    SameEvidence f h where
  featureType := hfg.featureType.trans hgh.featureType
  components := hfg.components.trans hgh.components
  component := hfg.component.trans hgh.component
  sourceTemplates := hfg.sourceTemplates.trans hgh.sourceTemplates
  templateSignatures := hfg.templateSignatures.trans hgh.templateSignatures
  templateHashes := hfg.templateHashes.trans hgh.templateHashes
  supportingSignatures := hfg.supportingSignatures.trans hgh.supportingSignatures
  evaluatorFailed := hfg.evaluatorFailed.trans hgh.evaluatorFailed
  schemaVersion := hfg.schemaVersion.trans hgh.schemaVersion

theorem overlay_approvedAt {registered : Candidate μ}
    (hstatus : registered.status = .approved ∨
      registered.status = c.status ∧ registered.approvedAt = c.approvedAt)
    (hc : c.status = .rejected → c.approvedAt = none)
    (h : (changes.overlay now registered).status = .rejected) :
    (changes.overlay now registered).approvedAt = none := by
  unfold Changes.overlay at h ⊢
  dsimp only at h ⊢
  cases hrequested : changes.status with
  | none =>
      rw [hrequested, Option.getD_none] at h
      dsimp only
      rcases hstatus with hstatus | ⟨hstatus, happroved⟩
      · rw [hstatus] at h
        cases h
      · rw [happroved]
        exact hc (hstatus.symm.trans h)
  | some status =>
      rw [hrequested, Option.getD_some] at h
      rw [h]

/-- Every review but one that repeats a decision leaves its outcome. -/
theorem applyReview_outcome (hT : Consistent T) (hc : T.candidates.get? id = some c)
    (h : applyReview H moment T changes id c = .ok T') :
    Consistent T' ∧ ∃ c', T'.candidates.get? id = some c' ∧
      ReviewOutcome H T T' changes id c c' := by
  unfold applyReview at h
  dsimp only at h
  obtain ⟨written, hwritten, h⟩ := bind_eq_ok.mp h
  obtain ⟨latest, hlatest, h⟩ := bind_eq_ok.mp h
  rw [orFail_eq_ok] at hlatest
  obtain ⟨honly, hkept, c₁, hget, hstatus, happroved, hresolved, hevidence⟩ :=
    review_written hc hwritten
  obtain rfl : c₁ = latest := Option.some.inj (hget.symm.trans hlatest)
  have htime : c₁.status = .rejected → c₁.approvedAt = none := by
    rw [hstatus, happroved]
    exact overlay_approvedAt (register_status _ _ _ _ _) (hT.times id c hc)
  have hTwritten := consistent_written hT honly hget htime
  have hoverlay : c₁.status = changes.status.getD
      (registerFeatureGroup H moment.now T true c).1.status := hstatus
  split at h
  · rename_i hrequested
    have hc₁ : c₁.status = .approved := by
      rw [hoverlay, hrequested]
      rfl
    have hprevious : ∀ previous, written.groups.get?
        (registerFeatureGroup H moment.now T true c).2.approvalKey = some previous →
        previous.groupId = (registerFeatureGroup H moment.now T true c).2.groupId := by
      rw [honly.groups]
      exact fun _ => register_groupId hT.toGroupsKeyed
    obtain ⟨hT', rule, c', hupsert, hget', hstatus', hnamed, hfeature, hgroup⟩ :=
      approve_spec hTwritten hprevious hget hc₁ h
    obtain ⟨hstored, hactive⟩ := active_of_upsertFeature hupsert
    refine ⟨hT', c', hget', ?_, ?_, ?_, ?_, ?_⟩
    · intro status hsome
      rw [hstatus']
      exact Option.some.inj (hrequested.symm.trans hsome)
    · intro hnone
      rw [hrequested] at hnone
      cases hnone
    · intro _ _
      refine ⟨rule, ⟨hstored, hactive, resolvedRule_of_resolvedRuleId hnamed⟩, fun _ => ?_⟩
      refine ⟨_, ?_, matchesWritten_of_upsertFeature hupsert⟩
      rw [hfeature]
      exact ⟨rfl, rfl, rfl, rfl, rfl, rfl, rfl, rfl, rfl⟩
    · intro hrejected
      rw [hstatus'] at hrejected
      cases hrejected
    · intro k g hg hmember hgapproved
      exact .inl (activeRule_isSome hstored hactive (hgroup k g hg hmember hgapproved))
  · rename_i hno
    obtain ⟨saved, hsaved, h⟩ := bind_eq_ok.mp h
    obtain ⟨hrules, hcandidates, _, _, _⟩ := persistFeatureGroup_spec hsaved
    have hTsaved := consistent_persisted hTwritten hsaved
    have hsettled : Settles saved T' ∧ Consistent T' ∧ T'.candidates.get? id = some c₁ := by
      rw [← hcandidates] at hget
      split at h
      · rename_i hrejected
        obtain rfl := pure_eq_ok.mp h
        have hsettles : Settles saved (settle moment.now saved (rejection H moment.now
            (filled c₁ (changes.overlay moment.now
              (registerFeatureGroup H moment.now T true c).1)).feature)) :=
          settle_settles (fun h => by cases h) saved
        refine ⟨hsettles, consistent_rejection _ hTsaved, hsettles.decided id c₁ hget ?_⟩
        intro hpending
        rw [hoverlay, hrejected.1] at hpending
        cases hpending
      · obtain rfl := pure_eq_ok.mp h
        exact ⟨.refl saved, hTsaved, hget⟩
    obtain ⟨hsettles, hT', hget'⟩ := hsettled
    have hsame : T'.rules = T.rules := hsettles.rules.trans (hrules.trans honly.rules)
    have hauto : c₁.status = .approved → c.status ≠ .approved → c.status = .pending ∧
        ∃ rule, ResolvedBy T' c₁ rule ∧ ∃ f, SameEvidence f c₁.feature ∧
          ruleMatchesFeature H.toRuleResolver rule f = true := by
      intro hc₁ hcno
      have hpending : c.status = .pending := hkept.resolve_right fun hsame => by
        rw [← hsame, ← hstatus] at hcno
        exact hcno hc₁
      have hnone : changes.status = none := by
        cases hrequested : changes.status with
        | none => rfl
        | some status =>
            rw [hoverlay, hrequested, Option.getD_some] at hc₁
            rw [hrequested, hc₁] at hno
            exact absurd rfl hno
      rw [hoverlay, hnone, Option.getD_none] at hc₁
      obtain ⟨rule, hmem, hactive, hmatch, hnamed, _⟩ := register_approves hpending hc₁
      refine ⟨hpending, rule, ⟨hsame ▸ hmem, hactive, ?_⟩, _,
        (sameEvidence_identified c).trans hevidence, hmatch⟩
      exact resolvedRule_of_resolvedRuleId (hresolved.trans hnamed)
    refine ⟨hT', c₁, hget', ?_, ?_, ?_, htime, ?_⟩
    · intro status hsome
      rw [hoverlay, hsome]
      rfl
    · intro hnone
      rw [hnone, Option.getD_none] at hoverlay
      rcases register_status H moment.now T c true with
        hc₁ | ⟨hc₁, _⟩
      · by_cases hcno : c.status = .approved
        · exact .inl (hoverlay.trans (hc₁.trans hcno.symm))
        · obtain ⟨hpending, hrule⟩ := hauto (hoverlay.trans hc₁) hcno
          exact .inr ⟨hpending, hoverlay.trans hc₁, hrule⟩
      · exact .inl (hoverlay.trans hc₁)
    · intro hc₁ hwhich
      obtain ⟨_, rule, hrule, f, hf, hmatch⟩ := hauto hc₁ (hwhich.resolve_right hno)
      exact ⟨rule, hrule, fun _ => ⟨f, hf, fun _ _ _ _ => hmatch⟩⟩
    · intro k g hg hmember hgapproved
      exact unapproved_group hT hno honly hsettles hsaved hg hmember hgapproved

/-! ## Decisions that are repeated -/

theorem setGroupApproved_spec {ruleId : String} (hT : GroupsKeyed T)
    (h : setGroupApproved now T c ruleId = .ok T') :
    T'.rules = T.rules ∧ T'.candidates = T.candidates ∧ T'.members = T.members ∧ GroupsKeyed T' ∧
      ∀ k g, T'.groups.get? k = some g → T.groups.get? k = some g ∨ g.ruleId = some ruleId := by
  unfold setGroupApproved at h
  split at h
  · cases h
    exact ⟨rfl, rfl, rfl, hT, fun _ _ hg => .inl hg⟩
  · split at h
    · cases h
      exact ⟨rfl, rfl, rfl, hT, fun _ _ hg => .inl hg⟩
    · obtain ⟨rfl, hfree⟩ := saveGroup_spec h
      refine ⟨rfl, rfl, rfl, groupsKeyed_saved hT rfl hfree, fun k g hg => ?_⟩
      dsimp only at hg
      rw [Dict.get?_set] at hg
      split at hg
      · obtain rfl := Option.some.inj hg
        exact .inr (savedGroup_ruleId rfl)
      · exact .inl hg

/-- A review that repeats a decision leaves the candidate. -/
theorem repeated_outcome (hT' : Consistent T') (hc : T'.candidates.get? id = some c)
    (hrequested : changes.status = some c.status)
    (hresolved : c.status = .approved → ∃ rule, ResolvedBy T' c rule)
    (hgroup : ∀ k g, T'.groups.get? k = some g → g.status = .approved →
      (activeRule T' g.ruleId).isSome = true ∨
        ∃ previous, T.groups.get? k = some previous ∧ previous.status = .approved) :
    Consistent T' ∧ ∃ c', T'.candidates.get? id = some c' ∧
      ReviewOutcome H T T' changes id c c' := by
  refine ⟨hT', c, hc, ?_, ?_, ?_, hT'.times id c hc, ?_⟩
  · intro status hsome
    exact Option.some.inj (hrequested.symm.trans hsome)
  · intro hnone
    rw [hnone] at hrequested
    cases hrequested
  · intro happroved _
    obtain ⟨rule, hrule⟩ := hresolved happroved
    exact ⟨rule, hrule, fun hno => absurd happroved hno⟩
  · intro k g hg _ happroved
    refine (hgroup k g hg happroved).imp_right fun hprevious => ⟨?_, .inl hprevious⟩
    rw [hrequested]
    by_cases hstatus : c.status = .approved
    · exact .inl hstatus
    · exact .inr fun h => hstatus (Option.some.inj h)

theorem reviewFeature_outcome {jobId : String} (hT : Consistent T)
    (h : reviewFeature H moment T changes jobId id = .ok T') :
    ∃ c, T.candidates.get? id = some c ∧ Consistent T' ∧
      ∃ c', T'.candidates.get? id = some c' ∧ ReviewOutcome H T T' changes id c c' := by
  unfold reviewFeature at h
  obtain ⟨_, _, h⟩ := bind_eq_ok.mp h
  obtain ⟨c, hc, h⟩ := bind_eq_ok.mp h
  rw [orFail_eq_ok] at hc
  obtain ⟨_, h⟩ := require_bind_eq_ok.mp h
  refine ⟨c, hc, ?_⟩
  split at h
  · rename_i hrepeated
    split at h
    · -- an approval is repeated: its rule and its group are brought up to date
      rename_i rule hstatus hstanding
      obtain ⟨hmem, hactive, hnamed⟩ := activeRule_some hstanding
      have hsettles := reconcile_settles H moment.now rule T
      have hconsistent : Consistent (reconcile H moment.now T rule) := consistent_reconcile rule hT
      obtain ⟨hrules, hcandidates, _, hkeyed, hgroups⟩ :=
        setGroupApproved_spec hconsistent.toGroupsKeyed h
      have hsame : T'.rules = T.rules := hrules.trans hsettles.rules
      have hT' : Consistent T' := ⟨hkeyed, hcandidates ▸ hconsistent.times⟩
      refine repeated_outcome hT' ?_ hrepeated.1 (fun _ => ⟨rule, hsame ▸ hmem, hactive, hnamed⟩)
        fun k g hg happroved => ?_
      · rw [hcandidates]
        refine hsettles.decided id c hc fun hpending => ?_
        rw [hstatus] at hpending
        cases hpending
      · rcases hgroups k g hg with hg | hrule
        · exact .inr ⟨g, hsettles.approved k g hg happroved, happroved⟩
        · exact .inl (activeRule_isSome (hsame ▸ hmem) hactive hrule)
    · -- a rejection is repeated
      rename_i hstatus
      have hsettled : Settles T T' ∧ Consistent T' := by
        split at h
        · obtain rfl := pure_eq_ok.mp h
          exact ⟨settle_settles (fun h => by cases h) T, consistent_rejection _ hT⟩
        · obtain rfl := pure_eq_ok.mp h
          exact ⟨.refl T, hT⟩
      obtain ⟨hsettles, hT'⟩ := hsettled
      refine repeated_outcome hT' (hsettles.decided id c hc fun hpending => ?_) hrepeated.1
        (fun happroved => ?_) fun k g hg happroved => ?_
      · rw [hstatus] at hpending
        cases hpending
      · rw [hstatus] at happroved
        cases happroved
      · exact .inr ⟨g, hsettles.approved k g hg happroved, happroved⟩
    · exact applyReview_outcome hT hc h
  · exact applyReview_outcome hT hc h

/-- A stand-in for the digest here is how a text begins. -/
def plainReview : ReviewResolver Unit where
  toRuleResolver := { generalFailure with sha256 := fun text => String.ofList (text.toList.take 8) }
  dropCode _ := ()
  withCode _ _ := ()
  ruleEvidence _ := ()

/-- A pending candidate. -/
def oneCandidate : Tables Unit :=
  { candidates := Dict.set ∅ "candidate"
      { candidateId := "candidate"
        jobId := "job"
        feature := pluginFeature "h1"
        status := .pending
        updatedAt := "2026-01-01T00:00:00+00:00" } }

/-- Disable every rule, as `changeStatus` writes it. -/
def disableRules (T : Tables Unit) : Tables Unit :=
  { T with
    rules := T.rules.map fun rule =>
      { rule with
        status := "disabled"
        currentVersion := rule.currentVersion + 1
        updatedAt := "2026-01-02T00:00:00+00:00" } }

/-- The candidate is approved, its rule is disabled, and a note is written. -/
def noteAfterDisabling : Outcome (Tables Unit) := do
  let approved ← reviewFeature plainReview firstOfJanuary oneCandidate { status := some .approved }
    "job" "candidate"
  reviewFeature plainReview firstOfJanuary (disableRules approved) { reviewerNote := some "checked" }
    "job" "candidate"

/-- The candidate and a group of it are approved, and no rule is active. -/
def approvedWithoutRule : Outcome (Tables Unit) → Bool
  | .ok T => T.rules.all (fun rule => !isActive rule) &&
      (T.candidates.get? "candidate").any (fun c => decide (c.status = .approved)) &&
      T.groups.values.any fun g => decide (T.members.get? "candidate" = some g.groupId) &&
        decide (g.status = .approved)
  | .error _ => false

theorem spec_of_approvedWithoutRule {outcome : Outcome (Tables Unit)}
    (h : approvedWithoutRule outcome = true) : ∃ T c g, outcome = .ok T ∧
      T.candidates.get? "candidate" = some c ∧ c.status = .approved ∧
      (¬ ∃ rule, ResolvedBy T c rule) ∧ g ∈ T.groups.values ∧
      T.members.get? "candidate" = some g.groupId ∧ g.status = .approved ∧
      activeRule T g.ruleId = none := by
  cases outcome with
  | error e => cases h
  | ok T =>
      unfold approvedWithoutRule at h
      simp only [Bool.and_eq_true, List.any_eq_true, decide_eq_true_eq] at h
      obtain ⟨⟨hinactive, hcandidate⟩, g, hg, hmember, happroved⟩ := h
      obtain ⟨c, hc, hstatus⟩ := (Option.any_eq_true _ _).mp hcandidate
      have hnone : ∀ rule ∈ T.rules, ¬ isActive rule = true := by
        intro rule hrule hactive
        have hno := List.all_eq_true.mp hinactive rule hrule
        rw [hactive] at hno
        cases hno
      refine ⟨T, c, g, rfl, hc, of_decide_eq_true hstatus, ?_, hg, hmember, happroved, ?_⟩
      · rintro ⟨rule, hrule⟩
        exact hnone rule hrule.stored hrule.active
      · cases hactive : activeRule T g.ruleId with
        | none => rfl
        | some rule =>
            obtain ⟨hrule, hisActive, _⟩ := activeRule_some hactive
            exact absurd hisActive (hnone rule hrule)

end LogRisk.Review
