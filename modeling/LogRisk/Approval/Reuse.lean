import LogRisk.Approval.Canonical
import LogRisk.Approval.Distinct

/-!
# Reuse of approved rules

A feature is matched with a stored rule by its exact identity, or by its problem code
where that is resolved safely.  A feature that was just approved finds its own rule again,
as long as the rule passes the checks of the store and the templates the feature selects
are among its own.
-/

namespace LogRisk.Approval

open LogRisk.Library LogRisk.Library.Text LogRisk.Library.Transaction

variable {μ : Type}

/-! ## Matching a feature -/

section Match

variable (R : RuleResolver μ)

/-- Rule and feature resolve safely to one problem code. -/
def semanticAgree (rule : Rule) (feature : Feature μ) (identity : Identity) : Bool :=
  rule.matchMode = some .semantic && identity.matchMode = .semantic &&
    (R.resolveRule rule).semanticSafe && (R.resolveProblem feature).semanticSafe &&
    (R.resolveRule rule).problemCode = (R.resolveProblem feature).problemCode &&
    (R.resolveProblem feature).problemCode = some identity.problemCode

/-- `rule_matches_feature`. -/
def ruleMatchesFeature (rule : Rule) (feature : Feature μ) : Bool :=
  isActive rule &&
    match (classifyRule R rule).kind with
    | .legacyV1 => legacyFeatureMatches rule feature
    | .malformedV2 => false
    | .validV2 =>
        let identity := approvalIdentity R.toResolver feature
        !isLegacyFeature feature identity &&
          (v2ExactFeatureMatch R rule feature identity || semanticAgree R rule feature identity)

/-- `ApprovedRuleStore.match_feature`. -/
def matchFeature (feature : Feature μ) (rules : List Rule) : List Rule :=
  let identity := approvalIdentity R.toResolver feature
  let active := rules.filter isActive
  if feature.evaluatorFailed then []
  else if isLegacyFeature feature identity then
    (preferredRule (active.filter fun rule =>
      hasFormat R .legacyV1 rule && legacyFeatureMatches rule feature)).toList
  else match preferredRule (active.filter fun rule => v2ExactFeatureMatch R rule feature identity) with
    | some exact => [exact]
    | none =>
        (preferredRule (active.filter fun rule =>
          hasFormat R .validV2 rule && semanticAgree R rule feature identity)).toList

end Match

section Sound

variable {R : RuleResolver μ} {feature : Feature μ} {rules : List Rule} {rule : Rule}

theorem kind_of_hasFormat {format : RuleFormat} (h : hasFormat R format rule = true) :
    (classifyRule R rule).kind = format := of_decide_eq_true h

theorem hasFormat_of_exact {identity : Identity}
    (h : v2ExactFeatureMatch R rule feature identity = true) : hasFormat R .validV2 rule = true := by
  unfold v2ExactFeatureMatch at h
  by_cases hformat : hasFormat R .validV2 rule = true
  · exact hformat
  · rw [Bool.eq_false_of_not_eq_true hformat, Bool.not_false, if_pos rfl] at h
    cases h

theorem spec_of_preferred {p : Rule → Bool}
    (h : preferredRule ((rules.filter isActive).filter p) = some rule) :
    rule ∈ rules ∧ isActive rule = true ∧ p rule = true := by
  obtain ⟨hmem, hp⟩ := List.mem_filter.mp (mem_of_preferredRule h)
  obtain ⟨hmem, hactive⟩ := List.mem_filter.mp hmem
  exact ⟨hmem, hactive, hp⟩

/-- What a lookup returns is a stored rule that matches. -/
theorem ruleMatches_of_mem_matchFeature (h : rule ∈ matchFeature R feature rules) :
    rule ∈ rules ∧ ruleMatchesFeature R rule feature = true := by
  unfold matchFeature at h
  dsimp only at h
  unfold ruleMatchesFeature
  split at h
  · exact absurd h List.not_mem_nil
  · split at h
    · obtain ⟨hmem, hactive, hp⟩ := spec_of_preferred (Option.mem_toList.mp h)
      rw [Bool.and_eq_true] at hp
      refine ⟨hmem, ?_⟩
      rw [hactive, kind_of_hasFormat hp.1]
      exact hp.2
    · rename_i hlegacy
      have hlegacy := Bool.eq_false_of_not_eq_true hlegacy
      split at h
      · rename_i exact hexact
        rw [List.mem_singleton] at h
        obtain ⟨hmem, hactive, hp⟩ := spec_of_preferred (h ▸ hexact)
        refine ⟨hmem, ?_⟩
        rw [hactive, kind_of_hasFormat (hasFormat_of_exact hp)]
        dsimp only
        rw [hlegacy, hp]
        rfl
      · obtain ⟨hmem, hactive, hp⟩ := spec_of_preferred (Option.mem_toList.mp h)
        rw [Bool.and_eq_true] at hp
        refine ⟨hmem, ?_⟩
        rw [hactive, kind_of_hasFormat hp.1]
        dsimp only
        rw [hlegacy, hp.2, Bool.or_true]
        rfl

end Sound

/-! ## The latest rule -/

theorem mem_replace_of_mem {α : Type} [DecidableEq α] {a b : α} {items : List α} (h : a ∈ items) :
    b ∈ items.replace a b := by
  induction items with
  | nil => cases h
  | cons head items ih =>
      rw [List.replace_cons]
      split
      · exact List.mem_cons_self
      · rename_i hne
        rcases List.mem_cons.mp h with rfl | h
        · rw [beq_self_eq_true] at hne
          cases hne
        · exact List.mem_cons_of_mem _ (ih h)

theorem preferredRule_eq_of_latest {rules : List Rule} {rule : Rule} (hrule : rule ∈ rules)
    (hlatest : ∀ other ∈ rules, other = rule ∨ other.updatedAt < rule.updatedAt) :
    preferredRule rules = some rule := by
  have hmax : (rules.map Rule.updatedAt).max? = some rule.updatedAt := by
    rw [List.max?_eq_some_iff]
    refine ⟨List.mem_map_of_mem hrule, fun time htime => ?_⟩
    obtain ⟨other, hother, rfl⟩ := List.mem_map.mp htime
    rcases hlatest other hother with rfl | h
    · exact le_refl _
    · exact h.le
  unfold preferredRule
  rw [hmax]
  dsimp only
  have hall : ∀ other ∈ (rules.filter (·.updatedAt = rule.updatedAt)).insertionSort
      (·.ruleId ≤ ·.ruleId), other = rule := by
    intro other hother
    rw [List.mem_insertionSort, List.mem_filter, decide_eq_true_eq] at hother
    exact (hlatest other hother.1).resolve_right fun h => h.ne hother.2
  have hmem : rule ∈ (rules.filter (·.updatedAt = rule.updatedAt)).insertionSort
      (·.ruleId ≤ ·.ruleId) := by
    rw [List.mem_insertionSort]
    exact List.mem_filter.mpr ⟨hrule, decide_eq_true rfl⟩
  cases hsorted : (rules.filter (·.updatedAt = rule.updatedAt)).insertionSort
      (·.ruleId ≤ ·.ruleId) with
  | nil =>
      rw [hsorted] at hmem
      cases hmem
  | cons first rest =>
      rw [hsorted] at hall
      rw [List.head?_cons, hall first List.mem_cons_self]

/-! ## The rule just written -/

section Written

variable (R : RuleResolver μ) (feature : Feature μ)

/-- The rule carries the content of the feature. -/
structure WrittenFor (rule : Rule) : Prop where
  featureType : rule.featureType = normalizeFeatureType feature.featureType
  components : rule.components = componentScope feature
  templates : rule.templateSignatures = templatePairs feature.sourceTemplates
  anchors : rule.anchorSignatures = R.anchorSignatures feature
  problemCode : rule.problemCode = R.problemCode feature
  matchMode : rule.matchMode = some (approvalIdentity R.toResolver feature).matchMode
  active : isActive rule = true

/-- The selected templates are among the templates of the feature, no fingerprint is
blank, and no anchor has white space at its ends. -/
structure Clean : Prop where
  covered : selectedTemplateIdsCovered feature = true
  plain : ∀ item ∈ feature.sourceTemplates, Plain item
  trimmed : ∀ anchor ∈ R.anchorSignatures feature, strip anchor = anchor

/-- A problem resolved safely has a code, and a rule written with this code resolves to it
or not safely. -/
structure Classifies : Prop where
  hasCode : ∀ feature : Feature μ, (R.resolveProblem feature).semanticSafe = true →
    (R.resolveProblem feature).problemCode.isSome = true
  keepsCode : ∀ (feature : Feature μ) (rule : Rule), (R.resolveProblem feature).semanticSafe = true →
    (R.resolveProblem feature).problemCode = some rule.problemCode → rule.matchMode = some .semantic →
    (R.resolveRule rule).semanticSafe = true →
    (R.resolveRule rule).problemCode = some rule.problemCode

/-- The rule is filed under a key of the feature. -/
def FiledUnder (rule : Rule) : Prop :=
  rule.approvalKey = (approvalIdentity R.toResolver feature).approvalKey ∨
    rule.approvalKey = featureStorageKey R.toResolver feature ∨
    rule.canonicalApprovalKey = some (approvalIdentity R.toResolver feature).approvalKey

end Written

section Reuse

variable {R : RuleResolver μ} {feature : Feature μ} {rules next : List Rule} {rule returned : Rule}
  {moment : Moment}

theorem filedUnder_of_exact
    (h : v2ExactFeatureMatch R rule feature (approvalIdentity R.toResolver feature) = true) :
    FiledUnder R feature rule := by
  unfold v2ExactFeatureMatch at h
  split at h
  · cases h
  · split at h
    · cases h
    · rename_i hkeys
      by_contra hno
      unfold FiledUnder at hno
      push Not at hno
      exact hkeys hno

theorem keys_of_filedUnder (h : FiledUnder R feature rule) :
    ¬ (rule.approvalKey ≠ (approvalIdentity R.toResolver feature).approvalKey ∧
      rule.approvalKey ≠ storageKey R.toResolver feature.featureType feature.sources
        (approvalIdentity R.toResolver feature) ∧
      rule.canonicalApprovalKey ≠ some (approvalIdentity R.toResolver feature).approvalKey) := by
  rintro ⟨hkey, hstorage, hcanonical⟩
  rcases h with h | h | h
  · exact hkey h
  · exact hstorage h
  · exact hcanonical h

theorem isActive_of_status (h : rule.status = "active") : isActive rule = true := by
  unfold isActive
  rw [h]
  decide

theorem writtenFor_newRule (predecessor : Option Rule) (ruleId approvalKey signature : String) :
    WrittenFor R feature (newRule R moment feature predecessor ruleId approvalKey signature) where
  featureType := by dsimp only [newRule]
  components := rfl
  templates := rfl
  anchors := rfl
  problemCode := rfl
  matchMode := rfl
  active := isActive_of_status rfl

theorem writtenFor_createdRule (baseSignature : String) :
    WrittenFor R feature (createdRule R moment feature rules baseSignature) := by
  unfold createdRule
  exact writtenFor_newRule _ _ _ _

theorem writtenFor_updatedRule (existing : Rule) (signature : String) :
    WrittenFor R feature (updatedRule R moment feature existing signature) where
  featureType := by dsimp only [updatedRule, newRule]
  components := rfl
  templates := rfl
  anchors := rfl
  problemCode := rfl
  matchMode := rfl
  active := isActive_of_status rfl

theorem sources_eq (h : templatePairs feature.sourceTemplates ≠ []) :
    feature.sources = feature.sourceTemplates := by
  unfold Feature.sources
  refine if_neg fun hnil => h ?_
  rw [hnil]
  rfl

/-- A valid rule written for a clean feature is matched by its templates. -/
theorem exact_of_templateSet (hvalid : hasFormat R .validV2 rule = true)
    (hwritten : WrittenFor R feature rule) (hclean : Clean R feature)
    (htemplates : templatePairs feature.sourceTemplates ≠ [])
    (hmode : (approvalIdentity R.toResolver feature).matchMode = .templateSet)
    (hfiled : FiledUnder R feature rule) :
    v2ExactFeatureMatch R rule feature (approvalIdentity R.toResolver feature) = true := by
  have hrule : rule.matchMode = some .templateSet := hwritten.matchMode.trans (congrArg some hmode)
  have hformed := wellFormed_of_validV2 hvalid
  have hset : templateSetErrors R rule = [] := by
    rcases hformed.mode with ⟨hmode, -⟩ | ⟨-, herrors⟩
    · rw [hrule] at hmode
      cases hmode
    · exact herrors
  obtain ⟨hscope, hpairs, -, -⟩ := templateSetErrors_eq_nil_iff.mp hset
  have hsameType : normalizeFeatureType rule.featureType =
      normalizeFeatureType feature.featureType := by
    rw [hwritten.featureType, normalizeFeatureType_idem]
  have hsameComponents : ruleComponents rule.components rule.templateSignatures =
      sortedSet (approvalIdentity R.toResolver feature).componentScope := by
    have hcomponents := hformed.components
    rw [hwritten.components] at hcomponents hscope ⊢
    refine ruleComponents_componentScope hcomponents _ fun hempty => hscope ?_
    rw [hempty, hwritten.templates]
    exact ruleComponents_templatePairs _
  have hsameAnchors : sortedSet (stripped rule.anchorSignatures) =
      sortedSet (approvalIdentity R.toResolver feature).anchorSignatures := by
    have hanchors := hformed.anchorSignatures
    rw [hwritten.anchors] at hanchors ⊢
    rw [stripped_eq_self]
    · rfl
    · intro anchor hanchor
      refine ⟨hclean.trimmed anchor hanchor, fun hempty => hanchors anchor hanchor ?_⟩
      rw [hempty]
      decide
  have hsamePairs : v2TemplatePairs rule.templateSignatures = v2TemplatePairs feature.sources := by
    rw [hwritten.templates, sources_eq htemplates, v2TemplatePairs_templatePairs hclean.plain]
  unfold v2ExactFeatureMatch
  rw [hvalid, Bool.not_true, if_neg Bool.false_ne_true, if_neg (keys_of_filedUnder hfiled), hrule]
  dsimp only
  rw [if_neg (not_not_intro hmode), if_neg (by rintro (h | h | h | h); exacts [h rfl, hformed.knownType h, hscope h, hpairs h]),
    hclean.covered, decide_eq_true hsameType, decide_eq_true hsameComponents,
    decide_eq_true hsameAnchors, decide_eq_true hsamePairs]
  rfl

theorem exact_of_semantic (hvalid : hasFormat R .validV2 rule = true)
    (hwritten : WrittenFor R feature rule)
    (hmode : (approvalIdentity R.toResolver feature).matchMode = .semantic)
    (hfiled : FiledUnder R feature rule) :
    v2ExactFeatureMatch R rule feature (approvalIdentity R.toResolver feature) = true := by
  unfold v2ExactFeatureMatch
  rw [hvalid, Bool.not_true, if_neg Bool.false_ne_true, if_neg (keys_of_filedUnder hfiled),
    hwritten.matchMode, hmode]
  exact decide_eq_true rfl

/-- A valid rule written for a feature whose problem is resolved safely agrees with it. -/
theorem semanticAgree_of_written (hclassifies : Classifies R)
    (hvalid : hasFormat R .validV2 rule = true) (hwritten : WrittenFor R feature rule)
    (hmode : (approvalIdentity R.toResolver feature).matchMode = .semantic) :
    semanticAgree R rule feature (approvalIdentity R.toResolver feature) = true := by
  have hrule : rule.matchMode = some .semantic := hwritten.matchMode.trans (congrArg some hmode)
  have hsemantic : (R.resolveRule rule).semanticSafe = true := by
    rcases (wellFormed_of_validV2 hvalid).mode with ⟨-, herrors⟩ | ⟨hmode, -⟩
    · exact (semanticErrors_eq_nil_iff.mp herrors).1
    · rw [hrule] at hmode
      cases hmode
  have hgroup : R.safeToGroup feature = true := by
    by_contra hno
    unfold approvalIdentity at hmode
    rw [if_neg hno] at hmode
    cases hmode
  unfold Resolver.safeToGroup at hgroup
  simp only [Bool.and_eq_true] at hgroup
  obtain ⟨⟨henabled, -⟩, hsafe⟩ := hgroup
  obtain ⟨code, hcode⟩ := Option.isSome_iff_exists.mp (hclassifies.hasCode feature hsafe)
  have hproblem : R.problemCode feature = code := by
    unfold Resolver.problemCode
    rw [if_pos henabled, hcode]
    rfl
  have hwrittenCode : rule.problemCode = code := hwritten.problemCode.trans hproblem
  have hidentity : (approvalIdentity R.toResolver feature).problemCode = code := hproblem
  have hkeeps : (R.resolveRule rule).problemCode = some code := by
    rw [← hwrittenCode]
    exact hclassifies.keepsCode feature rule hsafe (by rw [hcode, hwrittenCode]) hrule hsemantic
  unfold semanticAgree
  rw [hrule, hmode, hsemantic, hsafe, hkeeps, hcode, hidentity]
  simp only [decide_true, Bool.and_self]

/-! ## What an approval leaves -/

/-- The rule an approval returns is written for the feature, and filed under one of its
keys unless it was found by its problem code. -/
structure Approved (R : RuleResolver μ) (moment : Moment) (feature : Feature μ)
    (rules next : List Rule) (returned : Rule) : Prop where
  mem : returned ∈ next
  written : WrittenFor R feature returned
  updatedAt : returned.updatedAt = moment.now
  added : ∀ other ∈ next, other ∈ rules ∨ other = returned
  templates : templatePairs feature.sourceTemplates ≠ []
  filed : FiledUnder R feature returned ∨
    (approvalIdentity R.toResolver feature).matchMode = .semantic ∧
      ∀ rule ∈ rules, isActive rule = true →
        v2ExactFeatureMatch R rule feature (approvalIdentity R.toResolver feature) = false

theorem filedUnder_createdRule (baseSignature : String) :
    FiledUnder R feature (createdRule R moment feature rules baseSignature) := by
  unfold createdRule
  dsimp only
  unfold FiledUnder newRule newApprovalKey
  dsimp only
  cases predecessorRule R feature rules with
  | none => exact .inr (.inl rfl)
  | some predecessor => exact .inr (.inr (if_pos (.inl rfl)))

/-- A rule found for a feature of the second format is filed under one of its keys, or no
stored rule is. -/
theorem filedUnder_of_existingRule {existing : Rule}
    (h : existingRule R feature rules = some existing)
    (hlegacy : isLegacyFeature feature (approvalIdentity R.toResolver feature) = false) :
    FiledUnder R feature existing ∨
      (approvalIdentity R.toResolver feature).matchMode = .semantic ∧
        ∀ rule ∈ rules, isActive rule = true →
          v2ExactFeatureMatch R rule feature (approvalIdentity R.toResolver feature) = false := by
  unfold existingRule at h
  dsimp only at h
  rw [hlegacy, if_neg Bool.false_ne_true] at h
  split at h
  · rename_i exact hexact
    cases h
    exact .inl (filedUnder_of_exact (List.mem_filter.mp (mem_of_preferredRule hexact)).2)
  · rename_i hnone
    split at h
    · rename_i hmode
      refine .inr ⟨hmode, fun rule hrule hactive => ?_⟩
      by_contra hmatch
      have hmatch := Bool.eq_true_of_not_eq_false hmatch
      have := (preferredRule_filter_filter _ _ _).mp hnone rule hrule
      rw [hactive, hasFormat_of_exact hmatch, hmatch] at this
      cases this
    · cases h

theorem approved_of_upsertFeature (h : upsertFeature R moment feature rules = .ok (returned, next))
    (hlegacy : isLegacyFeature feature (approvalIdentity R.toResolver feature) = false) :
    Approved R moment feature rules next returned := by
  have hadded := (upserted_of_upsertFeature h).onlyReturned.added
  unfold upsertFeature at h
  obtain ⟨baseSignature, hsignature, h⟩ := bind_eq_ok.mp h
  unfold ruleSignature at hsignature
  obtain ⟨-, hsignature⟩ := require_bind_eq_ok.mp hsignature
  obtain ⟨htemplates, -⟩ := require_bind_eq_ok.mp hsignature
  dsimp only at h
  split at h
  · cases h
  · split at h
    · rename_i existing hexisting
      rw [hlegacy, if_neg Bool.false_ne_true] at h
      cases h
      obtain ⟨hmem, -, hvalid⟩ := existingRule_spec hexisting hlegacy
      refine ⟨?_, writtenFor_updatedRule _ _, rfl, hadded, htemplates, ?_⟩
      · rw [mem_sortRules]
        exact mem_replace_of_mem hmem
      · refine (filedUnder_of_existingRule hexisting hlegacy).imp_left fun hfiled => ?_
        have hkey : firstGiven existing.approvalKey
            (approvalIdentity R.toResolver feature).approvalKey = existing.approvalKey :=
          if_neg (approvalKey_ne_empty hvalid)
        unfold FiledUnder updatedRule newRule
        dsimp only
        rw [hkey]
        exact hfiled
    · cases h
      refine ⟨?_, writtenFor_createdRule _, rfl, hadded, htemplates, .inl (filedUnder_createdRule _)⟩
      rw [mem_sortRules]
      exact List.mem_append_right _ (List.mem_singleton_self _)

/-- An approval returns an active rule that is stored. -/
theorem active_of_upsertFeature (h : upsertFeature R moment feature rules = .ok (returned, next)) :
    returned ∈ next ∧ isActive returned = true := by
  by_cases hlegacy : isLegacyFeature feature (approvalIdentity R.toResolver feature) = false
  · have happroved := approved_of_upsertFeature h hlegacy
    exact ⟨happroved.mem, happroved.written.active⟩
  · rw [Bool.not_eq_false] at hlegacy
    unfold upsertFeature at h
    obtain ⟨_, _, h⟩ := bind_eq_ok.mp h
    dsimp only at h
    split at h
    · cases h
    · split at h
      · rename_i existing hexisting
        rw [hlegacy, if_pos rfl] at h
        cases h
        unfold existingRule at hexisting
        dsimp only at hexisting
        rw [hlegacy, if_pos rfl] at hexisting
        obtain ⟨hmem, hall⟩ := List.mem_filter.mp (mem_of_preferredRule hexisting)
        simp only [Bool.and_eq_true] at hall
        exact ⟨hmem, hall.1.1⟩
      · cases h
        refine ⟨?_, (writtenFor_createdRule _).active⟩
        rw [mem_sortRules]
        exact List.mem_append_right _ (List.mem_singleton_self _)

/-! ## Approving and matching -/

theorem semantic_or_templateSet (mode : MatchMode) : mode = .semantic ∨ mode = .templateSet := by
  cases mode with
  | semantic => exact .inl rfl
  | templateSet => exact .inr rfl

/-- The rule an approval returns matches the feature, where it is well formed. -/
theorem ruleMatches_of_approved (hclassifies : Classifies R)
    (happroved : Approved R moment feature rules next returned)
    (hlegacy : isLegacyFeature feature (approvalIdentity R.toResolver feature) = false)
    (hvalid : hasFormat R .validV2 returned = true)
    (hclean : (approvalIdentity R.toResolver feature).matchMode = .templateSet → Clean R feature) :
    ruleMatchesFeature R returned feature = true := by
  have hmatch : (v2ExactFeatureMatch R returned feature (approvalIdentity R.toResolver feature) ||
      semanticAgree R returned feature (approvalIdentity R.toResolver feature)) = true := by
    rw [Bool.or_eq_true]
    rcases semantic_or_templateSet (approvalIdentity R.toResolver feature).matchMode with hmode | hmode
    · exact .inr (semanticAgree_of_written hclassifies hvalid happroved.written hmode)
    · refine .inl (exact_of_templateSet hvalid happroved.written (hclean hmode)
        happroved.templates hmode (happroved.filed.resolve_right fun h => ?_))
      rw [hmode] at h
      exact MatchMode.noConfusion h.1
  unfold ruleMatchesFeature
  rw [kind_of_hasFormat hvalid, happroved.written.active]
  dsimp only
  rw [hlegacy, hmatch]
  rfl

theorem preferredRule_active (p : Rule → Bool)
    (happroved : Approved R moment feature rules next returned)
    (hclock : ∀ rule ∈ rules, rule.updatedAt < moment.now) (hp : p returned = true) :
    preferredRule ((next.filter isActive).filter p) = some returned := by
  refine preferredRule_eq_of_latest ?_ fun other hother => ?_
  · exact List.mem_filter.mpr ⟨List.mem_filter.mpr ⟨happroved.mem, happroved.written.active⟩, hp⟩
  · have hmem := List.mem_of_mem_filter (List.mem_of_mem_filter hother)
    refine (happroved.added other hmem).symm.imp_right fun hbefore => ?_
    rw [happroved.updatedAt]
    exact hclock other hbefore

theorem matchFeature_of_approved (hclassifies : Classifies R)
    (happroved : Approved R moment feature rules next returned)
    (hclock : ∀ rule ∈ rules, rule.updatedAt < moment.now)
    (hlegacy : isLegacyFeature feature (approvalIdentity R.toResolver feature) = false)
    (hok : feature.evaluatorFailed = false) (hvalid : hasFormat R .validV2 returned = true)
    (hclean : (approvalIdentity R.toResolver feature).matchMode = .templateSet → Clean R feature) :
    matchFeature R feature next = [returned] := by
  unfold matchFeature
  dsimp only
  rw [hok, if_neg Bool.false_ne_true, hlegacy, if_neg Bool.false_ne_true]
  by_cases hexact : v2ExactFeatureMatch R returned feature
      (approvalIdentity R.toResolver feature) = true
  · rw [preferredRule_active (fun rule => v2ExactFeatureMatch R rule feature
      (approvalIdentity R.toResolver feature)) happroved hclock hexact]
  · -- Only a rule found by its problem code is not matched by its own key.
    have hsemantic : (approvalIdentity R.toResolver feature).matchMode = .semantic := by
      refine (semantic_or_templateSet _).resolve_right fun hmode => ?_
      refine hexact (exact_of_templateSet hvalid happroved.written (hclean hmode)
        happroved.templates hmode (happroved.filed.resolve_right fun h => ?_))
      rw [hmode] at h
      exact MatchMode.noConfusion h.1
    have hnone := (happroved.filed.resolve_left fun hfiled =>
      hexact (exact_of_semantic hvalid happroved.written hsemantic hfiled)).2
    have hnoExact : preferredRule ((next.filter isActive).filter fun rule =>
        v2ExactFeatureMatch R rule feature (approvalIdentity R.toResolver feature)) = none := by
      rw [preferredRule_filter_filter]
      intro rule hrule
      rw [Bool.and_eq_false_imp]
      intro hactive
      rcases happroved.added rule hrule with hbefore | rfl
      · exact hnone rule hbefore hactive
      · exact Bool.eq_false_of_not_eq_true hexact
    have hagree := semanticAgree_of_written hclassifies hvalid happroved.written hsemantic
    rw [hnoExact]
    dsimp only
    rw [preferredRule_active (fun rule => hasFormat R .validV2 rule && semanticAgree R rule feature
      (approvalIdentity R.toResolver feature)) happroved hclock (by rw [hvalid, hagree]; rfl)]
    exact Option.toList_some returned

end Reuse

/-! ## A feature and its rule -/

/-- What the rule written for a feature whose template is known looks like. -/
structure WrittenRule (templateHash : String) (rule : Rule) : Prop where
  ruleId : ∃ digits, rule.ruleId = "rule-" ++ digits
  signature : rule.signature = pluginSignature templateHash
  featureType : rule.featureType = "plugin_failure"
  components : rule.components = ["kubelet"]
  templates : rule.templateSignatures = [⟨"", templateHash, "network", "", none⟩]
  problemCode : rule.problemCode = "kubernetes.cni.plugin_failure"
  approvalKey : rule.approvalKey = pluginKey templateHash
  anchors : rule.anchorSignatures = ["plugin-failed"]
  matchMode : rule.matchMode = some .templateSet
  schemaVersion : rule.schemaVersion = v2SchemaVersion
  status : rule.status = "active"
  canonicalApprovalKey : rule.canonicalApprovalKey = none
  currentVersion : rule.currentVersion = 1
  integrityErrors : rule.integrityErrors = []

theorem pluginKey_ne_empty (templateHash : String) : pluginKey templateHash ≠ "" := by
  intro hempty
  have hlength := congrArg String.length hempty
  unfold pluginKey at hlength
  rw [String.length_append, String.length_append] at hlength
  have htemplate : ":template-".length = 10 := by decide
  have hnil : "".length = 0 := by decide
  omega

theorem strip_pluginSignature (templateHash : String) : strip (pluginSignature templateHash) ≠ "" := by
  unfold pluginSignature backwards Json.dumps
  rw [String.toList_ofList]
  refine strip_ne_empty (c := '[') ?_ (by decide)
  rw [String.toList_ofList, List.mem_reverse]
  exact List.mem_cons_self

theorem ruleIdentity_writtenRule {templateHash : String} {rule : Rule}
    (hrule : WrittenRule templateHash rule) : ruleIdentity generalFailure rule =
      approvalIdentity generalFailure.toResolver (pluginFeature "h1") := by
  have hscope : ruleComponents rule.components rule.templateSignatures = ["kubelet"] := by
    unfold ruleComponents
    rw [hrule.components, lowered_component, if_pos (List.cons_ne_nil _ _), sortedSet_singleton]
  have hanchors : sortedSet (stripped rule.anchorSignatures) = ["plugin-failed"] := by
    have hstripped : stripped ["plugin-failed"] = ["plugin-failed"] := by decide +kernel
    rw [hrule.anchors, hstripped, sortedSet_singleton]
  have hcode : (generalFailure.normalizeProblemCode rule.problemCode).getD "" =
      "kubernetes.cni.plugin_failure" := by
    rw [hrule.problemCode]
    decide +kernel
  have hproblem : generalFailure.problemCode (pluginFeature "h1") =
      "kubernetes.cni.plugin_failure" := rfl
  have hsafe : generalFailure.safeToGroup (pluginFeature "h1") = false := rfl
  have htype : (pluginFeature "h1").featureType = "plugin_failure" := rfl
  unfold ruleIdentity approvalIdentity
  rw [hscope, hanchors, hcode, hrule.matchMode, hrule.featureType, anchorSignatures_pluginFeature,
    componentScope_pluginFeature, hproblem, hsafe, htype]
  rfl

theorem hasFormat_writtenRule {templateHash : String} {rule : Rule} (hw : Written templateHash)
    (hstrip : strip templateHash = templateHash) (hrule : WrittenRule templateHash rule) :
    hasFormat generalFailure .validV2 rule = true := by
  obtain ⟨digits, hdigits⟩ := hrule.ruleId
  have hid : strip rule.ruleId ≠ "" := by
    refine strip_ne_empty (c := 'r') ?_ (by decide)
    rw [hdigits, String.toList_append]
    exact List.mem_append_left _ (by decide)
  have hsignature : strip rule.signature ≠ "" := hrule.signature ▸ strip_pluginSignature _
  have hkey : strip rule.approvalKey = pluginKey templateHash := by
    rw [hrule.approvalKey, strip_pluginKey]
  have hpairs : v2TemplatePairs rule.templateSignatures = [toLex (templateHash, "network")] := by
    rw [hrule.templates]
    exact v2TemplatePairs_single hstrip hw.nonempty ""
  have hidentity : storageKey generalFailure.toResolver rule.featureType rule.templateSignatures
      (ruleIdentity generalFailure rule) = pluginKey templateHash := by
    have hsources : v2TemplatePairs (pluginFeature templateHash).sources =
        [toLex (templateHash, "network")] :=
      v2TemplatePairs_single hstrip hw.nonempty "kubelet"
    rw [← hw.key, ruleIdentity_writtenRule hrule, hrule.featureType]
    unfold featureStorageKey storageKey
    rw [identity_pluginFeature templateHash, hpairs, hsources]
    rfl
  have hscope : ruleComponents rule.components rule.templateSignatures ≠ [] := by
    show (ruleIdentity generalFailure rule).componentScope ≠ []
    rw [ruleIdentity_writtenRule hrule]
    show componentScope (pluginFeature "h1") ≠ []
    rw [componentScope_pluginFeature]
    exact List.cons_ne_nil _ _
  have htype : normalizeFeatureType "plugin_failure" = "plugin_failure" := by decide +kernel
  have hversion : strip rule.schemaVersion = v2SchemaVersion := by
    rw [hrule.schemaVersion]
    decide +kernel
  refine hasFormat_validV2_iff.mpr ⟨hrule.integrityErrors, hversion, hrule.schemaVersion, hid,
    hsignature, ?_, hkey ▸ pluginKey_ne_empty _, ?_, ?_, ?_, ?_, ?_, hrule.currentVersion.ge, ?_,
    .inr ⟨hrule.matchMode, templateSetErrors_eq_nil_iff.mpr ⟨hscope, ?_, .inl ?_, ?_⟩⟩⟩
  · rw [hrule.featureType]
    decide
  · rw [hrule.featureType, htype]
    decide
  · rw [hrule.components]
    decide
  · rw [hrule.anchors]
    decide
  · rw [hrule.templates]
    intro item hitem
    rw [List.mem_singleton.mp hitem]
    unfold validTemplate firstGiven
    dsimp only
    rw [if_pos rfl, hstrip]
    exact decide_eq_true hw.nonempty
  · rw [hrule.status]
    decide
  · rw [hrule.problemCode]
    decide
  · rw [hpairs]
    exact List.cons_ne_nil _ _
  · rw [hidentity, hkey]
    unfold keyMatchesExpected
    rw [decide_eq_true rfl]
    rfl
  · rw [hrule.canonicalApprovalKey]
    decide

theorem exists_digits_newRuleId (h : String) (rules : List Rule) (approvalKey : String) :
    ∃ digits, newRuleId generalFailure (pluginFeature h) rules none approvalKey =
      "rule-" ++ digits := by
  rw [newRuleId_pluginFeature]
  split
  · exact ⟨_, rfl⟩
  · exact ⟨_, rfl⟩

theorem writtenRule_createdRule {h : String} {rules : List Rule} (hw : Written h)
    (hstrip : strip h = h) (hrules : Apart h rules) (moment : Moment) :
    WrittenRule h (createdRule generalFailure moment (pluginFeature h) rules (pluginSignature h)) := by
  rw [createdRule_pluginFeature hw hrules]
  have hwritten : WrittenFor generalFailure (pluginFeature h)
      (newRule generalFailure moment (pluginFeature h) none
        (newRuleId generalFailure (pluginFeature h) rules none (pluginKey h)) (pluginKey h)
        (pluginSignature h)) := writtenFor_newRule _ _ _ _
  have htype : normalizeFeatureType "plugin_failure" = "plugin_failure" := by decide +kernel
  have hmode : (approvalIdentity generalFailure.toResolver (pluginFeature h)).matchMode =
      .templateSet := rfl
  refine ⟨?_, rfl, hwritten.featureType.trans htype,
    hwritten.components.trans (componentScope_pluginFeature _),
    hwritten.templates.trans (templatePairs_pluginFeature hstrip hw.nonempty),
    hwritten.problemCode, rfl, hwritten.anchors.trans (anchorSignatures_pluginFeature _),
    hwritten.matchMode.trans (congrArg some hmode), rfl, rfl, ?_, rfl, rfl⟩
  · exact exists_digits_newRuleId h rules _
  · unfold newRule
    dsimp only
    refine if_neg ?_
    rintro (h | h)
    · cases h
    · cases h.2

/-- A feature that was approved finds its rule at once, and whatever rule a feature finds
matches it. -/
theorem approved_feature_finds_its_rule (R : RuleResolver μ) (hclassifies : Classifies R) :
    (∀ moment feature rules returned next,
      upsertFeature R moment feature rules = .ok (returned, next) →
      (∀ rule ∈ rules, rule.updatedAt < moment.now) →
      isLegacyFeature feature (approvalIdentity R.toResolver feature) = false →
      feature.evaluatorFailed = false → hasFormat R .validV2 returned = true →
      ((approvalIdentity R.toResolver feature).matchMode = .templateSet → Clean R feature) →
      matchFeature R feature next = [returned]) ∧
    ∀ feature rules rule, matchFeature R feature rules = [rule] →
      ruleMatchesFeature R rule feature = true := by
  constructor
  · intro moment feature rules returned next hupsert hclock hlegacy hok hvalid hclean
    exact matchFeature_of_approved hclassifies (approved_of_upsertFeature hupsert hlegacy) hclock
      hlegacy hok hvalid hclean
  · intro feature rules rule hmatch
    exact (ruleMatches_of_mem_matchFeature (hmatch ▸ List.mem_singleton_self rule)).2

/-- The first feature of the three gets a valid rule and finds it. -/
theorem covered_feature_finds_its_rule :
    ∃ returned, upsertFeature generalFailure firstOfJanuary (pluginFeature "h1") [] =
        .ok (returned, [returned]) ∧
      matchFeature generalFailure (pluginFeature "h1") [returned] = [returned] := by
  have hw : Written "h1" := written (by decide) (by decide) (by decide)
  have hupsert : upsertFeature generalFailure firstOfJanuary (pluginFeature "h1") [] = _ :=
    upsertFeature_created hw.signature (by simp) (by simp) firstOfJanuary
  generalize hreturned : createdRule generalFailure firstOfJanuary (pluginFeature "h1") []
    (pluginSignature "h1") = returned at hupsert
  have hrule : WrittenRule "h1" returned := by
    rw [← hreturned]
    exact writtenRule_createdRule hw (by decide) (by simp [Apart]) _
  have hvalid : hasFormat generalFailure .validV2 returned = true :=
    hasFormat_writtenRule hw (by decide) hrule
  refine ⟨returned, hupsert, ?_⟩
  refine (approved_feature_finds_its_rule generalFailure ?_).1 firstOfJanuary (pluginFeature "h1") []
    returned [returned] hupsert (by simp) (isLegacyFeature_pluginFeature "h1" _) rfl hvalid
    fun _ => ?_
  · exact ⟨fun _ h => absurd h Bool.false_ne_true, fun _ _ h => absurd h Bool.false_ne_true⟩
  · refine ⟨by decide +kernel, fun item hitem => .inl ?_, fun anchor hanchor => ?_⟩
    · rw [List.mem_singleton.mp hitem]
    · rw [anchorSignatures_pluginFeature, List.mem_singleton] at hanchor
      rw [hanchor]
      decide

/-- The feature selects a template it does not name among its own. -/
def uncoveredFeature : Feature Unit := { pluginFeature "h1" with templateHashes := ["h9"] }

theorem isLegacyFeature_uncoveredFeature (identity : Identity) :
    isLegacyFeature uncoveredFeature identity = false := isLegacyFeature_pluginFeature "h1" identity

theorem selectedTemplateIdsCovered_uncoveredFeature :
    selectedTemplateIdsCovered uncoveredFeature = false := by decide +kernel

/-- Approved or not, the feature finds no rule. -/
theorem uncovered_feature_misses_its_rule :
    ∃ returned, upsertFeature generalFailure firstOfJanuary uncoveredFeature [] =
        .ok (returned, [returned]) ∧
      isLegacyFeature uncoveredFeature (approvalIdentity generalFailure.toResolver uncoveredFeature) =
        false ∧
      uncoveredFeature.evaluatorFailed = false ∧
      matchFeature generalFailure uncoveredFeature [returned] = [] := by
  have hw : Written "h1" := written (by decide) (by decide) (by decide)
  have hsignature : ruleSignature generalFailure.toResolver uncoveredFeature.featureType
      uncoveredFeature.sourceTemplates = .ok (pluginSignature "h1") := hw.signature
  have hupsert : upsertFeature generalFailure firstOfJanuary uncoveredFeature [] = _ :=
    upsertFeature_created hsignature (by simp) (by simp) firstOfJanuary
  generalize hreturned : createdRule generalFailure firstOfJanuary uncoveredFeature []
    (pluginSignature "h1") = returned at hupsert
  have hmode : returned.matchMode = some .templateSet := by
    rw [← hreturned]
    exact (writtenFor_createdRule _).matchMode
  refine ⟨returned, hupsert, isLegacyFeature_uncoveredFeature _, rfl, ?_⟩
  have hexact : v2ExactFeatureMatch generalFailure returned uncoveredFeature
      (approvalIdentity generalFailure.toResolver uncoveredFeature) = false := by
    unfold v2ExactFeatureMatch
    rw [hmode, selectedTemplateIdsCovered_uncoveredFeature]
    simp only [Bool.false_and, ite_self]
  have hagree : semanticAgree generalFailure returned uncoveredFeature
      (approvalIdentity generalFailure.toResolver uncoveredFeature) = false := by
    unfold semanticAgree
    rw [hmode]
    rfl
  have hnone (p : Rule → Bool) (hp : p returned = false) :
      preferredRule (([returned].filter isActive).filter p) = none := by
    rw [preferredRule_filter_filter]
    intro rule hrule
    rw [List.mem_singleton.mp hrule, hp, Bool.and_false]
  unfold matchFeature
  dsimp only
  have hok : uncoveredFeature.evaluatorFailed = false := rfl
  rw [hok, isLegacyFeature_uncoveredFeature, if_neg Bool.false_ne_true, if_neg Bool.false_ne_true,
    hnone (fun rule => v2ExactFeatureMatch generalFailure rule uncoveredFeature
      (approvalIdentity generalFailure.toResolver uncoveredFeature)) hexact]
  dsimp only
  rw [hnone (fun rule => hasFormat generalFailure .validV2 rule &&
    semanticAgree generalFailure rule uncoveredFeature
      (approvalIdentity generalFailure.toResolver uncoveredFeature)) (by rw [hagree, Bool.and_false])]
  rfl

end LogRisk.Approval
