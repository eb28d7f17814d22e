import LogRisk.Approval.Store
import LogRisk.Library.JsonText

/-!
# Distinct rules

Two rules with one id or one approval key come about in one way only: a new rule finds its
first choice taken, and its second choice, which is not looked up, taken too.
-/

namespace LogRisk.Approval

open LogRisk.Library LogRisk.Library.Text LogRisk.Library.Transaction

variable {μ : Type}

/-! ## Lists with one entry overwritten -/

theorem map_replace {α β : Type} [DecidableEq α] {f : α → β} {a b : α} (h : f b = f a)
    (items : List α) : (items.replace a b).map f = items.map f := by
  induction items with
  | nil => rfl
  | cons item items ih =>
      rw [List.replace_cons]
      split
      · rename_i hitem
        rw [List.map_cons, List.map_cons, h, eq_of_beq hitem]
      · rw [List.map_cons, List.map_cons, ih]

theorem mem_replace_of_ne {α : Type} [DecidableEq α] {a b item : α} {items : List α}
    (hitem : item ∈ items) (hne : item ≠ a) : item ∈ items.replace a b := by
  induction items with
  | nil => cases hitem
  | cons head items ih =>
      rw [List.replace_cons]
      rcases List.mem_cons.mp hitem with rfl | hitem
      · rw [beq_false_of_ne hne.symm]
        exact List.mem_cons_self
      · split
        · exact List.mem_cons_of_mem _ hitem
        · exact List.mem_cons_of_mem _ (ih hitem)

theorem mem_or_eq_of_mem_replace {α : Type} [DecidableEq α] {a b item : α} {items : List α}
    (h : item ∈ items.replace a b) : item ∈ items ∨ item = b := by
  induction items with
  | nil => cases h
  | cons head items ih =>
      rw [List.replace_cons] at h
      split at h
      · rcases List.mem_cons.mp h with rfl | h
        · exact .inr rfl
        · exact .inl (List.mem_cons_of_mem _ h)
      · rcases List.mem_cons.mp h with rfl | h
        · exact .inl List.mem_cons_self
        · exact (ih h).imp_left (List.mem_cons_of_mem _)

/-! ## Distinct rules -/

structure Distinct (rules : List Rule) : Prop where
  ruleIds : (rules.map Rule.ruleId).Nodup
  approvalKeys : (rules.map Rule.approvalKey).Nodup

theorem distinct_nil : Distinct [] := ⟨List.nodup_nil, List.nodup_nil⟩

theorem distinct_sortRules {rules : List Rule} : Distinct (sortRules rules) ↔ Distinct rules := by
  have hids := ((perm_sortRules rules).map Rule.ruleId).nodup_iff
  have hkeys := ((perm_sortRules rules).map Rule.approvalKey).nodup_iff
  exact ⟨fun h => ⟨hids.mp h.ruleIds, hkeys.mp h.approvalKeys⟩,
    fun h => ⟨hids.mpr h.ruleIds, hkeys.mpr h.approvalKeys⟩⟩

theorem nodup_map_concat {f : Rule → String} {rules : List Rule} (rule : Rule)
    (h : (rules.map f).Nodup) :
    ((rules ++ [rule]).map f).Nodup ↔ f rule ∉ rules.map f := by
  rw [List.map_append, List.map_singleton, ← List.concat_eq_append, List.nodup_concat]
  exact and_iff_left h

theorem distinct_concat {rules : List Rule} {rule : Rule} (h : Distinct rules) :
    Distinct (rules ++ [rule]) ↔
      rule.ruleId ∉ rules.map Rule.ruleId ∧ rule.approvalKey ∉ rules.map Rule.approvalKey := by
  have hids := nodup_map_concat rule h.ruleIds
  have hkeys := nodup_map_concat rule h.approvalKeys
  exact ⟨fun hd => ⟨hids.mp hd.ruleIds, hkeys.mp hd.approvalKeys⟩,
    fun hnew => ⟨hids.mpr hnew.1, hkeys.mpr hnew.2⟩⟩

/-- Only the returned rule is written. -/
structure OnlyReturned (rules next : List Rule) (returned : Rule) : Prop where
  kept : ∀ rule ∈ rules, rule.ruleId ≠ returned.ruleId → rule ∈ next
  added : ∀ rule ∈ next, rule ∈ rules ∨ rule = returned

/-! ## What an approval does -/

section Approve

variable (R : RuleResolver μ) (feature : Feature μ) (rules : List Rule)

/-- The feature has a type and templates, and no malformed rule occupies its identity. -/
def Accepted : Prop :=
  ∃ baseSignature,
    ruleSignature R.toResolver feature.featureType feature.sourceTemplates = .ok baseSignature ∧
      ∀ rule ∈ rules, occupies R feature baseSignature rule = false

/-- An active rule the feature is matched with. -/
def activeRuleMatches (rule : Rule) : Bool :=
  let identity := approvalIdentity R.toResolver feature
  isActive rule &&
    if isLegacyFeature feature identity then
      hasFormat R .legacyV1 rule && legacyFeatureMatches rule feature
    else hasFormat R .validV2 rule &&
      (v2ExactFeatureMatch R rule feature identity ||
        (decide (identity.matchMode = .semantic) && semanticMatch R rule identity))

/-- The key of a new rule, or the one it falls back to, is free. -/
def KeyFree : Prop :=
  featureStorageKey R.toResolver feature ∉ rules.map Rule.approvalKey ∨
    ∃ rule, predecessorRule R feature rules = some rule ∧
      replacementKey R.toResolver (approvalIdentity R.toResolver feature).approvalKey rule.ruleId ∉
        rules.map Rule.approvalKey

/-- The id of a new rule, or the one it falls back to, is free. -/
def IdFree : Prop :=
  approvalRuleId (approvalIdentity R.toResolver feature).approvalKey ∉ rules.map Rule.ruleId ∨
    replacementRuleId R.toResolver (approvalIdentity R.toResolver feature).approvalKey
      (replacedId (predecessorRule R feature rules)
        (approvalRuleId (approvalIdentity R.toResolver feature).approvalKey)) ∉
      rules.map Rule.ruleId

/-- What a successful approval returns and leaves. -/
inductive Upserted (moment : Moment) : Rule → List Rule → Prop
  | returned {rule : Rule} (hrule : rule ∈ rules) : Upserted moment rule rules
  | updated {existing rule : Rule} (hexisting : existing ∈ rules)
      (hid : rule.ruleId = existing.ruleId) (hkey : rule.approvalKey = existing.approvalKey) :
      Upserted moment rule (sortRules (rules.replace existing rule))
  | created {baseSignature : String} (haccepted : Accepted R feature rules)
      (hmatch : ∀ rule ∈ rules, activeRuleMatches R feature rule = false) :
      Upserted moment (createdRule R moment feature rules baseSignature)
        (sortRules (rules ++ [createdRule R moment feature rules baseSignature]))

end Approve

section Spec

variable {R : RuleResolver μ} {feature : Feature μ} {rules : List Rule} {moment : Moment}

theorem preferredRule_filter_filter (rules : List Rule) (p q : Rule → Bool) :
    preferredRule ((rules.filter p).filter q) = none ↔
      ∀ rule ∈ rules, (p rule && q rule) = false := by
  rw [preferredRule_eq_none, List.filter_filter, List.filter_eq_nil_iff]
  refine forall₂_congr fun rule _ => ?_
  rw [Bool.not_eq_true, Bool.and_comm]

theorem existingRule_eq_none :
    existingRule R feature rules = none ↔
      ∀ rule ∈ rules, activeRuleMatches R feature rule = false := by
  unfold existingRule activeRuleMatches
  dsimp only
  generalize approvalIdentity R.toResolver feature = identity
  by_cases hlegacy : isLegacyFeature feature identity = true
  · rw [if_pos hlegacy, preferredRule_eq_none, List.filter_eq_nil_iff]
    refine forall₂_congr fun rule _ => ?_
    rw [if_pos hlegacy, Bool.not_eq_true, Bool.and_assoc]
  · rw [if_neg hlegacy]
    simp only [if_neg hlegacy, ← Bool.and_assoc, Bool.and_or_distrib_left, Bool.or_eq_false_iff]
    have hexact := preferredRule_filter_filter rules
      (fun rule => isActive rule && hasFormat R .validV2 rule)
      (fun rule => v2ExactFeatureMatch R rule feature identity)
    have hsemantic := preferredRule_filter_filter rules
      (fun rule => isActive rule && hasFormat R .validV2 rule)
      (fun rule => semanticMatch R rule identity)
    split
    · rename_i found hfound
      refine iff_of_false (Option.some_ne_none found) fun hnone => ?_
      rw [hexact.mpr fun rule hrule => (hnone rule hrule).1] at hfound
      cases hfound
    · rename_i hfound
      have hno := hexact.mp hfound
      by_cases hmode : identity.matchMode = .semantic
      · rw [if_pos hmode, hsemantic]
        refine forall₂_congr fun rule hrule => ?_
        rw [decide_eq_true hmode, Bool.and_true]
        exact (and_iff_right (hno rule hrule)).symm
      · rw [if_neg hmode]
        refine iff_of_true rfl fun rule hrule => ⟨hno rule hrule, ?_⟩
        rw [decide_eq_false hmode, Bool.and_false, Bool.false_and]

theorem upserted_of_upsertFeature {returned : Rule} {next : List Rule}
    (h : upsertFeature R moment feature rules = .ok (returned, next)) :
    Upserted R feature rules moment returned next := by
  unfold upsertFeature at h
  obtain ⟨baseSignature, hsignature, h⟩ := bind_eq_ok.mp h
  dsimp only at h
  split at h
  · cases h
  · rename_i hfree
    split at h
    · rename_i existing hexisting
      split at h
      · cases h
        exact .returned (mem_of_existingRule hexisting)
      · rename_i hformat
        cases h
        obtain ⟨hmem, -, hvalid⟩ := existingRule_spec hexisting (Bool.eq_false_of_not_eq_true hformat)
        refine .updated hmem rfl ?_
        show firstGiven existing.approvalKey _ = existing.approvalKey
        unfold firstGiven
        exact if_neg (approvalKey_ne_empty hvalid)
    · rename_i hexisting
      cases h
      refine .created ⟨baseSignature, hsignature, fun rule hrule => ?_⟩
        (existingRule_eq_none.mp hexisting)
      exact Bool.eq_false_of_not_eq_true (List.find?_eq_none.mp hfree rule hrule)

/-- A feature no active rule matches gets a rule of its own. -/
theorem upsertFeature_created {baseSignature : String}
    (hsignature : ruleSignature R.toResolver feature.featureType feature.sourceTemplates =
      .ok baseSignature)
    (hfree : ∀ rule ∈ rules, occupies R feature baseSignature rule = false)
    (hmatch : ∀ rule ∈ rules, activeRuleMatches R feature rule = false) (moment : Moment) :
    upsertFeature R moment feature rules =
      .ok (createdRule R moment feature rules baseSignature,
        sortRules (rules ++ [createdRule R moment feature rules baseSignature])) := by
  unfold upsertFeature
  refine bind_eq_ok.mpr ⟨baseSignature, hsignature, ?_⟩
  dsimp only
  rw [List.find?_eq_none.mpr fun rule hrule => Bool.eq_false_iff.mp (hfree rule hrule),
    existingRule_eq_none.mpr hmatch]
  rfl

/-- Whatever a successful approval does, it writes no other rule. -/
theorem Upserted.onlyReturned {returned : Rule} {next : List Rule}
    (h : Upserted R feature rules moment returned next) : OnlyReturned rules next returned := by
  cases h with
  | returned hrule => exact ⟨fun rule hmem _ => hmem, fun rule hmem => .inl hmem⟩
  | updated hexisting hid hkey =>
      constructor
      · intro rule hmem hne
        rw [mem_sortRules]
        exact mem_replace_of_ne hmem fun heq => hne (by rw [heq, hid])
      · intro rule hmem
        rw [mem_sortRules] at hmem
        exact mem_or_eq_of_mem_replace hmem
  | created haccepted hmatch =>
      constructor
      · intro rule hmem _
        rw [mem_sortRules]
        exact List.mem_append_left _ hmem
      · intro rule hmem
        rw [mem_sortRules, List.mem_append, List.mem_singleton] at hmem
        exact hmem

/-! ## New ids and keys -/

theorem any_eq_iff {f : Rule → String} {text : String} :
    (rules.any fun rule => f rule = text) = true ↔ text ∈ rules.map f := by
  rw [List.any_eq_true, List.mem_map]
  simp only [decide_eq_true_eq]

theorem baseRuleId_eq (approvalKey : String) :
    baseRuleId R feature approvalKey =
      approvalRuleId (approvalIdentity R.toResolver feature).approvalKey := by
  unfold baseRuleId
  dsimp only
  refine if_neg fun h => ?_
  rw [semanticSafe_eq_false h.1] at h
  exact Bool.false_ne_true h.2

theorem newRuleId_notMem_iff {approvalKey : String} :
    newRuleId R feature rules (predecessorRule R feature rules) approvalKey ∉
      rules.map Rule.ruleId ↔ IdFree R feature rules := by
  unfold newRuleId IdFree
  dsimp only
  rw [baseRuleId_eq]
  generalize approvalRuleId (approvalIdentity R.toResolver feature).approvalKey = base
  by_cases hbase : base ∈ rules.map Rule.ruleId
  · rw [if_pos (any_eq_iff.mpr hbase)]
    exact (or_iff_right (not_not_intro hbase)).symm
  · rw [if_neg fun hany => hbase (any_eq_iff.mp hany)]
    exact iff_of_true hbase (.inl hbase)

theorem newApprovalKey_notMem_iff :
    newApprovalKey R feature rules (predecessorRule R feature rules) ∉
      rules.map Rule.approvalKey ↔ KeyFree R feature rules := by
  unfold newApprovalKey KeyFree
  dsimp only
  generalize featureStorageKey R.toResolver feature = key
  cases predecessorRule R feature rules with
  | none => simp
  | some rule =>
      dsimp only
      simp only [Option.some.injEq, exists_eq_left']
      by_cases hkey : key ∈ rules.map Rule.approvalKey
      · rw [if_pos (any_eq_iff.mpr hkey)]
        exact (or_iff_right (not_not_intro hkey)).symm
      · rw [if_neg fun hany => hkey (any_eq_iff.mp hany)]
        exact iff_of_true hkey (.inl hkey)

theorem distinct_created (h : Distinct rules) (baseSignature : String) :
    Distinct (sortRules (rules ++ [createdRule R moment feature rules baseSignature])) ↔
      KeyFree R feature rules ∧ IdFree R feature rules := by
  rw [distinct_sortRules, distinct_concat h, and_comm, ← newApprovalKey_notMem_iff,
    ← newRuleId_notMem_iff]
  exact Iff.rfl

end Spec

/-! ## Status changes -/

theorem distinct_changeStatus {R : RuleResolver μ} {change : StatusChange} {rules next : List Rule}
    {returned : Rule} (hdistinct : Distinct rules)
    (h : changeStatus R change rules = .ok (returned, next)) : Distinct next := by
  unfold changeStatus at h
  obtain ⟨-, h⟩ := require_bind_eq_ok.mp h
  obtain ⟨-, h⟩ := require_bind_eq_ok.mp h
  obtain ⟨-, h⟩ := require_bind_eq_ok.mp h
  obtain ⟨current, hcurrent, h⟩ := orFail_bind_eq_ok.mp h
  obtain ⟨-, h⟩ := require_bind_eq_ok.mp h
  obtain ⟨-, h⟩ := require_bind_eq_ok.mp h
  cases h
  have hmem : current ∈ rules := List.mem_of_find?_eq_some hcurrent
  have hid : current.ruleId = change.ruleId := by
    simpa only [decide_eq_true_eq] using List.find?_some hcurrent
  -- Only the rule found has the id, so the others keep what they are known by.
  have honly : ∀ rule ∈ rules, rule.ruleId = change.ruleId → rule = current := fun rule hrule heq =>
    List.inj_on_of_nodup_map hdistinct.ruleIds hrule hmem (heq.trans hid.symm)
  constructor
  · rw [List.map_map, List.map_congr_left (g := Rule.ruleId)]
    · exact hdistinct.ruleIds
    · intro rule hrule
      rw [Function.comp_apply]
      split
      · rename_i heq
        rw [honly rule hrule heq]
      · rfl
  · rw [List.map_map, List.map_congr_left (g := Rule.approvalKey)]
    · exact hdistinct.approvalKeys
    · intro rule hrule
      rw [Function.comp_apply]
      split
      · rename_i heq
        rw [honly rule hrule heq]
      · rfl

/-! ## Runs -/

/-- After the call all ids and all keys differ, and an approval wrote no other rule than
the one it returned. -/
structure Sound (R : RuleResolver μ) (rules : List Rule) (call : Call μ) : Prop where
  distinct : Distinct (act R rules call)
  onlyReturned : ∀ moment feature returned next, call = .upsertFeature moment feature →
    upsertFeature R moment feature rules = .ok (returned, next) → OnlyReturned rules next returned

/-- A feature that gets a rule of its own finds a free id and a free key. -/
def FindsFree (R : RuleResolver μ) (rules : List Rule) : Call μ → Prop
  | .changeStatus _ => True
  | .upsertFeature _ feature =>
      Accepted R feature rules → (∀ rule ∈ rules, activeRuleMatches R feature rule = false) →
        KeyFree R feature rules ∧ IdFree R feature rules

theorem distinct_act_iff {R : RuleResolver μ} {rules : List Rule} (hdistinct : Distinct rules)
    (call : Call μ) : Distinct (act R rules call) ↔ FindsFree R rules call := by
  cases call with
  | changeStatus change =>
      refine iff_of_true ?_ trivial
      exact settled_induction hdistinct fun returned next h => distinct_changeStatus hdistinct h
  | upsertFeature moment feature =>
      constructor
      · intro hnext haccepted hmatch
        obtain ⟨baseSignature, hsignature, hfree⟩ := haccepted
        have hcreated := upsertFeature_created hsignature hfree hmatch moment
        have hnext : Distinct (settled rules (upsertFeature R moment feature rules)) := hnext
        rw [hcreated, settled_ok] at hnext
        exact (distinct_created hdistinct baseSignature).mp hnext
      · intro hfree
        refine settled_induction hdistinct fun returned next h => ?_
        cases upserted_of_upsertFeature h with
        | returned hrule => exact hdistinct
        | updated hexisting hid hkey =>
            rw [distinct_sortRules]
            constructor
            · rw [map_replace hid]
              exact hdistinct.ruleIds
            · rw [map_replace hkey]
              exact hdistinct.approvalKeys
        | created haccepted hmatch =>
            exact (distinct_created hdistinct _).mpr (hfree haccepted hmatch)

theorem sound_iff {R : RuleResolver μ} {rules : List Rule} (hdistinct : Distinct rules)
    (call : Call μ) : Sound R rules call ↔ FindsFree R rules call := by
  rw [← distinct_act_iff hdistinct]
  refine ⟨Sound.distinct, fun h => ⟨h, ?_⟩⟩
  intro moment feature returned next _ hupsert
  exact (upserted_of_upsertFeature hupsert).onlyReturned

theorem along_sound_iff {R : RuleResolver μ} {rules : List Rule} (hdistinct : Distinct rules)
    (calls : List (Call μ)) :
    Along (act R) (Sound R) rules calls ↔ Along (act R) (FindsFree R) rules calls := by
  induction calls generalizing rules with
  | nil => exact Iff.rfl
  | cons call calls ih =>
      unfold Along
      rw [sound_iff hdistinct]
      refine and_congr_right fun hfree => ih ?_
      exact (distinct_act_iff hdistinct call).mpr hfree

/-- A stand-in for the digest: the text read backwards, so that no two texts share one. -/
def backwards (text : String) : String := String.ofList text.toList.reverse

/-- A classifier that finds a failure of the network plugin in everything, which is too
general to be grouped by. -/
def generalFailure : RuleResolver Unit where
  semanticResolverEnabled := true
  sha256 := backwards
  removeIpLiterals := id
  normalizeProblemCode code := if code = "" then none else some code
  collectProblemCodes _ := ["kubernetes.cni.plugin_failure"]
  selectPrimaryProblemCode := List.head?
  resolveProblem _ := ⟨some "kubernetes.cni.plugin_failure", false⟩
  resolveCode _ _ := ⟨some "kubernetes.cni.plugin_failure", false⟩
  resolveRule _ := ⟨some "kubernetes.cni.plugin_failure", false⟩

/-- One type, component and anchor; only the template differs. -/
def pluginFeature (templateHash : String) : Feature Unit where
  featureType := "plugin_failure"
  title := "network plugin failed"
  summary := ""
  importance := ""
  tags := []
  selectionReason := ""
  components := ["kubelet"]
  component := ""
  sourceTemplates := [⟨"", templateHash, "network", "kubelet", none⟩]
  templateSignatures := []
  templateHashes := []
  anchorSignatures := ["plugin-failed"]
  supportingSignatures := []
  evaluatorFailed := false
  schemaVersion := ""
  approvalKey := ""
  canonicalApprovalKey := ""
  problemResolved := false
  matchMode := none
  lineage := []
  evidence := ()

def firstOfJanuary : Moment := ⟨"2026-01-01T00:00:00+00:00", "2026-01-31T00:00:00+00:00"⟩

def threeApprovals : List (Call Unit) :=
  ["h1", "h2", "h3"].map fun templateHash =>
    .upsertFeature firstOfJanuary (pluginFeature templateHash)

theorem canonicalTexts_anchor :
    generalFailure.canonicalTexts ["plugin-failed"] = ["plugin-failed"] := by decide +kernel

theorem lowered_component : lowered ["kubelet"] = ["kubelet"] := by decide +kernel

theorem anchorSignatures_pluginFeature (templateHash : String) :
    generalFailure.anchorSignatures (pluginFeature templateHash) = ["plugin-failed"] := by
  unfold Resolver.anchorSignatures
  show (if generalFailure.canonicalTexts ["plugin-failed"] ≠ [] then
    generalFailure.canonicalTexts ["plugin-failed"] else _) = _
  rw [canonicalTexts_anchor]
  exact if_pos (List.cons_ne_nil _ _)

theorem componentScope_pluginFeature (templateHash : String) :
    componentScope (pluginFeature templateHash) = ["kubelet"] := by
  unfold componentScope
  show (if lowered ["kubelet"] ≠ [] then sortedSet (lowered ["kubelet"]) else _) = _
  rw [lowered_component, sortedSet_singleton]
  exact if_pos (List.cons_ne_nil _ _)

theorem identity_pluginFeature (templateHash : String) :
    approvalIdentity generalFailure.toResolver (pluginFeature templateHash) =
      approvalIdentity generalFailure.toResolver (pluginFeature "h1") := by
  have hcode (h : String) :
      generalFailure.problemCode (pluginFeature h) = "kubernetes.cni.plugin_failure" := rfl
  have hsafe (h : String) : generalFailure.safeToGroup (pluginFeature h) = false := rfl
  have htype (h : String) : (pluginFeature h).featureType = "plugin_failure" := rfl
  unfold approvalIdentity
  simp only [anchorSignatures_pluginFeature, componentScope_pluginFeature, hcode, hsafe, htype]

/-- The templates as they are written at the end of the text a storage key is derived from. -/
def templatesText (templateHash : String) : List Char :=
  Json.strChars "templates" ++ ':' ::
    Json.chars (.arr [.arr [.str templateHash, .str "network"]]) ++ ['\x7d']

def pluginKey (templateHash : String) : String :=
  (approvalIdentity generalFailure.toResolver (pluginFeature "h1")).approvalKey ++ ":template-" ++
    String.ofList ((templatesText templateHash).reverse ++ [','])

theorem canonicalChars_storage (approvalKey featureType templateHash : String)
    (components anchors : List Json) :
    ∃ text, (Json.obj [("approval_key", .str approvalKey), ("feature_type", .str featureType),
      ("components", .arr components), ("anchors", .arr anchors),
      ("templates", .arr [.arr [.str templateHash, .str "network"]])]).canonicalChars =
        text ++ ',' :: templatesText templateHash := by
  refine ⟨'\x7b' :: Json.strChars "anchors" ++ ':' :: Json.chars (.arr (Json.sortedItems anchors)) ++
    ',' :: Json.strChars "approval_key" ++ ':' :: Json.strChars approvalKey ++
    ',' :: Json.strChars "components" ++ ':' :: Json.chars (.arr (Json.sortedItems components)) ++
    ',' :: Json.strChars "feature_type" ++ ':' :: Json.strChars featureType, ?_⟩
  simp [templatesText, Json.canonicalChars, Json.sorted, Json.sortedFields, Json.insertField,
    Json.sortedItems, Json.chars, Json.fieldsChars, Json.itemsChars]

theorem featureStorageKey_pluginFeature {templateHash : String}
    (hpairs : v2TemplatePairs (pluginFeature templateHash).sources =
      [toLex (templateHash, "network")]) (hlength : (templatesText templateHash).length = 31) :
    featureStorageKey generalFailure.toResolver (pluginFeature templateHash) =
      pluginKey templateHash := by
  unfold featureStorageKey storageKey
  rw [identity_pluginFeature, hpairs]
  have htype : normalizeFeatureType (pluginFeature templateHash).featureType = "plugin_failure" := by
    show normalizeFeatureType "plugin_failure" = _
    decide +kernel
  rw [htype]
  generalize hidentity : approvalIdentity generalFailure.toResolver (pluginFeature "h1") = identity
  have hmode : identity.matchMode = .templateSet := by rw [← hidentity]; rfl
  have hsafe : identity.semanticSafe = false := by rw [← hidentity]; rfl
  rw [if_neg (by rw [hmode, hsafe]; simp)]
  unfold pluginKey
  rw [hidentity]
  have htake (j : Json) :
      String.ofList ((generalFailure.toResolver.sha256 j.canonical).toList.take 32) =
        String.ofList (j.canonicalChars.reverse.take 32) := by
    show String.ofList ((backwards j.canonical).toList.take 32) = _
    unfold backwards Json.canonical
    rw [String.toList_ofList, String.toList_ofList]
  obtain ⟨text, htext⟩ := canonicalChars_storage identity.approvalKey "plugin_failure" templateHash
    (identity.componentScope.map .str) (identity.anchorSignatures.map .str)
  have hreverse : (text ++ ',' :: templatesText templateHash).reverse =
      ((templatesText templateHash).reverse ++ [',']) ++ text.reverse := by
    rw [List.reverse_append, List.reverse_cons]
  have hlength' : ((templatesText templateHash).reverse ++ [',']).length = 32 := by
    rw [List.length_append, List.length_reverse, hlength, List.length_singleton]
  dsimp only
  rw [htake]
  simp only [List.map_cons, List.map_nil, ofLex_toLex]
  rw [htext, hreverse, List.take_left' hlength']

def pluginSignature (templateHash : String) : String :=
  backwards (Json.arr [.str "plugin_failure",
    .arr [signatureJson ⟨"", templateHash, "network", "", none⟩]]).dumps

theorem backwards_injective : Function.Injective backwards := fun s t h => by
  unfold backwards at h
  rw [String.ofList_inj, List.reverse_inj] at h
  exact String.toList_injective h

theorem pluginSignature_inj {h h' : String} (heq : pluginSignature h = pluginSignature h')
    (hne : h ≠ "") (hne' : h' ≠ "") : h = h' := by
  have htext := String.ofList_inj.mp (backwards_injective heq)
  have hjson := Json.chars_injective htext
  simp only [signatureJson, if_neg hne, if_neg hne', if_pos, Json.arr.injEq, List.cons.injEq,
    Json.obj.injEq, List.cons_append, List.nil_append, Prod.mk.injEq, Json.str.injEq] at hjson
  exact hjson.2.1.1.2.1.2

theorem pluginKey_inj {h h' : String} (heq : pluginKey h = pluginKey h') : h = h' := by
  unfold pluginKey at heq
  rw [String.append_right_inj, String.ofList_inj, List.append_cancel_right_eq,
    List.reverse_inj] at heq
  unfold templatesText at heq
  rw [List.append_cancel_right_eq, List.append_cancel_left_eq, List.cons.injEq] at heq
  have hjson := Json.chars_injective heq.2
  simp only [Json.arr.injEq, List.cons.injEq, Json.str.injEq] at hjson
  exact hjson.1.1

theorem strip_pluginKey (templateHash : String) :
    strip (pluginKey templateHash) = pluginKey templateHash := by
  have hkey : ∃ digest, (approvalIdentity generalFailure.toResolver
      (pluginFeature "h1")).approvalKey = "appr_" ++ digest := ⟨_, rfl⟩
  obtain ⟨digest, hdigest⟩ := hkey
  have hends : (pluginKey templateHash).toList = 'a' :: (("ppr_".toList ++ digest.toList ++
      ":template-".toList ++ (templatesText templateHash).reverse) ++ [',']) := by
    unfold pluginKey
    rw [hdigest]
    simp only [String.toList_append, String.toList_ofList]
    simp
  exact strip_eq_self hends (by decide) (by decide)

theorem pluginKey_ne (templateHash : String) : pluginKey templateHash ≠
    (approvalIdentity generalFailure.toResolver (pluginFeature "h1")).approvalKey := by
  intro h
  have hlength := congrArg String.length h
  unfold pluginKey at hlength
  rw [String.length_append, String.length_append] at hlength
  have htemplate : ":template-".length = 10 := by decide
  omega

/-- A rule left by the approval of one of the features. -/
structure FromPlugin (templateHash : String) (rule : Rule) : Prop where
  approvalKey : rule.approvalKey = pluginKey templateHash
  canonicalApprovalKey : rule.canonicalApprovalKey = none
  signature : rule.signature = pluginSignature templateHash
  status : rule.status = "active"

/-- What is read off a feature once its template is known. -/
structure Written (templateHash : String) : Prop where
  nonempty : templateHash ≠ ""
  signature : ruleSignature generalFailure.toResolver (pluginFeature templateHash).featureType
    (pluginFeature templateHash).sourceTemplates = .ok (pluginSignature templateHash)
  key : featureStorageKey generalFailure.toResolver (pluginFeature templateHash) =
    pluginKey templateHash

theorem isLegacyFeature_pluginFeature (templateHash : String) (identity : Identity) :
    isLegacyFeature (pluginFeature templateHash) identity = false := by
  have hversion : strip (pluginFeature templateHash).schemaVersion = "" := by
    show strip "" = ""
    decide
  have hkey : strip (pluginFeature templateHash).approvalKey = "" := by
    show strip "" = ""
    decide
  unfold isLegacyFeature
  dsimp only
  rw [hversion, hkey]
  simp [legacySchemaVersion, v2SchemaVersion]

section Quiet

variable {h h' : String} {rule : Rule}

theorem occupies_eq_false (hw : Written h) (hw' : Written h') (hne : h ≠ h')
    (hrule : FromPlugin h rule) :
    occupies generalFailure (pluginFeature h') (pluginSignature h') rule = false := by
  have hkeys : incomingKeys generalFailure (pluginFeature h') =
      [(approvalIdentity generalFailure.toResolver (pluginFeature "h1")).approvalKey,
        pluginKey h'] := by
    unfold incomingKeys
    rw [identity_pluginFeature, hw'.key]
  have hempty : strip (rule.canonicalApprovalKey.getD "") = "" := by
    rw [hrule.canonicalApprovalKey]
    decide
  have happr : "" ≠ (approvalIdentity generalFailure.toResolver (pluginFeature "h1")).approvalKey := by
    intro heq
    have hlength := congrArg String.length heq
    have hkey : ∃ digest, (approvalIdentity generalFailure.toResolver
        (pluginFeature "h1")).approvalKey = "appr_" ++ digest := ⟨_, rfl⟩
    obtain ⟨digest, hdigest⟩ := hkey
    rw [hdigest, String.length_append] at hlength
    have hinitial : "appr_".length = 5 := by decide
    have hnil : "".length = 0 := by decide
    omega
  have hkey : "" ≠ pluginKey h' := by
    intro heq
    have hlength := congrArg String.length heq
    unfold pluginKey at hlength
    rw [String.length_append, String.length_append] at hlength
    have htemplate : ":template-".length = 10 := by decide
    have hnil : "".length = 0 := by decide
    omega
  have hsignature : rule.signature ≠ pluginSignature h' := by
    rw [hrule.signature]
    exact fun heq => hne (pluginSignature_inj heq hw.nonempty hw'.nonempty)
  unfold occupies
  rw [hkeys, hempty, hrule.approvalKey, strip_pluginKey, decide_eq_false hsignature]
  have hstored : pluginKey h ≠ pluginKey h' := fun heq => hne (pluginKey_inj heq)
  simp [hstored, pluginKey_ne, happr, hkey]

theorem activeRuleMatches_eq_false (hw' : Written h') (hne : h ≠ h') (hrule : FromPlugin h rule) :
    activeRuleMatches generalFailure (pluginFeature h') rule = false := by
  have hmode : (approvalIdentity generalFailure.toResolver (pluginFeature h')).matchMode =
      .templateSet := rfl
  have hexact : v2ExactFeatureMatch generalFailure rule (pluginFeature h')
      (approvalIdentity generalFailure.toResolver (pluginFeature h')) = false := by
    unfold v2ExactFeatureMatch
    have hother : rule.approvalKey ≠ (approvalIdentity generalFailure.toResolver
          (pluginFeature h')).approvalKey ∧
        rule.approvalKey ≠ featureStorageKey generalFailure.toResolver (pluginFeature h') ∧
        rule.canonicalApprovalKey ≠ some (approvalIdentity generalFailure.toResolver
          (pluginFeature h')).approvalKey := by
      rw [hw'.key, hrule.approvalKey, identity_pluginFeature, hrule.canonicalApprovalKey]
      exact ⟨pluginKey_ne h, fun heq => hne (pluginKey_inj heq), (Option.some_ne_none _).symm⟩
    split
    · rfl
    · exact if_pos hother
  unfold activeRuleMatches
  dsimp only
  rw [isLegacyFeature_pluginFeature, if_neg Bool.false_ne_true, hexact, hmode]
  simp

theorem predecessorRule_eq_none {rules : List Rule} {feature : Feature Unit}
    (hactive : ∀ rule ∈ rules, rule.status = "active") :
    predecessorRule generalFailure feature rules = none := by
  unfold predecessorRule
  rw [preferredRule_eq_none, List.filter_eq_nil_iff]
  intro rule hrule
  have : isActive rule = true := by
    unfold isActive
    rw [hactive rule hrule]
    decide
  rw [this]
  simp

end Quiet

section Alone

variable {h : String} {rules : List Rule}

/-- Every stored rule was written for another template. -/
def Apart (h : String) (rules : List Rule) : Prop :=
  ∀ rule ∈ rules, ∃ h', Written h' ∧ h' ≠ h ∧ FromPlugin h' rule

theorem occupies_of_apart (hw : Written h) (hrules : Apart h rules) :
    ∀ rule ∈ rules, occupies generalFailure (pluginFeature h) (pluginSignature h) rule = false := by
  intro rule hrule
  obtain ⟨h', hw', hne, hfrom⟩ := hrules rule hrule
  exact occupies_eq_false hw' hw hne hfrom

theorem activeRuleMatches_of_apart (hw : Written h) (hrules : Apart h rules) :
    ∀ rule ∈ rules, activeRuleMatches generalFailure (pluginFeature h) rule = false := by
  intro rule hrule
  obtain ⟨h', hw', hne, hfrom⟩ := hrules rule hrule
  exact activeRuleMatches_eq_false hw hne hfrom

theorem predecessorRule_of_apart (hrules : Apart h rules) :
    predecessorRule generalFailure (pluginFeature h) rules = none :=
  predecessorRule_eq_none fun rule hrule => by
    obtain ⟨h', -, -, hfrom⟩ := hrules rule hrule
    exact hfrom.status

theorem createdRule_pluginFeature (hw : Written h) (hrules : Apart h rules) (moment : Moment) :
    createdRule generalFailure moment (pluginFeature h) rules (pluginSignature h) =
      newRule generalFailure moment (pluginFeature h) none
        (newRuleId generalFailure (pluginFeature h) rules none (pluginKey h)) (pluginKey h)
        (pluginSignature h) := by
  have hkey : newApprovalKey generalFailure (pluginFeature h) rules none = pluginKey h := hw.key
  have hsignature (key : String) :
      chosenSignature generalFailure rules (pluginSignature h) key none = pluginSignature h := by
    unfold chosenSignature
    refine if_neg fun hany => ?_
    obtain ⟨rule, hrule, hsame⟩ := List.any_eq_true.mp hany
    obtain ⟨h', hw', hne, hfrom⟩ := hrules rule hrule
    rw [Option.all_none, Bool.and_true, decide_eq_true_eq, hfrom.signature] at hsame
    exact hne (pluginSignature_inj hsame hw'.nonempty hw.nonempty)
  unfold createdRule
  rw [predecessorRule_of_apart hrules]
  dsimp only
  rw [hkey, hsignature]

theorem fromPlugin_newRule (moment : Moment) (ruleId : String) :
    FromPlugin h (newRule generalFailure moment (pluginFeature h) none ruleId (pluginKey h)
      (pluginSignature h)) :=
  ⟨rfl, rfl, rfl, rfl⟩

end Alone

/-- A feature whose template no stored rule was written for gets a rule of its own. -/
theorem act_pluginFeature {h : String} (hw : Written h) (rules : List Rule)
    (hrules : Apart h rules) :
    ∃ rule, FromPlugin h rule ∧
      rule.ruleId = newRuleId generalFailure (pluginFeature h) rules none (pluginKey h) ∧
      act generalFailure rules (.upsertFeature firstOfJanuary (pluginFeature h)) =
        sortRules (rules ++ [rule]) := by
  have hcreated := upsertFeature_created hw.signature (occupies_of_apart hw hrules)
    (activeRuleMatches_of_apart hw hrules) firstOfJanuary
  rw [createdRule_pluginFeature hw hrules] at hcreated
  refine ⟨_, fromPlugin_newRule firstOfJanuary _, rfl, ?_⟩
  show settled rules (upsertFeature generalFailure firstOfJanuary (pluginFeature h) rules) = _
  rw [hcreated]
  rfl

theorem templatePairs_pluginFeature {h : String} (hstrip : strip h = h) (hne : h ≠ "") :
    templatePairs (pluginFeature h).sourceTemplates = [⟨"", h, "network", "", none⟩] := by
  have hempty : strip "" = "" := by decide
  have hnetwork : strip "network" = "network" := by decide
  have hadd : addTemplatePair ∅ ⟨"", h, "network", "kubelet", none⟩ =
      (∅ : Dict (String ×ₗ String) TemplateSource).set (toLex (h, "network"))
        ⟨"", h, "network", "", none⟩ := by
    unfold addTemplatePair
    dsimp only
    rw [hempty, hstrip, hnetwork]
    unfold firstGiven
    rw [if_pos rfl, if_neg hne]
  show templatePairs [⟨"", h, "network", "kubelet", none⟩] = _
  unfold templatePairs
  rw [List.foldl_cons, List.foldl_nil, hadd]
  dsimp only
  unfold Dict.keys
  rw [Dict.entries_set_of_notMem List.not_mem_nil]
  show (sortedSet [toLex (h, "network")]).filterMap _ = _
  rw [sortedSet_singleton, List.filterMap_cons_some (Dict.get?_set_self _ _ _), List.filterMap_nil]

theorem v2TemplatePairs_single {h : String} (hstrip : strip h = h) (hne : h ≠ "")
    (component : String) :
    v2TemplatePairs [⟨"", h, "network", component, none⟩] = [toLex (h, "network")] := by
  have hnetwork : strip "network" = "network" := by decide
  have hpair : identityPair ⟨"", h, "network", component, none⟩ = toLex (h, "network") := by
    unfold identityPair firstGiven
    rw [if_pos rfl, hstrip, hnetwork]
  have hgiven : decide ((ofLex (toLex (h, "network"))).1 ≠ "") = true := decide_eq_true hne
  unfold v2TemplatePairs
  rw [List.map_singleton, hpair, List.filter_singleton, hgiven]
  exact sortedSet_singleton _

theorem written {h : String} (hstrip : strip h = h) (hne : h ≠ "")
    (hlength : (templatesText h).length = 31) : Written h where
  nonempty := hne
  signature := by
    unfold ruleSignature
    have htype : strip (pluginFeature h).featureType ≠ "" := by
      show strip "plugin_failure" ≠ ""
      decide
    have hnormal : normalizeFeatureType (pluginFeature h).featureType = "plugin_failure" := by
      show normalizeFeatureType "plugin_failure" = _
      decide +kernel
    have hpairs := templatePairs_pluginFeature hstrip hne
    refine require_bind_eq_ok.mpr ⟨htype, require_bind_eq_ok.mpr ⟨?_, ?_⟩⟩
    · rw [hpairs]
      exact List.cons_ne_nil _ _
    · rw [hpairs, hnormal]
      rfl
  key := by
    exact featureStorageKey_pluginFeature (v2TemplatePairs_single hstrip hne "kubelet") hlength

/-- The id the first rule gets, and the one every later rule falls back to. -/
theorem newRuleId_pluginFeature (h : String) (rules : List Rule) (approvalKey : String) :
    let base := approvalRuleId
      (approvalIdentity generalFailure.toResolver (pluginFeature "h1")).approvalKey
    newRuleId generalFailure (pluginFeature h) rules none approvalKey =
      if base ∈ rules.map Rule.ruleId then
        replacementRuleId generalFailure.toResolver
          (approvalIdentity generalFailure.toResolver (pluginFeature "h1")).approvalKey base
      else base := by
  intro base
  unfold newRuleId
  dsimp only
  rw [baseRuleId_eq, identity_pluginFeature]
  exact if_congr any_eq_iff rfl rfl

end LogRisk.Approval
