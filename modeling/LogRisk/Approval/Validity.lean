import LogRisk.Approval.Reuse

/-!
# Well-formed rules

A rule written for a feature is well formed when the feature has a known type and names
components, and nothing of it is blank.  A rule matched by its templates takes no other
key than those of its feature.
-/

namespace LogRisk.Approval

open LogRisk.Library LogRisk.Library.Text LogRisk.Library.Transaction

variable {μ : Type}

/-! ## The classifier and the digest -/

/-- What the classifier reads of a rule. -/
structure SameEvidence (a b : Rule) : Prop where
  featureType : a.featureType = b.featureType
  problemCode : a.problemCode = b.problemCode
  templateSignatures : a.templateSignatures = b.templateSignatures
  title : a.title = b.title
  summary : a.summary = b.summary
  tags : a.tags = b.tags
  selectionReason : a.selectionReason = b.selectionReason

/-- A digest is written in digits and small letters; the code settled on for a feature is in
normal form; a code resolved safely is safe by itself, and a rule written with it resolves
to it or not safely. -/
structure Lawful (R : RuleResolver μ) : Prop where
  digest : ∀ text, R.sha256 text ≠ "" ∧ ∀ c ∈ (R.sha256 text).toList, isWordChar c = true
  normalCode : ∀ feature, R.problemCode feature ≠ "" ∧
    R.normalizeProblemCode (R.problemCode feature) = some (R.problemCode feature)
  safeCode : ∀ feature featureType, R.safeToGroup feature = true →
    (R.resolveCode featureType (R.problemCode feature)).semanticSafe = true
  keepsCode : ∀ (feature : Feature μ) (rule : Rule), R.safeToGroup feature = true →
    rule.problemCode = R.problemCode feature → (R.resolveRule rule).semanticSafe = true →
    (R.resolveRule rule).problemCode = some (R.problemCode feature)
  readsEvidence : ∀ a b : Rule, SameEvidence a b → R.resolveRule a = R.resolveRule b

/-! ## Keys -/

section Keys

variable {R : RuleResolver μ}

/-- A character of a key. -/
def isKeyChar (c : Char) : Bool := isWordChar c || c = '_'

theorem isKeyChar_colon : isKeyChar ':' = false := by decide

theorem isKeyChar_spec {c : Char} (h : isKeyChar c = true) : isSpace c = false ∧ c ≠ ':' := by
  constructor
  · unfold isKeyChar at h
    rw [Bool.or_eq_true, decide_eq_true_eq] at h
    exact (toLower_wordChar h).2
  · rintro rfl
    rw [isKeyChar_colon] at h
    cases h

theorem isKeyChar_approvalKey (hlaws : Lawful R) {semanticSafe : Bool} {featureType problemCode : String}
    {components anchors : List String} {c : Char}
    (h : c ∈ (R.approvalKey semanticSafe featureType problemCode components anchors).toList) :
    isKeyChar c = true := by
  unfold Resolver.approvalKey at h
  dsimp only at h
  rw [String.toList_append] at h
  rcases List.mem_append.mp h with h | h
  · have hall : "appr_".toList.all isKeyChar = true := by decide
    exact List.all_eq_true.mp hall c h
  · unfold isKeyChar
    rw [(hlaws.digest _).2 c h, Bool.true_or]

theorem isKeyChar_buildApprovalKey (hlaws : Lawful R) {featureType problemCode : String}
    {components anchors : List String} {semanticSafe : Option Bool} {c : Char}
    (h : c ∈ (R.buildApprovalKey featureType problemCode components anchors semanticSafe).toList) :
    isKeyChar c = true := isKeyChar_approvalKey hlaws h

theorem buildApprovalKey_ne_empty {featureType problemCode : String}
    {components anchors : List String} {semanticSafe : Option Bool} :
    R.buildApprovalKey featureType problemCode components anchors semanticSafe ≠ "" := by
  unfold Resolver.buildApprovalKey Resolver.approvalKey
  dsimp only
  intro hempty
  have hlength := congrArg String.length hempty
  rw [String.length_append] at hlength
  have hinitial : "appr_".length = 5 := by decide
  have hnil : "".length = 0 := by decide
  omega

/-- A key without a colon matches an expected one only by being it. -/
theorem eq_of_keyMatchesExpected {stored expected : String}
    (hstored : ∀ c ∈ stored.toList, isKeyChar c = true)
    (h : keyMatchesExpected stored expected = true) : stored = expected := by
  unfold keyMatchesExpected at h
  rw [Bool.or_eq_true, decide_eq_true_eq] at h
  refine h.resolve_right fun hinitial => ?_
  have hmem : ':' ∈ stored.toList := by
    refine (List.isPrefixOf_iff_prefix.mp hinitial).subset ?_
    rw [String.toList_append]
    exact List.mem_append_right _ (by decide)
  exact (isKeyChar_spec (hstored _ hmem)).2 rfl

theorem keyMatchesExpected_self (key : String) : keyMatchesExpected key key = true := by
  unfold keyMatchesExpected
  rw [decide_eq_true rfl]
  rfl

theorem keyMatchesExpected_replacement (R : Resolver μ) (key predecessorRuleId : String) :
    keyMatchesExpected (replacementKey R key predecessorRuleId) key = true := by
  unfold keyMatchesExpected replacementKey
  rw [Bool.or_eq_true]
  right
  rw [List.isPrefixOf_iff_prefix]
  exact ⟨_, (String.toList_append ..).symm⟩

theorem ne_empty_of_keyMatchesExpected {stored expected : String} (hne : expected ≠ "")
    (h : keyMatchesExpected stored expected = true) : stored ≠ "" := by
  rintro rfl
  unfold keyMatchesExpected at h
  rw [Bool.or_eq_true, decide_eq_true_eq] at h
  rcases h with h | h
  · exact hne h.symm
  · have hinitial := (List.isPrefixOf_iff_prefix.mp h).length_le
    rw [String.toList_append, List.length_append] at hinitial
    have hreplacement : ":replacement-".toList.length = 13 := by decide
    have hnil : "".toList.length = 0 := by decide
    omega

theorem strip_eq_self_of_keyChars {text : String} (extra : List Char)
    (h : ∀ c ∈ text.toList, isKeyChar c = true ∨ c ∈ extra)
    (hextra : ∀ c ∈ extra, isSpace c = false) : strip text = text :=
  strip_eq_self_of_forall fun c hc => (h c hc).elim (fun hkey => (isKeyChar_spec hkey).1) (hextra c)

theorem isKeyChar_digest (hlaws : Lawful R) {n : ℕ} {text : String} {c : Char}
    (h : c ∈ (String.ofList ((R.sha256 text).toList.take n)).toList) : isKeyChar c = true := by
  rw [String.toList_ofList] at h
  unfold isKeyChar
  rw [(hlaws.digest text).2 c (List.mem_of_mem_take h), Bool.true_or]

theorem strip_buildApprovalKey (hlaws : Lawful R) (featureType problemCode : String)
    (components anchors : List String) (semanticSafe : Option Bool) :
    strip (R.buildApprovalKey featureType problemCode components anchors semanticSafe) =
      R.buildApprovalKey featureType problemCode components anchors semanticSafe :=
  strip_eq_self_of_keyChars [] (fun _ hc => .inl (isKeyChar_buildApprovalKey hlaws hc))
    fun _ hc => absurd hc List.not_mem_nil

/-- A key, a mark and some digits of a digest. -/
theorem strip_marked (hlaws : Lawful R) {key mark text : String} {n : ℕ}
    (hkey : ∀ c ∈ key.toList, isKeyChar c = true)
    (hmark : ∀ c ∈ mark.toList, isSpace c = false) :
    strip (key ++ mark ++ String.ofList ((R.sha256 text).toList.take n)) =
      key ++ mark ++ String.ofList ((R.sha256 text).toList.take n) := by
  refine strip_eq_self_of_keyChars mark.toList (fun c hc => ?_) hmark
  rw [String.toList_append, String.toList_append, List.mem_append, List.mem_append] at hc
  rcases hc with (hc | hc) | hc
  · exact .inl (hkey c hc)
  · exact .inr hc
  · exact .inl (isKeyChar_digest hlaws hc)

end Keys

/-! ## Rules with one identity -/

/-- The checks of a rule read the same, but for its id, signature, status and version. -/
structure SameIdentity (a b : Rule) : Prop extends SameEvidence a b where
  components : a.components = b.components
  anchorSignatures : a.anchorSignatures = b.anchorSignatures
  approvalKey : a.approvalKey = b.approvalKey
  canonicalApprovalKey : a.canonicalApprovalKey = b.canonicalApprovalKey
  matchMode : a.matchMode = b.matchMode
  schemaVersion : a.schemaVersion = b.schemaVersion

section Same

variable {R : RuleResolver μ} {a b : Rule}

theorem semanticErrors_congr (hlaws : Lawful R) (h : SameIdentity a b) :
    semanticErrors R a = semanticErrors R b := by
  unfold semanticErrors
  rw [hlaws.readsEvidence a b h.toSameEvidence, h.featureType, h.problemCode, h.components,
    h.anchorSignatures, h.approvalKey, h.canonicalApprovalKey]

theorem templateSetErrors_congr (h : SameIdentity a b) :
    templateSetErrors R a = templateSetErrors R b := by
  have hidentity : ruleIdentity R a = ruleIdentity R b := by
    unfold ruleIdentity
    rw [h.featureType, h.problemCode, h.components, h.templateSignatures, h.anchorSignatures,
      h.matchMode]
  unfold templateSetErrors
  rw [hidentity, h.featureType, h.templateSignatures, h.approvalKey, h.canonicalApprovalKey]

theorem WellFormed.sameIdentity (hlaws : Lawful R) (h : WellFormed R b) (hsame : SameIdentity a b)
    (hid : strip a.ruleId ≠ "") (hsignature : strip a.signature ≠ "") (hstatus : a.status ∈ ruleStatuses)
    (hversion : 1 ≤ a.currentVersion) : WellFormed R a where
  schemaVersion := hsame.schemaVersion.trans h.schemaVersion
  ruleId := hid
  signature := hsignature
  featureType := hsame.featureType ▸ h.featureType
  approvalKey := hsame.approvalKey ▸ h.approvalKey
  knownType := hsame.featureType ▸ h.knownType
  components := hsame.components ▸ h.components
  anchorSignatures := hsame.anchorSignatures ▸ h.anchorSignatures
  templateSignatures := hsame.templateSignatures ▸ h.templateSignatures
  status := hstatus
  currentVersion := hversion
  problemCode := hsame.problemCode ▸ h.problemCode
  mode := by
    rw [hsame.matchMode, semanticErrors_congr hlaws hsame, templateSetErrors_congr hsame]
    exact h.mode

end Same

/-! ## Features a rule can be written for -/

/-- The rule of a feature, with blanks for what the feature does not decide. -/
def draft (R : RuleResolver μ) (feature : Feature μ) : Rule :=
  newRule R ⟨"", ""⟩ feature none "" "" ""

/-- The feature has a known type and no blank component or anchor.  Without a problem
resolved safely it names components, plain templates and trimmed anchors; with one, the
rule written for it is resolved safely too. -/
structure Fit (R : RuleResolver μ) (feature : Feature μ) : Prop where
  knownType : normalizeFeatureType feature.featureType ≠ "unknown_feature"
  components : ∀ component ∈ componentScope feature, strip component ≠ ""
  anchors : ∀ anchor ∈ R.anchorSignatures feature, strip anchor ≠ ""
  templateSet : R.safeToGroup feature = false → componentScope feature ≠ [] ∧
    (∀ item ∈ feature.sourceTemplates, Plain item) ∧
    ∀ anchor ∈ R.anchorSignatures feature, strip anchor = anchor
  semantic : R.safeToGroup feature = true → (R.resolveRule (draft R feature)).semanticSafe = true

/-- The keys of a rule are those of the feature, or replace them. -/
structure Keyed (R : RuleResolver μ) (feature : Feature μ) (rule : Rule) : Prop where
  semantic : R.safeToGroup feature = true →
    keyMatchesExpected (strip rule.approvalKey) (approvalIdentity R.toResolver feature).approvalKey =
        true ∧
      (strip (rule.canonicalApprovalKey.getD "") = "" ∨
        strip (rule.canonicalApprovalKey.getD "") =
          (approvalIdentity R.toResolver feature).approvalKey)
  templateSet : R.safeToGroup feature = false →
    (keyMatchesExpected (strip rule.approvalKey) (featureStorageKey R.toResolver feature) = true ∨
      keyMatchesExpected (strip rule.approvalKey)
        (approvalIdentity R.toResolver feature).approvalKey = true) ∧
      strip (rule.canonicalApprovalKey.getD "") = ""

/-- A rule matched by its problem code has the code of a feature resolved safely. -/
def FromSafe (R : RuleResolver μ) (rule : Rule) : Prop :=
  rule.matchMode = some .semantic →
    ∃ feature : Feature μ, R.safeToGroup feature = true ∧ rule.problemCode = R.problemCode feature

section Written

variable {R : RuleResolver μ} {feature : Feature μ} {rule : Rule}

theorem matchMode_of_safe (h : R.safeToGroup feature = true) :
    (approvalIdentity R.toResolver feature).matchMode = .semantic := if_pos h

theorem unsafe_matchMode (h : R.safeToGroup feature = false) :
    (approvalIdentity R.toResolver feature).matchMode = .templateSet := by
  unfold approvalIdentity
  rw [h]
  rfl

/-- The key of a problem resolved safely. -/
def codeKey (R : Resolver μ) (code : String) : String :=
  "appr_" ++ R.sha256 (Json.obj [("problem_code", .str code)]).canonical

theorem identityKey_of_safe (hlaws : Lawful R) (h : R.safeToGroup feature = true) :
    (approvalIdentity R.toResolver feature).approvalKey =
      codeKey R.toResolver (R.problemCode feature) := by
  unfold approvalIdentity Resolver.buildApprovalKey Resolver.approvalKey codeKey
  dsimp only
  rw [h, Option.getD_some, if_pos rfl, (hlaws.normalCode feature).2, Option.getD_some]

theorem expectedKey_of_safe (hlaws : Lawful R) (h : R.safeToGroup feature = true)
    (hcode : rule.problemCode = R.problemCode feature) :
    expectedKey R rule = codeKey R.toResolver (R.problemCode feature) := by
  have hnormal := (hlaws.normalCode feature).2
  have henabled : R.semanticResolverEnabled = true := by
    unfold Resolver.safeToGroup at h
    rw [Bool.and_eq_true, Bool.and_eq_true] at h
    exact h.1.1
  unfold expectedKey Resolver.buildApprovalKey Resolver.approvalKey codeKey
  dsimp only
  rw [hcode, hnormal, Option.getD_some, hnormal, Option.getD_some, henabled,
    hlaws.safeCode feature rule.featureType h, Bool.and_self, Option.getD_none, if_pos rfl]

/-- The identity of a rule written for a feature that is not resolved safely is that of
the feature. -/
theorem ruleIdentity_written (hlaws : Lawful R) (hfit : Fit R feature)
    (hwritten : WrittenFor R feature rule) (hdanger : R.safeToGroup feature = false) :
    ruleIdentity R rule = approvalIdentity R.toResolver feature := by
  obtain ⟨hscope, -, htrimmed⟩ := hfit.templateSet hdanger
  have hmode := unsafe_matchMode hdanger
  have hcomponents : ruleComponents rule.components rule.templateSignatures =
      componentScope feature := by
    rw [hwritten.components, ruleComponents_componentScope hfit.components _ hscope,
      sortedSet_componentScope]
  have hanchors : sortedSet (stripped rule.anchorSignatures) = R.anchorSignatures feature := by
    rw [hwritten.anchors, stripped_eq_self, sortedSet_anchorSignatures]
    intro anchor hanchor
    refine ⟨htrimmed anchor hanchor, fun hempty => hfit.anchors anchor hanchor ?_⟩
    rw [hempty]
    decide
  have hrule : rule.matchMode = some .templateSet := hwritten.matchMode.trans (congrArg some hmode)
  have hcode : (R.normalizeProblemCode rule.problemCode).getD "" = R.problemCode feature := by
    rw [hwritten.problemCode, (hlaws.normalCode feature).2, Option.getD_some]
  have hkey (problemCode : String) (components anchors : List String) :
      R.buildApprovalKey (normalizeFeatureType feature.featureType) problemCode components anchors
        (some false) = R.buildApprovalKey feature.featureType problemCode components anchors
        (some false) := by
    unfold Resolver.buildApprovalKey Resolver.approvalKey
    simp only [Option.getD_some, normalizeFeatureType_idem]
  unfold ruleIdentity approvalIdentity
  rw [hcomponents, hanchors, hcode, hrule, hwritten.featureType, hdanger, Identity.mk.injEq]
  refine ⟨rfl, ?_, rfl, rfl, rfl, rfl⟩
  exact hkey _ _ _

theorem identityKey_ne_empty : (approvalIdentity R.toResolver feature).approvalKey ≠ "" :=
  buildApprovalKey_ne_empty

theorem strip_identityKey (hlaws : Lawful R) :
    strip (approvalIdentity R.toResolver feature).approvalKey =
      (approvalIdentity R.toResolver feature).approvalKey := strip_buildApprovalKey hlaws _ _ _ _ _

theorem storageKey_of_safe (h : R.safeToGroup feature = true) :
    featureStorageKey R.toResolver feature = (approvalIdentity R.toResolver feature).approvalKey := by
  unfold featureStorageKey storageKey
  exact if_pos (.inr h)

/-- Without a problem resolved safely the templates are a part of the key. -/
theorem storageKey_of_unsafe (h : R.safeToGroup feature = false) :
    ∃ text, featureStorageKey R.toResolver feature =
      (approvalIdentity R.toResolver feature).approvalKey ++ ":template-" ++
        String.ofList ((R.sha256 text).toList.take 32) := by
  unfold featureStorageKey storageKey
  rw [if_neg]
  · exact ⟨_, rfl⟩
  · rintro (hmode | hsafe)
    · exact hmode (unsafe_matchMode h)
    · exact Bool.false_ne_true (h.symm.trans hsafe)

theorem strip_storageKey (hlaws : Lawful R) :
    strip (featureStorageKey R.toResolver feature) = featureStorageKey R.toResolver feature := by
  cases hsafe : R.safeToGroup feature with
  | true =>
      rw [storageKey_of_safe hsafe]
      exact strip_identityKey hlaws
  | false =>
      obtain ⟨text, htext⟩ := storageKey_of_unsafe hsafe
      have hmark : ":template-".toList.all (!isSpace ·) = true := by decide
      rw [htext]
      refine strip_marked hlaws (fun c hc => isKeyChar_buildApprovalKey hlaws hc) fun c hc => ?_
      simpa using List.all_eq_true.mp hmark c hc

theorem storageKey_ne_empty : featureStorageKey R.toResolver feature ≠ "" := by
  cases hsafe : R.safeToGroup feature with
  | true =>
      rw [storageKey_of_safe hsafe]
      exact identityKey_ne_empty
  | false =>
      obtain ⟨text, htext⟩ := storageKey_of_unsafe hsafe
      intro hempty
      have hlength := congrArg String.length (htext.symm.trans hempty)
      rw [String.length_append, String.length_append] at hlength
      have hmark : ":template-".length = 10 := by decide
      have hnil : "".length = 0 := by decide
      omega

theorem strip_replacementKey (hlaws : Lawful R) (predecessorRuleId : String) :
    strip (replacementKey R.toResolver (approvalIdentity R.toResolver feature).approvalKey
      predecessorRuleId) =
      replacementKey R.toResolver (approvalIdentity R.toResolver feature).approvalKey
        predecessorRuleId := by
  have hmark : ":replacement-".toList.all (!isSpace ·) = true := by decide
  refine strip_marked hlaws (fun c hc => isKeyChar_buildApprovalKey hlaws hc) fun c hc => ?_
  simpa using List.all_eq_true.mp hmark c hc

/-- A rule written for a fit feature under its keys is well formed. -/
theorem wellFormed_of_keyed (hlaws : Lawful R) (hfit : Fit R feature)
    (hwritten : WrittenFor R feature rule) (hevidence : SameEvidence rule (draft R feature))
    (hkeyed : Keyed R feature rule) (htemplates : templatePairs feature.sourceTemplates ≠ [])
    (hschema : rule.schemaVersion = v2SchemaVersion) (hid : strip rule.ruleId ≠ "")
    (hsignature : strip rule.signature ≠ "") (hstatus : rule.status = "active")
    (hversion : 1 ≤ rule.currentVersion) : WellFormed R rule := by
  have hnormal := hlaws.normalCode feature
  have hfields (hkey : strip rule.approvalKey ≠ "")
      (hmode : rule.matchMode = some .semantic ∧ semanticErrors R rule = [] ∨
        rule.matchMode = some .templateSet ∧ templateSetErrors R rule = []) : WellFormed R rule := by
    refine ⟨hschema, hid, hsignature, ?_, hkey, ?_, hwritten.components ▸ hfit.components,
      hwritten.anchors ▸ hfit.anchors, ?_, ?_, hversion, ?_, hmode⟩
    · rw [hwritten.featureType, strip_normalizeFeatureType]
      exact normalizeFeatureType_ne_empty _
    · rw [hwritten.featureType, normalizeFeatureType_idem]
      exact hfit.knownType
    · rw [hwritten.templates]
      exact fun item hitem => validTemplate_of_mem_templatePairs hitem
    · rw [hstatus]
      decide
    · rw [hwritten.problemCode, hnormal.2, Option.getD_some]
      exact hnormal.1
  cases hsafe : R.safeToGroup feature with
  | true =>
      obtain ⟨hkey, hcanonical⟩ := hkeyed.semantic hsafe
      have hexpected : expectedKey R rule = (approvalIdentity R.toResolver feature).approvalKey := by
        rw [expectedKey_of_safe hlaws hsafe hwritten.problemCode, identityKey_of_safe hlaws hsafe]
      have hresolved : (R.resolveRule rule).semanticSafe = true := by
        rw [hlaws.readsEvidence _ _ hevidence]
        exact hfit.semantic hsafe
      refine hfields (ne_empty_of_keyMatchesExpected identityKey_ne_empty hkey) (.inl ⟨?_, ?_⟩)
      · rw [hwritten.matchMode, matchMode_of_safe hsafe]
      · rw [semanticErrors_eq_nil_iff, hexpected]
        exact ⟨hresolved, hkey, hcanonical⟩
  | false =>
      obtain ⟨hkey, hcanonical⟩ := hkeyed.templateSet hsafe
      obtain ⟨hscope, hplain, -⟩ := hfit.templateSet hsafe
      have hidentity := ruleIdentity_written hlaws hfit hwritten hsafe
      have hpairs : v2TemplatePairs rule.templateSignatures = v2TemplatePairs feature.sources := by
        rw [hwritten.templates, sources_eq htemplates, v2TemplatePairs_templatePairs hplain]
      have hstorage : storageKey R.toResolver rule.featureType rule.templateSignatures
          (ruleIdentity R rule) = featureStorageKey R.toResolver feature := by
        rw [hidentity, hwritten.featureType]
        unfold featureStorageKey storageKey
        rw [hpairs, normalizeFeatureType_idem]
      have hcomponents : ruleComponents rule.components rule.templateSignatures =
          componentScope feature := congrArg Identity.componentScope hidentity
      refine hfields ?_ (.inr ⟨?_, ?_⟩)
      · rcases hkey with hkey | hkey
        · exact ne_empty_of_keyMatchesExpected storageKey_ne_empty hkey
        · exact ne_empty_of_keyMatchesExpected identityKey_ne_empty hkey
      · rw [hwritten.matchMode, unsafe_matchMode hsafe]
      · rw [templateSetErrors_eq_nil_iff, hcomponents, hstorage, hidentity]
        refine ⟨hscope, ?_, hkey, hcanonical⟩
        rw [hwritten.templates]
        exact v2TemplatePairs_ne_nil htemplates

end Written

/-! ## New rules and updated rules -/

section New

variable {R : RuleResolver μ} {feature : Feature μ} {rules : List Rule} {moment : Moment}

theorem sameEvidence_newRule (predecessor : Option Rule) (ruleId approvalKey signature : String) :
    SameEvidence (newRule R moment feature predecessor ruleId approvalKey signature)
      (draft R feature) := by
  unfold draft newRule
  exact ⟨rfl, rfl, rfl, rfl, rfl, rfl, rfl⟩

theorem sameEvidence_updatedRule (existing : Rule) (signature : String) :
    SameEvidence (updatedRule R moment feature existing signature) (draft R feature) where
  featureType := by dsimp only [updatedRule, newRule, draft]
  problemCode := rfl
  templateSignatures := rfl
  title := by dsimp only [updatedRule, newRule, draft]
  summary := by dsimp only [updatedRule, newRule, draft]
  tags := rfl
  selectionReason := by dsimp only [updatedRule, newRule, draft]

theorem strip_ruleId_createdRule (baseSignature : String) :
    strip (createdRule R moment feature rules baseSignature).ruleId ≠ "" := by
  have hdigits (digits : String) : strip ("rule-" ++ digits) ≠ "" := by
    refine strip_ne_empty (c := 'r') ?_ (by decide)
    rw [String.toList_append]
    exact List.mem_append_left _ (by decide)
  unfold createdRule newRule newRuleId
  dsimp only
  split
  · exact hdigits _
  · unfold baseRuleId
    dsimp only
    split
    · exact hdigits _
    · exact hdigits _

/-- The signature of a rule is a digest. -/
theorem strip_digest (hlaws : Lawful R) (text : String) : strip (R.sha256 text) ≠ "" := by
  have hsame : strip (R.sha256 text) = R.sha256 text := by
    refine strip_eq_self_of_keyChars [] (fun c hc => .inl ?_) fun _ hc =>
      absurd hc List.not_mem_nil
    unfold isKeyChar
    rw [(hlaws.digest text).2 c hc, Bool.true_or]
  rw [hsame]
  exact (hlaws.digest text).1

variable (rules) in
theorem exists_digest_chosenSignature {baseSignature : String} (approvalKey : String)
    (existing : Option Rule)
    (h : ∃ text, baseSignature = R.sha256 text) :
    ∃ text, chosenSignature R rules baseSignature approvalKey existing = R.sha256 text := by
  unfold chosenSignature
  split
  · exact ⟨_, rfl⟩
  · exact h

theorem exists_digest_ruleSignature {baseSignature : String}
    (h : ruleSignature R.toResolver feature.featureType feature.sourceTemplates = .ok baseSignature) :
    (∃ text, baseSignature = R.sha256 text) ∧ templatePairs feature.sourceTemplates ≠ [] := by
  unfold ruleSignature at h
  obtain ⟨-, h⟩ := require_bind_eq_ok.mp h
  obtain ⟨htemplates, h⟩ := require_bind_eq_ok.mp h
  exact ⟨⟨_, (pure_eq_ok.mp h).symm⟩, htemplates⟩

/-- A new rule has the keys of the feature; one matched by its templates has no predecessor. -/
theorem keyed_createdRule (hlaws : Lawful R) (baseSignature : String)
    (hpredecessor : R.safeToGroup feature = false → predecessorRule R feature rules = none) :
    Keyed R feature (createdRule R moment feature rules baseSignature) := by
  have hself := keyMatchesExpected_self (approvalIdentity R.toResolver feature).approvalKey
  have hblank : strip ((none : Option String).getD "") = "" := by decide
  have hkey : (createdRule R moment feature rules baseSignature).approvalKey =
      newApprovalKey R feature rules (predecessorRule R feature rules) := rfl
  have hcanonical : (createdRule R moment feature rules baseSignature).canonicalApprovalKey =
      if (predecessorRule R feature rules).isSome = true ∨
          (approvalIdentity R.toResolver feature).matchMode = .templateSet ∧
            (approvalIdentity R.toResolver feature).semanticSafe = true
      then some (approvalIdentity R.toResolver feature).approvalKey else none := rfl
  generalize createdRule R moment feature rules baseSignature = rule at hkey hcanonical ⊢
  refine ⟨fun hsafe => ⟨?_, ?_⟩, fun hsafe => ⟨?_, ?_⟩⟩
  · rw [hkey]
    unfold newApprovalKey
    rw [storageKey_of_safe hsafe]
    cases predecessorRule R feature rules with
    | none =>
        dsimp only
        rw [strip_identityKey hlaws, hself]
    | some predecessor =>
        dsimp only
        split
        · rw [strip_replacementKey hlaws]
          exact keyMatchesExpected_replacement _ _ _
        · rw [strip_identityKey hlaws, hself]
  · rw [hcanonical]
    split
    · exact .inr (strip_identityKey hlaws)
    · exact .inl hblank
  · rw [hkey, hpredecessor hsafe]
    unfold newApprovalKey
    dsimp only
    rw [strip_storageKey hlaws]
    exact .inl (keyMatchesExpected_self _)
  · rw [hcanonical, hpredecessor hsafe, if_neg]
    · exact hblank
    · rintro (hsome | ⟨-, hsafe'⟩)
      · cases hsome
      · exact Bool.false_ne_true (hsafe.symm.trans hsafe')

theorem matchMode_of_exact {rule : Rule} {identity : Identity}
    (h : v2ExactFeatureMatch R rule feature identity = true) :
    rule.matchMode = some identity.matchMode := by
  unfold v2ExactFeatureMatch at h
  split at h
  · cases h
  · split at h
    · cases h
    · split at h
      · rename_i hmode
        rw [hmode, of_decide_eq_true h]
      · split at h
        · cases h
        · rename_i hset
          split at h
          · cases h
          · rename_i hcomplete
            rw [not_not.mp hset]
            by_contra hno
            exact hcomplete (.inl hno)

/-- A rule is found for a feature of the second format by its exact identity or by its
problem code. -/
theorem exact_or_semantic_of_existingRule {existing : Rule}
    (h : existingRule R feature rules = some existing)
    (hlegacy : isLegacyFeature feature (approvalIdentity R.toResolver feature) = false) :
    v2ExactFeatureMatch R existing feature (approvalIdentity R.toResolver feature) = true ∨
      (approvalIdentity R.toResolver feature).matchMode = .semantic ∧
        semanticMatch R existing (approvalIdentity R.toResolver feature) = true := by
  unfold existingRule at h
  dsimp only at h
  rw [hlegacy, if_neg Bool.false_ne_true] at h
  split at h
  · rename_i exact hexact
    cases h
    exact .inl (List.mem_filter.mp (mem_of_preferredRule hexact)).2
  · split at h
    · rename_i hmode
      exact .inr ⟨hmode, (List.mem_filter.mp (mem_of_preferredRule h)).2⟩
    · cases h

/-- What is found by its problem code has this code. -/
theorem problemCode_of_semanticMatch (hlaws : Lawful R) {existing : Rule}
    (h : semanticMatch R existing (approvalIdentity R.toResolver feature) = true)
    (hfrom : FromSafe R existing) :
    existing.matchMode = some .semantic ∧ existing.problemCode = R.problemCode feature := by
  unfold semanticMatch at h
  rw [Bool.and_eq_true, Bool.and_eq_true, decide_eq_true_eq, decide_eq_true_eq] at h
  obtain ⟨⟨hmode, hresolved⟩, hcode⟩ := h
  obtain ⟨origin, hsafe, horigin⟩ := hfrom hmode
  have hkeeps := hlaws.keepsCode origin existing hsafe horigin hresolved
  rw [hcode, Option.some.injEq] at hkeeps
  exact ⟨hmode, horigin.trans hkeeps.symm⟩

theorem keys_of_exact {existing : Rule}
    (hvalid : hasFormat R .validV2 existing = true) (hfrom : FromSafe R existing) (hlaws : Lawful R)
    (h : v2ExactFeatureMatch R existing feature (approvalIdentity R.toResolver feature) = true) :
    Keyed R feature existing := by
  have hmode := matchMode_of_exact h
  have hformed := wellFormed_of_validV2 hvalid
  have hfiled := filedUnder_of_exact h
  have hself := keyMatchesExpected_self (approvalIdentity R.toResolver feature).approvalKey
  refine ⟨fun hsafe => ?_, fun hsafe => ?_⟩
  · rw [matchMode_of_safe hsafe] at hmode
    have herrors : semanticErrors R existing = [] := by
      rcases hformed.mode with ⟨-, herrors⟩ | ⟨hset, -⟩
      · exact herrors
      · rw [hmode] at hset
        cases hset
    obtain ⟨-, hkey, hcanonical⟩ := semanticErrors_eq_nil_iff.mp herrors
    -- The rule is expected under the key of the feature.
    have hexpected : expectedKey R existing = (approvalIdentity R.toResolver feature).approvalKey := by
      have hown (hstored : existing.approvalKey =
          (approvalIdentity R.toResolver feature).approvalKey) :
          expectedKey R existing = (approvalIdentity R.toResolver feature).approvalKey := by
        rw [hstored, strip_identityKey hlaws] at hkey
        exact (eq_of_keyMatchesExpected (fun c hc => isKeyChar_buildApprovalKey hlaws hc) hkey).symm
      rcases hfiled with hstored | hstored | hstored
      · exact hown hstored
      · rw [storageKey_of_safe hsafe] at hstored
        exact hown hstored
      · rw [hstored, Option.getD_some, strip_identityKey hlaws] at hcanonical
        exact (hcanonical.resolve_left identityKey_ne_empty).symm
    rw [hexpected] at hkey hcanonical
    exact ⟨hkey, hcanonical⟩
  · rw [unsafe_matchMode hsafe] at hmode
    have herrors : templateSetErrors R existing = [] := by
      rcases hformed.mode with ⟨hsemantic, -⟩ | ⟨-, herrors⟩
      · rw [hmode] at hsemantic
        cases hsemantic
      · exact herrors
    obtain ⟨-, -, -, hcanonical⟩ := templateSetErrors_eq_nil_iff.mp herrors
    refine ⟨?_, hcanonical⟩
    rcases hfiled with hstored | hstored | hstored
    · rw [hstored, strip_identityKey hlaws]
      exact .inr hself
    · rw [hstored, strip_storageKey hlaws]
      exact .inl (keyMatchesExpected_self _)
    · rw [hstored, Option.getD_some, strip_identityKey hlaws] at hcanonical
      exact absurd hcanonical identityKey_ne_empty

/-- The keys of a rule found by its problem code. -/
theorem keys_of_semantic (hlaws : Lawful R) {existing : Rule}
    (hvalid : hasFormat R .validV2 existing = true) (hfrom : FromSafe R existing)
    (hsafe : R.safeToGroup feature = true)
    (h : semanticMatch R existing (approvalIdentity R.toResolver feature) = true) :
    Keyed R feature existing := by
  obtain ⟨hmode, hcode⟩ := problemCode_of_semanticMatch hlaws h hfrom
  have herrors : semanticErrors R existing = [] := by
    rcases (wellFormed_of_validV2 hvalid).mode with ⟨-, herrors⟩ | ⟨hset, -⟩
    · exact herrors
    · rw [hmode] at hset
      cases hset
  obtain ⟨-, hkey, hcanonical⟩ := semanticErrors_eq_nil_iff.mp herrors
  rw [expectedKey_of_safe hlaws hsafe hcode, ← identityKey_of_safe hlaws hsafe] at hkey hcanonical
  refine ⟨fun _ => ⟨hkey, hcanonical⟩, fun hdanger => ?_⟩
  exact absurd (hsafe.symm.trans hdanger) (by decide)

/-- A rule that is brought up to date keeps its keys. -/
theorem keyed_updatedRule (hlaws : Lawful R) {existing : Rule} (signature : String)
    (hexisting : existingRule R feature rules = some existing)
    (hlegacy : isLegacyFeature feature (approvalIdentity R.toResolver feature) = false)
    (hfrom : FromSafe R existing) :
    Keyed R feature (updatedRule R moment feature existing signature) := by
  obtain ⟨-, -, hvalid⟩ := existingRule_spec hexisting hlegacy
  have hkeyed : Keyed R feature existing := by
    rcases exact_or_semantic_of_existingRule hexisting hlegacy with hexact | ⟨hmode, hsemantic⟩
    · exact keys_of_exact hvalid hfrom hlaws hexact
    · refine keys_of_semantic hlaws hvalid hfrom ?_ hsemantic
      by_contra hno
      rw [unsafe_matchMode (Bool.eq_false_of_not_eq_true hno)] at hmode
      cases hmode
  have hkey : (updatedRule R moment feature existing signature).approvalKey = existing.approvalKey :=
    if_neg (approvalKey_ne_empty hvalid)
  have hcanonical : (updatedRule R moment feature existing signature).canonicalApprovalKey =
      existing.canonicalApprovalKey := by
    unfold updatedRule
    rfl
  refine ⟨fun hsafe => ?_, fun hsafe => ?_⟩
  · rw [hkey, hcanonical]
    exact hkeyed.semantic hsafe
  · rw [hkey, hcanonical]
    exact hkeyed.templateSet hsafe

theorem fromSafe_of_written {rule : Rule} (h : WrittenFor R feature rule) : FromSafe R rule := by
  intro hmode
  refine ⟨feature, ?_, h.problemCode⟩
  by_contra hno
  rw [h.matchMode, unsafe_matchMode (Bool.eq_false_of_not_eq_true hno)] at hmode
  cases hmode

end New

end LogRisk.Approval
