import LogRisk.Approval.Rules

/-!
# Canonical fields

A rule is written with normalized fields.  Normalizing them again changes nothing, so
a rule and the feature it was written for are compared on equal terms.
-/

namespace LogRisk.Approval

open LogRisk.Library LogRisk.Library.Text

variable {μ : Type}

/-! ## Sets -/

section Sets

variable {α : Type} [LinearOrder α]

@[simp] theorem mem_sortedSet {items : List α} {item : α} :
    item ∈ sortedSet items ↔ item ∈ items := by
  unfold sortedSet
  rw [List.mem_insertionSort, List.mem_dedup]

theorem sortedSet_eq_of_mem_iff {items items' : List α} (h : ∀ item, item ∈ items ↔ item ∈ items') :
    sortedSet items = sortedSet items' := by
  unfold sortedSet
  have hperm : items.dedup.Perm items'.dedup := by
    rw [List.perm_ext_iff_of_nodup (List.nodup_dedup _) (List.nodup_dedup _)]
    intro item
    rw [List.mem_dedup, List.mem_dedup]
    exact h item
  have hsorted := List.pairwise_insertionSort (α := α) (· ≤ ·)
  exact (((List.perm_insertionSort _ _).trans hperm).trans
    (List.perm_insertionSort _ _).symm).eq_of_pairwise' (hsorted _) (hsorted _)

theorem sortedSet_eq_nil {items : List α} : sortedSet items = [] ↔ items = [] := by
  rw [List.eq_nil_iff_forall_not_mem, List.eq_nil_iff_forall_not_mem]
  exact forall_congr' fun item => not_congr mem_sortedSet

@[simp] theorem sortedSet_sortedSet (items : List α) : sortedSet (sortedSet items) = sortedSet items :=
  sortedSet_eq_of_mem_iff fun _ => mem_sortedSet

end Sets

/-! ## Stripped and lowered texts -/

theorem stripped_eq_self {items : List String} (h : ∀ item ∈ items, strip item = item ∧ item ≠ "") :
    stripped items = items := by
  unfold stripped
  rw [List.map_congr_left fun item hitem => (h item hitem).1, List.map_id'',
    List.filter_eq_self]
  · exact fun item hitem => decide_eq_true (h item hitem).2
  · exact fun _ => rfl

theorem mem_lowered {items : List String} {item : String} (h : item ∈ lowered items) :
    strip item = item ∧ lower item = item := by
  unfold lowered stripped at h
  obtain ⟨text, htext, rfl⟩ := List.mem_map.mp h
  obtain ⟨raw, -, rfl⟩ := List.mem_map.mp (List.mem_of_mem_filter htext)
  rw [strip_lower, strip_strip, lower_lower]
  exact ⟨rfl, rfl⟩

theorem lowered_eq_self {items : List String}
    (h : ∀ item ∈ items, strip item = item ∧ lower item = item ∧ item ≠ "") :
    lowered items = items := by
  unfold lowered
  rw [stripped_eq_self fun item hitem => ⟨(h item hitem).1, (h item hitem).2.2⟩,
    List.map_congr_left fun item hitem => (h item hitem).2.1]
  exact List.map_id'' (fun _ => rfl) _

theorem mem_componentScope {feature : Feature μ} {item : String} (h : item ∈ componentScope feature) :
    strip item = item ∧ lower item = item := by
  unfold componentScope at h
  split at h
  · exact mem_lowered (mem_sortedSet.mp h)
  · split at h
    · rw [List.mem_singleton] at h
      rw [h, strip_lower, strip_strip, lower_lower]
      exact ⟨rfl, rfl⟩
    · exact mem_lowered (mem_sortedSet.mp h)

theorem sortedSet_componentScope (feature : Feature μ) :
    sortedSet (componentScope feature) = componentScope feature := by
  unfold componentScope
  split
  · exact sortedSet_sortedSet _
  · split
    · exact sortedSet_singleton _
    · exact sortedSet_sortedSet _

theorem sortedSet_anchorSignatures (R : Resolver μ) (feature : Feature μ) :
    sortedSet (R.anchorSignatures feature) = R.anchorSignatures feature := by
  have htexts (items : List String) : sortedSet (R.canonicalTexts items) = R.canonicalTexts items :=
    sortedSet_sortedSet _
  unfold Resolver.anchorSignatures
  split
  · exact htexts _
  · split
    · rfl
    · unfold Resolver.evidenceAnchors
      split
      · exact sortedSet_sortedSet _
      · exact htexts _

/-- The components of a rule are the scope of the feature it was written for. -/
theorem ruleComponents_componentScope {feature : Feature μ}
    (h : ∀ component ∈ componentScope feature, strip component ≠ "")
    (templates : List TemplateSource)
    (hne : componentScope feature ≠ []) :
    ruleComponents (componentScope feature) templates = sortedSet (componentScope feature) := by
  have hitems : ∀ item ∈ componentScope feature,
      strip item = item ∧ lower item = item ∧ item ≠ "" := by
    intro item hitem
    obtain ⟨hstrip, hlower⟩ := mem_componentScope hitem
    refine ⟨hstrip, hlower, fun hempty => ?_⟩
    exact h item hitem (hstrip.trans hempty)
  unfold ruleComponents
  rw [lowered_eq_self hitems, if_pos hne]

/-! ## Feature types -/

theorem strip_eq_self_of_forall {s : String} (h : ∀ c ∈ s.toList, isSpace c = false) :
    strip s = s := by
  unfold strip stripChars
  have hno (cs : List Char) (hcs : ∀ c ∈ cs, isSpace c = false) : cs.dropWhile isSpace = cs := by
    cases cs with
    | nil => rfl
    | cons c cs =>
        exact List.dropWhile_cons_of_neg (by rw [hcs c List.mem_cons_self]; exact Bool.false_ne_true)
  unfold List.rdropWhile
  rw [hno _ h, hno _ (fun c hc => h c (List.mem_reverse.mp hc)), List.reverse_reverse,
    String.ofList_toList]

theorem forall_mem_splitOnP {p : Char → Bool} {cs word : List Char} (h : word ∈ cs.splitOnP p) :
    ∀ c ∈ word, p c = false := by
  induction cs generalizing word with
  | nil =>
      rw [List.splitOnP_nil, List.mem_singleton] at h
      rw [h]
      exact fun c hc => absurd hc List.not_mem_nil
  | cons x xs ih =>
      rw [List.splitOnP_cons_eq_if_modifyHead] at h
      split at h
      · rcases List.mem_cons.mp h with rfl | h
        · exact fun c hc => absurd hc List.not_mem_nil
        · exact ih h
      · rename_i hx
        cases hwords : xs.splitOnP p with
        | nil => exact absurd hwords (List.splitOnP_ne_nil p xs)
        | cons first rest =>
            rw [hwords, List.modifyHead_cons] at h
            rcases List.mem_cons.mp h with rfl | h
            · intro c hc
              rcases List.mem_cons.mp hc with rfl | hc
              · exact Bool.eq_false_iff.mpr hx
              · exact ih (hwords ▸ List.mem_cons_self) c hc
            · exact ih (hwords ▸ List.mem_cons_of_mem _ h)

/-- Words put together by a separator come apart again. -/
theorem splitOnP_intercalate {p : Char → Bool} {separator : Char} (hseparator : p separator = true)
    {words : List (List Char)} (hwords : ∀ word ∈ words, ∀ c ∈ word, p c = false)
    (hne : words ≠ []) : ([separator].intercalate words).splitOnP p = words := by
  induction words with
  | nil => exact absurd rfl hne
  | cons word words ih =>
      have hword := hwords word List.mem_cons_self
      cases words with
      | nil =>
          rw [List.intercalate_singleton]
          exact List.splitOnP_eq_singleton hword
      | cons next words =>
          rw [List.intercalate_cons_cons, List.append_assoc, List.singleton_append,
            List.splitOnP_append_cons_of_forall_mem hword _ hseparator,
            ih (fun word h => hwords word (List.mem_cons_of_mem _ h)) (List.cons_ne_nil _ _)]

/-- The words of a feature type. -/
def typeWords (value : String) : List (List Char) :=
  ((lower (strip value)).toList.splitOnP (!isWordChar ·)).filter (· ≠ [])

theorem typeWords_eq (value : String) : typeWords value =
    ((lower (strip value)).toList.splitOnP (!isWordChar ·)).filter (· ≠ []) := rfl

theorem normalizeFeatureType_eq (value : String) : normalizeFeatureType value =
    firstGiven (String.ofList (['_'].intercalate (typeWords value))) "unknown_feature" := rfl

theorem normalizeFeatureType_unknown : normalizeFeatureType "unknown_feature" = "unknown_feature" := by
  decide +kernel

theorem isWordChar_typeWords {value : String} {word : List Char} (h : word ∈ typeWords value) :
    word ≠ [] ∧ ∀ c ∈ word, isWordChar c = true := by
  obtain ⟨hmem, hne⟩ := List.mem_filter.mp h
  refine ⟨of_decide_eq_true hne, fun c hc => ?_⟩
  have := forall_mem_splitOnP hmem c hc
  rwa [Bool.not_eq_false'] at this

theorem mem_intercalate {separator c : Char} {words : List (List Char)}
    (h : c ∈ [separator].intercalate words) : c = separator ∨ ∃ word ∈ words, c ∈ word := by
  induction words with
  | nil => exact absurd h List.not_mem_nil
  | cons word words ih =>
      cases words with
      | nil =>
          rw [List.intercalate_singleton] at h
          exact .inr ⟨word, List.mem_cons_self, h⟩
      | cons next words =>
          rw [List.intercalate_cons_cons, List.mem_append, List.mem_append,
            List.mem_singleton] at h
          rcases h with (h | h) | h
          · exact .inr ⟨word, List.mem_cons_self, h⟩
          · exact .inl h
          · refine (ih h).imp_right fun ⟨found, hfound, hc⟩ => ?_
            exact ⟨found, List.mem_cons_of_mem _ hfound, hc⟩

theorem isLower_eq (c : Char) : c.isLower = (decide (c.val ≥ 97) && decide (c.val ≤ 122)) := rfl

theorem toLower_wordChar {c : Char} (h : isWordChar c = true ∨ c = '_') :
    c.toLower = c ∧ isSpace c = false := by
  have hrange : c.toNat < 65 ∧ 48 ≤ c.toNat ∨ 90 < c.toNat ∧ c.toNat < 123 := by
    rcases h with h | rfl
    · unfold isWordChar at h
      simp only [Char.isDigit, isLower_eq, Bool.or_eq_true, Bool.and_eq_true, decide_eq_true_eq,
        ge_iff_le, UInt32.le_iff_toNat_le] at h
      have hc : c.val.toNat = c.toNat := rfl
      simp only [hc] at h
      simp at h
      omega
    · decide
  constructor
  · rw [← Char.toNat_inj, toNat_toLower]
    split_ifs <;> omega
  · unfold isSpace
    rw [Bool.eq_false_iff]
    simp only [Bool.or_eq_true, Bool.and_eq_true, decide_eq_true_eq, beq_iff_eq, ne_eq]
    omega

theorem toList_lower_ofList {cs : List Char} (h : ∀ c ∈ cs, c.toLower = c) :
    (lower (String.ofList cs)).toList = cs := by
  unfold lower
  rw [String.toList_ofList, String.toList_ofList, List.map_congr_left h]
  exact List.map_id'' (fun _ => rfl) _

theorem mem_normalizeFeatureType {value : String} {c : Char}
    (h : c ∈ (normalizeFeatureType value).toList) : isWordChar c = true ∨ c = '_' := by
  rw [normalizeFeatureType_eq] at h
  unfold firstGiven at h
  split at h
  · have hall : ("unknown_feature".toList.all fun c => isWordChar c || c == '_') = true := by
      decide +kernel
    have hc := List.all_eq_true.mp hall c h
    rwa [Bool.or_eq_true, beq_iff_eq] at hc
  · rw [String.toList_ofList] at h
    exact (mem_intercalate h).symm.imp_left fun ⟨word, hword, hc⟩ =>
      (isWordChar_typeWords hword).2 c hc

@[simp] theorem strip_normalizeFeatureType (value : String) :
    strip (normalizeFeatureType value) = normalizeFeatureType value :=
  strip_eq_self_of_forall fun _ hc => (toLower_wordChar (mem_normalizeFeatureType hc)).2

theorem normalizeFeatureType_ne_empty (value : String) : normalizeFeatureType value ≠ "" := by
  rw [normalizeFeatureType_eq]
  unfold firstGiven
  split
  · decide
  · assumption

/-- Normalizing twice is normalizing once. -/
@[simp] theorem normalizeFeatureType_idem (value : String) :
    normalizeFeatureType (normalizeFeatureType value) = normalizeFeatureType value := by
  by_cases hnone : typeWords value = []
  · have hunknown : normalizeFeatureType value = "unknown_feature" := by
      rw [normalizeFeatureType_eq, hnone]
      rfl
    rw [hunknown, normalizeFeatureType_unknown]
  · have hsplit : (['_'].intercalate (typeWords value)).splitOnP (!isWordChar ·) = typeWords value := by
      refine splitOnP_intercalate (by decide) (fun word hword c hc => ?_) hnone
      rw [(isWordChar_typeWords hword).2 c hc]
      rfl
    have htext : String.ofList (['_'].intercalate (typeWords value)) ≠ "" := by
      intro hempty
      have hnil : ['_'].intercalate (typeWords value) = [] := String.ofList_eq_empty_iff.mp hempty
      rw [hnil, List.splitOnP_nil] at hsplit
      exact (isWordChar_typeWords (hsplit ▸ List.mem_singleton_self _)).1 rfl
    have hnormal : normalizeFeatureType value =
        String.ofList (['_'].intercalate (typeWords value)) := by
      rw [normalizeFeatureType_eq]
      exact if_neg htext
    have hlower : (lower (normalizeFeatureType value)).toList = ['_'].intercalate (typeWords value) := by
      rw [hnormal]
      refine toList_lower_ofList fun c hc => ?_
      have hmem : c ∈ (normalizeFeatureType value).toList := by
        rwa [hnormal, String.toList_ofList]
      exact (toLower_wordChar (mem_normalizeFeatureType hmem)).1
    have hwords : typeWords (normalizeFeatureType value) = typeWords value := by
      rw [typeWords_eq (normalizeFeatureType value), strip_normalizeFeatureType, hlower, hsplit, List.filter_eq_self]
      exact fun word hword => decide_eq_true (isWordChar_typeWords hword).1
    rw [normalizeFeatureType_eq (normalizeFeatureType value), hwords, ← normalizeFeatureType_eq]

/-! ## Template pairs -/

/-- A fingerprint that is given is not blank. -/
def Plain (item : TemplateSource) : Prop :=
  item.templateFingerprint = "" ∨ strip item.templateFingerprint ≠ ""

/-- The key a template is filed under by `_template_pairs`. -/
def pairKey (item : TemplateSource) : String ×ₗ String :=
  toLex (firstGiven (strip item.templateFingerprint) (strip item.templateHash), strip item.category)

theorem strip_firstGiven {first second : String} (hfirst : strip first = first)
    (hsecond : strip second = second) : strip (firstGiven first second) = firstGiven first second := by
  unfold firstGiven
  split
  · exact hsecond
  · exact hfirst

theorem identityPair_eq_pairKey {item : TemplateSource} (h : Plain item) :
    identityPair item = pairKey item := by
  have hempty : strip "" = "" := by decide
  unfold identityPair pairKey firstGiven
  by_cases hgiven : item.templateFingerprint = ""
  · rw [if_pos hgiven, hgiven, hempty, if_pos rfl]
  · rw [if_neg hgiven, if_neg (h.resolve_left hgiven)]

/-- The signature `_template_pairs` writes for a template. -/
def signatureOf (item : TemplateSource) : TemplateSource where
  templateFingerprint := strip item.templateFingerprint
  templateHash := strip item.templateHash
  category := strip item.category
  component := ""
  descriptor := none

theorem identityPair_signatureOf (item : TemplateSource) :
    identityPair (signatureOf item) = pairKey item := by
  unfold identityPair pairKey signatureOf
  dsimp only
  rw [strip_firstGiven (strip_strip _) (strip_strip _), strip_strip]

theorem addTemplatePair_eq (pairs : Dict (String ×ₗ String) TemplateSource) (item : TemplateSource) :
    addTemplatePair pairs item =
      if (ofLex (pairKey item)).1 = "" then pairs
      else pairs.set (pairKey item) (signatureOf item) := rfl

/-- Every key the loop has seen holds the signature of a template filed under it. -/
theorem get?_foldl_addTemplatePair (items : List TemplateSource) (key : String ×ₗ String)
    (pairs : Dict (String ×ₗ String) TemplateSource) :
    (∀ value, (items.foldl addTemplatePair pairs).get? key = some value →
      pairs.get? key = some value ∨ ∃ item ∈ items, pairKey item = key ∧
        (ofLex key).1 ≠ "" ∧ value = signatureOf item) ∧
    ((∃ item ∈ items, pairKey item = key ∧ (ofLex key).1 ≠ "") ∨ (pairs.get? key).isSome = true →
      ((items.foldl addTemplatePair pairs).get? key).isSome = true) := by
  induction items generalizing pairs with
  | nil =>
      refine ⟨fun value h => .inl h, fun h => ?_⟩
      rcases h with ⟨item, hitem, -⟩ | h
      · exact absurd hitem List.not_mem_nil
      · exact h
  | cons item items ih =>
      rw [List.foldl_cons]
      obtain ⟨hfrom, hinto⟩ := ih (addTemplatePair pairs item)
      rw [addTemplatePair_eq] at hfrom hinto ⊢
      constructor
      · intro value h
        rcases hfrom value h with h | ⟨found, hfound, hkey⟩
        · split at h
          · exact .inl h
          · rw [Dict.get?_set] at h
            split at h
            · rename_i hkey
              cases h
              exact .inr ⟨item, List.mem_cons_self, hkey, hkey ▸ ‹_›, rfl⟩
            · exact .inl h
        · exact .inr ⟨found, List.mem_cons_of_mem _ hfound, hkey⟩
      · intro h
        refine hinto ?_
        rcases h with ⟨found, hfound, hkey, hne⟩ | h
        · rcases List.mem_cons.mp hfound with rfl | hfound
          · right
            rw [if_neg (by rw [hkey]; exact hne), hkey, Dict.get?_set_self]
            rfl
          · exact .inl ⟨found, hfound, hkey, hne⟩
        · right
          split
          · exact h
          · rw [Dict.get?_set]
            split
            · rfl
            · exact h

/-- The pairs of the written signatures are the pairs of the templates. -/
theorem v2TemplatePairs_templatePairs {items : List TemplateSource} (h : ∀ item ∈ items, Plain item) :
    v2TemplatePairs (templatePairs items) = v2TemplatePairs items := by
  unfold v2TemplatePairs
  refine sortedSet_eq_of_mem_iff fun key => ?_
  rw [List.mem_filter, List.mem_filter, List.mem_map, List.mem_map]
  refine and_congr_left fun hne => ?_
  have hne : (ofLex key).1 ≠ "" := of_decide_eq_true hne
  obtain ⟨hfrom, hinto⟩ := get?_foldl_addTemplatePair items key ∅
  constructor
  · rintro ⟨value, hvalue, rfl⟩
    obtain ⟨found, -, hget⟩ := List.mem_filterMap.mp hvalue
    obtain ⟨hfrom, -⟩ := get?_foldl_addTemplatePair items found ∅
    rcases hfrom value hget with hempty | ⟨item, hitem, hkey, -, rfl⟩
    · cases hempty
    · exact ⟨item, hitem, (identityPair_eq_pairKey (h item hitem)).trans
        (identityPair_signatureOf item).symm⟩
  · rintro ⟨item, hitem, hkey⟩
    rw [identityPair_eq_pairKey (h item hitem)] at hkey
    have hsome := hinto (.inl ⟨item, hitem, hkey, hne⟩)
    obtain ⟨value, hvalue⟩ := Option.isSome_iff_exists.mp hsome
    refine ⟨value, List.mem_filterMap.mpr ⟨key, ?_, hvalue⟩, ?_⟩
    · rw [mem_sortedSet]
      exact Dict.mem_keys_of_get? hvalue
    · rcases hfrom value hvalue with hempty | ⟨found, -, hfound, -, rfl⟩
      · cases hempty
      · rw [identityPair_signatureOf, hfound]

/-- A written signature has no component. -/
theorem component_of_mem_templatePairs {items : List TemplateSource} {item : TemplateSource}
    (h : item ∈ templatePairs items) : item.component = "" := by
  obtain ⟨key, -, hget⟩ := List.mem_filterMap.mp h
  rcases (get?_foldl_addTemplatePair items key ∅).1 item hget with hempty | ⟨found, -, -, -, rfl⟩
  · cases hempty
  · rfl

/-- A written signature names a template. -/
theorem validTemplate_of_mem_templatePairs {items : List TemplateSource} {item : TemplateSource}
    (h : item ∈ templatePairs items) : validTemplate item = true := by
  obtain ⟨key, -, hget⟩ := List.mem_filterMap.mp h
  rcases (get?_foldl_addTemplatePair items key ∅).1 item hget with
    hempty | ⟨found, -, hkey, hne, rfl⟩
  · cases hempty
  · have hpair : strip (firstGiven (signatureOf found).templateFingerprint
        (signatureOf found).templateHash) = (ofLex (pairKey found)).1 :=
      congrArg (fun pair => (ofLex pair).1) (identityPair_signatureOf found)
    unfold validTemplate
    rw [hpair, hkey]
    exact decide_eq_true hne

/-- Written signatures have pairs if there are any. -/
theorem v2TemplatePairs_ne_nil {items : List TemplateSource} (h : templatePairs items ≠ []) :
    v2TemplatePairs (templatePairs items) ≠ [] := by
  obtain ⟨item, hitem⟩ := List.exists_mem_of_ne_nil _ h
  have hvalid := of_decide_eq_true (validTemplate_of_mem_templatePairs hitem)
  unfold v2TemplatePairs
  refine List.ne_nil_of_mem (a := identityPair item) (mem_sortedSet.mpr ?_)
  exact List.mem_filter.mpr ⟨List.mem_map_of_mem hitem, decide_eq_true hvalid⟩

theorem ruleComponents_templatePairs (items : List TemplateSource) :
    ruleComponents [] (templatePairs items) = [] := by
  have hblank : lowered ((templatePairs items).map TemplateSource.component) = [] := by
    unfold lowered stripped
    rw [List.map_eq_nil_iff, List.filter_eq_nil_iff]
    intro text htext
    obtain ⟨component, hcomponent, rfl⟩ := List.mem_map.mp htext
    obtain ⟨item, hitem, rfl⟩ := List.mem_map.mp hcomponent
    rw [component_of_mem_templatePairs hitem]
    decide
  have hnil : lowered [] = [] := rfl
  unfold ruleComponents
  rw [hnil, if_neg (not_not_intro rfl), hblank]
  rfl

end LogRisk.Approval
