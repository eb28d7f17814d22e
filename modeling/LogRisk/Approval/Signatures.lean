import LogRisk.Approval.Canonical
import LogRisk.Approval.IpLiterals

/-!
# Canonical signatures

A signature is stripped of white space, and then its IP literals are taken out.  In this order
a literal at an end of the text leaves the white space beside it, and the signature of the
signature is another one.
-/

namespace LogRisk.Approval

open LogRisk.Library LogRisk.Library.Text

/-! ## Between literals -/

theorem Literal.rejects_regex {L : Literal} {c : Char} (haround : L.around c = false)
    (hne : c ≠ L.separator) (least : ℕ) (most : Option ℕ) :
    (L.regex least most).Rejects (some c) := by
  have hmember : L.member c = false := by
    rw [Bool.eq_false_iff]
    intro hmember
    rw [L.member_around c hmember] at haround
    cases haround
  exact ⟨haround, ⟨hmember, beq_false_of_ne hne⟩, hmember, haround⟩

/-- No part of an IP literal, and nothing that keeps one from being found. -/
def Neutral (c : Char) : Prop :=
  ipv4.around c = false ∧ c ≠ ipv4.separator ∧ ipv6.around c = false ∧ c ≠ ipv6.separator

instance : DecidablePred Neutral := fun _ => instDecidableAnd

theorem neutral_of_isSpace {c : Char} (h : isSpace c = true) : Neutral c := by
  have hrange : (c.toNat < 46 ∨ 47 ≤ c.toNat) ∧ (c.toNat < 48 ∨ 59 ≤ c.toNat) ∧
      (c.toNat < 65 ∨ 90 < c.toNat) ∧ (c.toNat < 97 ∨ 122 < c.toNat) := by
    unfold isSpace at h
    simp only [Bool.or_eq_true, Bool.and_eq_true, decide_eq_true_eq, beq_iff_eq] at h
    omega
  have hval : c.val.toNat = c.toNat := rfl
  refine ⟨?_, ?_, ?_, ?_⟩
  · change c.isAlphanum = false
    unfold Char.isAlphanum Char.isAlpha Char.isUpper Char.isDigit
    simp only [isLower_eq, Bool.or_eq_false_iff, Bool.and_eq_false_iff, decide_eq_false_iff_not, ge_iff_le,
      UInt32.le_iff_toNat_le, hval]
    simp
    omega
  · rintro rfl
    exact absurd hrange (by decide)
  · change isHexDigit c = false
    unfold isHexDigit Char.isDigit
    simp only [Bool.or_eq_false_iff, Bool.and_eq_false_iff, decide_eq_false_iff_not, ge_iff_le,
      UInt32.le_iff_toNat_le, Char.le_def, hval]
    simp
    omega
  · rintro rfl
    exact absurd hrange (by decide)

/-- A neutral character parts a text. -/
theorem removeLiterals_append {c : Char} (hc : Neutral c) (text more : List Char) :
    removeLiterals (text ++ c :: more) = removeLiterals text ++ c :: removeLiterals more := by
  obtain ⟨haround, hne, haround', hne'⟩ := hc
  have hfirst : ipv4Pattern.Rejects (some c) := Literal.rejects_regex haround hne 3 (some 3)
  have hsecond : ipv6Pattern.Rejects (some c) := Literal.rejects_regex haround' hne' 2 none
  unfold removeLiterals
  rw [Regex.remove_append hfirst, Regex.remove_append hsecond]

theorem removeLiterals_sublist (text : List Char) : (removeLiterals text).Sublist text :=
  (strike_sublist 0 none _).trans (strike_sublist 0 none _)

/-! ## White space at the ends -/

/-- White space has only literals before it. -/
def Opens (text : List Char) : Prop :=
  ∃ before c after, text = before ++ c :: after ∧ isSpace c = true ∧ removeLiterals before = []

/-- White space has only literals behind it. -/
def Closes (text : List Char) : Prop :=
  ∃ before c after, text = before ++ c :: after ∧ isSpace c = true ∧ removeLiterals after = []

theorem opens_iff {text : List Char} :
    Opens text ↔ ∃ c ∈ (removeLiterals text).head?, isSpace c = true := by
  constructor
  · rintro ⟨before, c, after, rfl, hspace, hnil⟩
    rw [removeLiterals_append (neutral_of_isSpace hspace), hnil]
    exact ⟨c, rfl, hspace⟩
  · rintro ⟨c, hhead, hspace⟩
    have hno {kept : List Char} (hkept : ∀ d ∈ kept, isSpace d = false)
        (hc : c ∈ (removeLiterals kept).head?) : False := by
      have hmem := (removeLiterals_sublist kept).mem (List.mem_of_mem_head? hc)
      rw [hkept c hmem] at hspace
      cases hspace
    have hword : ∀ d ∈ text.takeWhile (!isSpace ·), isSpace d = false := fun d hd => by
      have := List.mem_takeWhile_imp hd
      rwa [Bool.not_eq_true'] at this
    have hsplit := List.takeWhile_append_dropWhile (p := (!isSpace ·)) (l := text)
    cases hrest : text.dropWhile (!isSpace ·) with
    | nil =>
        rw [hrest, List.append_nil] at hsplit
        rw [hsplit] at hword
        exact (hno hword hhead).elim
    | cons d after =>
        have hd : isSpace d = true := by
          have hfirst := List.head?_dropWhile_not (!isSpace ·) text
          rw [hrest, List.head?_cons] at hfirst
          dsimp only at hfirst
          rwa [Bool.not_eq_false'] at hfirst
        rw [hrest] at hsplit
        refine ⟨_, d, after, hsplit.symm, hd, ?_⟩
        rw [← hsplit, removeLiterals_append (neutral_of_isSpace hd)] at hhead
        by_contra hne
        rw [List.head?_append_of_ne_nil _ hne] at hhead
        exact hno hword hhead

theorem closes_iff {text : List Char} :
    Closes text ↔ ∃ c ∈ (removeLiterals text).getLast?, isSpace c = true := by
  constructor
  · rintro ⟨before, c, after, rfl, hspace, hnil⟩
    rw [removeLiterals_append (neutral_of_isSpace hspace), hnil, List.getLast?_concat]
    exact ⟨c, rfl, hspace⟩
  · rintro ⟨c, hlast, hspace⟩
    have hno {kept : List Char} (hkept : ∀ d ∈ kept, isSpace d = false)
        (hc : c ∈ (removeLiterals kept).getLast?) : False := by
      have hmem := (removeLiterals_sublist kept).mem (List.mem_of_getLast? hc)
      rw [hkept c hmem] at hspace
      cases hspace
    -- `after` is what has been read from the end.
    suffices h : ∀ after : List Char, (∀ d ∈ after, isSpace d = false) →
        c ∈ (removeLiterals (text ++ after)).getLast? → Closes (text ++ after) by
      have hwhole := h [] (fun d hd => absurd hd List.not_mem_nil)
      rw [List.append_nil] at hwhole
      exact hwhole hlast
    clear hlast
    induction text using List.reverseRecOn with
    | nil => exact fun after hafter hc => (hno hafter hc).elim
    | append_singleton before d ih =>
        intro after hafter hc
        rw [List.append_assoc, List.singleton_append] at hc ⊢
        by_cases hd : isSpace d = true
        · refine ⟨before, d, after, rfl, hd, ?_⟩
          rw [removeLiterals_append (neutral_of_isSpace hd)] at hc
          by_contra hne
          rw [List.getLast?_append_of_ne_nil _ (List.cons_ne_nil d _),
            List.getLast?_cons_of_ne_nil hne] at hc
          exact hno hafter hc
        · refine ih (d :: after) (fun e he => ?_) hc
          rcases List.mem_cons.mp he with rfl | he
          · exact Bool.eq_false_iff.mpr hd
          · exact hafter e he

theorem stripChars_eq_self_iff {text : List Char} : stripChars text = text ↔
    (¬∃ c ∈ text.head?, isSpace c = true) ∧ ¬∃ c ∈ text.getLast?, isSpace c = true := by
  have hleft : text.dropWhile isSpace = text ↔ ¬∃ c ∈ text.head?, isSpace c = true := by
    cases text with
    | nil => exact iff_of_true rfl fun ⟨c, hc, _⟩ => by cases hc
    | cons d ds =>
        rw [List.dropWhile_eq_self_iff]
        constructor
        · rintro h ⟨c, hc, hspace⟩
          obtain rfl := Option.some.inj hc
          exact h (Nat.succ_pos _) hspace
        · exact fun h _ hspace => h ⟨d, rfl, hspace⟩
  have hright : text.rdropWhile isSpace = text ↔ ¬∃ c ∈ text.getLast?, isSpace c = true := by
    rw [List.rdropWhile_eq_self_iff]
    constructor
    · rintro h ⟨c, hc, hspace⟩
      obtain ⟨hne, rfl⟩ := List.mem_getLast?_eq_getLast hc
      exact h hne hspace
    · exact fun h hne hspace => h ⟨_, List.getLast_mem_getLast? hne, hspace⟩
  rw [← hleft, ← hright]
  unfold stripChars
  constructor
  · intro h
    have hshorter := (List.rdropWhile_prefix isSpace (l := text.dropWhile isSpace)).length_le
    rw [h] at hshorter
    have hwhole := (List.dropWhile_suffix isSpace).eq_of_length_le hshorter
    rw [hwhole] at h
    exact ⟨hwhole, h⟩
  · rintro ⟨hfirst, hsecond⟩
    rw [hfirst, hsecond]

theorem strip_removeIpLiterals_iff {value : String} :
    strip (removeIpLiterals value) = removeIpLiterals value ↔
      ¬Opens value.toList ∧ ¬Closes value.toList := by
  rw [opens_iff, closes_iff, ← stripChars_eq_self_iff]
  unfold strip removeIpLiterals
  rw [String.toList_ofList, String.ofList_inj]

/-! ## Signatures of texts -/

/-- `_canonical_signature` of a text. -/
def canonicalSignature (value : String) : Option String :=
  if removeIpLiterals (strip value) = "" then none else some (removeIpLiterals (strip value))

theorem canonicalSignature_eq_some {value signature : String} :
    canonicalSignature value = some signature ↔
      removeIpLiterals (strip value) = signature ∧ signature ≠ "" := by
  unfold canonicalSignature
  split
  · rename_i hempty
    refine iff_of_false (fun h => by cases h) ?_
    rintro ⟨rfl, hne⟩
    exact hne hempty
  · rename_i hne
    rw [Option.some.injEq]
    constructor
    · rintro rfl
      exact ⟨rfl, hne⟩
    · exact And.left

/-- The texts that are their own signature. -/
theorem canonicalSignature_eq_self {text : String} : canonicalSignature text = some text ↔
    text ≠ "" ∧ strip text = text ∧ removeIpLiterals text = text := by
  rw [canonicalSignature_eq_some]
  constructor
  · rintro ⟨h, hne⟩
    have hstrip : strip text = text := by
      have hlength := (removeLiterals_sublist (strip text).toList).length_le
      have hchars : removeLiterals (strip text).toList = text.toList := by
        rw [← h, removeIpLiterals, String.toList_ofList, ← removeIpLiterals, h]
      rw [hchars] at hlength
      unfold strip at hlength ⊢
      rw [String.toList_ofList] at hlength
      have hinner : stripChars text.toList = text.toList :=
        (stripChars_sublist text.toList).eq_of_length_le hlength
      rw [hinner, String.ofList_toList]
    rw [hstrip] at h
    exact ⟨hne, hstrip, h⟩
  · rintro ⟨hne, hstrip, h⟩
    rw [hstrip]
    exact ⟨h, hne⟩

/-- A text's signature is its own just when no white space is left at an end of it. -/
theorem canonicalSignature_stable_iff (value : String) :
    (∀ signature, canonicalSignature value = some signature →
        canonicalSignature signature = some signature) ↔
      ¬Opens (strip value).toList ∧ ¬Closes (strip value).toList := by
  rw [← strip_removeIpLiterals_iff]
  constructor
  · intro h
    by_cases hempty : removeIpLiterals (strip value) = ""
    · rw [hempty]
      rfl
    · exact (canonicalSignature_eq_self.mp (h _ (canonicalSignature_eq_some.mpr ⟨rfl, hempty⟩))).2.1
  · intro hstrip signature h
    obtain ⟨rfl, hne⟩ := canonicalSignature_eq_some.mp h
    exact canonicalSignature_eq_self.mpr ⟨hne, hstrip, removeIpLiterals_idem _⟩

/-! ## Signatures of templates -/

section Templates

variable {μ : Type} {R : Resolver μ}

/-- A key is the same for anchors as they are read back. -/
theorem approvalKey_stripped (hliterals : R.removeIpLiterals = removeIpLiterals) (safe : Option Bool)
    (featureType problemCode : String) (components anchors : List String) :
    R.buildApprovalKey featureType problemCode components (sortedSet (stripped anchors)) safe =
      R.buildApprovalKey featureType problemCode components anchors safe := by
  have hanchors : R.canonicalTexts (sortedSet (stripped anchors)) = R.canonicalTexts anchors := by
    unfold Resolver.canonicalTexts
    rw [hliterals]
    refine sortedSet_eq_of_mem_iff fun signature => ?_
    rw [List.mem_filter, List.mem_filter]
    refine and_congr_left fun hne => ?_
    rw [List.mem_map, List.mem_map]
    constructor
    · rintro ⟨anchor, hanchor, rfl⟩
      obtain ⟨raw, hraw, rfl⟩ := List.mem_map.mp (List.mem_filter.mp (mem_sortedSet.mp hanchor)).1
      exact ⟨raw, hraw, by rw [strip_strip]⟩
    · rintro ⟨raw, hraw, rfl⟩
      have hgiven : strip raw ≠ "" := by
        intro hblank
        rw [hblank] at hne
        exact of_decide_eq_true hne rfl
      exact ⟨strip raw, mem_sortedSet.mpr (List.mem_filter.mpr
        ⟨List.mem_map.mpr ⟨raw, hraw, rfl⟩, decide_eq_true hgiven⟩), by rw [strip_strip]⟩
  unfold Resolver.buildApprovalKey Resolver.approvalKey
  rw [hanchors]

end Templates

/-- Taking literals out is idempotent and keys are built again from the anchors that were stored;
the signature of a signature is itself unless white space stands with nothing but literals
between it and an end of the text. -/
theorem signature_stable (value : String) :
    removeIpLiterals (removeIpLiterals value) = removeIpLiterals value ∧
    ((∀ signature, canonicalSignature value = some signature →
        canonicalSignature signature = some signature) ↔
      ¬Opens (strip value).toList ∧ ¬Closes (strip value).toList) ∧
    ∀ {μ : Type} (R : Resolver μ) (feature : Feature μ), R.removeIpLiterals = removeIpLiterals →
      R.buildApprovalKey feature.featureType (R.problemCode feature) (componentScope feature)
          (sortedSet (stripped (R.anchorSignatures feature))) (some (R.safeToGroup feature)) =
        (approvalIdentity R feature).approvalKey :=
  ⟨removeIpLiterals_idem value, canonicalSignature_stable_iff value,
    fun _ _ hliterals => approvalKey_stripped hliterals _ _ _ _ _⟩

/-- The address in front leaves the space behind it. -/
theorem leading_address_unstable :
    canonicalSignature "10.0.0.1 connection refused" = some " connection refused" ∧
      canonicalSignature " connection refused" = some "connection refused" := by
  decide +kernel

end LogRisk.Approval
