import LogRisk.Approval.Canonical
import LogRisk.Problems.Resolver

/-!
# What a safe resolution rests on

A resolution is safe only where one concrete code is left.  With identifiers
selected, or with a template that has a text, every template then resolves to
that code by itself.
-/

namespace LogRisk.Problems

open Library
open Library.Text
open Approval (stripped sortedSet mem_sortedSet sortedSet_eq_of_mem_iff)

variable {host : Host} {found kept : List Match} {item : Match} {code : String}

/-! ## Unique matches -/

theorem mem_keepNew {m : Match} (h : m ∈ keepNew kept item) : m ∈ kept ∨ m = item := by
  unfold keepNew at h
  split at h
  · exact .inl h
  · rw [List.mem_append, List.mem_singleton] at h
    exact h

theorem mem_keepNew_of_mem {m : Match} (h : m ∈ kept) : m ∈ keepNew kept item := by
  unfold keepNew
  split
  · exact h
  · exact List.mem_append_left _ h

theorem exists_code_keepNew (kept : List Match) (item : Match) : ∃ m ∈ keepNew kept item, m.code = item.code := by
  unfold keepNew
  split
  · rename_i hany
    rw [List.any_eq_true] at hany
    obtain ⟨other, hother, hkey⟩ := hany
    exact ⟨other, hother, (of_decide_eq_true hkey).1⟩
  · exact ⟨item, List.mem_append_right _ (List.mem_singleton_self _), rfl⟩

theorem mem_foldl_keepNew {m : Match} (h : m ∈ found.foldl keepNew kept) : m ∈ kept ∨ m ∈ found := by
  induction found generalizing kept with
  | nil => exact .inl h
  | cons first rest ih =>
      rcases ih h with hkept | hrest
      · rcases mem_keepNew hkept with hold | rfl
        · exact .inl hold
        · exact .inr List.mem_cons_self
      · exact .inr (List.mem_cons_of_mem _ hrest)

theorem exists_code_foldl_keepNew :
    (∃ m ∈ found.foldl keepNew kept, m.code = code) ↔
      (∃ m ∈ kept, m.code = code) ∨ ∃ m ∈ found, m.code = code := by
  induction found generalizing kept with
  | nil => simp
  | cons first rest ih =>
      rw [List.foldl_cons, ih]
      constructor
      · rintro (⟨m, hm, hcode⟩ | ⟨m, hm, hcode⟩)
        · rcases mem_keepNew hm with hold | rfl
          · exact .inl ⟨m, hold, hcode⟩
          · exact .inr ⟨m, List.mem_cons_self, hcode⟩
        · exact .inr ⟨m, List.mem_cons_of_mem _ hm, hcode⟩
      · rintro (⟨m, hm, hcode⟩ | ⟨m, hm, hcode⟩)
        · exact .inl ⟨m, mem_keepNew_of_mem hm, hcode⟩
        · rcases List.mem_cons.mp hm with rfl | hrest
          · obtain ⟨kept', hkept', hsame⟩ := exists_code_keepNew kept m
            exact .inl ⟨kept', hkept', hsame.trans hcode⟩
          · exact .inr ⟨m, hrest, hcode⟩

theorem mem_of_mem_uniqueMatches {m : Match} (h : m ∈ uniqueMatches found) : m ∈ found :=
  (mem_foldl_keepNew h).resolve_left List.not_mem_nil

theorem exists_code_uniqueMatches :
    (∃ m ∈ uniqueMatches found, m.code = code) ↔ ∃ m ∈ found, m.code = code := by
  unfold uniqueMatches
  rw [exists_code_foldl_keepNew]
  simp

/-! ## Concrete codes -/

theorem mem_concrete : code ∈ concrete found ↔ (∃ m ∈ found, m.code = code) ∧ isConcrete code = true := by
  unfold concrete codes
  rw [List.mem_filter, mem_sortedSet, List.mem_filter, List.mem_map]
  constructor
  · rintro ⟨⟨hfound, -⟩, hconcrete⟩
    exact ⟨hfound, hconcrete⟩
  · rintro ⟨hfound, hconcrete⟩
    obtain ⟨hunknown, hlocal⟩ := known_of_isConcrete hconcrete
    refine ⟨⟨hfound, ?_⟩, hconcrete⟩
    rw [hunknown, hlocal]
    rfl

theorem codes_eq_of_exists {found' : List Match}
    (h : ∀ code, (∃ m ∈ found, m.code = code) ↔ ∃ m ∈ found', m.code = code) :
    codes found = codes found' := by
  unfold codes
  apply sortedSet_eq_of_mem_iff
  intro code
  rw [List.mem_filter, List.mem_filter, List.mem_map, List.mem_map, h code]

@[simp] theorem codes_uniqueMatches (found : List Match) : codes (uniqueMatches found) = codes found :=
  codes_eq_of_exists fun _ => exists_code_uniqueMatches

@[simp] theorem concrete_uniqueMatches (found : List Match) :
    concrete (uniqueMatches found) = concrete found := by
  unfold concrete
  rw [codes_uniqueMatches]

theorem sortedSet_nodup (items : List String) : (sortedSet items).Nodup :=
  (List.perm_insertionSort _ _).nodup_iff.mpr (List.nodup_dedup _)

theorem concrete_nodup (found : List Match) : (concrete found).Nodup := (sortedSet_nodup _).filter _

theorem concrete_eq_of_mem_iff {found' : List Match}
    (h : ∀ code, code ∈ concrete found ↔ code ∈ concrete found') :
    concrete found = concrete found' := by
  have hsorted (found : List Match) : (concrete found).Pairwise (· ≤ ·) := by
    unfold concrete codes sortedSet
    exact (List.pairwise_insertionSort (α := String) (· ≤ ·) _).filter _
  have hperm : (concrete found).Perm (concrete found') := by
    rw [List.perm_ext_iff_of_nodup (concrete_nodup _) (concrete_nodup _)]
    exact h
  exact hperm.eq_of_pairwise' (hsorted _) (hsorted _)

/-- One concrete code is left exactly where some match has it and every concrete match does. -/
theorem concrete_eq_singleton : concrete found = [code] ↔
    code ∈ concrete found ∧ ∀ other ∈ concrete found, other = code := by
  constructor
  · intro h
    rw [h]
    exact ⟨List.mem_singleton_self _, fun _ hother => List.mem_singleton.mp hother⟩
  · rintro ⟨hmem, hall⟩
    have hperm : (concrete found).Perm [code] := by
      rw [List.perm_ext_iff_of_nodup (concrete_nodup _) (List.nodup_singleton _)]
      intro other
      rw [List.mem_singleton]
      exact ⟨hall other, fun h => h ▸ hmem⟩
    exact List.perm_singleton.mp hperm

theorem isConcrete_of_singleton (h : concrete found = [code]) : isConcrete code = true := by
  have hmem : code ∈ concrete found := by
    rw [h]
    exact List.mem_singleton_self _
  exact (mem_concrete.mp hmem).2

/-! ## The decision -/

/-- With one concrete code the resolution is that code, as sure as a match that has it. -/
theorem resolution_of_concrete (safe : Bool) (missing unresolved : List String)
    (h : concrete found = [code]) : ∃ item ∈ found, item.code = code ∧
      resolution found safe false missing unresolved =
        { problemCode := some code
          confidence := item.confidence
          semanticSafe := safe
          ambiguity := false
          evidenceSource := item.source
          matchedRule := item.matchedRule
          supportingCodes := codes found
          subtype := item.subtype
          missingSelectedIds := missing
          unresolvedSelectedIds := unresolved } := by
  have hmem : code ∈ concrete found := by
    rw [h]
    exact List.mem_singleton_self _
  obtain ⟨hfound, hconcrete⟩ := mem_concrete.mp hmem
  obtain ⟨m, hm, hcode⟩ := exists_code_uniqueMatches.mpr hfound
  obtain ⟨item, hitem⟩ : ∃ item, (uniqueMatches found).find? (·.code = code) = some item := by
    rw [← Option.isSome_iff_exists, List.find?_isSome]
    exact ⟨m, hm, decide_eq_true hcode⟩
  have hsame := List.find?_some hitem
  refine ⟨item, mem_of_mem_uniqueMatches (List.mem_of_find?_eq_some hitem),
    of_decide_eq_true hsame, ?_⟩
  obtain ⟨first, rest, hvalues⟩ := List.exists_cons_of_ne_nil (List.ne_nil_of_mem hm)
  unfold resolution
  dsimp only
  rw [concrete_uniqueMatches, codes_uniqueMatches, h, if_neg (by simp)]
  rw [hvalues] at hitem ⊢
  dsimp only [List.head?_cons, Option.some_or]
  rw [hitem, not_generic_of_isConcrete hconcrete]
  simp

theorem resolution_safe {safe ambiguity : Bool} {missing unresolved : List String} :
    (resolution found safe ambiguity missing unresolved).semanticSafe = true ↔
      safe = true ∧ ambiguity = false ∧ ∃ code, concrete found = [code] := by
  constructor
  · intro h
    unfold resolution at h
    dsimp only at h
    rw [concrete_uniqueMatches, codes_uniqueMatches] at h
    split at h
    · cases h
    · rename_i hsure
      split at h
      · simp only [Bool.and_eq_true, Bool.not_eq_true', List.isEmpty_eq_false_iff] at h
        simp only [Bool.or_eq_true, decide_eq_true_eq, not_or, Bool.not_eq_true, not_lt] at hsure
        obtain ⟨code, rest, hconcrete⟩ := List.exists_cons_of_ne_nil h.1.2
        rw [hconcrete, List.length_cons] at hsure
        have hrest : rest = [] := List.eq_nil_of_length_eq_zero (by omega)
        exact ⟨h.1.1, hsure.1, code, by rw [hconcrete, hrest]⟩
      · cases h
  · rintro ⟨rfl, rfl, code, hconcrete⟩
    obtain ⟨item, -, -, hresolution⟩ := resolution_of_concrete true missing unresolved hconcrete
    rw [hresolution]

/-! ## One template -/

theorem confidence_of_mem_templateMatches {row : Template} (h : item ∈ templateMatches host row) :
    item.confidence = .high := by
  have hbranch {scan : Scan} {chain : List Branch} {m : Match}
      (hm : firstTaken scan chain = some m) : m.confidence = .high := by
    unfold firstTaken at hm
    obtain ⟨branch, -, rfl⟩ := Option.map_eq_some_iff.mp hm
    rfl
  have hscan := mem_of_mem_uniqueMatches h
  unfold scanMatches at hscan
  dsimp only at hscan
  split at hscan
  · obtain ⟨chain, -, hchain⟩ := List.mem_filterMap.mp hscan
    exact hbranch hchain
  · rcases List.mem_append.mp hscan with hdirect | hwrapper
    · obtain ⟨chain, -, hchain⟩ := List.mem_filterMap.mp hdirect
      exact hbranch hchain
    · exact hbranch (Option.mem_toList.mp hwrapper)

theorem concrete_filter (found : List Match) :
    concrete (found.filter (isConcrete ·.code)) = concrete found := by
  apply concrete_eq_of_mem_iff
  intro code
  rw [mem_concrete, mem_concrete]
  constructor
  · rintro ⟨⟨m, hm, hcode⟩, hconcrete⟩
    exact ⟨⟨m, (List.mem_filter.mp hm).1, hcode⟩, hconcrete⟩
  · rintro ⟨⟨m, hm, rfl⟩, hconcrete⟩
    exact ⟨⟨m, List.mem_filter.mpr ⟨hm, hconcrete⟩, rfl⟩, hconcrete⟩

theorem mem_codes_filter :
    code ∈ sortedSet ((found.filter (isConcrete ·.code)).map Match.code) ↔ code ∈ concrete found := by
  rw [mem_sortedSet, List.mem_map, mem_concrete]
  constructor
  · rintro ⟨m, hm, rfl⟩
    obtain ⟨hfound, hconcrete⟩ := List.mem_filter.mp hm
    exact ⟨⟨m, hfound, rfl⟩, hconcrete⟩
  · rintro ⟨⟨m, hm, rfl⟩, hconcrete⟩
    exact ⟨m, List.mem_filter.mpr ⟨hm, hconcrete⟩, rfl⟩

/-- A template whose patterns leave one concrete code resolves to it, safely and surely. -/
theorem resolveSelectedTemplate_of_concrete {row : Template}
    (h : concrete (templateMatches host row) = [code]) :
    (resolveSelectedTemplate host row).problemCode = some code ∧
    (resolveSelectedTemplate host row).semanticSafe = true ∧
    (resolveSelectedTemplate host row).ambiguity = false ∧
    (resolveSelectedTemplate host row).confidence = .high := by
  have hcode : code ∈ concrete (templateMatches host row) := by
    rw [h]
    exact List.mem_singleton_self _
  have hsure : (templateMatches host row).filter (isConcrete ·.code) ≠ [] := by
    intro hnil
    have hempty := concrete_filter (templateMatches host row)
    rw [hnil, h] at hempty
    cases hempty
  have hone : ¬ 1 < (sortedSet (((templateMatches host row).filter
      (isConcrete ·.code)).map Match.code)).length := by
    have hperm : (sortedSet (((templateMatches host row).filter
        (isConcrete ·.code)).map Match.code)).Perm [code] := by
      rw [List.perm_ext_iff_of_nodup (sortedSet_nodup _) (List.nodup_singleton _), ← h]
      exact fun _ => mem_codes_filter
    rw [hperm.length_eq]
    exact lt_irrefl 1
  obtain ⟨item, hitem, -, hresolution⟩ :=
    resolution_of_concrete true [] []
      ((concrete_filter (templateMatches host row)).trans h)
  unfold resolveSelectedTemplate
  dsimp only
  rw [if_neg hsure, if_neg hone, hresolution]
  exact ⟨rfl, rfl, rfl, confidence_of_mem_templateMatches (List.mem_filter.mp hitem).1⟩

theorem resolveSelectedTemplate_safe {row : Template} :
    (resolveSelectedTemplate host row).semanticSafe = true ↔
      ∃ code, concrete (templateMatches host row) = [code] := by
  constructor
  · intro h
    unfold resolveSelectedTemplate at h
    dsimp only at h
    split at h
    · split at h
      · cases h
      · cases (resolution_safe.mp h).1
    · split at h
      · cases (resolution_safe.mp h).1
      · rw [← concrete_filter]
        exact (resolution_safe.mp h).2.2
  · rintro ⟨code, hcode⟩
    exact (resolveSelectedTemplate_of_concrete hcode).2.1

/-! ## Complete evidence -/

theorem mem_concrete_selectedMatches {sources : List Template} :
    code ∈ concrete (selectedMatches host sources) ↔
      ∃ row ∈ sources, code ∈ concrete (templateMatches host row) := by
  unfold selectedMatches
  rw [concrete_uniqueMatches, mem_concrete]
  constructor
  · rintro ⟨⟨m, hm, hcode⟩, hconcrete⟩
    obtain ⟨row, hrow, hmatch⟩ := List.mem_flatMap.mp hm
    exact ⟨row, hrow, mem_concrete.mpr ⟨⟨m, hmatch, hcode⟩, hconcrete⟩⟩
  · rintro ⟨row, hrow, hcode⟩
    obtain ⟨⟨m, hm, hsame⟩, hconcrete⟩ := mem_concrete.mp hcode
    exact ⟨⟨m, List.mem_flatMap.mpr ⟨row, hrow, hm⟩, hsame⟩, hconcrete⟩

/-- The identifiers the evidence has to answer for. -/
def wantedIds (selected : List String) (sources : List Template) : List String :=
  if selected = [] then sourceIds sources else selected

/-- What `complete_selected_evidence` checks. -/
structure Complete (host : Host) (selected : List String) (sources : List Template) : Prop where
  exists_row : sources ≠ []
  covers : ∀ id ∈ selected, ∃ row ∈ sources, id ∈ row.ids
  text : ∀ row ∈ sources, (∃ id ∈ row.ids, id ∈ wantedIds selected sources) → row.hasText = true
  resolves : ∀ row ∈ sources, (resolveSelectedTemplate host row).semanticSafe = true

theorem covered_iff {selected : List String} {sources : List Template} :
    covered selected sources = true ↔
      sources ≠ [] ∧ ∀ id ∈ selected, ∃ row ∈ sources, id ∈ row.ids := by
  unfold covered sourceIds
  rw [Bool.and_eq_true, Bool.not_eq_true', List.isEmpty_eq_false_iff, Bool.or_eq_true,
    List.isEmpty_iff, List.all_eq_true]
  refine and_congr Iff.rfl ?_
  simp only [List.contains_iff_mem, List.mem_flatMap]
  constructor
  · rintro (rfl | h)
    · exact fun _ hid => absurd hid List.not_mem_nil
    · exact h
  · exact .inr

theorem unresolvedIds_eq_nil {selected : List String} {sources : List Template} :
    unresolvedIds host selected sources = [] ↔
      ∀ row ∈ sources, (∃ id ∈ row.ids, id ∈ wantedIds selected sources) →
        row.hasText = true ∧ (resolveSelectedTemplate host row).semanticSafe = true := by
  unfold unresolvedIds
  dsimp only
  rw [Approval.sortedSet_eq_nil, List.flatMap_eq_nil_iff]
  refine forall₂_congr fun row _ => ?_
  constructor
  · rintro h ⟨id, hid, hwanted⟩
    split at h
    · rw [List.filter_eq_nil_iff] at h
      exact absurd (List.contains_iff_mem.mpr hwanted) (h id hid)
    · rename_i hfine
      simpa using hfine
  · intro h
    split
    · rename_i hflaw
      rw [List.filter_eq_nil_iff]
      intro id hid hwanted
      obtain ⟨htext, hsafe⟩ := h ⟨id, hid, List.contains_iff_mem.mp hwanted⟩
      rw [htext, hsafe] at hflaw
      cases hflaw
    · rfl

theorem eachResolved_iff {sources : List Template} : eachResolved host sources = true ↔
    ∀ row ∈ sources, (resolveSelectedTemplate host row).semanticSafe = true := by
  unfold eachResolved
  rw [List.all_eq_true]
  simp only [List.forall_mem_map]
  refine forall₂_congr fun row _ => ?_
  constructor
  · intro h
    simp only [Bool.and_eq_true] at h
    exact h.1.1.1
  · intro h
    obtain ⟨code, hcode⟩ := resolveSelectedTemplate_safe.mp h
    obtain ⟨hproblem, hsafe, hsure, hhigh⟩ := resolveSelectedTemplate_of_concrete hcode
    have hconcrete : code ∈ concrete (templateMatches host row) := by
      rw [hcode]
      exact List.mem_singleton_self _
    rw [hproblem, hsafe, hsure, hhigh, Option.any_some,
      List.contains_iff_mem.mpr (mem_concreteCodes (mem_concrete.mp hconcrete).2)]
    rfl

theorem complete_iff {selected : List String} {sources : List Template} :
    (covered selected sources && (unresolvedIds host selected sources).isEmpty &&
      eachResolved host sources) = true ↔ Complete host selected sources := by
  rw [Bool.and_eq_true, Bool.and_eq_true, covered_iff, List.isEmpty_iff, unresolvedIds_eq_nil,
    eachResolved_iff]
  constructor
  · rintro ⟨⟨⟨hrow, hcovers⟩, htext⟩, hresolves⟩
    exact ⟨hrow, hcovers, fun row hmem hid => (htext row hmem hid).1, hresolves⟩
  · rintro ⟨hrow, hcovers, htext, hresolves⟩
    exact ⟨⟨⟨hrow, hcovers⟩, fun row hmem hid => ⟨htext row hmem hid, hresolves row hmem⟩⟩, hresolves⟩

/-- What is covered misses nothing. -/
theorem missingIds_of_covered {selected : List String} {sources : List Template}
    (h : covered selected sources = true) : missingIds selected sources = [] := by
  unfold missingIds
  rw [Approval.sortedSet_eq_nil, List.filter_eq_nil_iff]
  intro id hid
  obtain ⟨row, hrow, hin⟩ := (covered_iff.mp h).2 id hid
  have hmem : id ∈ sourceIds sources := List.mem_flatMap.mpr ⟨row, hrow, hin⟩
  rw [List.contains_iff_mem.mpr hmem]
  decide

theorem complete_of_selected {selected : List String} {sources : List Template} :
    (covered selected sources && (missingIds selected sources).isEmpty &&
      (unresolvedIds host selected sources).isEmpty && eachResolved host sources) = true ↔
      Complete host selected sources := by
  rw [← complete_iff]
  constructor
  · intro h
    simp only [Bool.and_eq_true] at h ⊢
    exact ⟨⟨h.1.1.1, h.1.2⟩, h.2⟩
  · intro h
    simp only [Bool.and_eq_true] at h ⊢
    refine ⟨⟨⟨h.1.1, ?_⟩, h.1.2⟩, h.2⟩
    rw [missingIds_of_covered h.1.1]
    rfl

/-! ## One feature -/

variable {feature : Feature} {context : Context} {selected : List String} {sources : List Template}
variable {structured patterns : List Match}

theorem unsafe_resolveHints : (resolveHints host feature structured patterns).semanticSafe = false := by
  have hdanger (found : List Match) : (resolution found false false [] []).semanticSafe = false :=
    Bool.eq_false_iff.mpr fun h => Bool.noConfusion (resolution_safe.mp h).1
  unfold resolveHints
  dsimp only
  split
  · exact hdanger _
  · split
    · exact hdanger _
    · rfl

/-- The three ways to a safe resolution: complete evidence, structured codes alone and
patterns alone, the last two only where nothing is selected and no template has a text. -/
theorem resolveEvidence_of_safe
    (h : (resolveEvidence host feature selected sources structured patterns).semanticSafe = true) :
    (concrete structured = [] ∨ concrete patterns = [] ∨ concrete structured = concrete patterns) ∧
    ((Complete host selected sources ∧
        resolveEvidence host feature selected sources structured patterns =
          resolution patterns true false [] []) ∨
      (selected = [] ∧ sources.any Template.hasText = false ∧
        ((concrete structured ≠ [] ∧
            resolveEvidence host feature selected sources structured patterns =
              resolution structured true false [] []) ∨
          (concrete structured = [] ∧
            resolveEvidence host feature selected sources structured patterns =
              resolution patterns true false [] [])))) := by
  unfold resolveEvidence at h ⊢
  dsimp only at h ⊢
  split at h
  · cases (resolution_safe.mp h).1
  rename_i hconflict
  refine ⟨by by_contra hthree; simp only [not_or] at hthree; exact hconflict hthree, ?_⟩
  rw [if_neg hconflict]
  split at h
  · rename_i hselected
    split at h
    · rename_i hcomplete
      rw [if_pos hselected, if_pos hcomplete]
      exact .inl ⟨complete_of_selected.mp hcomplete, rfl⟩
    · split at h
      · cases (resolution_safe.mp h).1
      · split at h <;> cases (resolution_safe.mp h).1
  rename_i hselected
  rw [if_neg hselected]
  split at h
  · rename_i hcomplete
    rw [if_pos hcomplete]
    rw [Bool.and_eq_true, complete_iff] at hcomplete
    exact .inl ⟨hcomplete.2, rfl⟩
  rename_i hincomplete
  rw [if_neg hincomplete]
  split at h
  · cases (resolution_safe.mp h).1
  rename_i hpatterns
  rw [if_neg hpatterns]
  split at h
  · cases (resolution_safe.mp h).1
  rename_i hstructured
  rw [if_neg hstructured]
  rw [Bool.and_eq_true, decide_eq_true_eq] at hpatterns hstructured
  have hbodyless (hsome : concrete structured ≠ [] ∨ concrete patterns ≠ []) :
      sources.any Template.hasText = false := by
    rw [Bool.eq_false_iff]
    intro hany
    exact hsome.elim (fun hne => hstructured ⟨hany, hne⟩) fun hne => hpatterns ⟨hany, hne⟩
  refine .inr ⟨not_not.mp hselected, ?_⟩
  split at h
  · rename_i hne
    rw [if_pos hne]
    exact ⟨hbodyless (.inl hne), .inl ⟨hne, rfl⟩⟩
  rename_i hnil
  rw [if_neg hnil]
  split at h
  · rename_i hne
    rw [if_pos hne]
    exact ⟨hbodyless (.inr hne), .inr ⟨not_not.mp hnil, rfl⟩⟩
  · rw [unsafe_resolveHints] at h
    cases h

/-- Complete evidence that leaves one concrete code, without another structured one, is
resolved to it. -/
theorem resolveEvidence_of_complete (hselected : selected ≠ [])
    (hconflict : concrete structured = [] ∨ concrete structured = concrete patterns)
    (hcomplete : Complete host selected sources) :
    resolveEvidence host feature selected sources structured patterns =
      resolution patterns true false [] [] := by
  unfold resolveEvidence
  dsimp only
  rw [if_neg, if_pos hselected, if_pos (complete_of_selected.mpr hcomplete)]
  rintro ⟨hne, -, hother⟩
  exact hconflict.elim hne hother

/-- Selected identifiers are resolved to a code exactly where their evidence is complete, its
patterns leave that code and no structured code is another one. -/
theorem resolveEvidence_selected (hselected : selected ≠ []) :
    ((resolveEvidence host feature selected sources structured patterns).semanticSafe = true ∧
      (resolveEvidence host feature selected sources structured patterns).problemCode = some code) ↔
    Complete host selected sources ∧ concrete patterns = [code] ∧
      ∀ other ∈ concrete structured, other = code := by
  constructor
  · rintro ⟨hsafe, hproblem⟩
    obtain ⟨hagree, ⟨hcomplete, hresult⟩ | ⟨hnone, -⟩⟩ := resolveEvidence_of_safe hsafe
    · rw [hresult] at hsafe hproblem
      obtain ⟨-, -, found, hfound⟩ := resolution_safe.mp hsafe
      obtain ⟨item, -, -, hresolution⟩ := resolution_of_concrete true [] [] hfound
      rw [hresolution] at hproblem
      obtain rfl : found = code := Option.some.inj hproblem
      refine ⟨hcomplete, hfound, fun other hother => ?_⟩
      rcases hagree with hnil | hnil | hsame
      · rw [hnil] at hother
        exact absurd hother List.not_mem_nil
      · rw [hnil] at hfound
        cases hfound
      · rw [hsame, hfound] at hother
        exact List.mem_singleton.mp hother
    · exact absurd hnone hselected
  · rintro ⟨hcomplete, hpatterns, hstructured⟩
    have hagree : concrete structured = [] ∨ concrete structured = concrete patterns := by
      by_cases hnil : concrete structured = []
      · exact .inl hnil
      · obtain ⟨other, hother⟩ := List.exists_mem_of_ne_nil _ hnil
        have hmem : code ∈ concrete structured := hstructured other hother ▸ hother
        exact .inr ((concrete_eq_singleton.mpr ⟨hmem, hstructured⟩).trans hpatterns.symm)
    obtain ⟨item, -, -, hresolution⟩ :=
      resolution_of_concrete true [] [] hpatterns
    rw [resolveEvidence_of_complete hselected hagree hcomplete, hresolution]
    exact ⟨rfl, rfl⟩

theorem mem_concrete_structuredMatches : code ∈ concrete (structuredMatches host feature sources) ↔
    (code ∈ feature.structured.codes host ∨ ∃ row ∈ sources, code ∈ row.structured.codes host) ∧
      isConcrete code = true := by
  unfold structuredMatches
  dsimp only
  rw [concrete_uniqueMatches, mem_concrete]
  refine and_congr_left fun hconcrete => ?_
  simp only [List.mem_map, List.mem_filter, List.mem_append, List.mem_flatMap]
  constructor
  · rintro ⟨m, ⟨found, ⟨hfound, -⟩, rfl⟩, rfl⟩
    exact hfound
  · intro hfound
    exact ⟨structuredMatch code, ⟨code, ⟨hfound, by rw [hconcrete, Bool.true_or]⟩, rfl⟩, rfl⟩

/-- A template that by itself resolves to the code. -/
def ResolvesTo (host : Host) (row : Template) (code : String) : Prop :=
  (resolveSelectedTemplate host row).semanticSafe = true ∧
  (resolveSelectedTemplate host row).problemCode = some code

theorem resolvesTo_iff {row : Template} :
    ResolvesTo host row code ↔ concrete (templateMatches host row) = [code] := by
  unfold ResolvesTo
  constructor
  · rintro ⟨hsafe, hproblem⟩
    obtain ⟨other, hother⟩ := resolveSelectedTemplate_safe.mp hsafe
    rw [(resolveSelectedTemplate_of_concrete hother).1, Option.some.injEq] at hproblem
    rw [hother, hproblem]
  · intro h
    exact ⟨(resolveSelectedTemplate_of_concrete h).2.1, (resolveSelectedTemplate_of_concrete h).1⟩

theorem Complete.resolvesTo (h : Complete host selected sources)
    (hcode : concrete (selectedMatches host sources) = [code]) :
    ∀ row ∈ sources, ResolvesTo host row code := by
  intro row hrow
  obtain ⟨other, hother⟩ := resolveSelectedTemplate_safe.mp (h.resolves row hrow)
  have hmem : other ∈ concrete (selectedMatches host sources) := by
    refine mem_concrete_selectedMatches.mpr ⟨row, hrow, ?_⟩
    rw [hother]
    exact List.mem_singleton_self _
  rw [hcode, List.mem_singleton] at hmem
  exact resolvesTo_iff.mpr (hother.trans (by rw [hmem]))

/-- What a safe code rests on.  Where identifiers are selected, or some template has a text,
there are templates and each resolves to the code; elsewhere it is the one concrete code
of the structured members, or of the patterns where these have none. -/
structure Backed (host : Host) (feature : Feature) (sources : List Template) (code : String) :
    Prop where
  concrete : isConcrete code = true
  covered : ∀ id ∈ selectedIds feature, ∃ row ∈ sources, id ∈ row.ids
  templates : (selectedIds feature ≠ [] ∨ ∃ row ∈ sources, row.hasText = true) →
    sources ≠ [] ∧ ∀ row ∈ sources, ResolvesTo host row code
  metadata : selectedIds feature = [] → (∀ row ∈ sources, row.hasText = false) →
    Problems.concrete (structuredMatches host feature sources) = [code] ∨
    Problems.concrete (structuredMatches host feature sources) = [] ∧
      Problems.concrete (selectedMatches host sources) = [code]

theorem safe_backed (host : Host) (feature : Feature) (context : Context)
    (h : (resolveProblem host feature context).semanticSafe = true) :
    ∃ code, (resolveProblem host feature context).problemCode = some code ∧
      Backed host feature (selectedEvidenceSources feature context) code := by
  unfold resolveProblem at h ⊢
  dsimp only at h ⊢
  generalize selectedEvidenceSources feature context = sources at h ⊢
  obtain ⟨hagree, hway⟩ := resolveEvidence_of_safe h
  rcases hway with ⟨hcomplete, hresult⟩ | ⟨hselected, hbodyless, hway⟩
  · rw [hresult] at h ⊢
    obtain ⟨-, -, code, hcode⟩ := resolution_safe.mp h
    obtain ⟨item, -, -, hresolution⟩ := resolution_of_concrete true [] [] hcode
    refine ⟨code, by rw [hresolution], ?_, hcomplete.covers, ?_, ?_⟩
    · exact isConcrete_of_singleton hcode
    · exact fun _ => ⟨hcomplete.exists_row, hcomplete.resolvesTo hcode⟩
    · intro _ _
      rcases hagree with hnone | hnone | hsame
      · exact .inr ⟨hnone, hcode⟩
      · rw [hcode] at hnone
        cases hnone
      · exact .inl (hsame.trans hcode)
  · obtain ⟨found, hresult, hfound⟩ : ∃ found,
        resolveEvidence host feature (selectedIds feature) sources
          (structuredMatches host feature sources) (selectedMatches host sources) =
            resolution found true false [] [] ∧
        (concrete found = concrete (structuredMatches host feature sources) ∨
          concrete (structuredMatches host feature sources) = [] ∧
            concrete found = concrete (selectedMatches host sources)) := by
      rcases hway with ⟨-, hresult⟩ | ⟨hnone, hresult⟩
      · exact ⟨_, hresult, .inl rfl⟩
      · exact ⟨_, hresult, .inr ⟨hnone, rfl⟩⟩
    rw [hresult] at h ⊢
    obtain ⟨-, -, code, hcode⟩ := resolution_safe.mp h
    obtain ⟨item, -, -, hresolution⟩ := resolution_of_concrete true [] [] hcode
    refine ⟨code, by rw [hresolution], isConcrete_of_singleton hcode, ?_, ?_, ?_⟩
    · rw [hselected]
      exact fun _ hid => absurd hid List.not_mem_nil
    · rintro (hne | ⟨row, hrow, htext⟩)
      · exact absurd hselected hne
      · rw [List.any_eq_true.mpr ⟨row, hrow, htext⟩] at hbodyless
        cases hbodyless
    · intro _ _
      rcases hfound with hsame | ⟨hnone, hsame⟩
      · exact .inl (hsame.symm.trans hcode)
      · exact .inr ⟨hnone, hsame.symm.trans hcode⟩

/-- A host that finds one pattern in one text. -/
def crashLoopHost : Host where
  search pattern text :=
    text = "crashloopbackoff" && pattern =
      "crashloopbackoff|crashloop|back[- ]off\\s+restarting\\s+failed\\s+container|" ++
      "restarting\\s+failed\\s+container"
  searchIgnoreCase _ _ := false
  erase _ text := text
  nfkc := id
  lower := lower

def bareTemplate : Template where
  templateHash := "h1"
  templateFingerprint := ""
  template := none
  pattern := none
  category := none
  component := none
  structured := Structured.none

def bareFeature : Feature where
  featureType := "runtime_failure"
  title := ""
  summary := ""
  selectionReason := ""
  importance := ""
  tags := []
  components := []
  templateHashes := []
  sourceTemplates := []
  templateSignatures := []
  topTemplates := []
  structured := Structured.none

def crashLoopTemplate : Template := { bareTemplate with template := some "CrashLoopBackOff" }

def crashLoopFeature : Feature :=
  { bareFeature with
    templateHashes := ["h1"]
    sourceTemplates := [some crashLoopTemplate] }

theorem crashLoop_backed :
    ∃ code, (resolveProblem crashLoopHost crashLoopFeature .none).problemCode = some code ∧
      Backed crashLoopHost crashLoopFeature (selectedEvidenceSources crashLoopFeature .none) code :=
  safe_backed crashLoopHost crashLoopFeature .none (by decide +kernel)

def runtimeTemplate : Template := { bareTemplate with category := some "runtime" }

def codedFeature : Feature :=
  { bareFeature with
    sourceTemplates := [some runtimeTemplate]
    structured := { Structured.none with problemCode := .str "linux.memory.oom" } }

/-- A structured code is safe beside a template that resolves to nothing. -/
theorem coded_safe :
    (resolveProblem crashLoopHost codedFeature .none).semanticSafe = true ∧
    (resolveProblem crashLoopHost codedFeature .none).problemCode = some "linux.memory.oom" ∧
    ¬ ∀ row ∈ selectedEvidenceSources codedFeature .none,
      ResolvesTo crashLoopHost row "linux.memory.oom" := by
  refine ⟨by decide +kernel, by decide +kernel, fun hall => ?_⟩
  have hrow := hall runtimeTemplate (List.mem_singleton_self _)
  have hdanger : (resolveSelectedTemplate crashLoopHost runtimeTemplate).semanticSafe = false := by
    decide +kernel
  exact Bool.noConfusion (hdanger.symm.trans hrow.1)

end LogRisk.Problems
