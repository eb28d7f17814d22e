import LogRisk.Prompts.Registry

/-!
# Prompt snapshots

The versions of a prompt are numbered from one to the current one, each under the digest of its
content, and no snapshot that was loaded is lost, as long as every history file that is imported
holds what it replaces under true digests.
-/

namespace LogRisk.Prompts

open LogRisk.Library LogRisk.Library.Text LogRisk.Library.Transaction

variable {H : PromptHost} {T T' : PromptTables} {promptId : String}

/-! ## Writing rows -/

theorem insertVersion_eq_ok {row : VersionRow} (h : insertVersion T row = .ok T') :
    T'.templates = T.templates ∧ T'.versions = T.versions ++ [row] := by
  unfold insertVersion at h
  obtain ⟨_, h⟩ := require_bind_eq_ok.mp h
  obtain rfl := pure_eq_ok.mp h
  exact ⟨rfl, rfl⟩

theorem insertVersions_eq_ok {rows : List VersionRow} (h : rows.foldlM insertVersion T = .ok T') :
    T'.templates = T.templates ∧ T'.versions = T.versions ++ rows := by
  have hstep : ∀ (seen : List VersionRow) row (s s' : PromptTables),
      (s.templates = T.templates ∧ s.versions = T.versions ++ seen) → insertVersion s row = .ok s' →
      s'.templates = T.templates ∧ s'.versions = T.versions ++ (seen ++ [row]) := by
    rintro seen row s s' ⟨htemplates, hversions⟩ hrow
    obtain ⟨htemplates', hversions'⟩ := insertVersion_eq_ok hrow
    rw [htemplates', hversions', hversions, List.append_assoc]
    exact ⟨htemplates, rfl⟩
  have hall := foldlM_invariant hstep ⟨rfl, (List.append_nil _).symm⟩ h
  rwa [List.nil_append] at hall

theorem versionsOf_append {rows : List VersionRow} (h : T'.versions = T.versions ++ rows) (k : String) :
    versionsOf T' k = versionsOf T k ++ rows.filter fun row => row.promptId = k := by
  unfold versionsOf
  rw [h, List.filter_append]

theorem filter_row (row : VersionRow) (k : String) :
    ([row].filter fun row => row.promptId = k) = if row.promptId = k then [row] else [] := by
  rw [List.filter_cons, List.filter_nil]
  simp only [decide_eq_true_iff]

theorem mem_versionsOf {row : VersionRow} {k : String} :
    row ∈ versionsOf T k ↔ row ∈ T.versions ∧ row.promptId = k := by
  unfold versionsOf
  rw [List.mem_filter, decide_eq_true_iff]

theorem get?_setCurrentVersion (k : String) (version : ℕ) :
    (setCurrentVersion T promptId version).templates.get? k =
      (T.templates.get? k).map fun row =>
        if k = promptId then { row with currentVersion := version } else row := by
  unfold setCurrentVersion
  dsimp only
  rw [Dict.get?_mapEntries]

/-! ## The invariant -/

/-- The versions of each prompt are numbered from one to the current one, under their digests. -/
structure Sound (H : PromptHost) (T : PromptTables) : Prop where
  numbered : ∀ k template, T.templates.get? k = some template →
    (versionsOf T k).map VersionRow.version = List.range' 1 template.currentVersion
  orphan : ∀ k, T.templates.get? k = none → versionsOf T k = []
  hashed : ∀ row ∈ T.versions, row.contentSha256 = H.sha256 row.content

/-- No row is lost. -/
def Grows (T T' : PromptTables) : Prop := ∀ row ∈ T.versions, row ∈ T'.versions

theorem Grows.refl (T : PromptTables) : Grows T T := fun _ h => h

theorem Grows.trans {T'' : PromptTables} (h : Grows T T') (h' : Grows T' T'') : Grows T T'' :=
  fun row hrow => h' row (h row hrow)

theorem grows_append {rows : List VersionRow} (h : T'.versions = T.versions ++ rows) :
    Grows T T' := by
  intro row hrow
  rw [h]
  exact List.mem_append_left _ hrow

/-- A row with the content of a prompt and its digest. -/
def Stored (T : PromptTables) (seen : PromptTemplate) : Prop :=
  ∃ row ∈ versionsOf T seen.promptId, row.content = seen.content ∧ row.contentSha256 = seen.sha256

theorem Stored.grows {seen : PromptTemplate} (h : Stored T seen) (hgrows : Grows T T') :
    Stored T' seen := by
  obtain ⟨row, hrow, hsame⟩ := h
  obtain ⟨hmem, hid⟩ := mem_versionsOf.mp hrow
  exact ⟨row, mem_versionsOf.mpr ⟨hgrows row hmem, hid⟩, hsame⟩

/-! ## One version more -/

theorem addVersion_sound {template : TemplateRow} {content : String} (hT : Sound H T)
    (htemplate : T.templates.get? promptId = some template)
    (h : addVersion H T promptId (template.currentVersion + 1) content = .ok T') :
    Sound H T' ∧ Grows T T' := by
  unfold addVersion at h
  obtain ⟨written, hwritten, h⟩ := bind_eq_ok.mp h
  obtain rfl := pure_eq_ok.mp h
  obtain ⟨htemplates, hversions⟩ := insertVersion_eq_ok hwritten
  have hof := versionsOf_append hversions
  refine ⟨⟨fun k found hfound => ?_, fun k hnone => ?_, fun row hrow => ?_⟩, grows_append hversions⟩
  · rw [get?_setCurrentVersion, htemplates] at hfound
    obtain ⟨old, hold, rfl⟩ := Option.map_eq_some_iff.mp hfound
    show (versionsOf written k).map VersionRow.version = _
    rw [hof, List.map_append, hT.numbered k old hold]
    split
    · rename_i hk
      subst hk
      obtain rfl := Option.some.inj (htemplate.symm.trans hold)
      rw [filter_row, if_pos rfl, List.range'_concat, Nat.one_mul, Nat.add_comm 1]
      rfl
    · rename_i hk
      rw [filter_row, if_neg (Ne.symm hk), List.map_nil, List.append_nil]
  · rw [get?_setCurrentVersion, htemplates, Option.map_eq_none_iff] at hnone
    have hk : promptId ≠ k := by
      rintro rfl
      rw [htemplate] at hnone
      cases hnone
    show versionsOf written k = []
    rw [hof, hT.orphan k hnone, filter_row, if_neg hk, List.append_nil]
  · replace hrow : row ∈ written.versions := hrow
    rw [hversions] at hrow
    rcases List.mem_append.mp hrow with hrow | hrow
    · exact hT.hashed row hrow
    · rw [List.mem_singleton.mp hrow]

theorem addTemplate_sound {analysisType content : String} (hT : Sound H T)
    (h : addTemplate H T promptId analysisType content = .ok T') : Sound H T' ∧ Grows T T' := by
  unfold addTemplate insertTemplate at h
  obtain ⟨base, hbase, h⟩ := bind_eq_ok.mp h
  obtain ⟨hfree, hbase⟩ := require_bind_eq_ok.mp hbase
  obtain rfl := pure_eq_ok.mp hbase
  obtain ⟨htemplates, hversions⟩ := insertVersion_eq_ok h
  have hof : ∀ k, versionsOf T' k = versionsOf T k ++
      [(⟨promptId, 1, content, H.sha256 content⟩ : VersionRow)].filter fun row => row.promptId = k :=
    fun k => versionsOf_append hversions k
  refine ⟨⟨fun k found hfound => ?_, fun k hnone => ?_, fun row hrow => ?_⟩, grows_append hversions⟩
  · rw [htemplates, Dict.get?_set] at hfound
    rw [hof]
    split at hfound
    · rename_i hk
      subst hk
      cases hfound
      rw [hT.orphan _ hfree, filter_row, if_pos rfl]
      rfl
    · rename_i hk
      rw [filter_row, if_neg hk, List.append_nil]
      exact hT.numbered k found hfound
  · rw [htemplates, Dict.get?_set] at hnone
    rw [hof]
    split at hnone
    · cases hnone
    · rename_i hk
      rw [hT.orphan k hnone, filter_row, if_neg hk, List.append_nil]
  · rw [hversions] at hrow
    rcases List.mem_append.mp hrow with hrow | hrow
    · exact hT.hashed row hrow
    · rw [List.mem_singleton.mp hrow]

theorem foldr_max_range' (n : ℕ) : (List.range' 1 n).foldr max 0 = n := by
  induction n with
  | zero => rfl
  | succ n ih =>
      have hmax : ∀ (l : List ℕ) (a : ℕ), l.foldr max a = max (l.foldr max 0) a := by
        intro l a
        induction l with
        | nil => exact (Nat.zero_max a).symm
        | cons x l ih => rw [List.foldr_cons, List.foldr_cons, ih, Nat.max_assoc]
      rw [List.range'_concat, List.foldr_append, List.foldr_cons, List.foldr_nil, hmax, ih]
      omega

theorem nextVersion_eq {template : TemplateRow} (hT : Sound H T)
    (htemplate : T.templates.get? promptId = some template) :
    nextVersion T promptId = template.currentVersion + 1 := by
  unfold nextVersion
  rw [hT.numbered _ _ htemplate, foldr_max_range']

/-! ## Seed, update and candidates -/

theorem current_eq_some {template : TemplateRow} {row : VersionRow}
    (h : current T promptId = some (template, row)) :
    T.templates.get? promptId = some template ∧ row ∈ versionsOf T promptId := by
  unfold current at h
  obtain ⟨found, hfound, h⟩ := Option.bind_eq_some_iff.mp h
  obtain ⟨version, hversion, heq⟩ := Option.map_eq_some_iff.mp h
  obtain ⟨rfl, rfl⟩ := Prod.mk.injEq _ _ _ _ ▸ heq
  exact ⟨hfound, List.mem_of_find?_eq_some hversion⟩

theorem seedPrompt_sound {dir : PromptDirectory} {entry : PromptMeta} (hT : Sound H T)
    (h : seedPrompt H dir T entry = .ok T') : Sound H T' ∧ Grows T T' := by
  unfold seedPrompt at h
  obtain ⟨content, _, h⟩ := bind_eq_ok.mp h
  obtain ⟨_, _, h⟩ := bind_eq_ok.mp h
  unfold storePrompt at h
  split at h
  · exact addTemplate_sound hT h
  · rename_i template row hcurrent
    split at h
    · unfold repairPrompt at h
      split at h
      · obtain rfl := Except.ok.inj h
        exact ⟨hT, .refl T⟩
      · obtain ⟨htemplate, _⟩ := current_eq_some hcurrent
        rw [nextVersion_eq hT htemplate] at h
        exact addVersion_sound hT htemplate h
    · obtain rfl := Except.ok.inj h
      exact ⟨hT, .refl T⟩

theorem seed_sound {dir : PromptDirectory} (hT : Sound H T) (h : seed H dir T = .ok T') :
    Sound H T' ∧ Grows T T' := by
  have hstep : ∀ (seen : List PromptMeta) entry (s s' : PromptTables), (Sound H s ∧ Grows T s) →
      seedPrompt H dir s entry = .ok s' → Sound H s' ∧ Grows T s' := by
    rintro _ entry s s' ⟨hs, hgrows⟩ hentry
    obtain ⟨hs', hgrows'⟩ := seedPrompt_sound hs hentry
    exact ⟨hs', hgrows.trans hgrows'⟩
  exact @foldlM_invariant _ _ _ _ (fun _ s => Sound H s ∧ Grows T s) hstep [] _ _ _ ⟨hT, .refl T⟩ h

theorem update_sound {content : String} {prompt : PromptTemplate} (hT : Sound H T)
    (h : update H T promptId content = .ok (prompt, T')) :
    Sound H T' ∧ Grows T T' ∧ load T' promptId = .ok prompt := by
  unfold update at h
  obtain ⟨_, h⟩ := require_bind_eq_ok.mp h
  obtain ⟨template, htemplate, h⟩ := orFail_bind_eq_ok.mp h
  obtain ⟨_, _, h⟩ := bind_eq_ok.mp h
  obtain ⟨written, hwritten, h⟩ := bind_eq_ok.mp h
  obtain ⟨loaded, hloaded, h⟩ := bind_eq_ok.mp h
  obtain ⟨rfl, rfl⟩ := Prod.mk.injEq _ _ _ _ ▸ pure_eq_ok.mp h
  obtain ⟨hsound, hgrows⟩ := addVersion_sound hT htemplate hwritten
  exact ⟨hsound, hgrows, hloaded⟩

theorem createCandidate_sound {content : String} {prompt : PromptTemplate} (hT : Sound H T)
    (h : createCandidate H T promptId content = .ok (prompt, T')) :
    Sound H T' ∧ Grows T T' ∧ load T' promptId = .ok prompt := by
  unfold createCandidate at h
  obtain ⟨_, h⟩ := require_bind_eq_ok.mp h
  obtain ⟨_, _, h⟩ := bind_eq_ok.mp h
  obtain ⟨written, hwritten, h⟩ := bind_eq_ok.mp h
  obtain ⟨loaded, hloaded, h⟩ := bind_eq_ok.mp h
  obtain ⟨rfl, rfl⟩ := Prod.mk.injEq _ _ _ _ ▸ pure_eq_ok.mp h
  unfold storeCandidate at hwritten
  split at hwritten
  · obtain ⟨_, hwritten⟩ := require_bind_eq_ok.mp hwritten
    obtain rfl := pure_eq_ok.mp hwritten
    exact ⟨hT, .refl T, hloaded⟩
  · obtain ⟨hsound, hgrows⟩ := addTemplate_sound hT hwritten
    exact ⟨hsound, hgrows, hloaded⟩

/-! ## Loading -/

theorem load_stored {seen : PromptTemplate} (h : load T promptId = .ok seen) : Stored T seen := by
  unfold load at h
  split at h
  · cases h
  · rename_i template row hcurrent
    cases h
    exact ⟨row, (current_eq_some hcurrent).2, rfl, rfl⟩

theorem loadByHash_of_stored {seen : PromptTemplate} (hT : Sound H T) (h : Stored T seen) :
    ∃ prompt, loadByHash T seen.promptId seen.sha256 = .ok prompt ∧ prompt.content = seen.content := by
  obtain ⟨row, hrow, hcontent, hsha⟩ := h
  obtain ⟨template, htemplate⟩ : ∃ template, T.templates.get? seen.promptId = some template := by
    refine Option.ne_none_iff_exists'.mp fun hnone => ?_
    rw [hT.orphan _ hnone] at hrow
    exact List.not_mem_nil hrow
  have hsome : ((versionsOf T seen.promptId).find? fun row =>
      row.contentSha256 = seen.sha256).isSome :=
    List.find?_isSome.mpr ⟨row, hrow, decide_eq_true hsha⟩
  obtain ⟨found, hfound⟩ := Option.isSome_iff_exists.mp hsome
  have hmem := List.mem_of_find?_eq_some hfound
  have hsame := List.find?_some hfound
  rw [decide_eq_true_iff] at hsame
  have hcontent' : found.content = seen.content := by
    rw [← hcontent]
    refine H.sha256_injective ?_
    rw [← hT.hashed found (mem_versionsOf.mp hmem).1, ← hT.hashed row (mem_versionsOf.mp hrow).1,
      hsame, hsha]
  refine ⟨⟨seen.promptId, found.content, found.contentSha256, template.analysisType,
    found.version⟩, ?_, hcontent'⟩
  unfold loadByHash
  rw [htemplate, hfound]

/-! ## The import -/

theorem importedRows_spec (H : PromptHost) (promptId : String) (versions : List HistoryItem) :
    (importedRows H promptId versions).map VersionRow.version = List.range' 1 versions.length ∧
      (∀ row ∈ importedRows H promptId versions, row.promptId = promptId ∧
        ∃ item ∈ versions, row.content = item.text ∧ row.contentSha256 = item.digest H) ∧
      ∀ item ∈ versions, ∃ row ∈ importedRows H promptId versions,
        row.content = item.text ∧ row.contentSha256 = item.digest H := by
  unfold importedRows
  refine ⟨?_, fun row hrow => ?_, fun item hitem => ?_⟩
  · rw [List.map_map]
    have hsnd := List.zipIdx_map_snd 1 versions.reverse
    rw [List.length_reverse] at hsnd
    exact hsnd
  · obtain ⟨numbered, hnumbered, rfl⟩ := List.mem_map.mp hrow
    have hmem := List.fst_mem_of_mem_zipIdx hnumbered
    exact ⟨rfl, numbered.1, List.mem_reverse.mp hmem, rfl, rfl⟩
  · have hfst := List.zipIdx_map_fst 1 versions.reverse
    rw [← List.mem_reverse, ← hfst] at hitem
    obtain ⟨numbered, hnumbered, rfl⟩ := List.mem_map.mp hitem
    exact ⟨_, List.mem_map_of_mem hnumbered, rfl, rfl⟩

/-- The rows that an import leaves under its prompt. -/
def rewritten (H : PromptHost) (history : String × List HistoryItem) (row : VersionRow) :
    List VersionRow :=
  importedRows H history.1 history.2 ++
    [⟨history.1, history.2.length + 1, row.content, row.contentSha256⟩]

theorem rewritten_promptId {history : String × List HistoryItem} {row new : VersionRow}
    (h : new ∈ rewritten H history row) : new.promptId = history.1 := by
  rcases List.mem_append.mp h with h | h
  · exact ((importedRows_spec H history.1 history.2).2.1 new h).1
  · rw [List.mem_singleton.mp h]

theorem importVersions_cases {history : String × List HistoryItem}
    (h : importVersions H T history = .ok T') :
    (current T history.1 = none ∧ T' = T) ∨ ∃ template row,
      current T history.1 = some (template, row) ∧
      T'.versions = (T.versions.filter fun row => row.promptId ≠ history.1) ++
        rewritten H history row ∧
      ∀ k, T'.templates.get? k = (T.templates.get? k).map fun found =>
        if k = history.1 then { found with currentVersion := history.2.length + 1 } else found := by
  unfold importVersions at h
  split at h
  · rename_i hnone
    exact .inl ⟨hnone, (Except.ok.inj h).symm⟩
  · rename_i template row hcurrent
    obtain ⟨rows, hrows, h⟩ := bind_eq_ok.mp h
    obtain ⟨written, hwritten, h⟩ := bind_eq_ok.mp h
    obtain rfl := pure_eq_ok.mp h
    obtain ⟨htemplates, hversions⟩ := insertVersions_eq_ok hrows
    obtain ⟨htemplates', hversions'⟩ := insertVersion_eq_ok hwritten
    refine .inr ⟨template, row, hcurrent, ?_, fun k => ?_⟩
    · show written.versions = _
      rw [hversions', hversions, List.append_assoc]
      rfl
    · rw [get?_setCurrentVersion, htemplates', htemplates]

theorem versionsOf_rewritten {history : String × List HistoryItem} {row : VersionRow}
    (h : T'.versions = (T.versions.filter fun row => row.promptId ≠ history.1) ++
      rewritten H history row) (k : String) :
    versionsOf T' k = if k = history.1 then rewritten H history row else versionsOf T k := by
  unfold versionsOf
  rw [h, List.filter_append, List.filter_filter]
  split
  · rename_i hk
    have hnone : (T.versions.filter fun row => decide (row.promptId = k) &&
        decide (row.promptId ≠ history.1)) = [] := by
      refine List.filter_eq_nil_iff.mpr fun row _ hboth => ?_
      rw [Bool.and_eq_true_iff, decide_eq_true_iff, decide_eq_true_iff] at hboth
      exact hboth.2 (hboth.1.trans hk)
    rw [hnone, List.nil_append]
    exact List.filter_eq_self.mpr fun new hnew =>
      decide_eq_true ((rewritten_promptId hnew).trans hk.symm)
  · rename_i hk
    have hnone : ((rewritten H history row).filter fun row => row.promptId = k) = [] := by
      refine List.filter_eq_nil_iff.mpr fun new hnew hid => ?_
      rw [decide_eq_true_iff] at hid
      exact hk (hid.symm.trans (rewritten_promptId hnew))
    rw [hnone, List.append_nil]
    refine List.filter_congr fun row _ => ?_
    rw [← Bool.decide_and, decide_eq_decide]
    exact ⟨And.left, fun hid => ⟨hid, fun hother => hk (hid.symm.trans hother)⟩⟩

/-- The entries of a prompt stand under the digests of their contents. -/
def TrueDigests (H : PromptHost) (versions : List HistoryItem) : Prop :=
  ∀ item ∈ versions, item.digest H = H.sha256 item.text

theorem importVersions_sound {history : String × List HistoryItem} (hT : Sound H T)
    (htrue : (current T history.1).isSome → TrueDigests H history.2)
    (h : importVersions H T history = .ok T') : Sound H T' := by
  rcases importVersions_cases h with ⟨_, rfl⟩ | ⟨template, row, hcurrent, hversions, htemplates⟩
  · exact hT
  obtain ⟨htemplate, hrow⟩ := current_eq_some hcurrent
  obtain ⟨hnumbers, hrows, _⟩ := importedRows_spec H history.1 history.2
  have hof := versionsOf_rewritten hversions
  refine ⟨fun k found hfound => ?_, fun k hnone => ?_, fun new hnew => ?_⟩
  · rw [htemplates] at hfound
    obtain ⟨old, hold, rfl⟩ := Option.map_eq_some_iff.mp hfound
    rw [hof]
    split
    · unfold rewritten
      rw [List.map_append, hnumbers, List.range'_concat, Nat.one_mul, Nat.add_comm 1]
      rfl
    · exact hT.numbered k old hold
  · rw [htemplates, Option.map_eq_none_iff] at hnone
    rw [hof, if_neg]
    · exact hT.orphan k hnone
    · rintro rfl
      rw [htemplate] at hnone
      cases hnone
  · rw [hversions] at hnew
    rcases List.mem_append.mp hnew with hold | hnew
    · exact hT.hashed new (List.mem_of_mem_filter hold)
    rcases List.mem_append.mp hnew with hnew | hnew
    · obtain ⟨_, item, hitem, hcontent, hsha⟩ := hrows new hnew
      have htrue' := htrue (Option.isSome_iff_exists.mpr ⟨_, hcurrent⟩)
      rw [hcontent, hsha, htrue' item hitem]
    · rw [List.mem_singleton.mp hnew]
      exact hT.hashed row (mem_versionsOf.mp hrow).1

theorem current_congr {k : String} (htemplates : T'.templates.get? k = T.templates.get? k)
    (hversions : versionsOf T' k = versionsOf T k) : current T' k = current T k := by
  unfold current
  rw [htemplates, hversions]

/-- What an import leaves under the prompts of its file. -/
structure Imported (H : PromptHost) (T T' : PromptTables)
    (entries : List (String × List HistoryItem)) : Prop where
  sound : Sound H T'
  others : ∀ k, k ∉ entries.map Prod.fst → versionsOf T' k = versionsOf T k
  written : ∀ entry ∈ entries, versionsOf T' entry.1 = versionsOf T entry.1 ∨
    ∃ template row, current T entry.1 = some (template, row) ∧
      versionsOf T' entry.1 = rewritten H entry row

theorem importAll {entries : List (String × List HistoryItem)}
    (hkeys : (entries.map Prod.fst).Nodup) (hT : Sound H T)
    (htrue : ∀ entry ∈ entries, (current T entry.1).isSome → TrueDigests H entry.2)
    (h : entries.foldlM (importVersions H) T = .ok T') : Imported H T T' entries := by
  induction entries generalizing T with
  | nil =>
      obtain rfl := pure_eq_ok.mp h
      exact ⟨hT, fun _ _ => rfl, fun _ hentry => absurd hentry List.not_mem_nil⟩
  | cons entry rest ih =>
      rw [List.map_cons, List.nodup_cons] at hkeys
      rw [List.foldlM_cons] at h
      obtain ⟨next, hnext, h⟩ := bind_eq_ok.mp h
      have hsound := importVersions_sound hT (htrue entry List.mem_cons_self) hnext
      have hcases := importVersions_cases hnext
      have hother : ∀ k, k ≠ entry.1 → versionsOf next k = versionsOf T k ∧
          current next k = current T k := by
        intro k hk
        rcases hcases with ⟨_, rfl⟩ | ⟨template, row, _, hversions, htemplates⟩
        · exact ⟨rfl, rfl⟩
        · have hof : versionsOf next k = versionsOf T k := by
            rw [versionsOf_rewritten hversions, if_neg hk]
          refine ⟨hof, current_congr ?_ hof⟩
          rw [htemplates]
          simp only [if_neg hk, Option.map_id']
      have hne : ∀ later ∈ rest, later.1 ≠ entry.1 := by
        rintro later hlater heq
        exact hkeys.1 (heq ▸ List.mem_map_of_mem hlater)
      have hrest := ih hkeys.2 hsound (fun later hlater hsome => htrue later
        (List.mem_cons_of_mem _ hlater) ((hother _ (hne later hlater)).2 ▸ hsome)) h
      refine ⟨hrest.sound, fun k hk => ?_, fun later hlater => ?_⟩
      · rw [List.map_cons, List.mem_cons, not_or] at hk
        rw [hrest.others k hk.2, (hother k hk.1).1]
      · rcases List.mem_cons.mp hlater with rfl | hlater
        · rw [hrest.others _ hkeys.1]
          rcases hcases with ⟨_, rfl⟩ | ⟨template, row, hcurrent, hversions, _⟩
          · exact .inl rfl
          · refine .inr ⟨template, row, hcurrent, ?_⟩
            rw [versionsOf_rewritten hversions, if_pos rfl]
        · have hsame := hother _ (hne later hlater)
          rw [← hsame.1, ← hsame.2]
          exact hrest.written later hlater

/-! ## Histories -/

/-- What happens to a registry: it is constructed over a directory, a prompt is updated, created,
imported from a file or loaded. -/
inductive PromptOp
  | construct (dir : PromptDirectory)
  | update (promptId content : String)
  | createCandidate (promptId content : String)
  | importHistory (history : Dict String (List HistoryItem))
  | load (promptId : String)

/-- The tables with all prompts that were returned so far. -/
structure PromptHistory where
  tables : PromptTables := {}
  loaded : List PromptTemplate := []

def runOp (H : PromptHost) (T : PromptTables) :
    PromptOp → Except PromptError (Option PromptTemplate × PromptTables)
  | .construct dir => do
      let T ← seed H dir T
      pure (none, T)
  | .update promptId content => do
      let result ← update H T promptId content
      pure (some result.1, result.2)
  | .createCandidate promptId content => do
      let result ← createCandidate H T promptId content
      pure (some result.1, result.2)
  | .importHistory history => do
      let T ← importHistory H T history
      pure (none, T)
  | .load promptId => do
      let prompt ← load T promptId
      pure (some prompt, T)

/-- An operation that fails changes nothing. -/
def stepPrompts (H : PromptHost) (s : PromptHistory) (op : PromptOp) : PromptHistory :=
  match runOp H s.tables op with
  | .error _ => s
  | .ok (prompt, T) => ⟨T, s.loaded ++ prompt.toList⟩

/-- A history file that is imported has true digests, and holds each snapshot that was loaded of a
prompt it replaces, unless that is the current one. -/
def Keeps (H : PromptHost) (s : PromptHistory) : PromptOp → Prop
  | .importHistory history =>
      ∀ entry ∈ history.entries, ∀ template row,
        current s.tables entry.1 = some (template, row) →
        TrueDigests H entry.2 ∧ ∀ seen ∈ s.loaded, seen.promptId = entry.1 →
          seen.content ≠ row.content → ∃ item ∈ entry.2, item.text = seen.content
  | _ => True

structure HistoryInv (H : PromptHost) (s : PromptHistory) : Prop where
  sound : Sound H s.tables
  stored : ∀ seen ∈ s.loaded, Stored s.tables seen

theorem HistoryInv.grow {s : PromptHistory} {prompt : Option PromptTemplate} (h : HistoryInv H s)
    (hsound : Sound H T') (hgrows : Grows s.tables T')
    (hprompt : ∀ seen, prompt = some seen → ∃ promptId, load T' promptId = .ok seen) :
    HistoryInv H ⟨T', s.loaded ++ prompt.toList⟩ := by
  refine ⟨hsound, fun seen hseen => ?_⟩
  rcases List.mem_append.mp hseen with hseen | hseen
  · exact (h.stored seen hseen).grows hgrows
  · obtain ⟨promptId, hload⟩ := hprompt seen (Option.mem_toList.mp hseen)
    exact load_stored hload

theorem Imported.stored {seen : PromptTemplate} {entries : List (String × List HistoryItem)}
    (h : Imported H T T' entries) (hT : Sound H T) (hseen : Stored T seen)
    (hkeeps : ∀ entry ∈ entries, ∀ template row, current T entry.1 = some (template, row) →
      TrueDigests H entry.2 ∧ (seen.promptId = entry.1 → seen.content ≠ row.content →
        ∃ item ∈ entry.2, item.text = seen.content)) : Stored T' seen := by
  obtain ⟨old, hold, hcontent, hsha⟩ := hseen
  have htrue : seen.sha256 = H.sha256 seen.content := by
    rw [← hsha, ← hcontent]
    exact hT.hashed old (mem_versionsOf.mp hold).1
  have hsame : versionsOf T' seen.promptId = versionsOf T seen.promptId → Stored T' seen :=
    fun hof => ⟨old, hof ▸ hold, hcontent, hsha⟩
  by_cases hmem : seen.promptId ∈ entries.map Prod.fst
  · obtain ⟨entry, hentry, hid⟩ := List.mem_map.mp hmem
    rcases h.written entry hentry with hof | ⟨template, row, hcurrent, hof⟩
    · exact hsame (hid ▸ hof)
    obtain ⟨hdigests, hitems⟩ := hkeeps entry hentry template row hcurrent
    rw [hid] at hof
    by_cases hrow : seen.content = row.content
    · have hlast : (⟨entry.1, entry.2.length + 1, row.content, row.contentSha256⟩ : VersionRow) ∈
          rewritten H entry row := List.mem_append_right _ (List.mem_singleton_self _)
      refine ⟨⟨entry.1, entry.2.length + 1, row.content, row.contentSha256⟩, hof ▸ hlast,
        hrow.symm, ?_⟩
      have hcurrentRow := (mem_versionsOf.mp (current_eq_some hcurrent).2).1
      rw [htrue, hrow]
      exact hT.hashed row hcurrentRow
    · obtain ⟨item, hitem, htext⟩ := hitems hid.symm hrow
      obtain ⟨new, hnew, hnewContent, hnewSha⟩ :=
        (importedRows_spec H entry.1 entry.2).2.2 item hitem
      refine ⟨new, hof ▸ List.mem_append_left _ hnew, hnewContent.trans htext, ?_⟩
      rw [hnewSha, hdigests item hitem, htext, htrue]
  · exact hsame (h.others _ hmem)

theorem HistoryInv.step {s : PromptHistory} {op : PromptOp} (h : HistoryInv H s)
    (hop : Keeps H s op) : HistoryInv H (stepPrompts H s op) := by
  unfold stepPrompts
  split
  · exact h
  rename_i prompt T hrun
  cases op with
  | construct dir =>
      obtain ⟨written, hseed, hrun⟩ := bind_eq_ok.mp hrun
      cases pure_eq_ok.mp hrun
      obtain ⟨hsound, hgrows⟩ := seed_sound h.sound hseed
      exact h.grow hsound hgrows fun _ hnone => by cases hnone
  | update promptId content =>
      obtain ⟨result, hupdate, hrun⟩ := bind_eq_ok.mp hrun
      cases pure_eq_ok.mp hrun
      obtain ⟨hsound, hgrows, hload⟩ := update_sound h.sound hupdate
      exact h.grow hsound hgrows fun _ hsome => ⟨promptId, Option.some.inj hsome ▸ hload⟩
  | createCandidate promptId content =>
      obtain ⟨result, hcreate, hrun⟩ := bind_eq_ok.mp hrun
      cases pure_eq_ok.mp hrun
      obtain ⟨hsound, hgrows, hload⟩ := createCandidate_sound h.sound hcreate
      exact h.grow hsound hgrows fun _ hsome => ⟨promptId, Option.some.inj hsome ▸ hload⟩
  | importHistory history =>
      obtain ⟨written, himport, hrun⟩ := bind_eq_ok.mp hrun
      cases pure_eq_ok.mp hrun
      have himported : Imported H s.tables T history.entries := by
        refine importAll history.nodup h.sound (fun entry hentry hsome => ?_) himport
        obtain ⟨⟨template, row⟩, hcurrent⟩ := Option.isSome_iff_exists.mp hsome
        exact (hop entry hentry template row hcurrent).1
      refine ⟨himported.sound, fun seen hseen => ?_⟩
      rw [Option.toList_none, List.append_nil] at hseen
      refine himported.stored h.sound (h.stored seen hseen) fun entry hentry template row hcurrent => ?_
      obtain ⟨htrue, hkept⟩ := hop entry hentry template row hcurrent
      exact ⟨htrue, hkept seen hseen⟩
  | load promptId =>
      obtain ⟨found, hload, hrun⟩ := bind_eq_ok.mp hrun
      cases pure_eq_ok.mp hrun
      exact h.grow h.sound (.refl _) fun _ hsome => ⟨promptId, Option.some.inj hsome ▸ hload⟩

/-- Versions are contiguous up to the current one and stand under their digests, and each prompt
that was returned is found under its digest with its content. -/
structure Loadable (H : PromptHost) (s : PromptHistory) : Prop where
  contiguous : ∀ k template, s.tables.templates.get? k = some template →
    (versionsOf s.tables k).map VersionRow.version = List.range' 1 template.currentVersion
  hashed : ∀ row ∈ s.tables.versions, row.contentSha256 = H.sha256 row.content
  loaded : ∀ seen ∈ s.loaded, ∃ prompt,
    loadByHash s.tables seen.promptId seen.sha256 = .ok prompt ∧ prompt.content = seen.content

theorem HistoryInv.loadable {s : PromptHistory} (h : HistoryInv H s) : Loadable H s :=
  ⟨h.sound.numbered, h.sound.hashed, fun seen hseen => loadByHash_of_stored h.sound (h.stored seen hseen)⟩

/-- A history in which no import loses a snapshot or brings a wrong digest. -/
def KeptHistory (H : PromptHost) : Type :=
  { ops : List PromptOp // Along (stepPrompts H) (Keeps H) {} ops }

/-- In every such history every snapshot stays loadable. -/
theorem snapshots_loadable (H : PromptHost) (history : KeptHistory H) :
    Loadable H (exec (stepPrompts H) {} history.val) := by
  have hstep : ∀ s op, HistoryInv H s → Keeps H s op → HistoryInv H (stepPrompts H s op) :=
    fun _ _ hs hop => hs.step hop
  refine (exec_invariant hstep ?_ history.property).loadable
  refine ⟨⟨fun k template h => ?_, fun _ _ => rfl, fun _ h => absurd h List.not_mem_nil⟩,
    fun _ h => absurd h List.not_mem_nil⟩
  cases h

/-- A host that marks its digests. -/
def markingHost : PromptHost where
  sha256 text := "sha256:" ++ text
  sha256_injective := fun a b h => String.ext (List.append_cancel_left
    (by simpa only [String.toList_append] using congrArg String.toList h))
  lower := lower

/-- A registry whose report prompt is loaded and updated, before an old history of it comes. -/
def replacedRun : List PromptOp :=
  [.construct ⟨[⟨"report", some "node_risk_report"⟩], [("report", "first")]⟩,
    .load "report",
    .update "report" "second",
    .importHistory (Dict.empty.set "report" [⟨some "older", none⟩])]

/-- After it the version that was loaded is gone. -/
theorem replaced_snapshot_lost :
    ¬ Loadable markingHost (exec (stepPrompts markingHost) {} replacedRun) := by
  intro h
  obtain ⟨prompt, hprompt, _⟩ := h.loaded
    ⟨"report", "first", "sha256:first", "node_risk_report", 1⟩ (by decide +kernel)
  have hlost : (loadByHash (exec (stepPrompts markingHost) {} replacedRun).tables "report"
      "sha256:first").isOk = false := by decide +kernel
  rw [hprompt] at hlost
  cases hlost

end LogRisk.Prompts
