import LogRisk.RiskSemantics.Soundness

/-!
# Rollback of rules

A rollback lays the content of an old version over the current rule.  What the current rule
has and the old one has not stays, in every mapping of the two; `Restorable` says when nothing
of this kind is there.
-/

namespace LogRisk.RiskSemantics.Documents

open LogRisk.Library LogRisk.Library.Value LogRisk.Library.Transaction
open LogRisk.Library.Dict (assoc)

variable {host : Host} {now : String} {db db' : Db} {id : String}

/-- Version, status and times of a content, and the digest of what was stored before it. -/
def bookkeeping : List String := ["version", "status", "created_at", "updated_at", "content_hash"]

/-- Equal in every field but the bookkeeping; a missing field is one that is null. -/
def Alike (c d : Entries) : Prop :=
  ∀ k, k ∉ bookkeeping → Same ((assoc k c).getD .null) ((assoc k d).getD .null)

/-- A field of the target that comes back when it is laid over the current rule. -/
structure RestoresKey (current target : Entries) (k : String) : Prop where
  sourced : k = "source" → assoc k current = assoc k target
  missing : assoc k target = none → (assoc k current).getD .null = .null
  nested : ∀ c b, assoc k target = some (.dict c) → assoc k current = some (.dict b) →
    Covers skipped c b
  priority : k = "priority" → assoc k target ≠ some (.int 0)

/-- The target has every field that the current rule has, in every mapping of both. -/
def Restorable (current target : Entries) : Prop :=
  ∀ k, k ∉ bookkeeping → RestoresKey current target k

/-! ## The fields of the draft -/

variable (id) in
theorem assoc_restoration (row : Row) (target : Entries) {k : String} (hid : k ≠ "id")
    (hk : k ∉ bookkeeping) : assoc k (restoration row id target) = assoc k target := by
  refine assoc_update_other (nodup_draftKeys _ _) ?_
  simp only [bookkeeping, List.mem_cons, List.not_mem_nil, or_false, not_or] at hk
  simp [hid, hk]

variable (id) in
/-- A field of the draft: the old one over the current one, where there is an old one. -/
theorem assoc_draft (row : Row) {target : Entries} (htarget : DistinctEntries target) {k : String}
    (hid : k ≠ "id") (hsource : k ≠ "source") (hk : k ∉ bookkeeping) :
    assoc k (draft row id (restoration row id target)) =
      match assoc k target with
      | some v => some (mergeOver skipped v (assoc k (row.rule id)))
      | none => assoc k (row.rule id) := by
  have hrestoration := assoc_restoration id row target hid hk
  simp only [bookkeeping, List.mem_cons, List.not_mem_nil, or_false, not_or] at hk
  have hskip : skipped k = false := by
    simp [skipped, hid, hsource, hk]
  unfold draft deepMerge
  rw [assoc_update_other (nodup_draftKeys _ _) (by simp [hid, hk]),
    assoc_merge (distinct_restoration htarget).nodup, hskip, hrestoration]
  rfl

variable (id) in
theorem assoc_draft_source (row : Row) (target : Entries) (htarget : DistinctEntries target) :
    assoc "source" (draft row id (restoration row id target)) = some (.str row.source) := by
  unfold draft deepMerge
  rw [assoc_update_other (nodup_draftKeys _ _) (by simp),
    assoc_merge (distinct_restoration htarget).nodup, if_pos (by simp [skipped]), assoc_rule_source]

/-! ## The draft is accepted -/

theorem strip_mapping_ne_empty (d : Entries) : Text.strip (text host (.dict d)) ≠ "" := by
  have hopen : '\x7b' ∈ (text host (.dict d)).toList := by
    simp [text]
  exact Text.strip_ne_empty hopen (by decide)

theorem isRiskType_mapping (d : Entries) : isRiskType (text host (.dict d)) = false := by
  have hchars : (text host (.dict d)).toList =
      '\x7b' :: (host.dictText d ++ "\x7d").toList := by
    simp [text]
  unfold isRiskType
  rw [hchars, List.splitOn, List.splitOnP_cons_eq_if_modifyHead]
  cases hparts : List.splitOnP (fun c => c == '.') (host.dictText d ++ "\x7d").toList with
  | nil => rfl
  | cons part parts =>
      have hpart : isPart ('\x7b' :: part) = false := rfl
      simp [hpart]

/-- A name over a name is a name. -/
theorem name_over {v : Value} {old : Option Value} (hd : Distinct v)
    (hv : Text.strip (text host (orElse (some v) (.str ""))) ≠ "")
    (hold : ∀ u, old = some u → Text.strip (text host (orElse (some u) (.str ""))) ≠ "") :
    Text.strip (text host (orElse (some (mergeOver skipped v old)) (.str ""))) ≠ "" := by
  by_cases hboth : ∃ c b, v = .dict c ∧ old = some (.dict b)
  · obtain ⟨c, b, rfl, rfl⟩ := hboth
    have hb : b ≠ [] := by
      rintro rfl
      exact hold _ rfl rfl
    have hmerge : merge skipped c b ≠ [] := merge_ne_nil (DistinctEntries.nodup hd) hb
    rw [mergeOver_dict, orElse, if_pos (by simpa [truthy] using hmerge)]
    exact strip_mapping_ne_empty _
  · rwa [mergeOver_eq fun c b hc hb => hboth ⟨c, b, hc, hb⟩]

/-- The checked body of a rule, laid over the body of another one, passes the checks. -/
theorem CheckedBody.over {c d : Entries} (old : String → Option Value) (hc : CheckedBody host c)
    (hdistinct : DistinctEntries c) (hid : assoc "id" d = assoc "id" c)
    (hold : ∀ field ∈ requiredNames, ∀ u, old field = some u →
      Text.strip (text host (orElse (some u) (.str ""))) ≠ "")
    (hover : ∀ k ∈ bodyKeys, k ≠ "id" → ∀ v, assoc k c = some v →
      assoc k d = some (mergeOver skipped v (old k))) : CheckedBody host d := by
  obtain ⟨hnames, hpatterns, hclass, hdedup⟩ := hc
  have hkeep : ∀ k ∈ bodyKeys, k ≠ "id" → ∀ v, assoc k c = some v → (∀ m, v ≠ .dict m) →
      assoc k d = some v := by
    intro k hk hne v hv hother
    rw [hover k hk hne v hv, mergeOver_eq fun m b hm => absurd hm (hother m)]
  refine ⟨?_, ?_, ?_, ?_⟩
  · rw [checkNames_ok] at hnames ⊢
    obtain ⟨hrule, hfields, htype⟩ := hnames
    refine ⟨ruleId_congr hid ▸ hrule, fun field hfield => ?_, ?_⟩
    · obtain ⟨v, hv⟩ : ∃ v, assoc field c = some v := by
        cases hv : assoc field c with
        | some v => exact ⟨v, rfl⟩
        | none =>
            have hname := hfields field hfield
            unfold textOf at hname
            rw [hv] at hname
            exact absurd rfl hname
      have hname := hfields field hfield
      have hbody : field ∈ bodyKeys ∧ field ≠ "id" := by
        simp only [requiredNames, bodyKeys, List.mem_cons, List.not_mem_nil, or_false] at hfield ⊢
        rcases hfield with rfl | rfl | rfl | rfl
        all_goals simp
      unfold textOf at hname ⊢
      rw [hover field hbody.1 hbody.2 v hv]
      rw [hv] at hname
      exact name_over (hdistinct.value hv) hname (hold field hfield)
    · unfold textOf at htype ⊢
      cases hv : assoc "risk_type" c with
      | none =>
          rw [hv] at htype
          cases htype
      | some v =>
          rw [hv] at htype
          have hother : ∀ m, v ≠ .dict m := by
            rintro m rfl
            rw [orElse_some] at htype
            split at htype
            · rw [isRiskType_mapping] at htype
              cases htype
            · cases htype
          rw [hkeep "risk_type" (by simp [bodyKeys]) (by simp) v hv hother]
          exact htype
  · obtain ⟨patterns, hsome, hcompiles⟩ := checkPatterns_ok.mp hpatterns
    refine checkPatterns_ok.mpr ⟨patterns, ?_, hcompiles⟩
    unfold patternsOf at hsome
    split at hsome
    · rename_i m hm
      split at hsome
      · rename_i item rest hlist
        obtain ⟨m', hm', hkeeps⟩ := mergeOver_keeps skipped
          (DistinctEntries.nodup (hdistinct.value hm)) (old "match")
        have hmatch := hover "match" (by simp [bodyKeys]) (by simp) _ hm
        rw [hm'] at hmatch
        unfold patternsOf
        rw [hmatch]
        simp only [hkeeps "message_regex" _ (by simp [skipped]) hlist (by simp)]
        exact hsome
      · cases hsome
    · cases hsome
  · obtain ⟨m, hm, hseverity, score, hscore, confidence, hconfidence, hlow, hhigh⟩ :=
      checkClassification_ok.mp hclass
    obtain ⟨m', hm', hkeeps⟩ := mergeOver_keeps skipped
      (DistinctEntries.nodup (hdistinct.value hm)) (old "classification")
    have hmatch := hover "classification" (by simp [bodyKeys]) (by simp) _ hm
    rw [hm'] at hmatch
    have hnumber : ∀ (key : String) (high : ℚ) (x : Floating), skipped key = false →
        toFloat host ((assoc key m).getD (.int (-1))) = .ok x → between 0 high x = true →
        assoc key m' = assoc key m := by
      intro key high x hskip hx hbetween
      obtain ⟨v, y, hv, hy⟩ := given_of_between hx hbetween
      rw [hv]
      refine hkeeps key v hskip hv ?_
      rintro n rfl
      cases hy
    obtain ⟨s, hs, -⟩ := checkSeverity_ok hseverity
    have hsame : assoc "default_severity" m' = assoc "default_severity" m := by
      rw [hs]
      exact hkeeps "default_severity" _ (by simp [skipped]) hs (by simp)
    refine checkClassification_ok.mpr ⟨m', hmatch, ?_, score, ?_, confidence, ?_, hlow, hhigh⟩
    · rw [hsame]
      exact hseverity
    · rw [hnumber "base_score" 100 score (by simp [skipped]) hscore hlow]
      exact hscore
    · rw [hnumber "confidence" 1 confidence (by simp [skipped]) hconfidence hhigh]
      exact hconfidence
  · obtain ⟨m, hm, ⟨fields, hfields⟩, window, hwindow, hpositive⟩ := checkDedup_ok.mp hdedup
    obtain ⟨m', hm', hkeeps⟩ := mergeOver_keeps skipped
      (DistinctEntries.nodup (hdistinct.value hm)) (old "dedup")
    have hmatch := hover "dedup" (by simp [bodyKeys]) (by simp) _ hm
    rw [hm'] at hmatch
    refine checkDedup_ok.mpr ⟨m', hmatch, ⟨fields, ?_⟩, window, ?_, hpositive⟩
    · exact hkeeps "key_fields" _ (by simp [skipped]) hfields (by simp)
    · cases hv : assoc "window_seconds" m with
      | none =>
          rw [hv] at hwindow
          cases hwindow
          omega
      | some v =>
          rw [hkeeps "window_seconds" v (by simp [skipped]) hv ?_, ← hv]
          · exact hwindow
          · rintro n rfl
            rw [hv, orElse_some] at hwindow
            split at hwindow
            · cases hwindow
            · cases hwindow
              omega

section Accepted

variable {row : Row} {target : Entries}

theorem body_draft (hrow : Stored host id row.content) (htarget : Stored host id target) :
    CheckedBody host (draft row id (restoration row id target)) := by
  refine htarget.body.over (fun k => assoc k (row.rule id)) htarget.distinct ?_ ?_ ?_
  · rw [assoc_draft_id, htarget.named]
  · intro field hfield u hu
    have hname := (checkNames_ok.mp hrow.body.names).2.1 field hfield
    have hcolumn : field ∉ (row.columns id).map Prod.fst := by
      simp only [requiredNames, List.mem_cons, List.not_mem_nil, or_false] at hfield
      rcases hfield with rfl | rfl | rfl | rfl
      all_goals simp [Row.columns]
    unfold textOf at hname
    rw [← assoc_rule_other hcolumn, hu] at hname
    exact hname
  · intro k hk hid v hv
    have hother : k ≠ "source" ∧ k ∉ bookkeeping := by
      simp only [bodyKeys, List.mem_cons, List.not_mem_nil, or_false] at hk
      rcases hk with rfl | rfl | rfl | rfl | rfl | rfl | rfl | rfl
      all_goals simp [bookkeeping]
    rw [assoc_draft id row htarget.distinct hid hother.1 hother.2, hv]

variable (row) in
/-- What a normalizer makes of a field of the draft: the field itself, but for a priority of
zero. -/
theorem normal_draft (htarget : Stored host id target) {e : String × Normalizer}
    (he : e ∈ normalizers host) (hversion : e.1 ≠ "version") :
    ∃ v w, assoc e.1 target = some v ∧
      e.2 (assoc e.1 (draft row id (restoration row id target))) = .ok w ∧
      ((e.1 = "priority" ∧ v = .int 0 ∧ w = .int 100) ∨
        (e.1 = "priority" → v ≠ .int 0) ∧ w = mergeOver skipped v (assoc e.1 (row.rule id))) := by
  obtain ⟨o, v, hv, htarg⟩ := htarget.normal e he
  have hkeys : e.1 ≠ "id" ∧ e.1 ≠ "source" ∧ e.1 ∉ bookkeeping := by
    simp only [normalizers, List.mem_cons, List.not_mem_nil, or_false] at he
    rcases he with rfl | rfl | rfl | rfl | rfl | rfl | rfl | rfl | rfl | rfl
    · simp [bookkeeping]
    · exact absurd rfl hversion
    all_goals simp [bookkeeping]
  have hdraft := assoc_draft id row htarget.distinct hkeys.1 hkeys.2.1 hkeys.2.2
  rw [htarg] at hdraft
  dsimp only at hdraft
  rw [hdraft]
  by_cases hzero : e.1 = "priority" ∧ v = .int 0
  · refine ⟨v, .int 100, htarg, ?_, .inl ⟨hzero.1, hzero.2, rfl⟩⟩
    · obtain ⟨hpriority, rfl⟩ := hzero
      have hflat : ∀ c b, Value.int 0 = .dict c →
          assoc e.1 (row.rule id) = some (.dict b) → False := by
        intro c b hc
        cases hc
      rw [mergeOver_eq hflat]
      have hcase : e = ("priority", normalInt host 100) := by
        simp only [normalizers, List.mem_cons, List.not_mem_nil, or_false] at he
        rcases he with rfl | rfl | rfl | rfl | rfl | rfl | rfl | rfl | rfl | rfl
        all_goals first | rfl | simp at hpriority
      rw [hcase]
      rfl
  · refine ⟨v, mergeOver skipped v (assoc e.1 (row.rule id)), htarg, ?_,
      .inr ⟨fun hpriority hv0 => hzero ⟨hpriority, hv0⟩, rfl⟩⟩
    · by_cases hboth : ∃ c b, v = .dict c ∧ assoc e.1 (row.rule id) = some (.dict b)
      · obtain ⟨c, b, rfl, hb⟩ := hboth
        rw [hb, mergeOver_dict]
        exact normalizer_dict he hv _
      · rw [mergeOver_eq fun c b hc hb => hboth ⟨c, b, hc, hb⟩]
        refine normalizer_again he hv fun hcase hv0 => ?_
        exact hzero ⟨hcase.resolve_left hversion, hv0⟩

variable (row) in
theorem additions_draft (htarget : Stored host id target) (hpositive : 1 ≤ row.currentVersion) :
    ∃ added, additions host (draft row id (restoration row id target)) = .ok added := by
  have hmembers : ∃ filled, (normalizers host).mapM
      (normalMember (draft row id (restoration row id target))) = .ok filled := by
    refine mapM_isOk_iff.mpr fun e he => ?_
    by_cases hversion : e.1 = "version"
    · have hcase : e = ("version", normalInt host 1) := by
        simp only [normalizers, List.mem_cons, List.not_mem_nil, or_false] at he
        rcases he with rfl | rfl | rfl | rfl | rfl | rfl | rfl | rfl | rfl | rfl
        all_goals first | rfl | simp at hversion
      subst hcase
      have hdraft : assoc "version" (draft row id (restoration row id target)) =
          some (.int (row.currentVersion + 1)) :=
        assoc_update_nodup (nodup_draftKeys _ _) (by simp)
      refine ⟨("version", .int (row.currentVersion + 1)), normalMember_ok.mpr ⟨_, ?_, rfl⟩⟩
      rw [hdraft]
      show normalInt host 1 _ = _
      unfold normalInt
      rw [orElse_some, if_pos (by simp [truthy]; omega)]
      rfl
    · obtain ⟨v, w, -, hw, -⟩ := normal_draft row htarget he hversion
      exact ⟨(e.1, w), normalMember_ok.mpr ⟨w, hw, rfl⟩⟩
  obtain ⟨filled, hfilled⟩ := hmembers
  refine ⟨origin host (draft row id (restoration row id target)) ++ filled, ?_⟩
  unfold additions
  rw [hfilled]
  rfl

theorem origin_draft (hsource : row.source ∈ sources) (htarget : Stored host id target) :
    checkOrigin host (draft row id (restoration row id target)) = .ok () := by
  have hstatus : assoc "status" (draft row id (restoration row id target)) = some (.str "draft") :=
    assoc_update_nodup (nodup_draftKeys _ _) (by simp)
  unfold checkOrigin
  rw [check_bind_eq_ok, demand_eq_ok, demand_eq_ok,
    sourceOf_of_some (assoc_draft_source id row target htarget.distinct) hsource]
  refine ⟨hsource, ?_⟩
  unfold statusOf textOf
  rw [hstatus, orElse_some]
  simp [truthy, text, statuses]

/-- Laid over the current rule, the content of an old version passes validation. -/
theorem validate_draft (hrow : Stored host id row.content) (htarget : Stored host id target)
    (hsource : row.source ∈ sources) (hpositive : 1 ≤ row.currentVersion) :
    ∃ added, additions host (draft row id (restoration row id target)) = .ok added ∧
      validateRule host (.dict (draft row id (restoration row id target))) =
        .ok (update (draft row id (restoration row id target)) added) := by
  obtain ⟨added, hadded⟩ := additions_draft row htarget hpositive
  refine ⟨added, hadded, validateRule_dict ?_ hadded⟩
  exact checkRule_eq_ok.mpr ⟨body_draft hrow htarget, origin_draft hsource htarget⟩

/-! ## The fields of the new content -/

theorem same_str {s t : String} : Same (.str s) (.str t) ↔ s = t := by
  constructor
  · intro h
    cases h
    rfl
  · rintro rfl
    exact .refl _

theorem same_bool {a b : Bool} : Same (.bool a) (.bool b) ↔ a = b := by
  constructor
  · intro h
    cases h
    rfl
  · rintro rfl
    exact .refl _

theorem same_null {v : Value} : Same v .null ↔ v = .null := by
  constructor
  · intro h
    cases h
    rfl
  · rintro rfl
    exact .refl _

/-- A field comes back exactly when the rule that stands does not hold it. -/
theorem same_field_iff (htarget : Stored host id target)
    (hsource : row.source ∈ sources) {added : Entries}
    (hadded : additions host (draft row id (restoration row id target)) = .ok added) {k : String}
    (hk : k ∉ bookkeeping) :
    Same ((assoc k (update (draft row id (restoration row id target)) added)).getD .null)
      ((assoc k target).getD .null) ↔ RestoresKey (row.rule id) target k := by
  have hsome : ∀ {v : Value}, assoc k target = some v → k ≠ "source" →
      ((k = "priority" → v ≠ .int 0) ∧ Same (mergeOver skipped v (assoc k (row.rule id))) v ↔
        RestoresKey (row.rule id) target k) := by
    intro v hv hother
    rw [same_mergeOver_iff (htarget.distinct.value hv)]
    constructor
    · rintro ⟨hpriority, hnested⟩
      refine ⟨fun h => absurd h hother, fun hnone => ?_, fun c b hc hb => ?_, fun h hzero => ?_⟩
      · rw [hv] at hnone
        cases hnone
      · exact hnested c b (Option.some.inj (hv.symm.trans hc)) hb
      · exact hpriority h (Option.some.inj (hv.symm.trans hzero))
    · intro h
      exact ⟨fun hpriority hzero => h.priority hpriority (hv.trans (congrArg some hzero)),
        fun c b hc hb => h.nested c b (hv.trans (congrArg some hc)) hb⟩
  have hkept : ∀ {v : Value}, assoc k target = some v →
      assoc k (update (draft row id (restoration row id target)) added) = some v →
      (∀ c, v ≠ .dict c) → k ≠ "source" → k ≠ "priority" →
      (Same ((assoc k (update (draft row id (restoration row id target)) added)).getD .null)
        ((assoc k target).getD .null) ↔ RestoresKey (row.rule id) target k) := by
    intro v hv hnew hflat hother hpriority
    rw [hv, hnew]
    refine ⟨fun _ => ⟨fun h => absurd h hother, fun hnone => ?_, fun c b hc _ => ?_,
      fun h => absurd h hpriority⟩, fun _ => .refl v⟩
    · rw [hv] at hnone
      cases hnone
    · exact absurd (Option.some.inj (hv.symm.trans hc)) (hflat c)
  by_cases hid : k = "id"
  · subst hid
    have hnew : assoc "id" (update (draft row id (restoration row id target)) added) =
        some (.str id) := by
      rw [assoc_validated_other hadded (by simp [writtenKeys]), assoc_draft_id]
    exact hkept htarget.named hnew (by simp) (by simp) (by simp)
  by_cases horigin : k = "source"
  · subst horigin
    obtain ⟨s, -, hs⟩ := htarget.sourced
    have hdraft := assoc_draft_source id row target htarget.distinct
    have hnew : assoc "source" (update (draft row id (restoration row id target)) added) =
        some (.str row.source) := by
      have hwritten := assoc_validated_origin hadded
        (f := ("source", .str (sourceOf host (draft row id (restoration row id target)))))
        (by simp [origin])
      rw [hwritten, sourceOf_of_some hdraft hsource]
    rw [hnew, hs, Option.getD_some, Option.getD_some, same_str]
    constructor
    · rintro rfl
      refine ⟨fun _ => ?_, fun hnone => ?_, fun c b hc _ => ?_, fun h => ?_⟩
      · rw [assoc_rule_source, hs]
      · rw [hs] at hnone
        cases hnone
      · rw [hs] at hc
        cases hc
      · simp at h
    · intro h
      have heq := h.sourced rfl
      rw [assoc_rule_source, hs] at heq
      cases heq
      rfl
  by_cases hschema : k = "schema_version"
  · subst hschema
    exact hkept htarget.schema (assoc_validated_origin hadded
      (f := ("schema_version", .str "risk_semantic_rule_v1")) (by simp [origin]))
      (by simp) (by simp) (by simp)
  by_cases hwritten : k ∈ writtenKeys
  · -- a member that validation fills in: once for the target, and again for the draft
    obtain ⟨e, he, rfl⟩ : ∃ e ∈ normalizers host, e.1 = k := by
      rcases writtenKeys_cases host hwritten with h | h | h | h
      · exact absurd h hschema
      · exact absurd h horigin
      · exact absurd (by simp [bookkeeping, h]) hk
      · exact h
    have hversion : e.1 ≠ "version" := by
      intro h
      exact hk (by simp [bookkeeping, h])
    obtain ⟨v, w, hv, hw, hcases⟩ := normal_draft row htarget he hversion
    obtain ⟨w', hw', hnew⟩ := assoc_validated hadded he
    rw [hw] at hw'
    cases hw'
    rw [hnew, hv, Option.getD_some, Option.getD_some]
    rcases hcases with ⟨hpriority, rfl, rfl⟩ | ⟨hpriority, rfl⟩
    · refine ⟨fun h => ?_, fun h => absurd hv (h.priority hpriority)⟩
      cases h
    · rw [← hsome hv horigin]
      exact ⟨fun h => ⟨hpriority, h⟩, fun h => h.2⟩
  · rw [assoc_validated_other hadded hwritten, assoc_draft id row htarget.distinct hid horigin hk]
    cases hv : assoc k target with
    | none =>
        rw [Option.getD_none, same_null]
        refine ⟨fun h => ⟨fun h' => absurd h' horigin, fun _ => h, fun c b hc _ => ?_, fun h' => ?_⟩,
          fun h => h.missing hv⟩
        · rw [hv] at hc
          cases hc
        · rw [hv]
          exact (Option.some_ne_none _).symm
    | some v =>
        have hpriority : k ≠ "priority" := by
          rintro rfl
          exact hwritten (by simp [writtenKeys])
        rw [Option.getD_some, Option.getD_some, ← hsome hv horigin]
        exact ⟨fun h => ⟨fun h' => absurd h' hpriority, h⟩, fun h => h.2⟩

theorem alike_iff (htarget : Stored host id target) (hsource : row.source ∈ sources)
    {added : Entries}
    (hadded : additions host (draft row id (restoration row id target)) = .ok added) :
    Alike (update (draft row id (restoration row id target)) added) target ↔
      Restorable (row.rule id) target :=
  forall_congr' fun _ => forall_congr' fun hk => same_field_iff htarget hsource hadded hk

theorem truthyAt_of_same {c d : Entries} {k : String}
    (h : Same ((assoc k c).getD .null) ((assoc k d).getD .null)) {b : Bool}
    (hd : assoc k d = some (.bool b)) : truthyAt k c = truthyAt k d := by
  unfold truthyAt
  rw [hd] at h ⊢
  generalize (assoc k c).getD .null = v at h ⊢
  cases h
  rfl

variable (id row) in
/-- Read with its columns, a rule whose content comes back changes in `enabled` at most. -/
theorem alike_rule_iff (row' : Row) (hsource : row'.source = row.source)
    (hoverride : row'.overrideOf = row.overrideOf) (hcontent : Alike row'.content row.content) :
    Alike (row'.rule id) (row.rule id) ↔ row'.enabled = row.enabled := by
  have hcolumns : ∀ (r : Row) (e : String × Value), e ∈ r.columns id →
      assoc e.1 (r.rule id) = some e.2 := fun r e he => assoc_update_nodup (nodup_columns r id) he
  constructor
  · intro h
    have henabled := h "enabled" (by simp [bookkeeping])
    rw [hcolumns row' ("enabled", .bool row'.enabled) (by simp [Row.columns]),
      hcolumns row ("enabled", .bool row.enabled) (by simp [Row.columns])] at henabled
    exact same_bool.mp henabled
  · intro henabled k hk
    by_cases hcolumn : k ∈ (row.columns id).map Prod.fst
    · have hsame : ∃ v, (k, v) ∈ row'.columns id ∧ (k, v) ∈ row.columns id := by
        simp only [bookkeeping, List.mem_cons, List.not_mem_nil, or_false, not_or] at hk
        obtain ⟨e, he, rfl⟩ := List.mem_map.mp hcolumn
        simp only [Row.columns, List.mem_cons, List.not_mem_nil, or_false] at he
        rcases he with rfl | rfl | rfl | rfl | rfl | rfl | rfl | rfl | rfl
        · exact ⟨.str id, by simp [Row.columns], by simp [Row.columns]⟩
        · exact ⟨.str row.source, by simp [Row.columns, hsource], by simp [Row.columns]⟩
        · exact ⟨optional row.overrideOf, by simp [Row.columns, hoverride], by simp [Row.columns]⟩
        · exact absurd rfl hk.2.1
        · exact ⟨.bool row.enabled, by simp [Row.columns, henabled], by simp [Row.columns]⟩
        all_goals simp at hk
      obtain ⟨v, hv', hv⟩ := hsame
      rw [hcolumns row' (k, v) hv', hcolumns row (k, v) hv]
      exact .refl _
    · have hcolumn' : k ∉ (row'.columns id).map Prod.fst := hcolumn
      rw [assoc_rule_other hcolumn, assoc_rule_other hcolumn']
      exact hcontent k hk

end Accepted

/-- A rollback of a user rule goes through; the content of the old version comes back, and
nothing else changes where it is the current one, exactly when the old version has every field
that the current rule has. -/
theorem restored_iff (h : (service host).Reachable db) {row : Row}
    (hrow : db.rules.get? id = some row) (huser : row.source ≠ "builtin") {v : ℤ}
    {target : Entries} (hv : db.versions id v = some target) (now : String) :
    ∃ db' row', rollback host now id v row.currentVersion true db = .ok db' ∧
      db'.rules.get? id = some row' ∧
      ((Alike row'.content target ∧
          (v = row.currentVersion → Alike (row'.rule id) (row.rule id))) ↔
        Restorable (row.rule id) target ∧
          (v = row.currentVersion → row.enabled = truthyAt "enabled" target)) := by
  have hsound := sound_of_reachable h
  have htarget := hsound.versions id v target hv
  have hsource := hsound.sourced id row hrow
  obtain ⟨added, hadded, hvalid⟩ :=
    validate_draft (hsound.content hrow) htarget hsource (hsound.positive id row hrow)
  have hget := (get?_write db (row.updated host now (row.currentVersion + 1)
    (update (draft row id (restoration row id target)) added)) id).trans (if_pos rfl)
  refine ⟨_, _, ?_, hget, ?_⟩
  · unfold rollback updateRule
    simp only [require_of, getRow_eq_ok.mpr hrow, hv, orFail, hvalid, huser, ne_eq,
      not_false_eq_true, bind, Except.bind, pure, Except.pure]
  · rw [← alike_iff htarget hsource hadded]
    refine and_congr_right fun hcontent => ?_
    by_cases hcurrent : v = row.currentVersion
    · have htarg : target = row.content := by
        have hversion := hsound.current id row hrow
        rw [← hcurrent, hv] at hversion
        exact Option.some.inj hversion
      obtain ⟨o, w, hw, henabled⟩ := htarget.normal ("enabled", normalBool) (by simp [normalizers])
      cases pure_eq_ok.mp hw
      have htruthy := truthyAt_of_same (hcontent "enabled" (by simp [bookkeeping])) henabled
      have hrule := alike_rule_iff id row
        (row.updated host now (row.currentVersion + 1)
          (update (draft row id (restoration row id target)) added)) rfl rfl (htarg ▸ hcontent)
      rw [hrule]
      have hnew : (row.updated host now (row.currentVersion + 1)
          (update (draft row id (restoration row id target)) added)).enabled =
            truthyAt "enabled" target := htruthy
      rw [hnew]
      exact ⟨fun h hv' => (h hv').symm, fun h hv' => (h hv').symm⟩
    · exact ⟨fun _ hv' => absurd hv' hcurrent, fun _ hv' => absurd hv' hcurrent⟩

/-! ## A field that a later version brought -/

/-- A second field to extract. -/
def hostField : Entries :=
  [("extract", .dict [("host", .dict [("from_group", .str "host")])])]

/-- A rule in two versions; the second one extracts a field more. -/
def extendedDb : Db := handle wordHost "t2" codeDb (.updateRule "user.code" hostField 1)

theorem reachable_extendedDb : (service wordHost).Reachable extendedDb := by
  have hfield : DistinctEntries hostField := by
    simp [hostField, DistinctEntries, Distinct]
  exact reachable_codeDb.step ⟨"t2", .updateRule "user.code" hostField 1, hfield, rfl⟩

theorem extended_row : ∃ row, extendedDb.rules.get? "user.code" = some row ∧
    row.source ≠ "builtin" := by
  have hsource : (extendedDb.rules.get? "user.code").map (·.source) = some "user" := by
    decide +kernel
  obtain ⟨row, hrow, hsource⟩ := Option.map_eq_some_iff.mp hsource
  exact ⟨row, hrow, by rw [hsource]; decide⟩

theorem extended_first : ∃ target, extendedDb.versions "user.code" 1 = some target :=
  Option.isSome_iff_exists.mp (by decide +kernel)

theorem extended_restored : ∃ row target, extendedDb.rules.get? "user.code" = some row ∧
    extendedDb.versions "user.code" 1 = some target ∧
    ∃ db' row', rollback wordHost "t3" "user.code" 1 row.currentVersion true extendedDb = .ok db' ∧
      db'.rules.get? "user.code" = some row' ∧
      ((Alike row'.content target ∧
          (1 = row.currentVersion → Alike (row'.rule "user.code") (row.rule "user.code"))) ↔
        Restorable (row.rule "user.code") target ∧
          (1 = row.currentVersion → row.enabled = truthyAt "enabled" target)) := by
  obtain ⟨row, hrow, huser⟩ := extended_row
  obtain ⟨target, htarget⟩ := extended_first
  exact ⟨row, target, hrow, htarget,
    restored_iff reachable_extendedDb hrow huser htarget "t3"⟩

def extractKeys (c : Entries) : List String :=
  match assoc "extract" c with
  | some (.dict d) => d.map Prod.fst
  | _ => []

theorem extractKeys_of_alike {c d : Entries} (h : Alike c d) {k : String}
    (hk : k ∈ extractKeys c) (hd : (assoc "extract" d).isSome) : k ∈ extractKeys d := by
  have hsame := h "extract" (by simp [bookkeeping])
  obtain ⟨v, hv⟩ := Option.isSome_iff_exists.mp hd
  unfold extractKeys at hk ⊢
  split at hk
  · rename_i a ha
    rw [ha, hv, Option.getD_some, Option.getD_some] at hsame
    rw [hv]
    cases hsame with
    | refl => exact hk
    | @dict a b hkeys _ =>
        rw [← not_not (a := k ∈ b.map Prod.fst), ← Dict.assoc_eq_none]
        intro hnone
        have hkey := hkeys k
        rw [hnone, Option.isSome_none, Option.isSome_eq_false_iff, Option.isNone_iff_eq_none,
          Dict.assoc_eq_none] at hkey
        exact hkey hk
  · cases hk

/-- The field that the second version brought is still there after a rollback to the first. -/
theorem rollback_keeps_field : ¬ ∀ (host : Host) (db : Db), (service host).Reachable db →
    ∀ id row, db.rules.get? id = some row → row.source ≠ "builtin" →
    ∀ v target, db.versions id v = some target →
    ∀ now db', rollback host now id v row.currentVersion true db = .ok db' →
    ∃ row', db'.rules.get? id = some row' ∧ Alike row'.content target := by
  intro h
  obtain ⟨row, hrow, huser⟩ := extended_row
  obtain ⟨target, htarget⟩ := extended_first
  have hversion : row.currentVersion = 2 := by
    have hcurrent : (extendedDb.rules.get? "user.code").map (·.currentVersion) = some 2 := by
      decide +kernel
    rw [hrow] at hcurrent
    exact Option.some.inj hcurrent
  have hresult : (rollback wordHost "t3" "user.code" 1 2 true extendedDb).toOption.isSome = true := by
    decide +kernel
  obtain ⟨row', hrow', halike⟩ := h wordHost extendedDb reachable_extendedDb "user.code" row hrow
    huser 1 target htarget "t3" ((rollback wordHost "t3" "user.code" 1 2 true extendedDb).toOption.getD {})
    (by rw [hversion]; exact eq_ok_getD hresult {})
  have hkept : ((((rollback wordHost "t3" "user.code" 1 2 true extendedDb).toOption.getD {}).rules.get?
      "user.code").map fun row => decide ("host" ∈ extractKeys row.content)) = some true := by
    decide +kernel
  rw [hrow', Option.map_some, Option.some.injEq, decide_eq_true_eq] at hkept
  have hfirst : (extendedDb.versions "user.code" 1).map (fun c =>
      (decide ("host" ∈ extractKeys c), (assoc "extract" c).isSome)) = some (false, true) := by
    decide +kernel
  rw [htarget, Option.map_some, Option.some.injEq, Prod.mk.injEq, decide_eq_false_iff_not] at hfirst
  exact hfirst.1 (extractKeys_of_alike halike hkept hfirst.2)

end LogRisk.RiskSemantics.Documents
