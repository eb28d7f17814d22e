import LogRisk.Results.Overlap
import LogRisk.Windows.Split

/-!
# Identities kept apart

The merge and the build know a window by less than the aggregator: the unit is in the
key of the aggregator only.  What cluster and node tell apart stays apart; two services of
one node do not.
-/

namespace LogRisk.Results

open LogRisk.Library LogRisk.Library.Transaction LogRisk.Windows LogRisk.Streaming

variable {ν σ : Type}

/-! ## Committed windows -/

def isRawKey (key : String) : Bool := rawLogKeys.contains key.toLower

/-- `_safe_window`. -/
def safeWindow (w : Window ν) : Streaming.Result (Window ν) := do
  require (given w.templateHash).isSome (.state "窗口缺少 template_hash")
  require (w.windowStart.isSome ∨ w.timeQuality = .unknown)
    (.state "窗口缺少可信 window_start 时必须标记 time_quality=unknown")
  return { w with
    samples := []
    severityDistribution := w.severityDistribution.filter fun severity => isRawKey severity = false
    semanticFields := w.semanticFields.filter fun field => isRawKey field.1 = false }

theorem identity_safeWindow {w v : Window ν} (h : safeWindow w = .ok v) : v.identity = w.identity := by
  unfold safeWindow at h
  obtain ⟨-, h⟩ := require_bind_eq_ok.mp h
  obtain ⟨-, h⟩ := require_bind_eq_ok.mp h
  cases h
  rfl

variable [DecidableEq ν]

/-- The rows are the sanitized windows of the batches. -/
def Committed (settings : Settings) (batches : List (List (TemplateEvent ν)))
    (items : List (BatchWindow (Window ν))) : Prop :=
  ∃ ws, (settings.batchWindows batches).mapM safeWindow = .ok ws ∧
    (items.map BatchWindow.window).Perm ws

/-! ## Where an event ends up -/

/-- The window of an event in the batch it came with. -/
def CountedIn (settings : Settings) (batches : List (List (TemplateEvent ν))) (e : TemplateEvent ν)
    (w : Window ν) : Prop :=
  ∃ b ∈ batches, e ∈ b ∧ (settings.windows b).get? (settings.keyOf e) = some w

def MergedInto (settings : Settings) (batches : List (List (TemplateEvent ν)))
    (e : TemplateEvent ν) (m : Window ν) : Prop :=
  ∃ w, CountedIn settings batches e w ∧
    (mergedWindows (settings.batchWindows batches)).get? w.identity = some m

def BuiltInto (repository : Repository ν) (settings : Settings)
    (batches : List (List (TemplateEvent ν))) (g : ResultGeneration ν σ) (e : TemplateEvent ν)
    (row : ResultWindow ν σ) : Prop :=
  ∃ w v, CountedIn settings batches e w ∧ safeWindow w = .ok v ∧
    g.windows.get? (repository.digest v.identity) = some row

/-- Cluster, node or unit differ. -/
def Differ (e e' : TemplateEvent ν) : Prop :=
  e.cluster ≠ e'.cluster ∨ (e.entityType, e.entityId) ≠ (e'.entityType, e'.entityId) ∨
    e.unit ≠ e'.unit

omit [DecidableEq ν] in
/-- The aggregator keeps them apart. -/
theorem keyOf_ne_of_differ {settings : Settings} {e e' : TemplateEvent ν} (h : Differ e e') :
    settings.keyOf e ≠ settings.keyOf e' := by
  intro hkey
  rcases h with hcluster | hentity | hunit
  · exact hcluster (congrArg AggregatorKey.cluster hkey)
  · exact hentity (Prod.ext (congrArg AggregatorKey.entityType hkey)
      (congrArg AggregatorKey.entityId hkey))
  · exact hunit (congrArg AggregatorKey.unit hkey)

variable [LinearOrder σ]

omit [DecidableEq ν] in
/-- A ready generation of a run in which no builder folds a page again. -/
def BuiltFrom (repository : Repository ν) (rules : Rules σ)
    (items : List (BatchWindow (Window ν))) (g : ResultGeneration ν σ) : Prop :=
  ∃ source : TaskTables (Window ν), source.batchWindows = items ∧
    (items.map position).Nodup ∧ ∃ actions generation,
      Along (act repository rules) UpToDate (State.initial source) actions ∧
      (exec (act repository rules) (State.initial source) actions).tables.generations.get?
        generation = some g ∧ g.status = .ready

omit [DecidableEq ν] in
theorem BuiltFrom.foldedOnce {repository : Repository ν} {rules : Rules σ}
    {items : List (BatchWindow (Window ν))} {g : ResultGeneration ν σ}
    (h : BuiltFrom repository rules items g) : FoldedOnce repository rules items g := by
  obtain ⟨source, rfl, hkeys, actions, generation, hstored, hg, hready⟩ := h
  have hexact := (coordinated_exec (coordinated_initial source hkeys) hstored).exact generation g hg
  rw [items_exec] at hexact
  exact hexact.foldedOnce hready

/-- Events that differ in cluster, node or unit end up in different windows. -/
def KeptApart (repository : Repository ν) (rules : Rules σ) (settings : Settings)
    (batches : List (List (TemplateEvent ν))) : Prop :=
  ∀ e ∈ batches.flatten, ∀ e' ∈ batches.flatten, Differ e e' →
    (∀ m, ¬ (MergedInto settings batches e m ∧ MergedInto settings batches e' m)) ∧
      ∀ items g, Committed settings batches items → BuiltFrom repository rules items g →
        ∀ row, ¬ (BuiltInto repository settings batches g e row ∧
          BuiltInto repository settings batches g e' row)

/-! ## Identities -/

omit [LinearOrder σ] in
theorem CountedIn.identity {settings : Settings} {batches : List (List (TemplateEvent ν))}
    {e : TemplateEvent ν} {w : Window ν} (h : CountedIn settings batches e w) :
    w.identity = settings.identityOf e := by
  obtain ⟨b, -, -, hw⟩ := h
  exact identity_windows hw

omit [LinearOrder σ] in
theorem CountedIn.mem {settings : Settings} {batches : List (List (TemplateEvent ν))}
    {e : TemplateEvent ν} {w : Window ν} (h : CountedIn settings batches e w) :
    w ∈ settings.batchWindows batches := by
  obtain ⟨b, hb, -, hw⟩ := h
  exact List.mem_flatMap.mpr ⟨b, hb, mem_aggregate.mpr ⟨_, hw⟩⟩

omit [LinearOrder σ] in
theorem MergedInto.identity {settings : Settings} {batches : List (List (TemplateEvent ν))}
    {e : TemplateEvent ν} {m : Window ν} (h : MergedInto settings batches e m) :
    m.identity = settings.identityOf e := by
  obtain ⟨w, hw, hm⟩ := h
  exact (identity_mergedWindows hm).trans hw.identity

omit [LinearOrder σ] in
/-- A row of a build is known by the identity of every event in it. -/
theorem BuiltInto.canonical {repository : Repository ν} {rules : Rules σ} {settings : Settings}
    {batches : List (List (TemplateEvent ν))} {items : List (BatchWindow (Window ν))}
    {g : ResultGeneration ν σ} {e : TemplateEvent ν} {row : ResultWindow ν σ}
    (h : BuiltInto repository settings batches g e row) (hcommitted : Committed settings batches items)
    (honce : FoldedOnce repository rules items g) : row.canonical = settings.identityOf e := by
  obtain ⟨w, v, hw, hsafe, hrow⟩ := h
  obtain ⟨ws, hws, hperm⟩ := hcommitted
  have hv : v ∈ committedWindows items := by
    obtain ⟨u, hu, hsafe'⟩ := exists_of_mem_results (mapM_eq_ok.mp hws).flip hw.mem
    obtain rfl := Except.ok.inj (hsafe.symm.trans hsafe')
    unfold committedWindows
    exact ((Paging.ordered_perm position items).map BatchWindow.window).mem_iff.mpr
      (hperm.mem_iff.mpr (List.of_mem_zip hu).1)
  have hfold := (folded_foldWindows honce.windows).row v hv
  rw [hrow] at hfold
  rw [canonical_rowFor hfold.symm, identity_safeWindow hsafe, hw.identity]

omit [LinearOrder σ] in
/-- Each event of a batch ends up in a merged window. -/
theorem exists_mergedInto (settings : Settings) {batches : List (List (TemplateEvent ν))}
    {e : TemplateEvent ν} (he : e ∈ batches.flatten) :
    ∃ m, MergedInto settings batches e m ∧
      (mergedWindows (settings.batchWindows batches)).get? (settings.identityOf e) = some m := by
  obtain ⟨b, hb, heb⟩ := List.mem_flatten.mp he
  obtain ⟨w, hw⟩ := exists_window settings heb
  have hcounted : CountedIn settings batches e w := ⟨b, hb, heb, hw⟩
  have hidentity := hcounted.identity
  cases hm : (mergedWindows (settings.batchWindows batches)).get? (settings.identityOf e) with
  | none => exact absurd hidentity (get?_mergedWindows_eq_none.mp hm w hcounted.mem)
  | some m => exact ⟨m, ⟨w, hcounted, hidentity.symm ▸ hm⟩, rfl⟩

theorem unitsAgree_of_keptApart {repository : Repository ν} {rules : Rules σ} {settings : Settings}
    {batches : List (List (TemplateEvent ν))} (h : KeptApart repository rules settings batches) :
    UnitsAgree settings batches.flatten := by
  intro e he e' he' hidentity
  by_contra hunit
  obtain ⟨m, hinto, hm⟩ := exists_mergedInto settings he
  obtain ⟨m', hinto', hm'⟩ := exists_mergedInto settings he'
  rw [hidentity, hm'] at hm
  obtain rfl := Option.some.inj hm
  exact (h e he e' he' (Or.inr (Or.inr hunit))).1 m' ⟨hinto, hinto'⟩

theorem keptApart_of_unitsAgree {repository : Repository ν} {rules : Rules σ} {settings : Settings}
    {batches : List (List (TemplateEvent ν))} (h : UnitsAgree settings batches.flatten) :
    KeptApart repository rules settings batches := by
  intro e he e' he' hdiffer
  have hne : settings.identityOf e ≠ settings.identityOf e' := fun hidentity =>
    keyOf_ne_of_differ hdiffer (keyOf_eq_iff.mpr ⟨hidentity, h e he e' he' hidentity⟩)
  constructor
  · rintro m ⟨hinto, hinto'⟩
    exact hne (hinto.identity.symm.trans hinto'.identity)
  · rintro items g hcommitted hbuilt row ⟨hinto, hinto'⟩
    have honce := hbuilt.foldedOnce
    exact hne ((hinto.canonical hcommitted honce).symm.trans (hinto'.canonical hcommitted honce))

/-- What the aggregator keeps apart stays apart exactly where no two events of one identity
name different units. -/
theorem keptApart_iff_unitsAgree (repository : Repository ν) (rules : Rules σ) (settings : Settings)
    (batches : List (List (TemplateEvent ν))) :
    KeptApart repository rules settings batches ↔ UnitsAgree settings batches.flatten :=
  ⟨unitsAgree_of_keptApart, keptApart_of_unitsAgree⟩

/-- Two services that fail on one node are counted together. -/
theorem services_not_kept_apart :
    ¬ KeptApart (textual 512) countRules minutes
      [[unitFailed "a.service"], [unitFailed "b.service"]] := by
  intro h
  have hagree := unitsAgree_of_keptApart h (unitFailed "a.service") List.mem_cons_self
    (unitFailed "b.service") (List.mem_cons_of_mem _ List.mem_cons_self) rfl
  exact absurd hagree (by decide)

end LogRisk.Results
