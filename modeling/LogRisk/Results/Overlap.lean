import LogRisk.Library.JsonText
import LogRisk.Results.Workers

/-!
# Overlapping builders

As long as every page is read from the stored place, a ready generation counts each
committed window once, whatever the interleaving.  Nothing in a page's transaction
looks at that place or at the lease: a builder that lost its lease folds its page again.
-/

namespace LogRisk.Results

open LogRisk.Library LogRisk.Library.Transaction LogRisk.Windows LogRisk.Streaming

variable {ν σ : Type} {repository : Repository ν} {rules : Rules σ}

/-! ## Counts -/

theorem count_rowFor {ws : List (Window ν)} {k : Identity} {row : ResultWindow ν σ}
    (h : rowFor rules ws k = some row) : row.count = occurrences k ws := by
  obtain ⟨c, hc, rfl⟩ := Option.map_eq_some_iff.mp h
  show c.count = _
  rw [count_mergedWindows hc]
  unfold occurrences
  rw [List.map_map]
  rfl

/-- The count of a row is that of its identity. -/
theorem Folded.count {ws : List (Window ν)} {windows : Dict String (ResultWindow ν σ)}
    (h : Folded repository rules ws windows) {key : String} {row : ResultWindow ν σ}
    (hrow : windows.get? key = some row) : row.count = occurrences row.canonical ws := by
  obtain ⟨w, hw, rfl⟩ := h.known key row hrow
  rw [h.row w hw] at hrow
  rw [canonical_rowFor hrow]
  exact count_rowFor hrow

theorem total_upsert {windows windows' : Dict String (ResultWindow ν σ)} {ws : List (Window ν)}
    {w : Window ν} (hfolded : Folded repository rules ws windows)
    (h : repository.upsert rules windows w = .ok windows') :
    windows'.total ResultWindow.count = windows.total ResultWindow.count + w.count := by
  rcases upsert_cases h with ⟨hnone, rfl⟩ | ⟨existing, hold, hcanonical, rfl⟩
  · rw [Dict.total_set_of_notMem (Dict.get?_eq_none.mp hnone)]
    rfl
  · obtain ⟨v, hv, hdigest⟩ := hfolded.known _ _ hold
    have hrow := hfolded.row v hv
    rw [hdigest, hold] at hrow
    obtain ⟨c, hc, rfl⟩ := Option.map_eq_some_iff.mp hrow.symm
    have hidentity : c.identity = (core w).identity :=
      (identity_mergedWindows hc).trans hcanonical
    have hmerged : ((mergeTemplateWindows [c, core w]).headD (core w)).count = c.count + w.count := by
      rw [mergeTemplateWindows_pair hidentity]
      rfl
    have hset : ∀ row : ResultWindow ν σ, row.count = c.count + w.count →
        (windows.set (repository.digest w.identity) row).total ResultWindow.count =
          windows.total ResultWindow.count + w.count := by
      intro row hrow
      have htotal := Dict.total_set_of_get? hold row ResultWindow.count
      have hbefore : (resultWindow rules v.identity c (membersOf v.identity ws)).count = c.count := rfl
      rw [hrow, hbefore] at htotal
      omega
    exact hset _ hmerged

theorem total_foldWindows {ws : List (Window ν)} {windows : Dict String (ResultWindow ν σ)}
    (h : repository.foldWindows rules ws = .ok windows) :
    windows.total ResultWindow.count = (ws.map Window.count).sum := by
  induction ws using List.reverseRecOn generalizing windows with
  | nil =>
      obtain rfl := pure_eq_ok.mp h
      rfl
  | append_singleton ws w ih =>
      rw [foldWindows_append] at h
      obtain ⟨before, hbefore, h⟩ := bind_eq_ok.mp h
      obtain ⟨after, hupsert, h⟩ := bind_eq_ok.mp h
      obtain rfl := pure_eq_ok.mp h
      rw [total_upsert (folded_foldWindows hbefore) hupsert, ih hbefore, List.map_append,
        List.sum_append, List.map_singleton, List.sum_singleton]

/-! ## Ready generations -/

/-- What a single pass over the committed windows leaves. -/
structure FoldedOnce (repository : Repository ν) (rules : Rules σ)
    (items : List (BatchWindow (Window ν))) (g : ResultGeneration ν σ) : Prop where
  windows : repository.foldWindows rules (committedWindows items) = .ok g.windows
  counts : ∀ key row, g.windows.get? key = some row →
    row.count = occurrences row.canonical (committedWindows items)
  total : g.windows.total ResultWindow.count = ((committedWindows items).map Window.count).sum

variable [LinearOrder σ]

theorem Exact.foldedOnce {items : List (BatchWindow (Window ν))} {g : ResultGeneration ν σ}
    (h : Exact repository rules items g) (hready : g.status = .ready) :
    FoldedOnce repository rules items g := by
  have hwindows : repository.foldWindows rules (committedWindows items) = .ok g.windows := by
    unfold committedWindows
    rw [← Paging.passed_eq_ordered (h.ready hready).1]
    exact h.folded
  exact ⟨hwindows, fun key row hrow => (folded_foldWindows hwindows).count hrow,
    total_foldWindows hwindows⟩

omit [LinearOrder σ] in
theorem source_started (generated : String) (request : Request) (t : Tables ν σ) :
    (started generated request t).2.source = t.source := by
  unfold started
  cases hbegin : t.begin generated request with
  | error e => rfl
  | ok r =>
      obtain ⟨found, t'⟩ := r
      rcases begin_cases hbegin with ⟨generation, old, -, -, rfl, rfl⟩ |
        ⟨generation, old, -, rfl, rfl⟩ | ⟨-, rfl, rfl⟩
      · rfl
      · rfl
      · rfl

theorem source_advanced (t : Tables ν σ) (phase : Phase) :
    (advanced repository rules t phase).2.source = t.source := by
  unfold advanced
  cases phase with
  | folding job after =>
      dsimp only
      cases hpage : t.page repository rules job.generation after with
      | error e => rfl
      | ok r =>
          obtain ⟨o, t'⟩ := r
          rcases page_cases hpage with ⟨rfl, rfl, -⟩ | ⟨g, taken, rest, windows, hne, -, -, -, rfl, rfl⟩
          · rfl
          · rfl
  | scoring job after =>
      dsimp only
      unfold Tables.entityPage
      cases t.generations.get? job.generation with
      | none => rfl
      | some g =>
          dsimp only
          cases (Paging.page repository.entityText after repository.pageRows
              (Tables.entityKeys g)).getLast? with
          | none => rfl
          | some last => rfl
  | finishing job =>
      dsimp only
      cases hfinish : t.finish job.generation job.frontier job.request with
      | error e => rfl
      | ok r =>
          unfold Tables.finish at hfinish
          obtain ⟨-, hfinish⟩ := require_bind_eq_ok.mp hfinish
          obtain ⟨-, hfinish⟩ := require_bind_eq_ok.mp hfinish
          obtain ⟨-, hfinish⟩ := require_bind_eq_ok.mp hfinish
          split at hfinish <;> (cases hfinish; rfl)
  | idle => rfl
  | done generation => rfl
  | raised error => rfl

/-- No action touches the committed windows. -/
theorem items_act (s : State ν σ) (a : Action) :
    (act repository rules s a).tables.source.batchWindows = s.tables.source.batchWindows := by
  cases a with
  | begin w generated request =>
      exact congrArg TaskTables.batchWindows (source_started generated request s.tables)
  | advance w => exact congrArg TaskTables.batchWindows (source_advanced s.tables (s.phase w))
  | crash w => rfl
  | markInterrupted now => rfl
  | claim now token => exact batchWindows_claim now token _

theorem items_exec (s : State ν σ) (actions : List Action) :
    (exec (act repository rules) s actions).tables.source.batchWindows =
      s.tables.source.batchWindows := by
  induction actions generalizing s with
  | nil => rfl
  | cons a actions ih => exact (ih _).trans (items_act s a)

/-- Whoever builds, each window is folded at most once, and once when the generation is
ready. -/
theorem builders_fold_once (repository : Repository ν) (rules : Rules σ)
    (source : TaskTables (Window ν)) (hkeys : (source.batchWindows.map position).Nodup)
    (actions : List Action)
    (hstored : Along (act repository rules) UpToDate (State.initial source) actions)
    {generation : String} {g : ResultGeneration ν σ}
    (hg : (exec (act repository rules) (State.initial source) actions).tables.generations.get?
      generation = some g) :
    repository.foldWindows rules (foldedItems source.batchWindows g) = .ok g.windows ∧
      (g.status = .ready → FoldedOnce repository rules source.batchWindows g) := by
  have hcoordinated := coordinated_exec (coordinated_initial source hkeys) hstored
  have hexact := hcoordinated.exact generation g hg
  rw [items_exec] at hexact
  exact ⟨hexact.folded, hexact.foldedOnce⟩

/-! ## A worker that lost its lease -/

def textJson : Option String → Json
  | none => .null
  | some text => .str text

def timeJson : Option ℤ → Json
  | none => .null
  | some t => .num t

def entityTypeName : EntityType → String
  | .node => "node"
  | .pod => "pod"
  | .unknown => "unknown"

def EntityKey.json (key : EntityKey) : Json :=
  .arr [timeJson key.windowStart, timeJson key.windowEnd, textJson key.cluster,
    .str (entityTypeName key.entityType), .str key.entityId]

theorem EntityKey.dumps_injective : Function.Injective fun key => Json.dumps (EntityKey.json key) := by
  intro a b h
  have hjson := Json.chars_injective (String.ofList_inj.mp h)
  obtain ⟨astart, aend, acluster, atype, aid⟩ := a
  obtain ⟨bstart, bend, bcluster, btype, bid⟩ := b
  simp only [EntityKey.json, Json.arr.injEq, List.cons.injEq, Json.str.injEq, and_true] at hjson
  obtain ⟨hstart, hend, hcluster, htype, rfl⟩ := hjson
  have htime : ∀ s t, timeJson s = timeJson t → s = t := by
    intro s t hst
    cases s <;> cases t <;> simp_all [timeJson]
  have htext : ∀ s t, textJson s = textJson t → s = t := by
    intro s t hst
    cases s <;> cases t <;> simp_all [textJson]
  have hname : ∀ s t, entityTypeName s = entityTypeName t → s = t := by
    intro s t hst
    cases s <;> cases t <;> simp_all [entityTypeName]
  rw [htime _ _ hstart, htime _ _ hend, htext _ _ hcluster, hname _ _ htype]

/-- Canonical keys as texts, and windows of the given bytes. -/
def textual (bytes : ℕ) : Repository ν where
  digest k := Json.dumps (.arr [(entityKeyOf k).json, textJson k.component, textJson k.templateHash,
    textJson k.sourceType, textJson k.semanticExtractorVersion,
    .obj (k.semanticDictionaryVersions.map fun version => (version.1, .str version.2)),
    textJson k.riskType])
  entityText key := Json.dumps key.json
  size _ := bytes
  pageRows := 100
  entityText_injective := EntityKey.dumps_injective
  entityText_ne_empty key h := by
    have hchars : Json.chars key.json = [] := String.ofList_inj.mp h
    simp [EntityKey.json, Json.chars] at hchars
  pageRows_pos := by decide

def countRules : Rules ℕ where
  scoreWindow _ _ _ count := min 100 count
  total peak extra := min 100 (peak + extra)
  levelOf score := if 90 ≤ score then .critical else if 70 ≤ score then .high
    else if 40 ≤ score then .medium else .low

def failedOnce : Window Unit where
  windowStart := none
  windowEnd := none
  timeQuality := .unknown
  cluster := some "c"
  entityType := .node
  entityId := "n"
  sourceType := none
  component := some "systemd"
  severity := none
  templateHash := some "h"
  template := some "<SYSTEMD_UNIT> failed"
  count := 1
  severityDistribution := {"UNKNOWN"}
  firstSeen := none
  lastSeen := none
  samples := []
  affectedNamespaces := ∅
  affectedPods := ∅
  entityKeys := ∅
  entityRelations := ∅
  semanticFields := 0
  semanticTags := ∅
  typedParameters := 0
  semanticExtractorVersion := none
  semanticDictionaryVersions := []
  riskSemantic := none

/-- A task with one committed batch of one window. -/
def committedOnce : TaskTables (Window Unit) :=
  { (newTables (newTask "t" "now" ⟨"file", [], []⟩ "config") : TaskTables (Window Unit)) with
    commits := [⟨"b", fileCursor 1 1, [], "now", "", none⟩]
    batchWindows := [⟨"b", 0, failedOnce⟩] }

def evidenceOnce : PrefixEvidence where
  taskId := "t"
  frontier := SourceCursor.empty
  committedBatches := 1
  recordCount := 1
  resultCompleteness := "complete"
  manifestHistory := "legacy_unknown"
  summaryUnknownFields := []
  summaryInvalidFields := []
  evidenceDigest := "digest"

/-- One builder takes over from another that is gone. -/
def takenOver : List Action :=
  [.claim "now" "a", .begin 0 "g" ⟨"rules", evidenceOnce, "a"⟩, .advance 0, .crash 0,
    .markInterrupted "now", .claim "now" "b", .begin 1 "h" ⟨"rules", evidenceOnce, "b"⟩,
    .advance 1, .advance 1, .advance 1, .advance 1]

/-- The builder that lost its lease is not gone. -/
def overlapping : List Action :=
  [.claim "now" "a", .begin 0 "g" ⟨"rules", evidenceOnce, "a"⟩, .markInterrupted "now",
    .claim "now" "b", .begin 1 "h" ⟨"rules", evidenceOnce, "b"⟩, .advance 0, .advance 1,
    .advance 1, .advance 1, .advance 1, .advance 1]

theorem builders_fold_once_taken_over :
    ∃ g, (exec (act (textual 512) countRules) (State.initial committedOnce)
        takenOver).tables.generations.get? "g" = some g ∧ g.status = .ready ∧
      FoldedOnce (textual 512) countRules committedOnce.batchWindows g := by
  have hready : ((exec (act (textual 512) countRules) (State.initial committedOnce)
      takenOver).tables.generations.get? "g").map ResultGeneration.status = some .ready := by
    decide +kernel
  obtain ⟨g, hg, hstatus⟩ := Option.map_eq_some_iff.mp hready
  exact ⟨g, hg, hstatus, (builders_fold_once (textual 512) countRules committedOnce
    (by decide +kernel) takenOver (by decide +kernel) hg).2 hstatus⟩

/-- Two builders fold one window twice, and the second calls the generation ready. -/
theorem overlapping_builders_fold_twice :
    ¬ ∀ generation g, (exec (act (textual 512) countRules) (State.initial committedOnce)
        overlapping).tables.generations.get? generation = some g → g.status = .ready →
      FoldedOnce (textual 512) countRules committedOnce.batchWindows g := by
  intro h
  have htwice : ((exec (act (textual 512) countRules) (State.initial committedOnce)
      overlapping).tables.generations.get? "g").map
        (fun g => (g.status, g.windows.total ResultWindow.count)) = some (.ready, 2) := by
    decide +kernel
  obtain ⟨g, hg, hvalues⟩ := Option.map_eq_some_iff.mp htwice
  obtain ⟨hstatus, htotal⟩ := Prod.mk.inj hvalues
  have honce := (h "g" g hg hstatus).total
  rw [htotal] at honce
  exact absurd honce (by decide +kernel)

end LogRisk.Results
