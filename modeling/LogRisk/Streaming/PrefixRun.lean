import LogRisk.Streaming.Prefix
import Mathlib.Algebra.GroupWithZero.Nat

/-!
# When the committed prefix is accepted

The writer orders commits by cursor, the reader by commit instant and window id.
In a run where every new commit comes after the earlier ones of its task in the
reader's order as well, and says truly how many windows it stores, the reader
accepts what is stored.
-/

namespace LogRisk.Streaming

open LogRisk.Library LogRisk.Library.Transaction

variable {ω Λ ρ : Type}

/-! ## The summary of a new commit -/

theorem checkAll_eq_ok {check : String → Bool} {message : String → String} {keys : List String}
    (h : checkAll check message keys = .ok ()) : ∀ key ∈ keys, check key = true := by
  induction keys with
  | nil => simp
  | cons key rest ih =>
      obtain ⟨hkey, hrest⟩ := require_bind_eq_ok.mp h
      simpa [hkey] using ih hrest

theorem isSome_of_validateNewSummary {summary : List (String × Json)}
    (hversion : Json.field "summary_schema_version" summary = .num 2)
    (h : validateNewSummary summary = .ok ()) {key : String}
    (hkey : key ∈ summaryIntegerFields) :
    (Json.nonnegativeInt? (Json.field key summary)).isSome := by
  rw [validateNewSummary, hversion] at h
  obtain ⟨_, hintegers, _⟩ := bind_eq_ok.mp (require_bind_eq_ok.mp h).2
  exact checkAll_eq_ok hintegers key hkey

theorem intOrZero_of_nonnegativeInt? {j : Json} {n : ℕ} (h : Json.nonnegativeInt? j = some n) :
    intOrZero j = .ok (n : ℤ) := by
  cases j with
  | num m =>
      simp only [Json.nonnegativeInt?, Option.ite_none_right_eq_some, Option.some.injEq] at h
      obtain ⟨hm, rfl⟩ := h
      simp [intOrZero, hm]
  | _ => cases h

def CommitRow.recordCount (row : CommitRow) : ℕ :=
  (Json.nonnegativeInt? (Json.field "record_count" row.summary)).getD 0

/-! ## The condition on a commit -/

/-- A version 2 summary that names the number of windows stored, and a well-formed
manifest, if any. -/
structure VersionTwoCommit (request : CommitRequest ω ρ) : Prop where
  versionTwo : Json.field "summary_schema_version" request.summary = .num 2
  windowCount : Json.nonnegativeInt? (Json.field "template_count" request.summary) =
    some (request.windows.getD request.templates).length
  manifest : ∀ m ∈ request.minerGeneration, m.WellFormed

/-- Such a commit that also comes last in the reader's order. -/
structure OrderedCommit (now : String) (request : CommitRequest ω ρ) (t : TaskTables ω) : Prop
    extends VersionTwoCommit request where
  later : ∀ row ∈ t.commits, commitKey row < toLex (now, request.windowId)

def CommitsOrdered (store : Store ω Λ) (call : Call ω ρ) : Prop :=
  ∀ now taskId request t, call = .commitWindow now taskId request →
    store.tasks.get? taskId = some t → t.hasCommit request.windowId = none →
      OrderedCommit now request t

/-! ## The invariant -/

/-- What the reader has seen after all commits agrees with the task. -/
structure PrefixState.Matches (acc : PrefixState) (t : TaskTables ω) : Prop where
  commitCount : acc.commitCount = t.commits.length
  recordCount : acc.recordCount = (t.commits.map CommitRow.recordCount).sum
  cursor : acc.previousCursor = t.task.cursor
  manifest : ∀ m ∈ acc.lastManifest, t.task.minerGeneration = some m

structure PrefixInv (env : Env ω Λ ρ) (t : TaskTables ω) : Prop where
  ordered : t.commits.Pairwise fun a b => commitKey a < commitKey b
  known : ∀ row ∈ t.batchWindows, row.windowId ∈ t.commits.map CommitRow.windowId
  accepted : ∃ acc, t.commits.foldlM (prefixStep env t) PrefixState.start = .ok acc ∧
    acc.Matches t
  last : ∀ row ∈ t.commits.getLast?, row.cursor = t.task.cursor
  windowsCommitted : t.task.windowsCommitted = t.commits.length
  recordsProcessed : t.task.recordsProcessed = (t.commits.map CommitRow.recordCount).sum
  manifest : ∀ m ∈ t.task.minerGeneration, m.WellFormed
  initial : t.commits = [] → t.task.cursor = SourceCursor.empty ∧
    t.task.pendingExternalCommit = none ∧ t.task.minerGeneration = none

theorem PrefixInv.newTables (env : Env ω Λ ρ) (taskId now configHash : String)
    (descriptor : SourceDescriptor) :
    PrefixInv env (newTables (newTask taskId now descriptor configHash)) where
  ordered := .nil
  known := by simp [Streaming.newTables, TaskTables.appendEvent]
  accepted := ⟨PrefixState.start, rfl, rfl, rfl, rfl, by simp [PrefixState.start]⟩
  last := by simp [Streaming.newTables, TaskTables.appendEvent]
  windowsCommitted := rfl
  recordsProcessed := rfl
  manifest m hm := by cases hm
  initial _ := ⟨rfl, rfl, rfl⟩

/-- Reading a commit depends on the rows of its windows only. -/
theorem prefixStep_congr {env : Env ω Λ ρ} {t t' : TaskTables ω} {row : CommitRow}
    (h : batchRows t' row.windowId = batchRows t row.windowId) (acc : PrefixState) :
    prefixStep env t' acc row = prefixStep env t acc row := by
  simp only [prefixStep, storedPayloadHash, h]

theorem foldlM_prefixStep_congr {env : Env ω Λ ρ} {t t' : TaskTables ω} {rows : List CommitRow}
    (h : ∀ row ∈ rows, batchRows t' row.windowId = batchRows t row.windowId)
    (acc : PrefixState) :
    rows.foldlM (prefixStep env t') acc = rows.foldlM (prefixStep env t) acc := by
  induction rows generalizing acc with
  | nil => rfl
  | cons row rest ih =>
      rw [List.foldlM_cons, List.foldlM_cons, prefixStep_congr (h row (List.mem_cons_self ..))]
      exact bind_congr fun acc' => ih (fun r hr => h r (List.mem_cons_of_mem _ hr)) acc'

theorem PrefixInv.sameProgress {env : Env ω Λ ρ} {t t' : TaskTables ω} (hinv : PrefixInv env t)
    (h : t.SameProgress t') : PrefixInv env t' where
  ordered := h.commits ▸ hinv.ordered
  known := by
    rw [h.commits, h.batchWindows]
    exact hinv.known
  accepted := by
    obtain ⟨acc, hacc, hcount, hrecords, hcursor, hmanifest⟩ := hinv.accepted
    refine ⟨acc, ?_, ?_, ?_, ?_, ?_⟩
    · rw [h.commits]
      refine (foldlM_prefixStep_congr (fun row _ => ?_) _).trans hacc
      rw [batchRows, batchRows, h.batchWindows]
    · rw [hcount, h.commits]
    · rw [hrecords, h.commits]
    · rw [hcursor, h.cursor]
    · rw [h.minerGeneration]
      exact hmanifest
  last := by
    rw [h.commits, h.cursor]
    exact hinv.last
  windowsCommitted := by rw [h.windowsCommitted, h.commits, hinv.windowsCommitted]
  recordsProcessed := by rw [h.recordsProcessed, h.commits, hinv.recordsProcessed]
  manifest := h.minerGeneration ▸ hinv.manifest
  initial hempty := by
    obtain ⟨hcursor, hpending, hmanifest⟩ := hinv.initial (h.commits ▸ hempty)
    refine ⟨h.cursor.trans hcursor, ?_, h.minerGeneration.trans hmanifest⟩
    rcases h.pending with hsame | hnone
    · exact hsame.trans hpending
    · exact hnone

/-! ## A new commit -/

theorem batchRows_insertCommit_self {now : String} {request : CommitRequest ω ρ}
    {prepared : PreparedCommit ω} {n : ℤ} {t : TaskTables ω}
    (habsent : ∀ row ∈ t.batchWindows, row.windowId ≠ request.windowId) :
    batchRows (t.insertCommit now request prepared n) request.windowId =
      windowRows request.windowId 0 prepared.windows := by
  have hold : t.batchWindows.filter (fun row => row.windowId == request.windowId) = [] := by
    refine List.filter_eq_nil_iff.mpr fun row hrow => ?_
    simpa using habsent row hrow
  have hnew : ∀ row ∈ windowRows request.windowId 0 prepared.windows,
      row.windowId = request.windowId := by
    intro row hrow
    obtain ⟨item, _, rfl⟩ := List.mem_map.mp hrow
    rfl
  change ((t.batchWindows ++ windowRows request.windowId 0 prepared.windows).filter _) = _
  rw [List.filter_append, hold, List.nil_append]
  exact List.filter_eq_self.mpr fun row hrow => by simpa using hnew row hrow

theorem batchRows_insertCommit_of_ne {now windowId : String} {request : CommitRequest ω ρ}
    {prepared : PreparedCommit ω} {n : ℤ} {t : TaskTables ω} (hne : windowId ≠ request.windowId) :
    batchRows (t.insertCommit now request prepared n) windowId = batchRows t windowId := by
  have hnew : (windowRows request.windowId 0 prepared.windows).filter
      (fun row => row.windowId == windowId) = [] := by
    refine List.filter_eq_nil_iff.mpr fun row hrow => ?_
    obtain ⟨item, _, rfl⟩ := List.mem_map.mp hrow
    simpa using hne.symm
  change ((t.batchWindows ++ windowRows request.windowId 0 prepared.windows).filter _) = _
  rw [List.filter_append, hnew, List.append_nil]
  rfl

theorem length_of_mapM {f : ω → Result ω} {xs ys : List ω} (h : xs.mapM f = .ok ys) :
    ys.length = xs.length := by
  induction xs generalizing ys with
  | nil =>
      cases h
      rfl
  | cons x xs ih =>
      rw [List.mapM_cons] at h
      obtain ⟨y, _, h⟩ := bind_eq_ok.mp h
      obtain ⟨rest, hrest, hpure⟩ := bind_eq_ok.mp h
      cases hpure
      simp [ih hrest]

/-- The commit row a request leaves behind. -/
def commitRow (now : String) (request : CommitRequest ω ρ) (prepared : PreparedCommit ω)
    (t : TaskTables ω) : CommitRow where
  windowId := request.windowId
  cursor := request.cursor
  summary := request.summary
  committedAt := now
  payloadHash := prepared.payloadHash
  stateManifest := request.minerGeneration <|> t.task.minerGeneration

/-- The reader accepts a commit whose parts all fit. -/
theorem prefixStep_eq_ok {env : Env ω Λ ρ} {t : TaskTables ω} {acc : PrefixState}
    {row : CommitRow} {records windowCount : ℕ}
    (hrecords : Json.nonnegativeInt? (Json.field "record_count" row.summary) = some records)
    (hcursor : cursorIsAtLeast row.cursor acc.previousCursor = true)
    (hhash : row.payloadHash ≠ "")
    (hstored : storedPayloadHash env t row = .ok (row.payloadHash, windowCount))
    (hcount : ∀ n ∈ Json.nonnegativeInt? (Json.field "template_count" row.summary),
      n = windowCount)
    (hmanifest : ∀ m ∈ row.stateManifest, m.WellFormed) :
    prefixStep env t acc row = .ok (acc.read row records) := by
  rw [prefixStep, hrecords, hstored, require_of hcursor, require_of hhash, require_of hmanifest]
  exact bind_eq_ok.mpr ⟨records, rfl, bind_eq_ok.mpr ⟨(), rfl, bind_eq_ok.mpr ⟨(), rfl,
    bind_eq_ok.mpr ⟨_, rfl, bind_eq_ok.mpr ⟨(), require_of rfl, bind_eq_ok.mpr ⟨(),
      require_of hcount, bind_eq_ok.mpr ⟨(), rfl, rfl⟩⟩⟩⟩⟩⟩⟩

/-- The records a version 2 summary counts. -/
theorem recordCount_of_versionTwo {env : Env ω Λ ρ} {request : CommitRequest ω ρ}
    {prepared : PreparedCommit ω} (hprepared : prepareCommit env request = .ok prepared)
    (hversion : Json.field "summary_schema_version" request.summary = .num 2) :
    ∃ records, Json.nonnegativeInt? (Json.field "record_count" request.summary) =
      some records :=
  Option.isSome_iff_exists.mp (isSome_of_validateNewSummary hversion
    (prepareCommit_cases hprepared).2.1 (by decide))

theorem PrefixInv.newCommit {env : Env ω Λ ρ} {call : Call ω ρ} {taskId now : String}
    {request : CommitRequest ω ρ} {prepared : PreparedCommit ω} {t t' : TaskTables ω}
    (hinv : PrefixInv env t) (hnew : NewCommit env call taskId now request prepared t t')
    (hordered : OrderedCommit now request t) : PrefixInv env t' := by
  obtain ⟨_, hleast, n, hn, rfl⟩ := TaskTables.commitNew_cases hnew.written
  obtain ⟨records, hrecords⟩ := recordCount_of_versionTwo hnew.hprepared hordered.versionTwo
  obtain rfl : n = records := by
    rw [intOrZero_of_nonnegativeInt? hrecords] at hn
    exact (Except.ok.inj hn).symm
  obtain ⟨_, _, hwindows, hhash⟩ := prepareCommit_cases hnew.hprepared
  obtain ⟨acc, hacc, hmatches⟩ := hinv.accepted
  have hids : ∀ row ∈ t.commits, row.windowId ≠ request.windowId := by
    intro row hrow heq
    exact TaskTables.hasCommit_eq_none.mp hnew.absent (heq ▸ List.mem_map_of_mem hrow)
  have hforeign : ∀ row ∈ t.batchWindows, row.windowId ≠ request.windowId := by
    intro row hrow heq
    exact TaskTables.hasCommit_eq_none.mp hnew.absent (heq ▸ hinv.known row hrow)
  have hmanifest : ∀ m ∈ request.minerGeneration <|> t.task.minerGeneration, m.WellFormed := by
    intro m hm
    cases hgiven : request.minerGeneration with
    | none =>
        rw [hgiven] at hm
        exact hinv.manifest m (by simpa using hm)
    | some g => exact hordered.manifest m (by simpa [hgiven] using hm)
  set row := commitRow now request prepared t with hrow
  set t' := t.insertCommit now request prepared records with ht'
  have hstored : storedPayloadHash env t' row = .ok (row.payloadHash, prepared.windows.length) := by
    rw [storedPayloadHash_eq (batchRows_insertCommit_self hforeign)]
    rw [hrow, commitRow, hhash]
  have hread : prefixStep env t' acc row = .ok (acc.read row records) := by
    refine prefixStep_eq_ok hrecords (hmatches.cursor.symm ▸ hleast) ?_ hstored ?_ hmanifest
    · rw [hrow, commitRow, hhash]
      exact env.sha256_ne_empty _
    · intro n hn
      rw [length_of_mapM hwindows]
      exact Option.some.inj (hn.symm.trans hordered.windowCount)
  have hcommits : t'.commits = t.commits ++ [row] := rfl
  have hrecord : row.recordCount = records := by
    simp [CommitRow.recordCount, hrow, commitRow, hrecords]
  refine ⟨?_, ?_, ⟨acc.read row records, ?_, ?_, ?_, rfl, fun _ hm => hm⟩, ?_, ?_, ?_, hmanifest,
    ?_⟩
  · rw [hcommits, List.pairwise_append]
    refine ⟨hinv.ordered, List.pairwise_singleton _ _, fun a ha b hb => ?_⟩
    rw [List.mem_singleton.mp hb]
    exact hordered.later a ha
  · intro window hwindow
    rw [hcommits, List.map_append, List.mem_append]
    rcases List.mem_append.mp hwindow with hold | hnewRow
    · exact .inl (hinv.known window hold)
    · obtain ⟨item, _, rfl⟩ := List.mem_map.mp hnewRow
      exact .inr (List.mem_singleton.mpr rfl)
  · rw [hcommits, List.foldlM_append,
      foldlM_prefixStep_congr fun r hr => batchRows_insertCommit_of_ne (hids r hr), hacc]
    exact bind_eq_ok.mpr ⟨acc, rfl, bind_eq_ok.mpr ⟨_, hread, rfl⟩⟩
  · rw [hcommits, List.length_append, ← hmatches.commitCount]
    rfl
  · rw [hcommits, List.map_append, List.sum_append, ← hmatches.recordCount]
    simp [PrefixState.read, hrecord]
  · rw [hcommits]
    simp [hrow, commitRow, ht', TaskTables.insertCommit, TaskTables.committedTask,
      TaskTables.appendEvent, TaskTables.task]
  · rw [hcommits, List.length_append]
    exact congrArg (· + 1) hinv.windowsCommitted
  · rw [hcommits, List.map_append, List.sum_append]
    have hsum : t'.task.recordsProcessed = t.task.recordsProcessed + (records : ℤ) := rfl
    rw [hsum, hinv.recordsProcessed]
    simp [hrecord]
  · intro hempty
    rw [hcommits] at hempty
    simp at hempty

/-! ## Runs -/

def StorePrefixInv (env : Env ω Λ ρ) (store : Store ω Λ) : Prop :=
  ∀ taskId t, store.tasks.get? taskId = some t → PrefixInv env t

theorem StorePrefixInv.apply {env : Env ω Λ ρ} {store : Store ω Λ} {call : Call ω ρ}
    (hinv : StorePrefixInv env store) (hordered : CommitsOrdered store call) :
    StorePrefixInv env (call.apply env store) := by
  intro taskId t' ht'
  have hstep := call.taskStep env store taskId
  rw [ht'] at hstep
  generalize ht : store.tasks.get? taskId = o at hstep
  cases o with
  | none =>
      cases hstep with
      | created => exact .newTables ..
  | some t =>
      obtain ⟨u, hu, hprogress⟩ := hstep.progress
      cases hu
      rcases hprogress with hsame | ⟨now, request, prepared, hnew⟩
      · exact (hinv taskId t ht).sameProgress hsame
      · exact (hinv taskId t ht).newCommit hnew
          (hordered now taskId request t hnew.hcall ht hnew.absent)

/-- The reader accepts what the invariant describes. -/
theorem PrefixInv.requireCompletePrefix {env : Env ω Λ ρ} {t : TaskTables ω}
    (hinv : PrefixInv env t) (taskId : String) :
    ∃ evidence, requireCompletePrefix env taskId t = .ok evidence ∧
      evidence.committedBatches = t.commits.length ∧
      evidence.recordCount = (t.commits.map CommitRow.recordCount).sum ∧
      evidence.frontier = t.task.cursor := by
  have hsorted : Paging.ordered commitKey t.commits = t.commits :=
    List.Pairwise.insertionSort_eq (hinv.ordered.imp fun h => h.le)
  obtain ⟨acc, hacc, hmatches⟩ := hinv.accepted
  have hcount : t.task.windowsCommitted = acc.commitCount :=
    hinv.windowsCommitted.trans hmatches.commitCount.symm
  have hrecords : t.task.recordsProcessed = acc.recordCount := by
    rw [hinv.recordsProcessed, hmatches.recordCount]
  have hinitial : acc.commitCount = 0 → t.task.cursor = SourceCursor.empty ∧
      t.task.windowsCommitted = 0 ∧ t.task.recordsProcessed = 0 ∧
      t.task.pendingExternalCommit = none ∧ t.task.minerGeneration = none := by
    intro hzero
    have hempty : t.commits = [] := by
      rw [← List.length_eq_zero_iff, ← hmatches.commitCount, hzero]
    obtain ⟨hcursor, hpending, hmanifest⟩ := hinv.initial hempty
    refine ⟨hcursor, hcount.trans hzero, ?_, hpending, hmanifest⟩
    rw [hinv.recordsProcessed, hempty]
    rfl
  rw [Streaming.requireCompletePrefix, hsorted, hacc]
  refine ⟨_, bind_eq_ok.mpr ⟨acc, rfl, bind_eq_ok.mpr ⟨(), require_of hinitial,
    bind_eq_ok.mpr ⟨(), require_of fun _ => hmatches.cursor.symm,
      bind_eq_ok.mpr ⟨(), require_of hmatches.manifest, bind_eq_ok.mpr ⟨(), require_of hcount,
        bind_eq_ok.mpr ⟨(), require_of ⟨by omega, hrecords⟩, rfl⟩⟩⟩⟩⟩⟩, ?_, ?_, rfl⟩
  · exact hmatches.commitCount
  · exact hmatches.recordCount

/-- After a run from the empty store whose new commits all meet the condition,
the committed prefix of every task is accepted and its evidence counts the
commits and their records and ends at the task's cursor, that of its last
commit. -/
theorem committed_prefix_accepted (env : Env ω Λ ρ) (ledger : Λ) (calls : List (Call ω ρ))
    (hrun : Along (Call.apply env) CommitsOrdered ⟨∅, ledger⟩ calls) (taskId : String)
    (t : TaskTables ω)
    (ht : (exec (Call.apply env) ⟨∅, ledger⟩ calls).tasks.get? taskId = some t) :
    ∃ evidence, requireCompletePrefix env taskId t = .ok evidence ∧
      evidence.committedBatches = t.commits.length ∧
      evidence.recordCount = (t.commits.map CommitRow.recordCount).sum ∧
      evidence.frontier = t.task.cursor ∧
      ∀ row ∈ t.commits.getLast?, row.cursor = evidence.frontier := by
  have hstart : StorePrefixInv env (⟨∅, ledger⟩ : Store ω Λ) := fun _ _ h => by cases h
  have hinv : StorePrefixInv env (exec (Call.apply env) ⟨∅, ledger⟩ calls) :=
    exec_invariant (fun _ _ hs hordered => hs.apply hordered) hstart hrun
  obtain ⟨evidence, hok, hbatches, hrecords, hfrontier⟩ :=
    (hinv taskId t ht).requireCompletePrefix taskId
  exact ⟨evidence, hok, hbatches, hrecords, hfrontier, fun row hrow =>
    ((hinv taskId t ht).last row hrow).trans hfrontier.symm⟩

/-! ## Commits with the same instant -/

/-- A row that is accepted lies ahead of the row before it. -/
theorem prefixStep_cursor {env : Env ω Λ ρ} {t : TaskTables ω} {acc acc' : PrefixState}
    {row : CommitRow} (h : prefixStep env t acc row = .ok acc') :
    cursorIsAtLeast row.cursor acc.previousCursor = true ∧ acc'.previousCursor = row.cursor := by
  obtain ⟨records, _, h⟩ := orFail_bind_eq_ok.mp h
  obtain ⟨hcursor, h⟩ := require_bind_eq_ok.mp h
  obtain ⟨_, h⟩ := require_bind_eq_ok.mp h
  obtain ⟨stored, _, h⟩ := bind_eq_ok.mp h
  obtain ⟨_, h⟩ := require_bind_eq_ok.mp h
  obtain ⟨_, h⟩ := require_bind_eq_ok.mp h
  obtain ⟨_, hpure⟩ := require_bind_eq_ok.mp h
  cases hpure
  exact ⟨hcursor, rfl⟩

/-- In the reader's order the cursors of an accepted prefix form a chain. -/
theorem chain_of_accepted {env : Env ω Λ ρ} {t : TaskTables ω} {rows : List CommitRow}
    {acc acc' : PrefixState} (h : rows.foldlM (prefixStep env t) acc = .ok acc') :
    List.IsChain (fun a b => cursorIsAtLeast b a = true)
      (acc.previousCursor :: rows.map CommitRow.cursor) := by
  induction rows generalizing acc with
  | nil => exact .singleton _
  | cons row rest ih =>
      rw [List.foldlM_cons] at h
      obtain ⟨next, hnext, hrest⟩ := bind_eq_ok.mp h
      obtain ⟨hcursor, hprevious⟩ := prefixStep_cursor hnext
      have hchain := ih hrest
      rw [hprevious] at hchain
      exact .cons_cons hcursor hchain

/-- What the writer's contract asks of a new commit: a version 2 summary and the
stored cursor as the expected one. -/
def CommitsExpected (store : Store ω Λ) (call : Call ω ρ) : Prop :=
  ∀ now taskId request t, call = .commitWindow now taskId request →
    store.tasks.get? taskId = some t → t.hasCommit request.windowId = none →
      VersionTwoCommit request ∧ request.expectedCursor = some t.task.cursor

/-- A version 2 summary of a batch without windows. -/
def emptySummary (records : ℤ) : List (String × Json) :=
  [("summary_schema_version", .num 2), ("record_count", .num records),
    ("template_count", .num 0), ("unknown_template_count", .num 0),
    ("risk_semantic_matches", .num 0), ("template_event_count", .num 0),
    ("partition_count", .num 1), ("worker_count", .num 1), ("parallel", .bool false),
    ("node_risk_enabled", .bool false), ("process_start_method", .str "not_applicable")]

def fileCommit (now windowId : String) (expected cursor : SourceCursor) : Call Unit Unit :=
  .commitWindow now "task"
    { windowId := windowId, cursor := cursor, templates := [], summary := emptySummary 1
      fencingToken := some "token", expectedCursor := some expected }

/-- A task commits a first and a second window. -/
def fileCalls (first second secondInstant : String) : List (Call Unit Unit) :=
  [.createOrLoad "now" "" ⟨"file", [], []⟩ "config" (some "task"),
    .claimTask "now" "token" "task",
    fileCommit "now" first SourceCursor.empty (fileCursor 10 2),
    fileCommit secondInstant second (fileCursor 10 2) (fileCursor 20 3)]

theorem committed_prefix_accepted_later :
    ∃ t evidence, (exec (Call.apply bareEnv) ⟨∅, ()⟩
        (fileCalls "b" "a" "soon")).tasks.get? "task" = some t ∧
      requireCompletePrefix bareEnv "task" t = .ok evidence ∧ evidence.committedBatches = 2 := by
  have hrun : Along (Call.apply bareEnv) CommitsOrdered ⟨∅, ()⟩ (fileCalls "b" "a" "soon") := by
    refine ⟨?_, ?_, ?_, ?_, trivial⟩ <;> rintro now taskId request t h ht - <;> cases h
    · cases ht
      exact ⟨⟨rfl, rfl, fun m hm => by cases hm⟩, by decide⟩
    · cases ht
      exact ⟨⟨rfl, rfl, fun m hm => by cases hm⟩, by decide⟩
  obtain ⟨evidence, hok, hbatches, _⟩ :=
    committed_prefix_accepted bareEnv () _ hrun "task" _ rfl
  exact ⟨_, evidence, rfl, hok, hbatches⟩

/-- With equal instants the reader takes the window ids for the order. -/
theorem prefix_rejected_on_equal_instants :
    ¬∀ calls : List (Call Unit Unit),
      Along (Call.apply bareEnv) CommitsExpected ⟨∅, ()⟩ calls → ∀ taskId t,
        (exec (Call.apply bareEnv) ⟨∅, ()⟩ calls).tasks.get? taskId = some t →
          ∃ evidence, requireCompletePrefix bareEnv taskId t = .ok evidence := by
  intro h
  have hrun : Along (Call.apply bareEnv) CommitsExpected ⟨∅, ()⟩ (fileCalls "b" "a" "now") := by
    refine ⟨?_, ?_, ?_, ?_, trivial⟩ <;> rintro now taskId request t h ht - <;> cases h
    · cases ht
      exact ⟨⟨rfl, rfl, fun m hm => by cases hm⟩, rfl⟩
    · cases ht
      exact ⟨⟨rfl, rfl, fun m hm => by cases hm⟩, rfl⟩
  obtain ⟨evidence, hok⟩ := h _ hrun "task" _ rfl
  obtain ⟨acc, hacc, _⟩ := bind_eq_ok.mp hok
  have hchain := chain_of_accepted hacc
  revert hchain
  decide

end LogRisk.Streaming
