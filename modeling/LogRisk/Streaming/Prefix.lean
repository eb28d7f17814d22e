import LogRisk.Library.Paging
import LogRisk.Streaming.Run

/-!
# The committed prefix

`require_complete_prefix` reads the commits of a task back in the order of their
commit instants and window ids, and demands what the writer should have left: an
unbroken chain of cursors, payload hashes that fit the stored windows, and
counters that add up.
-/

namespace LogRisk.Streaming

open LogRisk.Library LogRisk.Library.Transaction

variable {ω Λ ρ : Type}

def raiseIncomplete (message reason : String) : StreamingError :=
  .incomplete ("legacy_partial: " ++ message ++ "；请在原始文件仍可验证时显式创建新 Run 重算")
    reason

/-! ## The stored payload hash -/

/-- The text hashed so far and the number of windows in it. -/
abbrev HashState := List Char × ℕ

def hashRow (env : Env ω Λ ρ) (acc : HashState) (row : BatchWindow ω) : Result HashState := do
  require (row.itemIndex = acc.2)
    (.incomplete "legacy_partial: 批次窗口 item_index 不连续" "window_index")
  return (acc.1 ++ (if acc.2 = 0 then [] else [',']) ++
    Json.canonicalChars (env.windowJson row.window), acc.2 + 1)

def rowIndex (row : BatchWindow ω) : ℤ := row.itemIndex

def hashPageRows : ℕ := 250

/-- The loop over the pages of a batch.  `fuel` bounds the number of pages. -/
def hashPages (env : Env ω Λ ρ) (rows : List (BatchWindow ω)) :
    ℕ → ℤ → HashState → Result HashState
  | 0, _, acc => .ok acc
  | fuel + 1, after, acc =>
      match Paging.page rowIndex after hashPageRows rows with
      | [] => .ok acc
      | row :: rest => do
          let acc ← (row :: rest).foldlM (hashRow env) acc
          hashPages env rows fuel (rowIndex ((row :: rest).getLast (by simp))) acc

def batchRows (t : TaskTables ω) (windowId : String) : List (BatchWindow ω) :=
  t.batchWindows.filter fun row => row.windowId == windowId

/-- The payload hash recomputed from the stored windows, and their number. -/
def storedPayloadHash (env : Env ω Λ ρ) (t : TaskTables ω) (row : CommitRow) :
    Result (String × ℕ) := do
  let rows := batchRows t row.windowId
  let text := "\x7b\"cursor\":".toList ++ Json.canonicalChars row.cursor.toJson ++
    ",\"summary\":".toList ++ Json.canonicalChars (.obj row.summary) ++ ",\"windows\":[".toList
  let acc ← hashPages env rows (rows.length + 1) (-1) (text, 0)
  return (env.sha256 (String.ofList (acc.1 ++ "]\x7d".toList)), acc.2)

/-! ## Fields no summary supplied -/

def summedFields : List String :=
  ["record_count", "template_count", "unknown_template_count", "risk_semantic_matches",
    "template_event_count", "partition_count"]

def requiredSummaryFields : List String :=
  summedFields ++ ["worker_count", "parallel", "node_risk_enabled", "process_start_method"]

def isNull : Json → Bool
  | .null => true
  | _ => false

/-- A value that is neither missing nor of the type its field has. -/
def isInvalidField (key : String) (value : Json) : Bool :=
  !isNull value &&
    (if key = "process_start_method" then !isStartMethod value
      else if summaryBooleanFields.contains key then !Json.isBool value
      else (Json.nonnegativeInt? value).isNone)

def sortedNames (names : List String) : List String := names.insertionSort (· ≤ ·)

/-- The required fields some commit lacks. -/
def unknownFields (commits : List CommitRow) : List String :=
  sortedNames (requiredSummaryFields.filter fun key =>
    commits.any fun row => isNull (Json.field key row.summary))

def invalidFields (commits : List CommitRow) : List String :=
  sortedNames (requiredSummaryFields.filter fun key =>
    commits.any fun row => isInvalidField key (Json.field key row.summary))

/-! ## Reading the commits -/

structure PrefixState where
  digest : List Char
  commitCount : ℕ
  recordCount : ℕ
  previousCursor : SourceCursor
  manifestUnknown : Bool
  lastManifest : Option Manifest

def PrefixState.start : PrefixState := ⟨[], 0, 0, SourceCursor.empty, false, none⟩

/-- `str(manifest.get("generation") or "")` and `files` is a mapping. -/
def Manifest.WellFormed (m : Manifest) : Prop := m.generation ≠ "" ∧ m.files.isSome

instance (m : Manifest) : Decidable m.WellFormed := inferInstanceAs (Decidable (_ ∧ _))

/-- The state after a commit row was read and found in order. -/
def PrefixState.read (acc : PrefixState) (row : CommitRow) (records : ℕ) : PrefixState where
  digest := acc.digest ++ row.windowId.toList ++ row.payloadHash.toList ++
    Json.chars row.cursor.toJson
  commitCount := acc.commitCount + 1
  recordCount := acc.recordCount + records
  previousCursor := row.cursor
  manifestUnknown := acc.manifestUnknown || row.stateManifest.isNone
  lastManifest := row.stateManifest

def prefixStep (env : Env ω Λ ρ) (t : TaskTables ω) (acc : PrefixState) (row : CommitRow) :
    Result PrefixState := do
  let value ← orFail (Json.nonnegativeInt? (Json.field "record_count" row.summary))
    (raiseIncomplete "批摘要缺少可信 record_count" "record_count")
  require (cursorIsAtLeast row.cursor acc.previousCursor)
    (raiseIncomplete "提交批次的来源前沿不单调" "frontier")
  require (row.payloadHash ≠ "") (raiseIncomplete "历史批次缺少 payload hash" "legacy_hash")
  let (actualHash, windowCount) ← storedPayloadHash env t row
  require (actualHash = row.payloadHash)
    (raiseIncomplete "已提交窗口与 payload hash 不一致" "payload_hash")
  require (∀ n ∈ Json.nonnegativeInt? (Json.field "template_count" row.summary), n = windowCount)
    (raiseIncomplete "批摘要窗口数与持久事实不一致" "window_count")
  require (∀ m ∈ row.stateManifest, m.WellFormed)
    (raiseIncomplete "批次状态 manifest 无效" "manifest")
  return acc.read row value

/-- `ORDER BY committed_at, window_id`. -/
def commitKey (row : CommitRow) : String ×ₗ String := toLex (row.committedAt, row.windowId)

def requireCompletePrefix (env : Env ω Λ ρ) (taskId : String) (t : TaskTables ω) :
    Result PrefixEvidence := do
  let acc ← (Paging.ordered commitKey t.commits).foldlM (prefixStep env t) PrefixState.start
  let task := t.task
  require (acc.commitCount = 0 → task.cursor = SourceCursor.empty ∧ task.windowsCommitted = 0 ∧
      task.recordsProcessed = 0 ∧ task.pendingExternalCommit = none ∧ task.minerGeneration = none)
    (raiseIncomplete "无提交批次的任务包含非初始前沿" "cursor_only")
  require (acc.commitCount ≠ 0 → task.cursor = acc.previousCursor)
    (raiseIncomplete "任务来源前沿与最后提交批次不一致" "frontier")
  require (∀ m ∈ acc.lastManifest, task.minerGeneration = some m)
    (raiseIncomplete "任务 miner generation 与最后提交批次不一致" "manifest_frontier")
  require (task.windowsCommitted = acc.commitCount)
    (raiseIncomplete "任务批次数与持久提交不一致" "commit_count")
  require (0 ≤ task.recordsProcessed ∧ task.recordsProcessed = acc.recordCount)
    (raiseIncomplete "任务记录数与持久提交不一致" "record_count")
  let digest := acc.digest ++ Json.chars task.cursor.toJson ++ (toString acc.commitCount).toList ++
    (toString acc.recordCount).toList
  return {
    taskId := taskId
    frontier := task.cursor
    committedBatches := acc.commitCount
    recordCount := acc.recordCount
    resultCompleteness := "complete"
    manifestHistory := if acc.manifestUnknown then "legacy_unknown" else "bound"
    summaryUnknownFields := unknownFields t.commits
    summaryInvalidFields := invalidFields t.commits
    evidenceDigest := env.sha256 (String.ofList digest) }

/-! ## The stored hash is the hash of the payload -/

/-- The rows a commit stores for its windows. -/
def windowRows (windowId : String) (start : ℕ) (windows : List ω) : List (BatchWindow ω) :=
  (windows.zipIdx start).map fun item => ⟨windowId, item.2, item.1⟩

theorem windowRows_cons (windowId : String) (start : ℕ) (window : ω) (windows : List ω) :
    windowRows windowId start (window :: windows) =
      ⟨windowId, start, window⟩ :: windowRows windowId (start + 1) windows := rfl

theorem le_rowIndex_windowRows {windowId : String} {start : ℕ} {windows : List ω}
    {row : BatchWindow ω} (h : row ∈ windowRows windowId start windows) :
    (start : ℤ) ≤ rowIndex row := by
  induction windows generalizing start with
  | nil => cases h
  | cons window windows ih =>
      rw [windowRows_cons, List.mem_cons] at h
      rcases h with rfl | h
      · exact le_refl _
      · have hle := ih h
        push_cast at hle
        omega

theorem pairwise_windowRows (windowId : String) (start : ℕ) (windows : List ω) :
    (windowRows windowId start windows).Pairwise fun a b => rowIndex a < rowIndex b := by
  induction windows generalizing start with
  | nil => exact .nil
  | cons window windows ih =>
      rw [windowRows_cons]
      refine .cons (fun row hrow => ?_) (ih (start + 1))
      have hle := le_rowIndex_windowRows hrow
      have hhead : rowIndex (⟨windowId, start, window⟩ : BatchWindow ω) = start := rfl
      push_cast at hle
      omega

theorem remaining_windowRows (windowId : String) (windows : List ω) :
    Paging.remaining rowIndex (-1) (windowRows windowId 0 windows) =
      windowRows windowId 0 windows := by
  rw [Paging.remaining_eq_ordered fun row hrow => by have h := le_rowIndex_windowRows hrow; omega]
  exact List.Pairwise.insertionSort_eq
    ((pairwise_windowRows windowId 0 windows).imp fun h => h.le)

/-- Page by page is row by row. -/
theorem hashPages_eq (env : Env ω Λ ρ) {rows : List (BatchWindow ω)}
    (hkeys : (rows.map rowIndex).Nodup) (fuel : ℕ) (after : ℤ) (acc : HashState)
    (hfuel : (Paging.remaining rowIndex after rows).length < fuel) :
    hashPages env rows fuel after acc =
      (Paging.remaining rowIndex after rows).foldlM (hashRow env) acc := by
  induction fuel generalizing after acc with
  | zero => omega
  | succ fuel ih =>
      have hsplit := Paging.page_append_drop rowIndex after hashPageRows rows
      rw [hashPages]
      split
      · rename_i hpage
        rw [(Paging.page_eq_nil_iff (by decide)).mp hpage]
        rfl
      · rename_i row rest hpage
        rw [hpage] at hsplit
        have hrest := Paging.remaining_prefix_append hkeys (List.cons_ne_nil row rest) hsplit
        conv_rhs => rw [hsplit, List.foldlM_append]
        refine bind_congr fun acc' => ?_
        have hlength := congrArg List.length hsplit
        rw [List.length_append, List.length_cons] at hlength
        rw [ih _ _ (by rw [hrest]; omega), hrest]

theorem hashRows_windowRows (env : Env ω Λ ρ) (windowId : String) (windows : List ω)
    (text : List Char) (start : ℕ) :
    (windowRows windowId start windows).foldlM (hashRow env) (text, start) =
      .ok (text ++ Json.streamChars (decide (start = 0)) (windows.map env.windowJson),
        start + windows.length) := by
  induction windows generalizing text start with
  | nil => simp [windowRows, Json.streamChars, pure, Except.pure]
  | cons window windows ih =>
      rw [windowRows_cons, List.foldlM_cons, hashRow, require_of rfl]
      refine (ih _ (start + 1)).trans ?_
      simp [Json.streamChars]
      omega

theorem sorted_payload (cursor windows summary : Json) :
    Json.sorted (.obj [("cursor", cursor), ("windows", windows), ("summary", summary)]) =
      .obj [("cursor", cursor.sorted), ("summary", summary.sorted),
        ("windows", windows.sorted)] := by
  have hwindows : ¬("windows" : String) ≤ "summary" := by decide
  have hcursor : ("cursor" : String) ≤ "summary" := by decide
  simp [Json.sorted, Json.sortedFields, Json.insertField, hwindows, hcursor]

theorem canonicalChars_payloadJson (env : Env ω Λ ρ) (cursor : SourceCursor) (windows : List ω)
    (summary : List (String × Json)) :
    (payloadJson env cursor windows summary).canonicalChars =
      "\x7b\"cursor\":".toList ++ Json.canonicalChars cursor.toJson ++
        ",\"summary\":".toList ++ Json.canonicalChars (.obj summary) ++
        ",\"windows\":[".toList ++ Json.streamChars true (windows.map env.windowJson) ++
        "]\x7d".toList := by
  have hitems := Json.canonicalChars_arr (windows.map env.windowJson)
  rw [Json.canonicalChars] at hitems
  have hcursor : Json.strChars "cursor" = "\"cursor\"".toList := by decide
  have hsummary : Json.strChars "summary" = "\"summary\"".toList := by decide
  have hwindows : Json.strChars "windows" = "\"windows\"".toList := by decide
  rw [payloadJson, Json.canonicalChars, sorted_payload]
  simp only [Json.chars, Json.fieldsChars, hitems, hcursor, hsummary, hwindows,
    Json.canonicalChars]
  simp

/-- Reading the stored windows back in pages gives the hash the commit wrote. -/
theorem storedPayloadHash_eq {env : Env ω Λ ρ} {t : TaskTables ω} {row : CommitRow}
    {windows : List ω} (h : batchRows t row.windowId = windowRows row.windowId 0 windows) :
    storedPayloadHash env t row =
      .ok (payloadHash env row.cursor windows row.summary, windows.length) := by
  have hkeys : ((windowRows row.windowId 0 windows).map rowIndex).Nodup :=
    List.pairwise_map.mpr ((pairwise_windowRows _ _ _).imp fun h => h.ne)
  rw [storedPayloadHash, h, hashPages_eq env hkeys _ _ _ (by rw [remaining_windowRows]; omega),
    remaining_windowRows, hashRows_windowRows]
  rw [payloadHash, Json.canonical, canonicalChars_payloadJson]
  simp [bind, Except.bind, pure, Except.pure]

end LogRisk.Streaming
