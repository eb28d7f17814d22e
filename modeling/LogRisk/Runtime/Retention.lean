import LogRisk.Library.Paging
import LogRisk.Library.Text
import LogRisk.Library.Transaction
import Mathlib.Algebra.GroupWithZero.Nat
import Mathlib.Data.List.Infix
import Mathlib.Data.List.ReduceOption
import Mathlib.Data.Prod.Lex
import Mathlib.Data.String.Basic

/-!
# Retention

Rows of the artifact table name files under the state and the output directory.
A row that is old enough, has no protected type and belongs to no active task is
a candidate; the files of the candidates are removed, and the rows of those whose
file is gone are deleted.
-/

namespace LogRisk.Runtime

open LogRisk.Library LogRisk.Library.Transaction

/-- A resolved path: the names from the root down. -/
abbrev Path := List String

structure ArtifactRow where
  artifactId : String
  ownerType : String
  ownerId : String
  artifactType : String
  path : String
  sizeBytes : ℕ
  createdAt : String
deriving DecidableEq

structure TaskRow where
  taskId : String
  status : String
deriving DecidableEq

/-- The tables retention reads; an artifact id is a primary key. -/
structure Database where
  artifacts : List ArtifactRow
  featureJobs : List TaskRow := []
  inputJobs : List TaskRow := []
  streamingTasks : List TaskRow := []
  benchmarkRuns : List TaskRow := []
  replayRuns : List TaskRow := []
  distinct : (artifacts.map ArtifactRow.artifactId).Nodup

inductive Entry where
  | file (size : ℕ) (removable : Bool)
  | directory
deriving DecidableEq

/-- What lies under each path. -/
abbrev Files := Path → Option Entry

inductive RetentionError where
  /-- `expanduser` finds no home directory. -/
  | home
  /-- `stat` or `unlink` fails. -/
  | os
deriving DecidableEq

/-- The parts of the standard library that look at the machine. -/
structure Host where
  /-- The clock of the text, and the offset where the text has one; `none` where it raises. -/
  fromisoformat : String → Option (ℤ × Option ℤ)
  /-- `Path(path).expanduser().resolve(strict=False)`; `none` where it raises. -/
  resolve : String → Option Path

structure RetentionPolicy where
  enabled : Bool
  completedDays : ℕ
deriving DecidableEq

/-! ## Candidates -/

def protectedArtifactTypes : List String :=
  ["export", "raw", "raw_log", "raw_source", "source", "upload"]

def protectedFileNames : List String := ["database_connection.json", "logrisk.sqlite3"]

def protectedSuffixes : List String := [".sqlite3", ".sqlite3-wal", ".sqlite3-shm", "-wal", "-shm"]

def activeStatuses : List String := ["queued", "pending", "running"]

/-- `value.replace("Z", "+00:00")`. -/
def replaceZulu (value : String) : String :=
  String.ofList (value.toList.flatMap fun c => if c = 'Z' then "+00:00".toList else [c])

/-- The instant of a text in microseconds; a text without an offset is in UTC. -/
def parseTimestamp (host : Host) (value : String) : Option ℤ :=
  (host.fromisoformat (replaceZulu value)).map fun parsed => parsed.1 - parsed.2.getD 0

/-- The path, where it lies under one of the roots. -/
def allowedPath (candidate : Path) (roots : List Path) : Option Path :=
  if roots.any fun root => root.isPrefixOf candidate then some candidate else none

/-- `path.name`. -/
def fileName (path : Path) : String := path.getLastD ""

def protectedRuntimePath (path : Path) : Bool :=
  let name := Text.lower (fileName path)
  protectedFileNames.contains name ||
    protectedSuffixes.any fun suffix => suffix.toList.isSuffixOf name.toList

/-- The table and the rows behind an owner type. -/
def ownerTable (db : Database) (ownerType : String) : Option (List TaskRow) :=
  if ownerType = "feature_job" then some db.featureJobs
  else if ownerType = "input_job" then some db.inputJobs
  else if ownerType = "streaming" then some db.streamingTasks
  else if ownerType = "benchmark" then some db.benchmarkRuns
  else if ownerType = "replay" then some db.replayRuns
  else none

def ownerStatus (db : Database) (ownerType ownerId : String) : Option String :=
  ((ownerTable db ownerType).bind fun table => table.find? (·.taskId = ownerId)).map TaskRow.status

def ownerActive (db : Database) (ownerType ownerId : String) : Bool :=
  match ownerStatus db ownerType ownerId with
  | some status => activeStatuses.contains status
  | none => false

structure Candidate where
  artifactId : String
  path : Path
  sizeBytes : ℕ
  artifactType : String
  createdAt : String
deriving DecidableEq

def microsecondsPerDay : ℤ := 86400 * 1000000

/-- One round of the loop over the rows: `none` where it goes on to the next row. -/
def candidateOf (host : Host) (db : Database) (roots : List Path) (cutoff : ℤ)
    (row : ArtifactRow) : Except RetentionError (Option Candidate) :=
  if protectedArtifactTypes.contains (Text.lower row.artifactType) then .ok none
  else
    match parseTimestamp host row.createdAt with
    | none => .ok none
    | some createdAt =>
        if cutoff ≤ createdAt then .ok none
        else do
          let resolved ← orFail (host.resolve row.path) .home
          match allowedPath resolved roots with
          | none => .ok none
          | some path =>
              if protectedRuntimePath path then .ok none
              else if ownerActive db row.ownerType row.ownerId then .ok none
              else .ok (some ⟨row.artifactId, path, row.sizeBytes, row.artifactType, row.createdAt⟩)

def retentionCandidates (host : Host) (db : Database) (roots : List Path) (completedDays : ℕ)
    (now : ℤ) : Except RetentionError (List Candidate) := do
  let rows := Paging.ordered (fun row => toLex (row.createdAt, row.artifactId)) db.artifacts
  let items ← rows.mapM (candidateOf host db roots (now - completedDays * microsecondsPerDay))
  return items.reduceOption

/-- The actions the task list offers for a streaming task. -/
def streamingActions (status : String) : List String :=
  "view" :: if ["failed", "interrupted"].contains status then ["resume"] else []

/-! ## Removal -/

structure Deleted where
  deletedFiles : ℕ
  deletedBytes : ℕ
deriving DecidableEq

/-- `path.unlink()`. -/
def Files.unlink (files : Files) (path : Path) : Files := Function.update files path none

/-- The loop over the candidates; the files it has removed stay removed where it raises. -/
def deleteCandidates : List Candidate → Files → Deleted → Files × Except RetentionError Deleted
  | [], files, total => (files, .ok total)
  | item :: rest, files, total =>
      match files item.path with
      | some (.file size true) =>
          deleteCandidates rest (files.unlink item.path)
            ⟨total.deletedFiles + 1, total.deletedBytes + size⟩
      | some (.file _ false) => (files, .error .os)
      | _ => deleteCandidates rest files total

/-- The ids of the candidates whose path is gone. -/
def removableIds (candidates : List Candidate) (files : Files) : List String :=
  (candidates.filter fun item => item.artifactId ≠ "" ∧ files item.path = none).map
    Candidate.artifactId

/-- `DELETE FROM artifacts WHERE artifact_id=?` for each id. -/
def deleteArtifacts (db : Database) (ids : List String) : Database :=
  { db with
    artifacts := db.artifacts.filter fun row => !ids.contains row.artifactId
    distinct := db.distinct.sublist (List.filter_sublist.map _) }

/-! ## The service -/

structure Summary where
  candidateCount : ℕ
  candidateBytes : ℕ
  deleted : Option Deleted := none
  deletedMetadata : Option ℕ := none
deriving DecidableEq

inductive MaintenanceStatus where
  | running
  | completed
  | failed
deriving DecidableEq

structure MaintenanceRun where
  action : String
  mode : String
  status : MaintenanceStatus
  summary : Option Summary
  errorCode : Option String
  actor : Option String
  requestId : String
deriving DecidableEq

structure Request where
  actor : Option String := none
  requestId : String
  execute : Bool

structure State where
  db : Database
  files : Files
  policy : RetentionPolicy
  roots : List Path
  now : ℤ

def previewRetention (host : Host) (state : State) : Except RetentionError (List Candidate) :=
  if state.policy.enabled then
    retentionCandidates host state.db state.roots state.policy.completedDays state.now
  else .ok []

def summaryOf (candidates : List Candidate) : Summary :=
  { candidateCount := candidates.length
    candidateBytes := (candidates.map Candidate.sizeBytes).sum }

def startMaintenance (request : Request) : MaintenanceRun :=
  { action := "retention", mode := if request.execute then "execute" else "dry_run"
    status := .running, summary := none, errorCode := none
    actor := request.actor, requestId := request.requestId }

def MaintenanceRun.complete (run : MaintenanceRun) (summary : Summary) : MaintenanceRun :=
  { run with status := .completed, summary := some summary }

def MaintenanceRun.fail (run : MaintenanceRun) : MaintenanceRun :=
  { run with status := .failed, summary := none, errorCode := some "runtime_maintenance_failed" }

def runRetention (host : Host) (state : State) (request : Request) : State × MaintenanceRun :=
  let run := startMaintenance request
  match previewRetention host state with
  | .error _ => (state, run.fail)
  | .ok candidates =>
      if request.execute && state.policy.enabled then
        match deleteCandidates candidates state.files ⟨0, 0⟩ with
        | (files, .error _) => ({ state with files }, run.fail)
        | (files, .ok deleted) =>
            let ids := removableIds candidates files
            ({ state with db := deleteArtifacts state.db ids, files },
              run.complete { summaryOf candidates with
                deleted := some deleted, deletedMetadata := some ids.length })
      else (state, run.complete (summaryOf candidates))

/-! ## Who becomes a candidate -/

/-- The row names the file under the path. -/
def Names (host : Host) (row : ArtifactRow) (path : Path) : Prop := host.resolve row.path = some path

/-- The instant before which a row has to be written to be old. -/
def State.cutoff (state : State) : ℤ := state.now - state.policy.completedDays * microsecondsPerDay

/-- The row alone keeps retention away: its type is protected, it is not older than the
cutoff, or its task is active. -/
def Guarded (host : Host) (state : State) (row : ArtifactRow) : Prop :=
  Text.lower row.artifactType ∈ protectedArtifactTypes ∨
    (∀ createdAt, parseTimestamp host row.createdAt = some createdAt → state.cutoff ≤ createdAt) ∨
      ownerActive state.db row.ownerType row.ownerId = true

/-- What the loop has found out about a row that it makes a candidate. -/
structure CandidateFor (host : Host) (state : State) (row : ArtifactRow) (item : Candidate) :
    Prop where
  id_eq : item.artifactId = row.artifactId
  names : Names host row item.path
  inside : ∃ root ∈ state.roots, root <+: item.path
  ordinary : protectedRuntimePath item.path = false
  unguarded : ¬Guarded host state row

theorem allowedPath_eq_some {candidate path : Path} {roots : List Path}
    (h : allowedPath candidate roots = some path) :
    candidate = path ∧ ∃ root ∈ roots, root <+: path := by
  unfold allowedPath at h
  split at h
  · rename_i hany
    obtain rfl := Option.some.inj h
    obtain ⟨root, hroot, hinitial⟩ := List.any_eq_true.mp hany
    exact ⟨rfl, root, hroot, List.isPrefixOf_iff_prefix.mp hinitial⟩
  · cases h

theorem candidateFor_of_candidateOf {host : Host} {state : State} {row : ArtifactRow}
    {item : Candidate}
    (h : candidateOf host state.db state.roots state.cutoff row = .ok (some item)) :
    CandidateFor host state row item := by
  unfold candidateOf at h
  split at h
  · cases h
  rename_i htype
  split at h
  · cases h
  rename_i createdAt hparse
  split at h
  · cases h
  rename_i hold
  obtain ⟨resolved, hresolve, h⟩ := orFail_bind_eq_ok.mp h
  split at h
  · cases h
  rename_i path hpath
  split at h
  · cases h
  rename_i hordinary
  split at h
  · cases h
  rename_i hidle
  obtain ⟨rfl, hinside⟩ := allowedPath_eq_some hpath
  cases h
  refine ⟨rfl, hresolve, hinside, Bool.eq_false_iff.mpr hordinary, ?_⟩
  rintro (hprotected | hyoung | hactive)
  · exact htype (List.contains_iff_mem.mpr hprotected)
  · exact hold (hyoung createdAt hparse)
  · exact hidle hactive

/-- Every candidate of the preview comes from a row of the table. -/
theorem candidateFor_of_mem_preview {host : Host} {state : State} {items : List Candidate}
    (h : previewRetention host state = .ok items) {item : Candidate} (hitem : item ∈ items) :
    ∃ row ∈ state.db.artifacts, CandidateFor host state row item := by
  unfold previewRetention at h
  split at h
  · unfold retentionCandidates at h
    obtain ⟨found, hfound, h⟩ := bind_eq_ok.mp h
    obtain rfl := pure_eq_ok.mp h
    have hsome : some item ∈ found := List.reduceOption_mem_iff.mp hitem
    obtain ⟨row, hzip, hrow⟩ := exists_of_mem_results (mapM_eq_ok.mp hfound) hsome
    exact ⟨row, Paging.mem_ordered.mp (List.of_mem_zip hzip).1, candidateFor_of_candidateOf hrow⟩
  · cases h
    cases hitem

/-! ## What the loop over the candidates removes -/

@[simp] theorem unlink_self (files : Files) (path : Path) : files.unlink path path = none :=
  Function.update_self ..

theorem unlink_of_ne (files : Files) {path other : Path} (h : other ≠ path) :
    files.unlink path other = files other := Function.update_of_ne h ..

/-- A removed file is a candidate's, a removed entry is a file, and nothing appears. -/
theorem deleteCandidates_files (items : List Candidate) (files : Files) (total : Deleted)
    (path : Path) :
    (deleteCandidates items files total).1 path = files path ∨
      (deleteCandidates items files total).1 path = none ∧
        (∃ size, files path = some (.file size true)) ∧ ∃ item ∈ items, item.path = path := by
  induction items generalizing files total with
  | nil => exact .inl rfl
  | cons item rest ih =>
      unfold deleteCandidates
      split
      · rename_i size hsize
        by_cases hpath : path = item.path
        · refine .inr ⟨?_, ⟨size, hpath ▸ hsize⟩, item, List.mem_cons_self, hpath.symm⟩
          rcases ih (files.unlink item.path) _ with h | ⟨h, -⟩
          · rw [h, hpath, unlink_self]
          · exact h
        · rcases ih (files.unlink item.path) _ with h | ⟨h, hfile, other, hother⟩
          · exact .inl (h.trans (unlink_of_ne files hpath))
          · rw [unlink_of_ne files hpath] at hfile
            exact .inr ⟨h, hfile, other, List.mem_cons_of_mem _ hother.1, hother.2⟩
      · exact .inl rfl
      · rcases ih files total with h | ⟨h, hfile, other, hother⟩
        · exact .inl h
        · exact .inr ⟨h, hfile, other, List.mem_cons_of_mem _ hother.1, hother.2⟩

theorem removableIds_gone {items : List Candidate} {files : Files} {id : String}
    (h : id ∈ removableIds items files) :
    ∃ item ∈ items, item.artifactId = id ∧ files item.path = none := by
  unfold removableIds at h
  obtain ⟨item, hfilter, hid⟩ := List.mem_map.mp h
  obtain ⟨hitem, hgone⟩ := List.mem_filter.mp hfilter
  exact ⟨item, hitem, hid, (of_decide_eq_true hgone).2⟩

/-- An id belongs to one row of the table. -/
theorem Database.row_eq {db : Database} {row row' : ArtifactRow} (h : row ∈ db.artifacts)
    (h' : row' ∈ db.artifacts) (hid : row.artifactId = row'.artifactId) : row = row' :=
  List.inj_on_of_nodup_map db.distinct h h' hid

theorem mem_deleteArtifacts {db : Database} {ids : List String} {row : ArtifactRow} :
    row ∈ (deleteArtifacts db ids).artifacts ↔ row ∈ db.artifacts ∧ row.artifactId ∉ ids := by
  simp [deleteArtifacts]

/-! ## What a run removes -/

/-- A run removes the file. -/
def Removes (state after : State) (path : Path) : Prop := after.files path ≠ state.files path

/-- Rows that name the same file say the same of it. -/
def Agreed (host : Host) (state : State) (path : Path) : Prop :=
  ∀ row ∈ state.db.artifacts, ∀ row' ∈ state.db.artifacts,
    Names host row path → Names host row' path →
      row.artifactType = row'.artifactType ∧ row.createdAt = row'.createdAt ∧
        row.ownerType = row'.ownerType ∧ row.ownerId = row'.ownerId

/-- What a retention run leaves alone. -/
structure Spares (host : Host) (state after : State) : Prop where
  /-- A removed file is named by a row that nothing guards. -/
  file : ∀ path, Removes state after path → (∃ size, state.files path = some (.file size true)) ∧
    after.files path = none ∧ (∃ root ∈ state.roots, root <+: path) ∧
      protectedRuntimePath path = false ∧
        ∃ row ∈ state.db.artifacts, Names host row path ∧ ¬Guarded host state row
  /-- Where the rows agree, no row that names it is guarded. -/
  agreed : ∀ path, Removes state after path → Agreed host state path →
    ∀ row ∈ state.db.artifacts, Names host row path → ¬Guarded host state row
  /-- A deleted row has lost its file, or never had one. -/
  row : ∀ row ∈ state.db.artifacts, row ∉ after.db.artifacts →
    ∃ path, Names host row path ∧ (Removes state after path ∨ state.files path = none) ∧
      after.files path = none
  /-- No row appears. -/
  rows : ∀ row ∈ after.db.artifacts, row ∈ state.db.artifacts

theorem guarded_congr {host : Host} {state : State} {row row' : ArtifactRow}
    (htype : row.artifactType = row'.artifactType) (hcreated : row.createdAt = row'.createdAt)
    (howner : row.ownerType = row'.ownerType) (hid : row.ownerId = row'.ownerId) :
    Guarded host state row ↔ Guarded host state row' := by
  unfold Guarded
  rw [htype, hcreated, howner, hid]

/-- The part on files suffices where they agree. -/
theorem unguarded_of_agreed {host : Host} {state : State} {path : Path}
    (hrow : ∃ row ∈ state.db.artifacts, Names host row path ∧ ¬Guarded host state row)
    (hagreed : Agreed host state path) {row : ArtifactRow} (hmem : row ∈ state.db.artifacts)
    (hnames : Names host row path) : ¬Guarded host state row := by
  obtain ⟨other, hother, hothernames, hfree⟩ := hrow
  obtain ⟨htype, hcreated, howner, hid⟩ := hagreed row hmem other hother hnames hothernames
  rwa [guarded_congr htype hcreated howner hid]

theorem spares_self (host : Host) (state : State) : Spares host state state where
  file _ h := absurd rfl h
  agreed _ h := absurd rfl h
  row _ h hnot := absurd h hnot
  rows _ h := h

/-- The loop over the candidates, with rows deleted whose files are gone by then. -/
theorem spares_of_delete {host : Host} {state after : State} {items : List Candidate}
    (ids : List String) (hpreview : previewRetention host state = .ok items)
    (hfiles : after.files = (deleteCandidates items state.files ⟨0, 0⟩).1)
    (hids : ∀ id ∈ ids, id ∈ removableIds items after.files)
    (hdb : after.db.artifacts = (deleteArtifacts state.db ids).artifacts) :
    Spares host state after := by
  have hfile : ∀ path, Removes state after path →
      (∃ size, state.files path = some (.file size true)) ∧ after.files path = none ∧
        (∃ root ∈ state.roots, root <+: path) ∧ protectedRuntimePath path = false ∧
          ∃ row ∈ state.db.artifacts, Names host row path ∧ ¬Guarded host state row := by
    intro path hremoves
    unfold Removes at hremoves
    rw [hfiles] at hremoves ⊢
    rcases deleteCandidates_files items state.files ⟨0, 0⟩ path with
      h | ⟨hnone, hsize, item, hitem, rfl⟩
    · exact absurd h hremoves
    · obtain ⟨row, hrow, hfor⟩ := candidateFor_of_mem_preview hpreview hitem
      exact ⟨hsize, hnone, hfor.inside, hfor.ordinary, row, hrow, hfor.names, hfor.unguarded⟩
  refine ⟨hfile, ?_, ?_, ?_⟩
  · intro path hremoves hagreed row hrow hnames
    obtain ⟨-, -, -, -, hfree⟩ := hfile path hremoves
    exact unguarded_of_agreed hfree hagreed hrow hnames
  · intro row hrow hgone
    rw [hdb, mem_deleteArtifacts, not_and_not_right] at hgone
    obtain ⟨item, hitem, hid, hnone⟩ := removableIds_gone (hids _ (hgone hrow))
    obtain ⟨other, hother, hfor⟩ := candidateFor_of_mem_preview hpreview hitem
    obtain rfl := Database.row_eq hrow hother (hid.symm.trans hfor.id_eq)
    refine ⟨item.path, hfor.names, ?_, hnone⟩
    by_cases habsent : state.files item.path = none
    · exact .inr habsent
    · exact .inl fun h => habsent (h.symm.trans hnone)
  · intro row hrow
    rw [hdb, mem_deleteArtifacts] at hrow
    exact hrow.1

/-- A run of retention spares what a row guards, as far as the rows that name a file
agree; without the order to execute, or with the policy off, it removes nothing. -/
theorem runRetention_spares (host : Host) (state : State) (request : Request) :
    Spares host state (runRetention host state request).1 ∧
      ((request.execute && state.policy.enabled) = false →
        (runRetention host state request).1 = state) := by
  unfold runRetention
  dsimp only
  split
  · exact ⟨spares_self host state, fun _ => rfl⟩
  · rename_i items hpreview
    split
    · rename_i hexecute
      refine ⟨?_, fun h => by rw [hexecute] at h; cases h⟩
      split
      · rename_i files _ hdelete
        refine spares_of_delete [] hpreview ?_ (fun _ h => absurd h List.not_mem_nil) ?_
        · rw [hdelete]
        · simp [deleteArtifacts]
      · rename_i files deleted hdelete
        refine spares_of_delete _ hpreview ?_ (fun _ h => h) rfl
        rw [hdelete]
    · exact ⟨spares_self host state, fun _ => rfl⟩

/-! ## A failed task that can be resumed -/

/-- The task of the row can be taken up again. -/
def Resumable (db : Database) (row : ArtifactRow) : Prop :=
  row.ownerType = "streaming" ∧
    ∃ status, ownerStatus db "streaming" row.ownerId = some status ∧
      "resume" ∈ streamingActions status

/-- The host of one artifact: its time is midnight of the first day, its path absolute. -/
def plainHost : Host where
  fromisoformat text := if text = "1970-01-01T00:00:00" then some (0, none) else none
  resolve text := if text = "/o/a" then some ["/", "o", "a"] else none

/-- An artifact of a streaming task that failed, forty days after it was written. -/
def failedStreaming : State where
  db :=
    { artifacts := [⟨"a", "streaming", "t", "result", "/o/a", 4, "1970-01-01T00:00:00"⟩]
      streamingTasks := [⟨"t", "failed"⟩]
      distinct := List.nodup_singleton _ }
  files path := if path = ["/", "o", "a"] then some (.file 4 true) else none
  policy := ⟨true, 30⟩
  roots := [["/", "o"]]
  now := 40 * microsecondsPerDay

/-- It is not so that no removed file is named by a guarded row or by one whose task can
be resumed. -/
theorem failedStreaming_removed :
    ¬∀ path, Removes failedStreaming
        (runRetention plainHost failedStreaming ⟨none, "r", true⟩).1 path →
      ∀ row ∈ failedStreaming.db.artifacts, Names plainHost row path →
        ¬(Guarded plainHost failedStreaming row ∨ Resumable failedStreaming.db row) := by
  intro h
  have hremoves : Removes failedStreaming
      (runRetention plainHost failedStreaming ⟨none, "r", true⟩).1 ["/", "o", "a"] := by
    unfold Removes
    decide
  refine h _ hremoves _ (List.mem_singleton_self _) rfl (.inr ⟨rfl, "failed", rfl, ?_⟩)
  decide

end LogRisk.Runtime
