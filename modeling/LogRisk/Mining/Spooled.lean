import LogRisk.Mining.Isolation
import LogRisk.Mining.Spool

/-!
# Mining spooled partitions

Every partition's file is mined by a worker of its own, line by line, to a file of
events.  Twice as many files as there are processes are given out, and the next one
whenever one of them is done.  The events are read back in the order of the manifest.
-/

namespace LogRisk.Mining

open LogRisk.Library LogRisk.Library.LineFiles LogRisk.Library.Transaction

inductive SpoolError where
  | mining (e : MiningError)
  /-- A line that is not a record, or not an event. -/
  | unreadable
  | missing
  | unfinished
deriving DecidableEq

/-- What a worker is given. -/
structure FileTask where
  partitionPath : String
  outputPath : String
  stateScope : Option String

structure FileResult where
  outputPath : String
  recordCount : ℕ
deriving DecidableEq

/-- The miners' states and the files of events. -/
structure Disk (φ : Type) where
  states : Files φ
  events : Folder

section Mining

variable {σ φ ρ : Type} (drain : Drain σ φ) (snapshot : σ → φ) (tools : Tools ρ)
  (mode : ParameterMode) (recordFormat : Format Record) (eventFormat : Format (Event ρ)) (spool : Folder)

/-- `for miner in manager._miners.values(): miner.save_state(...)`: the miners are those of
the events that were collected. -/
def saveStates (scope : Option String) (manager : Manager σ) (collected : List (ℕ × Event ρ))
    (files : Files φ) : Files φ :=
  (collected.map fun item => minerKey scope item.2.record).eraseDups.foldl (fun files key =>
    match manager key with
    | some miner => Function.update files (stateFile key) (some (snapshot miner))
    | none => files) files

/-- The events are on disk, and the miners' states with them. -/
def finish (task : FileTask) (manager : Manager σ) (collected : List (ℕ × Event ρ))
    (disk : Disk φ) : FileResult × Disk φ :=
  (⟨task.outputPath, collected.length⟩,
    { states := saveStates snapshot task.stateScope manager collected disk.states
      events := Function.update disk.events task.outputPath
        (some (eventFormat.text (collected.map Prod.snd))) })

/-- The loop over the lines of a partition. -/
def mineLines (scope : Option String) : List (List Char) → ℕ → Manager σ → Files φ →
    Files φ × Except SpoolError (List (ℕ × Event ρ) × Manager σ)
  | [], _, manager, files => (files, .ok ([], manager))
  | line :: rest, n, manager, files =>
      match recordFormat.load line with
      | none => (files, .error .unreadable)
      | some record =>
          match mineTemplateEvent drain tools mode scope manager files record with
          | (files, .error e) => (files, .error (.mining e))
          | (files, .ok (event, manager)) =>
              match mineLines scope rest (n + 1) manager files with
              | (files, .error e) => (files, .error e)
              | (files, .ok (others, manager)) => (files, .ok ((n, event) :: others, manager))

def minePartitionFile (task : FileTask) (disk : Disk φ) : Disk φ × Except SpoolError FileResult :=
  match spool task.partitionPath with
  | none => (disk, .error .missing)
  | some text =>
      match mineLines drain tools mode recordFormat task.stateScope (readLines text) 0 (fun _ => none)
        disk.states with
      | (states, .error e) => ({ disk with states }, .error e)
      | (states, .ok (collected, manager)) =>
          let (result, disk) := finish snapshot eventFormat task manager collected { disk with states }
          (disk, .ok result)

/-- The files one after the other. -/
def mineFiles : List FileTask → Disk φ → Disk φ × Except SpoolError (List FileResult)
  | [], disk => (disk, .ok [])
  | task :: rest, disk =>
      match minePartitionFile drain snapshot tools mode recordFormat eventFormat spool task disk with
      | (disk, .error e) => (disk, .error e)
      | (disk, .ok result) =>
          match mineFiles rest disk with
          | (disk, .error e) => (disk, .error e)
          | (disk, .ok results) => (disk, .ok (result :: results))

/-! ## The pool -/

/-- A worker on its file; `worker` has the record that was read last, until it is mined. -/
structure FileWorker (σ ρ : Type) where
  task : FileTask
  lines : List (List Char)
  read : ℕ := 0
  worker : Worker σ ρ
  broken : Option SpoolError := none
  result : Option FileResult := none

def openTask (task : FileTask) : FileWorker σ ρ :=
  match spool task.partitionPath with
  | none =>
      { task, lines := [], worker := { scope := task.stateScope, pending := [] }
        broken := some .missing }
  | some text =>
      { task, lines := readLines text, worker := { scope := task.stateScope, pending := [] } }

/-- The exception that ended the call. -/
def FileWorker.raised (w : FileWorker σ ρ) : Option SpoolError :=
  w.broken.or (w.worker.failed.map .mining)

def FileWorker.isDone (w : FileWorker σ ρ) : Bool := w.result.isSome || w.raised.isSome

/-- A worker reads the next line, goes on with the record up to its next access to a state
file, or finishes. -/
def fileStep (w : FileWorker σ ρ) (disk : Disk φ) : FileWorker σ ρ × Disk φ :=
  if w.isDone then (w, disk)
  else
    match w.worker.pending, w.lines with
    | _ :: _, _ =>
        let (worker, states) := workerStep drain tools mode w.worker disk.states
        ({ w with worker }, { disk with states })
    | [], line :: rest =>
        match recordFormat.load line with
        | none => ({ w with broken := some .unreadable }, disk)
        | some record =>
            ({ w with
                lines := rest, read := w.read + 1
                worker := { w.worker with pending := [(w.read, record)] } }, disk)
    | [], [] =>
        let (result, disk) := finish snapshot eventFormat w.task w.worker.manager w.worker.collected disk
        ({ w with result := some result }, disk)

structure FilePool (σ φ ρ : Type) where
  workers : List (FileWorker σ ρ)
  disk : Disk φ
  submitted : ℕ := 0
  /-- The positions given out and not collected. -/
  futures : List ℕ := []
  results : List (Option FileResult)
  raised : Option SpoolError := none

/-- `while len(futures) < worker_count * 2: submit the next task`. -/
def refill (limit : ℕ) (pool : FilePool σ φ ρ) : FilePool σ φ ρ :=
  let n := min (limit - pool.futures.length) (pool.workers.length - pool.submitted)
  { pool with
    submitted := pool.submitted + n
    futures := pool.futures ++ List.range' pool.submitted n }

inductive Turn where
  /-- The worker of the position takes a step. -/
  | run (i : ℕ)
  /-- `wait(futures, return_when=FIRST_COMPLETED)` comes back. -/
  | collect
deriving DecidableEq

def isDoneAt (pool : FilePool σ φ ρ) (i : ℕ) : Bool :=
  (pool.workers[i]?.map FileWorker.isDone).getD false

/-- The results of those that are done, or the exception of one of them. -/
def collect (limit : ℕ) (pool : FilePool σ φ ρ) : FilePool σ φ ρ :=
  let done := pool.futures.filter (isDoneAt pool)
  match done.findSome? fun i => pool.workers[i]?.bind FileWorker.raised with
  | some e => { pool with raised := some e }
  | none =>
      refill limit { pool with
        futures := pool.futures.filter fun i => !isDoneAt pool i
        results := done.foldl (fun results i => results.set i (pool.workers[i]?.bind FileWorker.result))
          pool.results }

def fileTurn (limit : ℕ) (pool : FilePool σ φ ρ) : Turn → FilePool σ φ ρ
  | .run i =>
      if i ∈ pool.futures then
        match pool.workers[i]? with
        | none => pool
        | some w =>
            let (w, disk) := fileStep drain snapshot tools mode recordFormat eventFormat w pool.disk
            { pool with workers := pool.workers.set i w, disk }
      else pool
  | .collect =>
      if pool.raised.isSome ∨ ¬ pool.futures.any (isDoneAt pool) then pool else collect limit pool

/-- The main loop comes to its end when all results are collected. -/
def FilePool.outcome (pool : FilePool σ φ ρ) : Except SpoolError (List FileResult) :=
  match pool.raised with
  | some e => .error e
  | none =>
      if pool.futures = [] ∧ pool.submitted = pool.workers.length then .ok pool.results.reduceOption
      else .error .unfinished

/-- The pool when its first tasks are given out. -/
def startPool (limit : ℕ) (tasks : List FileTask) (disk : Disk φ) : FilePool σ φ ρ :=
  refill limit
    { workers := tasks.map (openTask spool), disk, results := List.replicate tasks.length none }

def poolFiles (limit : ℕ) (tasks : List FileTask) (schedule : List Turn) (disk : Disk φ) :
    Disk φ × Except SpoolError (List FileResult) :=
  let pool := schedule.foldl (fileTurn drain snapshot tools mode recordFormat eventFormat limit)
    (startPool spool limit tasks disk)
  (pool.disk, pool.outcome)

/-! ## A call -/

/-- `key[1] if len(key) == 4 else None`. -/
def scopeOf (key : Key) : Option String := if key.length = 4 then key[1]? else none

def taskOf (entry : SpoolEntry) : FileTask where
  partitionPath := entry.path
  outputPath := entry.partitionId ++ ".jsonl"
  stateScope := scopeOf entry.partitionKey

/-- What the machine decides: its processors, and who runs when. -/
structure FileMachine where
  cpuCount : Option ℤ
  schedule : List Turn

def readResult (folder : Folder) (result : FileResult) : Except SpoolError (List (Event ρ)) := do
  let text ← orFail (folder result.outputPath) .missing
  (readLines text).mapM fun line => orFail (eventFormat.load line) .unreadable

/-- The events of the results, read back from their files. -/
def readEvents (folder : Folder) (results : List FileResult) : Except SpoolError (List (Event ρ)) :=
  (results.mapM (readResult eventFormat folder)).map List.flatten

/-- `mine_spooled_partitions` up to the aggregation: the events and what is reported of
the call. -/
def mineSpooledPartitions (options : MiningOptions) (machine : FileMachine) (manifest : Manifest)
    (disk : Disk φ) : Except SpoolError (List (Event ρ) × Metadata × ℕ) := do
  let tasks := manifest.partitions.map taskOf
  let workers := effectiveWorkers options ⟨machine.cpuCount, []⟩ tasks.length
  let (disk, outcome) :=
    if 1 < workers then
      poolFiles drain snapshot tools mode recordFormat eventFormat spool (workers.toNat * 2) tasks
        machine.schedule disk
    else mineFiles drain snapshot tools mode recordFormat eventFormat spool tasks disk
  let results ← outcome
  let read ← readEvents eventFormat disk.events results
  return (read,
    { partitionCount := tasks.length
      workerCount := workers
      parallel := decide (1 < workers)
      processStartMethod := options.processStartMethod },
    (results.map FileResult.recordCount).sum)

end Mining

/-! ## Partitions with files of their own -/

variable {σ φ ρ : Type} {drain : Drain σ φ} {snapshot : σ → φ} {tools : Tools ρ}
  {mode : ParameterMode} {recordFormat : Format Record} {eventFormat : Format (Event ρ)} {spool : Folder}

/-- A partition with its files: its lines are its records, counted from 0. -/
structure FilePart (recordFormat : Format Record) (spool : Folder) extends Part where
  task : FileTask
  scope_eq : task.stateScope = scope
  counted : toPart.records.map Prod.fst = List.range toPart.records.length
  spooled : spool task.partitionPath = some (recordFormat.text (toPart.records.map Prod.snd))

/-- Neither the state files nor the event files of the partitions meet. -/
def FilesDiffer (parts : List (FilePart recordFormat spool)) : Prop :=
  parts.Pairwise fun a b =>
    stateFile a.key ≠ stateFile b.key ∧ a.task.outputPath ≠ b.task.outputPath

/-- What is reported of a partition, and the text of its events. -/
def reported (part : FilePart recordFormat spool) (own : List (ℕ × Event ρ)) : FileResult :=
  ⟨part.task.outputPath, own.length⟩

theorem saveStates_off {key : Key} {scope : Option String} {manager : Manager σ}
    {collected : List (ℕ × Event ρ)} (files : Files φ)
    (h : ∀ item ∈ collected, minerKey scope item.2.record = key) :
    SameOff key (saveStates snapshot scope manager collected files) files := by
  have hkeys : ∀ k ∈ (collected.map fun item => minerKey scope item.2.record).eraseDups, k = key := by
    intro k hk
    rw [List.mem_eraseDups] at hk
    obtain ⟨item, hitem, rfl⟩ := List.mem_map.mp hk
    exact h item hitem
  unfold saveStates
  generalize (collected.map fun item => minerKey scope item.2.record).eraseDups = keys at hkeys
  induction keys generalizing files with
  | nil => exact fun _ _ => rfl
  | cons k rest ih =>
      obtain ⟨rfl, hrest⟩ := List.forall_mem_cons.mp hkeys
      rw [List.foldl_cons]
      refine SameOff.trans (ih _ hrest) ?_
      intro file hfile
      cases manager k with
      | none => rfl
      | some miner => exact Function.update_of_ne hfile ..

/-! ## One file -/

/-- The event names the partition its record belongs to. -/
def Names (e : Event ρ) : Prop :=
  e.cluster = textOr e.record.cluster "default" ∧ e.sourceType = textOr e.record.sourceType "unknown" ∧
    e.component = textOr e.record.component "unknown"

/-- An event is made of the record that was mined. -/
theorem mineTemplateEvent_names {scope : Option String} {manager after : Manager σ}
    {files files' : Files φ} {record : Record} {event : Event ρ}
    (h : mineTemplateEvent drain tools mode scope manager files record =
      (files', .ok (event, after))) : event.record = record ∧ Names event := by
  unfold mineTemplateEvent at h
  split at h
  · cases h
  · split at h
    · cases h
    · unfold observe at h
      split at h
      · cases h
      · cases mode
        all_goals cases h
        all_goals exact ⟨rfl, rfl, rfl, rfl⟩

theorem mineRecords_names {scope : Option String} {items : List (ℕ × Record)} {manager : Manager σ}
    {files : Files φ} {own : List (ℕ × Event ρ)}
    (h : (mineRecords drain tools mode scope items manager files).2 = .ok own) :
    own.map (fun p => (p.1, p.2.record)) = items ∧ ∀ p ∈ own, Names p.2 := by
  induction items generalizing manager files own with
  | nil =>
      cases h
      exact ⟨rfl, fun _ hp => by cases hp⟩
  | cons item rest ih =>
      obtain ⟨n, record⟩ := item
      rw [mineRecords_cons] at h
      cases hevent : mineTemplateEvent drain tools mode scope manager files record with
      | mk next outcome =>
          rw [hevent] at h
          cases outcome with
          | error e => cases h
          | ok mined =>
              obtain ⟨event, after⟩ := mined
              dsimp only at h
              cases hothers : mineRecords drain tools mode scope rest after next with
              | mk last outcome =>
                  rw [hothers] at h
                  cases outcome with
                  | error e => cases h
                  | ok others =>
                      cases h
                      obtain ⟨hrecord, hnames⟩ := mineTemplateEvent_names hevent
                      obtain ⟨hrest, hall⟩ := ih (congrArg Prod.snd hothers)
                      exact ⟨by rw [List.map_cons, hrest, hrecord], List.forall_mem_cons.mpr ⟨hnames, hall⟩⟩

variable (drain tools mode recordFormat) in
/-- Mining the lines is mining the records they were written for. -/
theorem mineLines_eq (scope : Option String) {items : List (ℕ × Record)} {n : ℕ}
    (hitems : items.map Prod.fst = List.range' n items.length) (manager : Manager σ)
    (files : Files φ) :
    (mineLines drain tools mode recordFormat scope ((items.map Prod.snd).map recordFormat.line) n manager
        files).1 = (mineRecords drain tools mode scope items manager files).1 ∧
      (mineLines drain tools mode recordFormat scope ((items.map Prod.snd).map recordFormat.line) n manager
        files).2.map Prod.fst =
        (mineRecords drain tools mode scope items manager files).2.mapError SpoolError.mining := by
  induction items generalizing n manager files with
  | nil => exact ⟨rfl, rfl⟩
  | cons item rest ih =>
      obtain ⟨k, record⟩ := item
      rw [List.length_cons, List.range'_succ, List.map_cons] at hitems
      obtain ⟨hk, hrest⟩ := List.cons.inj hitems
      obtain rfl : k = n := hk
      rw [mineRecords_cons, List.map_cons, List.map_cons]
      unfold mineLines
      rw [load_line]
      dsimp only
      cases mineTemplateEvent drain tools mode scope manager files record with
      | mk next outcome =>
          cases outcome with
          | error e => exact ⟨rfl, rfl⟩
          | ok mined =>
              obtain ⟨event, after⟩ := mined
              obtain ⟨hfiles, hevents⟩ := ih hrest after next
              dsimp only
              revert hfiles hevents
              generalize mineLines drain tools mode recordFormat scope _ (k + 1) after next = a
              generalize mineRecords drain tools mode scope rest after next = b
              intro hfiles hevents
              obtain ⟨last, outcome⟩ := a
              obtain ⟨last', outcome'⟩ := b
              obtain rfl : last = last' := hfiles
              cases outcome <;> cases outcome' <;> cases hevents <;> exact ⟨rfl, rfl⟩

theorem FilePart.lines (part : FilePart recordFormat spool) :
    spool part.task.partitionPath = some (recordFormat.text (part.records.map Prod.snd)) ∧
      readLines (recordFormat.text (part.records.map Prod.snd)) =
        (part.records.map Prod.snd).map recordFormat.line :=
  ⟨part.spooled, readLines_text recordFormat _⟩

/-- The events of a partition are those of one miner. -/
theorem minerKey_of_alone {part : FilePart recordFormat spool} {files : Files φ}
    {own : List (ℕ × Event ρ)} (h : alone drain tools mode files part.toPart = .ok own) :
    ∀ item ∈ own, minerKey part.task.stateScope item.2.record = part.key := by
  intro item hitem
  rw [part.scope_eq]
  exact part.belongs (item.1, item.2.record)
    ((mineRecords_names h).1 ▸ List.mem_map_of_mem (f := fun p => (p.1, p.2.record)) hitem)

variable (drain snapshot tools mode eventFormat) in
/-- A file is mined as its partition is alone, and the events are then on disk; other
partitions' states stay as they are. -/
theorem minePartitionFile_part (part : FilePart recordFormat spool) {start : Files φ} {disk : Disk φ}
    (hstate : SameAt part.key disk.states start) :
    ∃ disk', minePartitionFile drain snapshot tools mode recordFormat eventFormat spool part.task disk =
        (disk', ((alone drain tools mode start part.toPart).map (reported part)).mapError .mining) ∧
      SameOff part.key disk'.states disk.states ∧
      ∀ own, alone drain tools mode start part.toPart = .ok own →
        disk'.events = Function.update disk.events part.task.outputPath
          (some (eventFormat.text (own.map Prod.snd))) := by
  rw [← alone_congr drain tools mode hstate]
  obtain ⟨hspool, hlines⟩ := part.lines
  have hcounted : part.records.map Prod.fst = List.range' 0 part.records.length := by
    rw [part.counted, List.range_eq_range']
  obtain ⟨hfiles, hevents⟩ := mineLines_eq drain tools mode recordFormat part.scope hcounted
    (fun _ => none) disk.states
  have hoff := mineRecords_files drain tools mode (fun _ => none) disk.states part.belongs
  rw [← hfiles] at hoff
  unfold minePartitionFile
  rw [hspool]
  dsimp only
  rw [hlines, part.scope_eq]
  generalize mineLines drain tools mode recordFormat part.scope _ 0 (fun _ => none) disk.states = mined
    at hoff hevents
  obtain ⟨states, outcome⟩ := mined
  cases halone : alone drain tools mode disk.states part.toPart with
  | error e =>
      unfold alone mineIndexedPartition at halone
      rw [halone] at hevents
      cases outcome with
      | error e' =>
          obtain rfl : e' = .mining e := Except.error.inj hevents
          exact ⟨_, rfl, hoff, by rintro _ ⟨⟩⟩
      | ok pair => cases hevents
  | ok own =>
      unfold alone mineIndexedPartition at halone
      rw [halone] at hevents
      cases outcome with
      | error e => cases hevents
      | ok pair =>
          obtain ⟨collected, manager⟩ := pair
          obtain rfl : collected = own := Except.ok.inj hevents
          refine ⟨_, rfl, SameOff.trans (saveStates_off states (minerKey_of_alone halone)) hoff, ?_⟩
          intro own hown
          obtain rfl := Except.ok.inj hown
          rfl

/-! ## All files, one after the other -/

/-- The partition is mined as if alone, reported so, and its events are on disk. -/
def Landed (drain : Drain σ φ) (tools : Tools ρ) (mode : ParameterMode) (eventFormat : Format (Event ρ))
    (start : Files φ) (folder : Folder) (part : FilePart recordFormat spool) (result : FileResult) : Prop :=
  ∃ own, alone drain tools mode start part.toPart = .ok own ∧ result = reported part own ∧
    folder part.task.outputPath = some (eventFormat.text (own.map Prod.snd))

theorem mineFiles_landed {parts : List (FilePart recordFormat spool)} (hdiffer : FilesDiffer parts)
    {start : Files φ} {disk disk' : Disk φ} (hstates : ∀ part ∈ parts, SameAt part.key disk.states start)
    {results : List FileResult}
    (h : mineFiles drain snapshot tools mode recordFormat eventFormat spool (parts.map FilePart.task) disk =
      (disk', .ok results)) :
    List.Forall₂ (Landed drain tools mode eventFormat start disk'.events) parts results ∧
      ∀ file, (∀ part ∈ parts, part.task.outputPath ≠ file) → disk'.events file = disk.events file := by
  induction parts generalizing disk results with
  | nil =>
      cases h
      exact ⟨.nil, fun _ _ => rfl⟩
  | cons part rest ih =>
      obtain ⟨hpart, hrest⟩ := List.pairwise_cons.mp hdiffer
      have hown := hstates part List.mem_cons_self
      rw [List.map_cons] at h
      unfold mineFiles at h
      obtain ⟨next, hrun, hoff, hevents⟩ :=
        minePartitionFile_part drain snapshot tools mode eventFormat part hown
      rw [hrun] at h
      cases halone : alone drain tools mode start part.toPart with
      | error e =>
          rw [halone] at h
          cases h
      | ok own =>
          rw [halone] at h
          dsimp only [Except.map, Except.mapError] at h
          split at h
          · cases h
          · rename_i last others hothers
            cases h
            have hnext : ∀ other ∈ rest, SameAt other.key next.states start := fun other hother =>
              (hoff _ (hpart other hother).1.symm).trans (hstates other (List.mem_cons_of_mem _ hother))
            obtain ⟨hlanded, hframe⟩ := ih hrest hnext hothers
            have hkept := hframe part.task.outputPath fun other hother => (hpart other hother).2.symm
            refine ⟨.cons ⟨own, halone, rfl, ?_⟩ hlanded, fun file hfile => ?_⟩
            · rw [hkept, hevents own halone, Function.update_self]
            · rw [hframe file fun other hother => hfile other (List.mem_cons_of_mem _ hother),
                hevents own halone, Function.update_of_ne (hfile part List.mem_cons_self).symm]

/-- When every partition can be mined alone, the files can be mined one after the other. -/
theorem mineFiles_returns {parts : List (FilePart recordFormat spool)} (hdiffer : FilesDiffer parts)
    {start : Files φ} {disk : Disk φ} (hstates : ∀ part ∈ parts, SameAt part.key disk.states start)
    (halone : ∀ part ∈ parts, ∃ own, alone drain tools mode start part.toPart = .ok own) :
    ∃ disk' results, mineFiles drain snapshot tools mode recordFormat eventFormat spool
      (parts.map FilePart.task) disk = (disk', .ok results) := by
  induction parts generalizing disk with
  | nil => exact ⟨disk, [], rfl⟩
  | cons part rest ih =>
      obtain ⟨hpart, hrest⟩ := List.pairwise_cons.mp hdiffer
      obtain ⟨own, hown⟩ := halone part List.mem_cons_self
      obtain ⟨next, hrun, hoff, -⟩ := minePartitionFile_part drain snapshot tools mode eventFormat part
        (hstates part List.mem_cons_self)
      have hnext : ∀ other ∈ rest, SameAt other.key next.states start := fun other hother =>
        (hoff _ (hpart other hother).1.symm).trans (hstates other (List.mem_cons_of_mem _ hother))
      obtain ⟨last, results, hlast⟩ := ih hrest hnext fun other hother =>
        halone other (List.mem_cons_of_mem _ hother)
      rw [List.map_cons]
      unfold mineFiles
      rw [hrun, hown]
      dsimp only [Except.map, Except.mapError]
      rw [hlast]
      exact ⟨last, reported part own :: results, rfl⟩

/-! ## Reading the events back -/

theorem mapM_load (own : List (Event ρ)) :
    (readLines (eventFormat.text own)).mapM (fun line => orFail (eventFormat.load line) SpoolError.unreadable) =
      .ok own := by
  rw [readLines_text, mapM_eq_ok, List.forall₂_map_left_iff, List.forall₂_same]
  intro event _
  rw [load_line]
  rfl

theorem readResult_landed {part : FilePart recordFormat spool} {folder : Folder}
    {own : List (ℕ × Event ρ)}
    (h : folder part.task.outputPath = some (eventFormat.text (own.map Prod.snd))) :
    readResult eventFormat folder (reported part own) = .ok (own.map Prod.snd) := by
  unfold readResult reported
  rw [h]
  exact mapM_load _

theorem readEvents_landed {parts : List (FilePart recordFormat spool)} {start : Files φ} {folder : Folder}
    {results : List FileResult}
    (h : List.Forall₂ (Landed drain tools mode eventFormat start folder) parts results) :
    ∃ collected, List.Forall₂ (fun part own => alone drain tools mode start part = .ok own)
        (parts.map FilePart.toPart) collected ∧
      results.mapM (readResult eventFormat folder) = .ok (collected.map (List.map Prod.snd)) ∧
        (results.map FileResult.recordCount).sum = (collected.map List.length).sum := by
  induction h with
  | nil => exact ⟨[], .nil, rfl, rfl⟩
  | cons hfirst _ ih =>
      obtain ⟨own, halone, rfl, htext⟩ := hfirst
      obtain ⟨collected, hcollected, hread, hsum⟩ := ih
      refine ⟨own :: collected, .cons halone hcollected, ?_, ?_⟩
      · rw [List.mapM_cons, readResult_landed htext, hread]
        rfl
      · rw [List.map_cons, List.sum_cons, hsum, List.map_cons, List.sum_cons]
        rfl

end LogRisk.Mining
