import LogRisk.Mining.Spooled

/-!
# Spooled partitions in the pool

Whoever takes a step, every worker stays on its way to what its partition is mined to
alone, and a result that is collected is the one its worker ended with.
-/

namespace LogRisk.Mining

open LogRisk.Library LogRisk.Library.LineFiles LogRisk.Library.Transaction

variable {σ φ ρ : Type} {drain : Drain σ φ} {snapshot : σ → φ} {tools : Tools ρ}
  {mode : ParameterMode} {recordFormat : Format Record} {eventFormat : Format (Event ρ)}
  {spool : Folder}

/-! ## One worker -/

/-- The records behind the one at hand change nothing in a step. -/
theorem workerStep_append {worker : Worker σ ρ} (hpending : worker.pending ≠ []) (files : Files φ)
    (tail : List (ℕ × Record)) :
    workerStep drain tools mode { worker with pending := worker.pending ++ tail } files =
      ({ (workerStep drain tools mode worker files).1 with
          pending := (workerStep drain tools mode worker files).1.pending ++ tail },
        (workerStep drain tools mode worker files).2) := by
  obtain ⟨scope, pending, manager, collected, failed⟩ := worker
  cases failed with
  | some e => rfl
  | none =>
  cases pending with
  | nil => exact absurd rfl hpending
  | cons item rest =>
  obtain ⟨index, record⟩ := item
  unfold workerStep
  dsimp only [List.cons_append]
  split
  · rfl
  · split
    · split <;> rfl
    · split <;> rfl

/-- A worker on the file of the partition. -/
structure Follows (drain : Drain σ φ) (tools : Tools ρ) (mode : ParameterMode)
    (eventFormat : Format (Event ρ)) (start : Files φ) (disk : Disk φ)
    (part : FilePart recordFormat spool) (w : FileWorker σ ρ) : Prop where
  task : w.task = part.task
  scope : w.worker.scope = part.scope
  sound : w.broken = none
  ahead : ∃ tail : List (ℕ × Record), w.lines = (tail.map Prod.snd).map recordFormat.line ∧
    tail.map Prod.fst = List.range' w.read tail.length ∧
      Tracks drain tools mode start disk.states part.toPart
        { w.worker with pending := w.worker.pending ++ tail }
  landed : ∀ r, w.result = some r →
    Landed drain tools mode eventFormat start disk.events part r

theorem Follows.congr {start : Files φ} {disk disk' : Disk φ} {part : FilePart recordFormat spool}
    {w : FileWorker σ ρ} (h : Follows drain tools mode eventFormat start disk part w)
    (hstates : SameAt part.key disk'.states disk.states)
    (hevents : disk'.events part.task.outputPath = disk.events part.task.outputPath) :
    Follows drain tools mode eventFormat start disk' part w where
  task := h.task
  scope := h.scope
  sound := h.sound
  ahead := by
    obtain ⟨tail, hlines, hnumbers, htracks⟩ := h.ahead
    exact ⟨tail, hlines, hnumbers, htracks.congr hstates⟩
  landed := by
    intro r hr
    obtain ⟨own, halone, hresult, htext⟩ := h.landed r hr
    exact ⟨own, halone, hresult, hevents.trans htext⟩

/-- A step changes the state file and the event file of its partition at most. -/
def Within (part : FilePart recordFormat spool) (disk' disk : Disk φ) : Prop :=
  SameOff part.key disk'.states disk.states ∧
    ∀ file, file ≠ part.task.outputPath → disk'.events file = disk.events file

theorem fileStep_of_isDone {w : FileWorker σ ρ} (h : w.isDone = true) (disk : Disk φ) :
    fileStep drain snapshot tools mode recordFormat eventFormat w disk = (w, disk) := by
  unfold fileStep
  rw [if_pos h]

/-- The record at hand goes one step further. -/
theorem fileStep_record {w : FileWorker σ ρ} (h : ¬ w.isDone = true) (hpending : w.worker.pending ≠ [])
    (disk : Disk φ) :
    fileStep drain snapshot tools mode recordFormat eventFormat w disk =
      ({ w with worker := (workerStep drain tools mode w.worker disk.states).1 },
        { disk with states := (workerStep drain tools mode w.worker disk.states).2 }) := by
  obtain ⟨item, rest, hitem⟩ := List.exists_cons_of_ne_nil hpending
  unfold fileStep
  rw [if_neg h, hitem]

/-- The next line is read. -/
theorem fileStep_line {w : FileWorker σ ρ} (h : ¬ w.isDone = true) (hpending : w.worker.pending = [])
    {record : Record} {rest : List (List Char)} (hlines : w.lines = recordFormat.line record :: rest)
    (disk : Disk φ) :
    fileStep drain snapshot tools mode recordFormat eventFormat w disk =
      ({ w with
          lines := rest, read := w.read + 1
          worker := { w.worker with pending := [(w.read, record)] } }, disk) := by
  unfold fileStep
  rw [if_neg h, hpending, hlines]
  dsimp only
  rw [load_line]

/-- All lines are mined. -/
theorem fileStep_end {w : FileWorker σ ρ} (h : ¬ w.isDone = true) (hpending : w.worker.pending = [])
    (hlines : w.lines = []) (disk : Disk φ) :
    fileStep drain snapshot tools mode recordFormat eventFormat w disk =
      ({ w with result := some ⟨w.task.outputPath, w.worker.collected.length⟩ },
        { states := saveStates snapshot w.task.stateScope w.worker.manager w.worker.collected
            disk.states
          events := Function.update disk.events w.task.outputPath
            (some (eventFormat.text (w.worker.collected.map Prod.snd))) }) := by
  obtain ⟨task, lines, read, worker, broken, result⟩ := w
  obtain ⟨scope, pending, manager, collected, failed⟩ := worker
  dsimp only at hpending hlines
  subst hpending hlines
  unfold fileStep
  rw [if_neg h]
  rfl

variable (drain snapshot tools mode recordFormat eventFormat) in
/-- A worker's own step keeps it on its way. -/
theorem fileStep_follows {start : Files φ} {disk : Disk φ} {part : FilePart recordFormat spool}
    {w : FileWorker σ ρ} (h : Follows drain tools mode eventFormat start disk part w) :
    let next := fileStep drain snapshot tools mode recordFormat eventFormat w disk
    Follows drain tools mode eventFormat start next.2 part next.1 ∧ Within part next.2 disk := by
  dsimp only
  by_cases hdone : w.isDone = true
  · rw [fileStep_of_isDone hdone]
    exact ⟨h, fun _ _ => rfl, fun _ _ => rfl⟩
  obtain ⟨tail, hlines, hnumbers, htracks⟩ := h.ahead
  have hopen : w.result = none := by
    rw [FileWorker.isDone, Bool.or_eq_true, not_or] at hdone
    simpa using hdone.1
  have hnotFailed : w.worker.failed = none := by
    rw [FileWorker.isDone, Bool.or_eq_true, not_or] at hdone
    have hraised := hdone.2
    rw [FileWorker.raised, h.sound] at hraised
    simpa using hraised
  by_cases hpending : w.worker.pending = []
  · have htail := htracks
    rw [hpending, List.nil_append] at htail
    cases tail with
    | cons item rest =>
        obtain ⟨n, record⟩ := item
        rw [List.length_cons, List.range'_succ, List.map_cons] at hnumbers
        obtain ⟨hn, hrest⟩ := List.cons.inj hnumbers
        obtain rfl : n = w.read := hn
        rw [fileStep_line hdone hpending hlines]
        exact ⟨⟨h.task, h.scope, h.sound, ⟨rest, rfl, hrest, htail⟩,
          fun r hr => absurd (hopen.symm.trans hr) (by simp)⟩, fun _ _ => rfl, fun _ _ => rfl⟩
    | nil =>
        have houtcome := htail.outcome
        unfold Worker.outcome at houtcome
        dsimp only at houtcome
        rw [hnotFailed] at houtcome
        have halone : alone drain tools mode start part.toPart = .ok w.worker.collected := by
          rw [← houtcome]
          unfold mineRecords
          simp [Except.map]
        have hkeys := minerKey_of_alone halone
        rw [← h.task] at hkeys
        rw [fileStep_end hdone hpending hlines]
        refine ⟨⟨h.task, h.scope, h.sound, ⟨[], hlines, rfl, ?_⟩, ?_⟩,
          saveStates_off disk.states hkeys, ?_⟩
        · rw [List.append_nil, hpending]
          refine ⟨fun item hitem => (by cases hitem), ?_⟩
          unfold Worker.outcome
          dsimp only
          rw [hnotFailed, halone]
          unfold mineRecords
          simp [Except.map]
        · intro r hr
          obtain rfl := Option.some.inj hr
          refine ⟨w.worker.collected, halone, by rw [h.task]; rfl, ?_⟩
          rw [h.task]
          exact Function.update_self ..
        · intro file hfile
          rw [h.task]
          exact Function.update_of_ne hfile ..
  · have hstep := htracks.step
    rw [workerStep_append hpending] at hstep
    have hbelongs : Belongs w.worker.scope part.key w.worker.pending := fun other hother =>
      htracks.belongs other (List.mem_append_left _ hother)
    obtain ⟨hscope, -, hoff⟩ := workerStep_within drain tools mode disk.states hbelongs
    rw [fileStep_record hdone hpending]
    exact ⟨⟨h.task, hscope.trans h.scope, h.sound, ⟨tail, hlines, hnumbers, hstep⟩,
      fun r hr => absurd (hopen.symm.trans hr) (by simp)⟩, hoff, fun _ _ => rfl⟩

theorem openTask_follows (start : Disk φ) (part : FilePart recordFormat spool) :
    Follows drain tools mode eventFormat start.states start part (openTask spool part.task) := by
  obtain ⟨hspool, hlines⟩ := part.lines
  unfold openTask
  rw [hspool]
  refine ⟨rfl, part.scope_eq, rfl, ⟨part.records, hlines, ?_, ?_⟩, fun r hr => by cases hr⟩
  · rw [part.counted, List.range_eq_range']
  · have htracks : Tracks drain tools mode start.states start.states part.toPart
        { scope := part.scope, pending := part.records } := tracks_start start.states part.toPart
    rw [← part.scope_eq] at htracks
    exact htracks

/-! ## The pool -/

/-- Every worker is on its way, and what is collected is what it ended with. -/
structure PoolFollows (drain : Drain σ φ) (tools : Tools ρ) (mode : ParameterMode)
    (eventFormat : Format (Event ρ)) (start : Files φ) (parts : List (FilePart recordFormat spool))
    (pool : FilePool σ φ ρ) : Prop where
  workers : List.Forall₂ (Follows drain tools mode eventFormat start pool.disk) parts pool.workers
  length : pool.results.length = parts.length
  results : ∀ (i : ℕ) (r : FileResult), pool.results[i]? = some (some r) →
    pool.workers[i]?.bind FileWorker.result = some r
  given : ∀ i < pool.submitted, i ∈ pool.futures ∨
    ∃ r : FileResult, pool.results[i]? = some (some r)

theorem PoolFollows.refill {start : Files φ} {parts : List (FilePart recordFormat spool)}
    {pool : FilePool σ φ ρ} (h : PoolFollows drain tools mode eventFormat start parts pool)
    (limit : ℕ) : PoolFollows drain tools mode eventFormat start parts (refill limit pool) where
  workers := h.workers
  length := h.length
  results := h.results
  given := by
    intro i hi
    unfold Mining.refill at hi ⊢
    dsimp only at hi ⊢
    by_cases hold : i < pool.submitted
    · exact (h.given i hold).imp (fun hmem => List.mem_append_left _ hmem) fun hres => hres
    · refine .inl (List.mem_append_right _ (List.mem_range'_1.mpr ⟨by omega, hi⟩))

/-- Writing the results at their positions. -/
theorem getElem?_setAll {α : Type} (done : List ℕ) (value : ℕ → α) (results : List α) (j : ℕ) :
    (done.foldl (fun results i => results.set i (value i)) results)[j]? =
      if j ∈ done then results[j]?.map fun _ => value j else results[j]? := by
  induction done generalizing results with
  | nil => simp
  | cons i rest ih =>
      rw [List.foldl_cons, ih, List.getElem?_set]
      by_cases hij : i = j
      · subst hij
        by_cases hlen : i < results.length
        · simp [hlen]
        · simp [hlen]
      · by_cases hrest : j ∈ rest
        · simp [hij, hrest]
        · simp [hij, hrest, Ne.symm hij]

theorem length_setAll {α : Type} (done : List ℕ) (value : ℕ → α) (results : List α) :
    (done.foldl (fun results i => results.set i (value i)) results).length = results.length := by
  induction done generalizing results with
  | nil => rfl
  | cons i rest ih => rw [List.foldl_cons, ih, List.length_set]

theorem PoolFollows.collect {start : Files φ} {parts : List (FilePart recordFormat spool)}
    {pool : FilePool σ φ ρ} (h : PoolFollows drain tools mode eventFormat start parts pool)
    (limit : ℕ) : PoolFollows drain tools mode eventFormat start parts (collect limit pool) := by
  unfold Mining.collect
  dsimp only
  split
  · exact ⟨h.workers, h.length, h.results, h.given⟩
  · rename_i hraised
    rw [List.findSome?_eq_none_iff] at hraised
    refine PoolFollows.refill ?_ limit
    refine ⟨h.workers, ?_, ?_, ?_⟩
    · rw [length_setAll]
      exact h.length
    · intro i r hr
      rw [getElem?_setAll] at hr
      split at hr
      · obtain ⟨-, -, hvalue⟩ := Option.map_eq_some_iff.mp hr
        exact hvalue
      · exact h.results i r hr
    · intro i hi
      dsimp only at hi ⊢
      rcases h.given i hi with hmem | ⟨r, hr⟩
      · by_cases hdone : isDoneAt pool i = true
        · right
          have hfiltered : i ∈ pool.futures.filter (isDoneAt pool) := List.mem_filter.mpr ⟨hmem, hdone⟩
          have hnone := hraised i hfiltered
          unfold isDoneAt at hdone
          cases hworker : pool.workers[i]? with
          | none =>
              rw [hworker] at hdone
              cases hdone
          | some w =>
              rw [hworker] at hdone hnone
              have hsome : w.result.isSome = true := by
                have hboth : (w.result.isSome || w.raised.isSome) = true := hdone
                have hno : w.raised = none := hnone
                rwa [hno, Option.isSome_none, Bool.or_false] at hboth
              obtain ⟨r, hr⟩ := Option.isSome_iff_exists.mp hsome
              obtain ⟨hi', -⟩ := List.getElem?_eq_some_iff.mp hworker
              have hlen : i < pool.results.length := by
                rw [h.length, h.workers.length_eq]
                exact hi'
              refine ⟨r, ?_⟩
              rw [getElem?_setAll, if_pos hfiltered, List.getElem?_eq_getElem hlen]
              simp [hworker, hr]
        · exact .inl (List.mem_filter.mpr ⟨hmem, by simpa using hdone⟩)
      · right
        by_cases hdone : i ∈ pool.futures.filter (isDoneAt pool)
        · obtain ⟨hi', -⟩ := List.getElem?_eq_some_iff.mp hr
          refine ⟨r, ?_⟩
          rw [getElem?_setAll, if_pos hdone, List.getElem?_eq_getElem hi', h.results i r hr]
          rfl
        · exact ⟨r, by rw [getElem?_setAll, if_neg hdone, hr]⟩

variable (drain snapshot tools mode eventFormat) in
/-- Whoever's turn it is, the pool stays on its way. -/
theorem fileTurn_follows {start : Files φ} {parts : List (FilePart recordFormat spool)}
    (hdiffer : FilesDiffer parts) {pool : FilePool σ φ ρ}
    (h : PoolFollows drain tools mode eventFormat start parts pool) (limit : ℕ) (turn : Turn) :
    PoolFollows drain tools mode eventFormat start parts
      (fileTurn drain snapshot tools mode recordFormat eventFormat limit pool turn) := by
  cases turn with
  | collect =>
      unfold fileTurn
      dsimp only
      split
      · exact h
      · exact h.collect limit
  | run i =>
      unfold fileTurn
      dsimp only
      split
      case isFalse => exact h
      cases hworker : pool.workers[i]? with
      | none => exact h
      | some w =>
      dsimp only
      obtain ⟨hi, rfl⟩ := List.getElem?_eq_some_iff.mp hworker
      have hworkers := h.workers
      rw [List.forall₂_iff_get] at hworkers
      obtain ⟨hlength, hall⟩ := hworkers
      have hpi : i < parts.length := hlength ▸ hi
      obtain ⟨hmoved, hstates, hevents⟩ :=
        fileStep_follows drain snapshot tools mode recordFormat eventFormat (hall i hpi hi)
      refine ⟨?_, h.length, ?_, h.given⟩
      · rw [List.forall₂_iff_get]
        refine ⟨by rw [List.length_set, hlength], fun j hj hj' => ?_⟩
        have hj'' : j < pool.workers.length := by rwa [List.length_set] at hj'
        by_cases hij : i = j
        · subst hij
          rw [List.get_eq_getElem, List.get_eq_getElem, List.getElem_set_self]
          exact hmoved
        · rw [List.get_eq_getElem, List.get_eq_getElem, List.getElem_set_ne hij]
          have hapart : stateFile parts[j].key ≠ stateFile parts[i].key ∧
              parts[j].task.outputPath ≠ parts[i].task.outputPath := by
            rcases lt_or_gt_of_ne hij with hlt | hgt
            · exact (List.pairwise_iff_getElem.mp hdiffer i j hpi hj hlt).imp Ne.symm Ne.symm
            · exact List.pairwise_iff_getElem.mp hdiffer j i hj hpi hgt
          exact (hall j hj hj'').congr (hstates _ hapart.1) (hevents _ hapart.2)
      · intro j r hr
        have hold := h.results j r hr
        by_cases hij : i = j
        · subst hij
          rw [hworker] at hold
          have hresult : pool.workers[i].result = some r := hold
          have hdone : pool.workers[i].isDone = true := by
            unfold FileWorker.isDone
            rw [hresult]
            rfl
          rw [fileStep_of_isDone hdone, List.set_getElem_self, hworker]
          exact hold
        · rw [List.getElem?_set_ne hij]
          exact hold

theorem map_some_reduceOption {α : Type} {l : List (Option α)} (h : ∀ o ∈ l, o.isSome = true) :
    l.reduceOption.map some = l := by
  induction l with
  | nil => rfl
  | cons o rest ih =>
      obtain ⟨ho, hrest⟩ := List.forall_mem_cons.mp h
      obtain ⟨a, rfl⟩ := Option.isSome_iff_exists.mp ho
      rw [List.reduceOption_cons_of_some, List.map_cons, ih hrest]

theorem startPool_follows (limit : ℕ) (parts : List (FilePart recordFormat spool)) (start : Disk φ) :
    PoolFollows drain tools mode eventFormat start.states parts
      (startPool (σ := σ) (ρ := ρ) spool limit (parts.map FilePart.task) start) := by
  refine PoolFollows.refill ⟨?_, ?_, ?_, ?_⟩ limit
  · dsimp only
    rw [List.map_map, List.forall₂_map_right_iff, List.forall₂_same]
    exact fun part _ => openTask_follows start part
  · simp
  · intro i r hr
    dsimp only at hr
    rw [List.getElem?_replicate] at hr
    split at hr
    · cases hr
    · cases hr
  · exact fun i hi => absurd hi (Nat.not_lt_zero i)

/-- What the pool returns is what the partitions are mined to alone, and their events
are on disk, whatever the schedule. -/
theorem poolFiles_landed {parts : List (FilePart recordFormat spool)} (hdiffer : FilesDiffer parts)
    {limit : ℕ} {schedule : List Turn} {start disk : Disk φ} {results : List FileResult}
    (h : poolFiles drain snapshot tools mode recordFormat eventFormat spool limit
      (parts.map FilePart.task) schedule start = (disk, .ok results)) :
    List.Forall₂ (Landed drain tools mode eventFormat start.states disk.events) parts results := by
  have hstep : ∀ (pool : FilePool σ φ ρ) (turn : Turn),
      PoolFollows drain tools mode eventFormat start.states parts pool →
        PoolFollows drain tools mode eventFormat start.states parts
          (fileTurn drain snapshot tools mode recordFormat eventFormat limit pool turn) :=
    fun pool turn hpool =>
      fileTurn_follows drain snapshot tools mode eventFormat hdiffer hpool limit turn
  have hrun := exec_invariant' hstep (startPool_follows limit parts start) schedule
  unfold poolFiles at h
  unfold exec at hrun
  dsimp only at h
  generalize schedule.foldl _ _ = pool at h hrun
  obtain ⟨rfl, houtcome⟩ := Prod.mk.inj h
  unfold FilePool.outcome at houtcome
  split at houtcome
  · cases houtcome
  · split at houtcome
    · rename_i hended
      obtain ⟨hfutures, hsubmitted⟩ := hended
      have hlength := hrun.workers.length_eq
      have hall : ∀ i (hi : i < parts.length), ∃ r, pool.results[i]? = some (some r) := by
        intro i hi
        rcases hrun.given i (by rw [hsubmitted]; omega) with hmem | hres
        · rw [hfutures] at hmem
          cases hmem
        · exact hres
      have hresults : pool.results = results.map some := by
        rw [← Except.ok.inj houtcome]
        refine (map_some_reduceOption fun o ho => ?_).symm
        obtain ⟨i, hi, rfl⟩ := List.getElem_of_mem ho
        obtain ⟨r, hr⟩ := hall i (by rw [← hrun.length]; exact hi)
        rw [List.getElem?_eq_getElem hi] at hr
        rw [Option.some.inj hr]
        rfl
      rw [List.forall₂_iff_get]
      have hcount : results.length = parts.length := by
        rw [← hrun.length, hresults, List.length_map]
      refine ⟨hcount.symm, fun i hi hi' => ?_⟩
      have hworkers := hrun.workers
      rw [List.forall₂_iff_get] at hworkers
      have hget : pool.results[i]? = some (some (results.get ⟨i, hi'⟩)) := by
        rw [hresults, List.getElem?_map, List.getElem?_eq_getElem hi']
        rfl
      have hw : i < pool.workers.length := hlength ▸ hi
      have hresult := hrun.results i _ hget
      rw [List.getElem?_eq_getElem hw] at hresult
      exact (hworkers.2 i hi hw).landed _ hresult
    · cases houtcome

end LogRisk.Mining
