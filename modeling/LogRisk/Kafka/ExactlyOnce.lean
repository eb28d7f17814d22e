import LogRisk.Kafka.Invariant

/-!
# Every message is committed exactly once

Every step of the Kafka system keeps the invariant, whatever the broker returns
and wherever a worker stops.  When the task is completed the committed batches
therefore hold the messages up to the locked ends, in order and without
repetition.
-/

namespace LogRisk.Kafka

open LogRisk.Library LogRisk.Library.Transaction LogRisk.Streaming

variable {ν ω Λ ρ : Type} {topic : Topic ν} {settings : Settings ν} {locked : ℕ → ℕ}
  {taskId : String} {env : Env ω Λ ρ} {stored : SourceCursor} {w : Worker ν}
  {batches : List (String × List (Message ν))} {t : TaskTables ω}

/-! ## Starting a worker -/

/-- What a source opened at a cursor starts with. -/
theorem openReader_cases {fingerprint : String} {brokerEnds : ℕ → ℕ} {cursor : SourceCursor}
    {reader : Reader ν} (h : openReader topic fingerprint brokerEnds cursor = .ok reader) :
    topic.partitions ≠ [] ∧ reader.current = cursorOffsets cursor ∧
      reader.position = nextOffset topic (cursorOffsets cursor) ∧ reader.pending = [] ∧
      endOffsets topic brokerEnds (cursor.value.highWater.getD ∅) = .ok reader.ends := by
  obtain ⟨_, h⟩ := require_bind_eq_ok.mp h
  obtain ⟨hpartitions, h⟩ := require_bind_eq_ok.mp h
  obtain ⟨_, h⟩ := require_bind_eq_ok.mp h
  obtain ⟨_, h⟩ := require_bind_eq_ok.mp h
  obtain ⟨_, h⟩ := require_bind_eq_ok.mp h
  obtain ⟨ends, hends, hpure⟩ := bind_eq_ok.mp h
  cases hpure
  exact ⟨hpartitions, rfl, rfl, rfl, hends⟩

/-- A source opened at the empty cursor locks the broker's ends, one opened at a
checkpoint keeps the ends locked there. -/
theorem locked_of_openReader {fingerprint : String} {brokerEnds : ℕ → ℕ} {cursor : SourceCursor}
    {reader : Reader ν} (h : openReader topic fingerprint brokerEnds cursor = .ok reader)
    (hcursor : cursor = SourceCursor.empty ∨
      cursor = checkpoint topic settings.bootstrapFingerprint locked (cursorOffsets cursor)) :
    (cursor = SourceCursor.empty ∧ cursor.value.highWater.getD ∅ = ∅) ∨
      (cursor = checkpoint topic settings.bootstrapFingerprint locked (cursorOffsets cursor) ∧
        cursor.value.highWater.getD ∅ ≠ ∅ ∧ ∀ p ∈ topic.partitions, reader.ends p = locked p) := by
  obtain ⟨hpartitions, _, _, _, hends⟩ := openReader_cases h
  rcases hcursor with rfl | hcheckpoint
  · exact .inl ⟨rfl, rfl⟩
  · have hhigh : cursor.value.highWater.getD ∅ = offsetsOf locked topic.partitions := by
      rw [hcheckpoint]
      rfl
    have hne := offsetsOf_ne_empty (f := locked) hpartitions
    rw [hhigh, endOffsets, if_neg hne, if_pos (keys_offsetsOf _ _)] at hends
    refine .inr ⟨hcheckpoint, hhigh ▸ hne, fun p hp => ?_⟩
    rw [← Except.ok.inj hends]
    change ((offsetsOf locked topic.partitions).offset (partitionKey p)).toNat = locked p
    rw [offset_eq_of_lookup (lookup_offsetsOf hp)]
    rfl

theorem WorkerInv.start {token : String} {reader : Reader ν}
    (hstorable : Storable topic settings.bootstrapFingerprint locked stored)
    (hends : ∀ p ∈ topic.partitions, reader.ends p = locked p)
    (hcurrent : reader.current = cursorOffsets stored)
    (hposition : reader.position = nextOffset topic (cursorOffsets stored))
    (hpending : reader.pending = []) :
    WorkerInv topic settings locked stored (Worker.start token stored reader) where
  ends := hends
  cursor := by
    change (stored = _ ∧ reader.current = ∅) ∨ stored = checkpoint _ _ _ reader.current
    rw [hcurrent]
    rcases hstorable.form with rfl | hcheckpoint
    · exact .inl ⟨rfl, rfl⟩
    · exact .inr hcheckpoint
  fresh := id
  valid := hcurrent ▸ hstorable.valid
  covers := hcurrent ▸ OffsetMap.Covers.refl _
  ahead h := absurd rfl h
  idle _ := hcurrent
  batch p _ := by
    change [] = topic.between p _ (nextOffset topic reader.current p)
    rw [hcurrent]
    exact (Log.slice_self _).symm
  batchKnown m hm := by cases hm
  pending p _ := by
    change beforeEnd (locked p) (ofPartition p reader.pending) =
      topic.between p (nextOffset topic reader.current p) (min (reader.position p) (locked p))
    rw [hpending, hcurrent, hposition]
    exact (Log.slice_eq_nil_of_le (min_le_left _ _)).symm
  pendingKnown m hm := by
    change m ∈ reader.pending at hm
    rw [hpending] at hm
    cases hm
  position p _ := by
    change nextOffset topic reader.current p ≤ reader.position p
    rw [hcurrent, hposition]
  seen pos hpos := by cases hpos
  receipts _ := rfl
  atEnd h := by cases h
  noBatch h := by cases h

/-- Before anything is committed the ends may still be locked anew. -/
theorem StoredInv.relock (hinv : StoredInv topic settings locked batches t) (locked' : ℕ → ℕ)
    (hempty : t.task.cursor = SourceCursor.empty) (hstatus : t.task.status ≠ .completed) :
    StoredInv topic settings locked' batches t where
  cursor := by
    rw [hempty]
    exact .empty ..
  stored row hrow := by
    have hrowEmpty := (hinv.stored row hrow).2 hempty
    rw [hrowEmpty]
    exact ⟨.empty .., fun _ => rfl⟩
  rows := hinv.rows
  recorded := hinv.recorded
  records := hinv.records
  known := hinv.known
  completed h := absurd h hstatus

/-! ## Phases -/

theorem WorkerInv.withPhase (hinv : WorkerInv topic settings locked stored w) {phase : Phase}
    (hend : phase.ended = true → w.reader.pending = [] ∧ w.reader.Reached topic)
    (hbatch : phase.empty = true → w.batch = []) {receipts : List (ℕ × ℕ)}
    (hreceipts : w.batch = [] → receipts = []) :
    WorkerInv topic settings locked stored
      { w with receiptPositions := receipts, phase := phase } :=
  { hinv with receipts := hreceipts, atEnd := hend, noBatch := hbatch }

/-- At the end of the source nothing before a locked end is left unread. -/
theorem WorkerInv.nothing_left (hinv : WorkerInv topic settings locked stored w)
    (hpending : w.reader.pending = []) (hreached : w.reader.Reached topic) {p : ℕ}
    (hp : p ∈ topic.partitions) :
    topic.between p (nextOffset topic w.reader.current p) (locked p) = [] := by
  have hslice := hinv.pending p hp
  have hle := hreached p hp
  rw [hinv.ends p hp] at hle
  rw [hpending, min_eq_right hle] at hslice
  exact hslice.symm

/-! ## Committing a batch -/

theorem WorkerInv.cursorOffsets_current (hinv : WorkerInv topic settings locked stored w) :
    cursorOffsets w.currentCursor = w.reader.current := by
  rcases hinv.cursor with ⟨hempty, hcurrent⟩ | hcheckpoint
  · rw [hempty, hcurrent]
    rfl
  · rw [hcheckpoint]
    rfl

/-- A committed batch leaves the worker level with the stored cursor. -/
theorem WorkerInv.committed (hinv : WorkerInv topic settings locked stored w)
    {last : Bool} (hphase : w.phase = .flushing last) {stored' : SourceCursor}
    (hstored : cursorOffsets stored' = w.reader.current)
    (hfresh : w.currentCursor = SourceCursor.empty → stored' = SourceCursor.empty) :
    WorkerInv topic settings locked stored' (w.committed last) where
  ends := hinv.ends
  cursor := hinv.cursor
  fresh := hfresh
  valid := hinv.valid
  covers := hstored ▸ OffsetMap.Covers.refl _
  ahead h := absurd rfl h
  idle _ := hstored.symm
  batch p _ := by
    rw [hstored]
    exact (Log.slice_self _).symm
  batchKnown m hm := by cases hm
  pending := hinv.pending
  pendingKnown := hinv.pendingKnown
  position := hinv.position
  seen := hinv.seen
  receipts _ := rfl
  atEnd h := hinv.atEnd (by rw [hphase]; exact h)
  noBatch _ := rfl

/-- The records of the batch continue those committed before. -/
theorem records_append (hstored : StoredInv topic settings locked batches t)
    (hinv : WorkerInv topic settings locked t.task.cursor w) (windowId : String) {p : ℕ}
    (hp : p ∈ topic.partitions) :
    ofPartition p ((batches ++ [(windowId, w.batch)]).flatMap Prod.snd) =
      topic.between p (topic.beginning p) (nextOffset topic w.reader.current p) := by
  rw [List.flatMap_append, ofPartition_append, hstored.records p hp]
  have hbatch : [(windowId, w.batch)].flatMap Prod.snd = w.batch := by simp
  rw [hbatch, hinv.batch p hp]
  exact (Log.slice_append (topic.increasing p) (hstored.cursor.valid.beginning_le hp)
    (nextOffset_le_of_covers hinv.valid hinv.covers hp)).symm

theorem WorkerInv.storable (hinv : WorkerInv topic settings locked stored w) :
    Storable topic settings.bootstrapFingerprint locked w.currentCursor where
  form := by
    rw [hinv.cursorOffsets_current]
    exact hinv.cursor.imp And.left id
  valid := by
    rw [hinv.cursorOffsets_current]
    exact hinv.valid

theorem StoredInv.insertCommit (hstored : StoredInv topic settings locked batches t)
    (hinv : WorkerInv topic settings locked t.task.cursor w) {now : String}
    (payload : CommitRequest ω ρ) (prepared : PreparedCommit ω) (recordCount : ℤ) :
    StoredInv topic settings locked
      (batches ++ [(settings.windowId w.currentCursor, w.batch)])
      (t.insertCommit now (w.request settings payload) prepared recordCount) := by
  have hoffsets := hinv.cursorOffsets_current
  refine ⟨hinv.storable, fun row hrow => ?_, fun row hrow => ?_, ?_, fun p hp => ?_,
    fun m hm => ?_, fun h => by cases h⟩
  · rcases List.mem_append.mp hrow with hold | hnew
    · obtain ⟨hrowStorable, hrowEmpty⟩ := hstored.stored row hold
      exact ⟨hrowStorable, fun hempty => hrowEmpty (hinv.fresh hempty)⟩
    · rw [List.mem_singleton.mp hnew]
      exact ⟨hinv.storable, id⟩
  · change row.windowId = settings.windowId row.cursor ∧
      (cursorOffsets w.currentCursor).Covers (cursorOffsets row.cursor)
    rcases List.mem_append.mp hrow with hold | hnew
    · obtain ⟨hid, hcovers⟩ := hstored.rows row hold
      rw [hoffsets]
      exact ⟨hid, hinv.covers.trans hcovers⟩
    · rw [List.mem_singleton.mp hnew]
      exact ⟨rfl, OffsetMap.Covers.refl _⟩
  · change _ = (t.commits ++ [_]).map CommitRow.windowId
    rw [List.map_append, List.map_append, hstored.recorded]
    rfl
  · change _ = topic.between p (topic.beginning p)
      (nextOffset topic (cursorOffsets w.currentCursor) p)
    rw [hoffsets]
    exact records_append hstored hinv _ hp
  · rw [List.flatMap_append, List.mem_append] at hm
    rcases hm with hold | hnew
    · exact hstored.known m hold
    · exact hinv.batchKnown m (by simpa using hnew)

/-- A commit records the batch, or finds its window recorded, and then the batch
is empty: a batch with records ends ahead of every recorded checkpoint. -/
theorem commit_keeps (hdigest : settings.CollisionFree topic)
    {store store' : Store ω Λ} {now : String} {payload : CommitRequest ω ρ} {fresh last : Bool}
    (ht : store.tasks.get? taskId = some t)
    (hstored : StoredInv topic settings locked batches t)
    (hinv : WorkerInv topic settings locked t.task.cursor w)
    (hphase : w.phase = .flushing last)
    (hcommit : store.commitWindow env now taskId (w.request settings payload) =
      .ok (fresh, store')) :
    ∃ t', store'.tasks.get? taskId = some t' ∧
      StoredInv topic settings locked
        (if fresh then batches ++ [(settings.windowId w.currentCursor, w.batch)] else batches) t' ∧
      WorkerInv topic settings locked t'.task.cursor (w.committed last) := by
  obtain ⟨prepared, _, hcommit⟩ := bind_eq_ok.mp hcommit
  obtain ⟨u, t', ledger, hu, hrows, rfl⟩ := Store.onTask_eq_ok.mp hcommit
  obtain rfl : t = u := Option.some.inj (ht.symm.trans hu)
  refine ⟨t', Dict.get?_set_self .., ?_⟩
  obtain ⟨_, _, ⟨rfl, rfl, row, hrow, _⟩ | ⟨rfl, _, hwritten⟩⟩ :=
    TaskTables.commitWindow_cases hrows
  · -- the window is recorded already
    have hmem := List.mem_of_find?_eq_some hrow
    have hid : row.windowId = (w.request settings payload).windowId := by
      simpa using List.find?_some hrow
    obtain ⟨hown, hcovers⟩ := hstored.rows row hmem
    have hcursor : row.cursor = w.currentCursor := by
      refine hdigest locked (hstored.stored row hmem).1 hinv.storable ?_
      have htexts := congrArg String.toList (hown.symm.trans hid)
      exact String.toList_inj.mp (by simpa [Settings.windowId, Worker.request] using htexts)
    rw [hcursor, hinv.cursorOffsets_current] at hcovers
    have hempty : w.batch = [] := by
      by_contra hne
      exact hinv.ahead hne hcovers
    exact ⟨hstored, hinv.committed hphase (hinv.idle hempty).symm hinv.fresh⟩
  · obtain ⟨_, _, recordCount, _, rfl⟩ := TaskTables.commitNew_cases hwritten
    exact ⟨hstored.insertCommit hinv payload prepared recordCount,
      hinv.committed hphase hinv.cursorOffsets_current id⟩

/-! ## Steps and runs -/

theorem start_keeps {s : KafkaState ν ω Λ} {t' : TaskTables ω} {now token : String} {task : Task}
    {reader : Reader ν} {brokerEnds : ℕ → ℕ} {store : Store ω Λ}
    (hstored : StoredInv topic settings s.locked s.batches t)
    (hclaim : t.claim now token = .ok (task, t'))
    (hopen : openReader topic settings.bootstrapFingerprint brokerEnds task.cursor = .ok reader)
    (ht' : store.tasks.get? taskId = some t') :
    KafkaInv topic settings taskId { s with
      store := store
      worker := some (Worker.start token task.cursor reader)
      locked := if task.cursor.value.highWater.getD ∅ = ∅ then reader.ends else s.locked } := by
  obtain rfl := TaskTables.claim_returns hclaim
  obtain ⟨_, _, rfl⟩ := TaskTables.claim_cases hclaim
  have hsame : t.SameProgress ((t.setStatus { t.task with
      status := .running, stage := .reading, error := none, leaseToken := some token
      updatedAt := now }).appendEvent "task_claimed" [] now) :=
    ⟨rfl, rfl, rfl, rfl, rfl, rfl, rfl, .inl rfl, rfl⟩
  have hclaimed := hstored.sameProgress hsame (fun h => by cases h)
  obtain ⟨_, hcurrent, hposition, hpending, _⟩ := openReader_cases hopen
  refine ⟨_, ht', ?_⟩
  rcases locked_of_openReader hopen hclaimed.cursor.form with ⟨hempty, hnone⟩ | ⟨_, hsome, hends⟩
  · -- nothing was committed yet: the ends are locked now
    simp only [if_pos hnone]
    have hrelocked := hclaimed.relock reader.ends hempty (fun h => by cases h)
    refine ⟨hrelocked, fun w hw => ?_⟩
    obtain rfl := Option.some.inj hw
    exact .start hrelocked.cursor (fun _ _ => rfl) hcurrent hposition hpending
  · simp only [if_neg hsome]
    refine ⟨hclaimed, fun w hw => ?_⟩
    obtain rfl := Option.some.inj hw
    exact .start hclaimed.cursor hends hcurrent hposition hpending

/-- A completed task has nothing left before the locked ends. -/
theorem complete_keeps {store : Store ω Λ} {now : String} {reference : Option ResultReference}
    {evidence : Option PrefixEvidence} (ht : store.tasks.get? taskId = some t)
    (hstored : StoredInv topic settings locked batches t)
    (hinv : WorkerInv topic settings locked t.task.cursor w) (hphase : w.phase = .drained) :
    ∃ t', (Call.apply env store
        (.completeClaim now taskId w.leaseToken reference evidence)).tasks.get? taskId = some t' ∧
      StoredInv topic settings locked batches t' := by
  have hnot : ∀ n r, (Call.completeClaim now taskId w.leaseToken reference evidence : Call ω ρ) ≠
      .commitWindow n taskId r := fun _ _ h => by cases h
  obtain ⟨t', ht', hsame, _⟩ := apply_sameProgress env ht hnot
  refine ⟨t', ht', hstored.sameProgress hsame fun _ p hp => ?_⟩
  obtain ⟨hpending, hreached⟩ := hinv.atEnd (by rw [hphase]; rfl)
  rw [← hinv.idle (hinv.noBatch (by rw [hphase]; rfl))]
  exact hinv.nothing_left hpending hreached hp

theorem KafkaInv.step (hdigest : settings.CollisionFree topic)
    {s s' : KafkaState ν ω Λ} (hs : KafkaInv topic settings taskId s)
    (hstep : KafkaStep topic settings env taskId s s') : KafkaInv topic settings taskId s' := by
  obtain ⟨t, ht, hstored, hworker⟩ := hs
  cases hstep with
  | start brokerEnds hidle hclaim hopen =>
      obtain ⟨u, t', ledger, hu, hrows, rfl⟩ := Store.onTask_eq_ok.mp hclaim
      obtain rfl : t = u := Option.some.inj (ht.symm.trans hu)
      exact start_keeps hstored (keepLedger_eq_ok.mp hrows).1 hopen (Dict.get?_set_self ..)
  | poll advance hw hphase hpending hmore =>
      refine ⟨t, ht, hstored, fun v hv => ?_⟩
      obtain rfl := Option.some.inj hv
      exact (hworker _ hw).poll hphase hpending advance
  | skip hw hphase hpending hend =>
      refine ⟨t, ht, hstored, fun v hv => ?_⟩
      obtain rfl := Option.some.inj hv
      exact (hworker _ hw).skip hphase hpending hend
  | handle hw hphase hpending hend hhandle =>
      refine ⟨t, ht, hstored, fun v hv => ?_⟩
      obtain rfl := Option.some.inj hv
      exact (hworker _ hw).handle hpending hend hhandle
  | sourceEnds hw hphase hpending hpolled hreached =>
      refine ⟨t, ht, hstored, fun v hv => ?_⟩
      obtain rfl := Option.some.inj hv
      refine (hworker _ hw).withPhase (fun _ => ⟨hpending, hreached⟩) (fun h => ?_)
        (hworker _ hw).receipts
      by_contra hne
      rw [if_pos (.inl hne)] at h
      cases h
  | emptyReceipt hw hphase hledger =>
      refine ⟨t, ht, hstored, fun v hv => ?_⟩
      obtain rfl := Option.some.inj hv
      exact (hworker _ hw).withPhase (fun _ => (hworker _ hw).atEnd (by rw [hphase]; rfl))
        (fun h => by cases h) (hworker _ hw).receipts
  | commit payload hw hphase hcommit =>
      obtain ⟨t', ht', hstored', hworker'⟩ :=
        commit_keeps hdigest ht hstored (hworker _ hw) hphase hcommit
      refine ⟨t', ht', hstored', fun v hv => ?_⟩
      obtain rfl := Option.some.inj hv
      exact hworker'
  | @skipEmpty w last hw hphase hempty hledger =>
      refine ⟨t, ht, hstored, fun v hv => ?_⟩
      obtain rfl := Option.some.inj hv
      refine (hworker _ hw).withPhase (fun h => (hworker _ hw).atEnd ?_) (fun _ => hempty)
        fun _ => rfl
      rw [hphase]
      cases last
      · cases h
      · rfl
  | @acknowledge w last now hw hphase =>
      obtain ⟨t', ht', hcursor, hstored'⟩ := hstored.foreign ht env
        (.clearPendingExternalCommit now taskId w.currentCursor (some w.leaseToken)) trivial
      refine ⟨t', ht', hstored', fun v hv => ?_⟩
      obtain rfl := Option.some.inj hv
      rw [hcursor]
      refine (hworker _ hw).withPhase (fun h => (hworker _ hw).atEnd ?_)
        (fun _ => (hworker _ hw).noBatch (by rw [hphase]; rfl)) (hworker _ hw).receipts
      rw [hphase]
      cases last
      · cases h
      · rfl
  | complete now reference evidence hw hphase =>
      obtain ⟨t', ht', hstored'⟩ := complete_keeps ht hstored (hworker _ hw) hphase
      exact ⟨t', ht', hstored', fun v hv => by cases hv⟩
  | crash => exact ⟨t, ht, hstored, fun v hv => by cases hv⟩
  | foreign call hforeign =>
      obtain ⟨t', ht', hcursor, hstored'⟩ := hstored.foreign ht env call hforeign
      exact ⟨t', ht', hstored', hcursor ▸ hworker⟩
  | build generations hbuild =>
      obtain rfl := Option.some.inj (ht.symm.trans hbuild)
      exact ⟨_, Dict.get?_set_self .., { hstored with }, hworker⟩

theorem kafkaInv_of_reachable (hdigest : settings.CollisionFree topic) {s : KafkaState ν ω Λ}
    (hs : (kafkaSystem topic settings env taskId).Reachable s) :
    KafkaInv topic settings taskId s := by
  refine hs.invariant ?_ fun s s' hinv hstep => hinv.step hdigest hstep
  rintro s ⟨⟨now, configHash, descriptor, ht⟩, hworker, hbatches⟩
  refine ⟨_, ht, ⟨.empty .., ?_, ?_, ?_, ?_, ?_, fun h => by cases h⟩, ?_⟩
  · intro row hrow
    cases hrow
  · intro row hrow
    cases hrow
  · rw [hbatches]
    rfl
  · intro p hp
    rw [hbatches]
    exact (Log.slice_self _).symm
  · rw [hbatches]
    intro m hm
    cases hm
  · rw [hworker]
    intro w hw
    cases hw

/-- Records that agree with an increasing log on every partition repeat nothing. -/
theorem nodup_of_ofPartition {records : List (Message ν)} {lo hi : ℕ → ℕ}
    (hknown : ∀ m ∈ records, m.partition ∈ topic.partitions)
    (heq : ∀ p ∈ topic.partitions, ofPartition p records = topic.between p (lo p) (hi p)) :
    records.Nodup := by
  classical
  refine List.nodup_iff_count_le_one.mpr fun m => ?_
  by_cases hm : m ∈ records
  · have hcount : (ofPartition m.partition records).count m = records.count m :=
      List.count_filter (by simp)
    rw [← hcount, heq _ (hknown m hm)]
    have hsorted : (topic.between m.partition (lo m.partition) (hi m.partition)).Pairwise
        fun a b => a.offset < b.offset := (topic.increasing _).filter _
    exact List.nodup_iff_count_le_one.mp
      (hsorted.imp fun {a b} hlt h => absurd (congrArg Message.offset h) hlt.ne) m
  · rw [List.count_eq_zero_of_not_mem hm]
    exact Nat.zero_le 1

/-- When the task is completed, the committed batches hold, partition by partition
and in order, the messages from the beginning up to the end locked at the start,
and no message twice. -/
theorem committed_exactly_once (hdigest : settings.CollisionFree topic) {s : KafkaState ν ω Λ}
    (hs : (kafkaSystem topic settings env taskId).Reachable s)
    (ht : s.store.tasks.get? taskId = some t) (hdone : t.task.status = .completed) :
    (∀ p ∈ topic.partitions, ofPartition p s.records =
      topic.between p (topic.beginning p) (s.locked p)) ∧
    (∀ m ∈ s.records, m.partition ∈ topic.partitions) ∧ s.records.Nodup ∧
    s.batches.map Prod.fst = t.commits.map CommitRow.windowId ∧
    (t.task.cursor = SourceCursor.empty ∨
      t.task.cursor.value.highWater = some (offsetsOf s.locked topic.partitions)) := by
  obtain ⟨u, hu, hstored, _⟩ := kafkaInv_of_reachable hdigest hs
  obtain rfl := Option.some.inj (ht.symm.trans hu)
  have hrecords : ∀ p ∈ topic.partitions, ofPartition p s.records =
      topic.between p (topic.beginning p) (s.locked p) := by
    intro p hp
    rw [KafkaState.records, hstored.records p hp]
    refine (Log.slice_extend (topic.increasing p) (hstored.cursor.valid.beginning_le hp)
      (hstored.completed hdone p hp) ?_).symm
    exact hstored.cursor.valid.le_end_or hp
  refine ⟨hrecords, hstored.known, nodup_of_ofPartition hstored.known hrecords,
    hstored.recorded, hstored.cursor.form.imp id fun hcheckpoint => ?_⟩
  rw [hcheckpoint]
  rfl

/-- One partition with one message behind a gap. -/
def gapTopic : Topic Unit where
  partitions := [0]
  log p := if p = 0 then [⟨0, 1, ()⟩] else []
  beginning _ := 0
  nodup := by decide
  increasing p := by
    split
    · exact List.pairwise_singleton _ _
    · exact .nil
  own p m hm := by
    split at hm
    · rename_i hp
      rw [List.mem_singleton.mp hm, hp]
    · cases hm

def offsetText (cursor : SourceCursor) : String :=
  match (cursorOffsets cursor).lookup (partitionKey 0) with
  | none => cursor.kind
  | some n => "offset " ++ toString n

def gapSettings : Settings Unit where
  batchRecords := 1
  maxBatchBytes := 1
  recordBytes _ := 1
  bootstrapFingerprint := "broker"
  cursorDigest := offsetText

theorem gapTopic_offsets_ext {ends : ℕ → ℕ} {a b : OffsetMap} (ha : ValidOffsets gapTopic ends a)
    (hb : ValidOffsets gapTopic ends b)
    (h : a.lookup (partitionKey 0) = b.lookup (partitionKey 0)) : a = b := by
  have hnone : ∀ {m : OffsetMap} {key}, ValidOffsets gapTopic ends m → key ≠ partitionKey 0 →
      m.lookup key = none := by
    intro m key hm hkey
    refine Finmap.lookup_eq_none.mpr fun hmem => ?_
    obtain ⟨p, hp, rfl⟩ := hm.known key hmem
    rw [List.mem_singleton.mp hp] at hkey
    exact hkey rfl
  refine Finmap.ext_lookup fun key => ?_
  by_cases hkey : key = partitionKey 0
  · rw [hkey, h]
  · rw [hnone ha hkey, hnone hb hkey]

theorem offsetText_of_storable {ends : ℕ → ℕ} {c : SourceCursor}
    (h : Storable gapTopic "broker" ends c) : c = SourceCursor.empty ∨
      c = checkpoint gapTopic "broker" ends (cursorOffsets c) ∧
        ((cursorOffsets c).lookup (partitionKey 0) = none ∧ offsetText c = "kafka" ∨
          ∃ n, (cursorOffsets c).lookup (partitionKey 0) = some n ∧
            offsetText c = "offset " ++ toString n) := by
  refine h.form.imp_right fun hcheckpoint => ⟨hcheckpoint, ?_⟩
  cases hn : (cursorOffsets c).lookup (partitionKey 0) with
  | none =>
      refine .inl ⟨rfl, ?_⟩
      rw [offsetText, hn, hcheckpoint]
      rfl
  | some n => exact .inr ⟨n, rfl, by rw [offsetText, hn]⟩

theorem gapSettings_collisionFree : gapSettings.CollisionFree gapTopic := by
  have hkafka : ∀ s : String, "kafka" ≠ "offset " ++ s := fun s h => by
    simpa using congrArg String.toList h
  have hempty : ∀ s : String, offsetText SourceCursor.empty ≠ "offset " ++ s := fun s h => by
    simpa [offsetText] using congrArg String.toList (show "" = _ from h)
  intro ends a ha b hb (h : offsetText a = offsetText b)
  have hsame := gapTopic_offsets_ext ha.valid hb.valid
  rcases offsetText_of_storable ha with rfl | ⟨ha, ⟨hna, hta⟩ | ⟨n, hna, hta⟩⟩ <;>
    rcases offsetText_of_storable hb with rfl | ⟨hb, ⟨hnb, htb⟩ | ⟨m, hnb, htb⟩⟩
  · rfl
  · exact absurd (h.trans htb) (by decide)
  · exact absurd (h.trans htb) (hempty _)
  · exact absurd (h.symm.trans hta) (by decide)
  · rw [ha, hb, hsame (hna.trans hnb.symm)]
  · exact absurd (hta.symm.trans (h.trans htb)) (hkafka _)
  · exact absurd (h.symm.trans hta) (hempty _)
  · exact absurd (htb.symm.trans (h.symm.trans hta)) (hkafka _)
  · have htexts := hta.symm.trans (h.trans htb)
    have hnm : n = m := by
      refine Int.repr_inj.mp (String.toList_inj.mp ?_)
      simpa using congrArg String.toList htexts
    rw [ha, hb, hsame (by rw [hna, hnb, hnm])]

def gapEnv : Env Unit Unit Unit where
  sha256 _ := "digest"
  sha256_ne_empty _ := by decide
  safeWindow := .ok
  safeTemplate := fun _ => .error (.state "未知模板缺少 template_hash")
  windowJson := fun _ => .null
  recordIngestionBatch := none

def gapPayload : CommitRequest Unit Unit where
  windowId := ""
  cursor := SourceCursor.empty
  templates := []

def gapStore : Store Unit Unit where
  tasks := Dict.set ∅ "task" (newTables (newTask "task" "now" ⟨"kafka", [], []⟩ "config"))
  ledger := ()

/-- The evidence for the one batch. -/
def gapEvidence : PrefixEvidence where
  taskId := "task"
  frontier := checkpoint gapTopic "broker" (fun _ => 2) (Finmap.singleton (partitionKey 0) 2)
  committedBatches := 1
  recordCount := 1
  resultCompleteness := "complete"
  manifestHistory := "unavailable"
  summaryUnknownFields := []
  summaryInvalidFields := []
  evidenceDigest := "digest"

def gapGenerations : Dict String Generation :=
  Dict.set ∅ "generation"
    ⟨.ready, gapEvidence.frontier, some (gapEvidence.integrity "second")⟩

/-- A worker stops between the commit and the acknowledgement; the next one finds
nothing left and completes the task. -/
theorem gapTopic_completed : ∃ s t,
    (kafkaSystem gapTopic gapSettings gapEnv "task").Reachable s ∧
      s.store.tasks.get? "task" = some t ∧ t.task.status = .completed ∧
        ofPartition 0 s.records = gapTopic.between 0 0 2 := by
  have hinit : (kafkaSystem gapTopic gapSettings gapEnv "task").Reachable
      ⟨gapStore, none, [], fun _ => 0⟩ :=
    .init ⟨⟨"now", "config", ⟨"kafka", [], []⟩, rfl⟩, rfl, rfl⟩
  have hstarted := hinit.step (.start (fun _ => 2) rfl
    (rfl : gapStore.claimTask "now" "first" "task" = .ok _) rfl)
  have hpolled := hstarted.step (.poll (fun _ => 2) rfl rfl rfl fun h => by cases h)
  have hhandled := hpolled.step (.handle rfl rfl rfl (by decide) rfl)
  have hcommitted := hhandled.step
    (@KafkaStep.commit _ _ _ _ _ _ _ _ _ _ _ "now" _ _ gapPayload rfl rfl rfl)
  have hstopped := hcommitted.step .crash
  have hinterrupted := hstopped.step (.foreign (.markInterrupted "later" "task") trivial)
  have hrestarted := hinterrupted.step (@KafkaStep.start _ _ _ _ _ _ _ _ _ "later" "second" _ _ _
    (fun _ => 2) rfl rfl rfl)
  have hagain := hrestarted.step (.poll (fun _ => 0) rfl rfl rfl fun h => by cases h)
  have hended := hagain.step (.sourceEnds rfl rfl rfl rfl (by decide))
  have hsaved := hended.step (.foreign
    (.saveResult "later" "task" ⟨none, []⟩ (some "second") (some ⟨"task", "generation"⟩)) trivial)
  have hbuilt := hsaved.step (.build gapGenerations rfl)
  have hcompleted := hbuilt.step
    (.complete "later" (some ⟨"task", "generation"⟩) (some gapEvidence) rfl rfl)
  refine ⟨_, _, hcompleted, rfl, rfl, ?_⟩
  exact (committed_exactly_once gapSettings_collisionFree hcompleted rfl rfl).1 0 (by decide)
end LogRisk.Kafka
