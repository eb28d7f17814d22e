import LogRisk.Kafka.Pipeline

/-!
# What a Kafka worker holds between the store and the broker

The committed batches hold, for every partition, the messages between its
beginning and the next offset of the stored cursor, in order.  The batch of a
running worker continues them up to the reader's next offset, and what is left of
the last poll continues the batch up to the consumer's position.
-/

namespace LogRisk.Kafka

open LogRisk.Library LogRisk.Library.Transaction LogRisk.Streaming

variable {ν ω Λ ρ : Type}

/-- The messages of a partition with `lo ≤ offset < hi`. -/
def Topic.between (topic : Topic ν) (p lo hi : ℕ) : List (Message ν) :=
  Log.slice Message.offset lo hi (topic.log p)

def ofPartition (p : ℕ) (messages : List (Message ν)) : List (Message ν) :=
  messages.filter fun m => decide (m.partition = p)

@[simp] theorem ofPartition_nil (p : ℕ) : ofPartition p ([] : List (Message ν)) = [] := rfl

theorem ofPartition_append (p : ℕ) (xs ys : List (Message ν)) :
    ofPartition p (xs ++ ys) = ofPartition p xs ++ ofPartition p ys := List.filter_append ..

theorem ofPartition_cons_self {m : Message ν} {p : ℕ} (h : m.partition = p)
    (rest : List (Message ν)) : ofPartition p (m :: rest) = m :: ofPartition p rest :=
  List.filter_cons_of_pos (by simpa using h)

theorem ofPartition_cons_of_ne {m : Message ν} {p : ℕ} (h : m.partition ≠ p)
    (rest : List (Message ν)) : ofPartition p (m :: rest) = ofPartition p rest :=
  List.filter_cons_of_neg (by simpa using h)

/-- Of the messages polled, those of one partition. -/
theorem ofPartition_flatMap (topic : Topic ν) (lo hi : ℕ → ℕ) {p : ℕ} {ps : List ℕ}
    (hps : ps.Nodup) (hp : p ∈ ps) :
    ofPartition p (ps.flatMap fun q => topic.between q (lo q) (hi q)) =
      topic.between p (lo p) (hi p) := by
  have hother : ∀ q, q ≠ p → ofPartition p (topic.between q (lo q) (hi q)) = [] := by
    intro q hq
    refine List.filter_eq_nil_iff.mpr fun m hm => ?_
    have hown := topic.own q m (Log.mem_slice.mp hm).1
    simpa [hown] using hq
  have hnone : ∀ {qs : List ℕ}, p ∉ qs →
      ofPartition p (qs.flatMap fun q => topic.between q (lo q) (hi q)) = [] := by
    intro qs hqs
    induction qs with
    | nil => rfl
    | cons q rest ih =>
        rw [List.flatMap_cons, ofPartition_append, hother q fun h => hqs (by simp [h]),
          ih fun h => hqs (List.mem_cons_of_mem _ h), List.nil_append]
  induction ps with
  | nil => cases hp
  | cons q rest ih =>
      obtain ⟨hq, hrest⟩ := List.nodup_cons.mp hps
      rw [List.flatMap_cons, ofPartition_append]
      by_cases hqp : q = p
      · subst hqp
        rw [hnone hq, List.append_nil]
        exact List.filter_eq_self.mpr fun m hm => by
          simpa using topic.own q m (Log.mem_slice.mp hm).1
      · rw [hother q hqp, List.nil_append]
        exact ih hrest ((List.mem_cons.mp hp).resolve_left fun h => hqp h.symm)

/-- Messages that lie before the end of their partition. -/
def beforeEnd (ends : ℕ) (messages : List (Message ν)) : List (Message ν) :=
  messages.filter fun m => decide (m.offset < ends)

theorem beforeEnd_between (topic : Topic ν) (p lo hi ends : ℕ) :
    beforeEnd ends (topic.between p lo hi) = topic.between p lo (min hi ends) := by
  rw [beforeEnd, Topic.between, Topic.between, Log.slice, Log.slice, List.filter_filter]
  refine List.filter_congr fun m _ => ?_
  rw [← Bool.decide_and]
  refine decide_eq_decide.mpr ?_
  omega

/-! ## The invariant -/

/-- The stored rows of the task and the batches they stand for. -/
structure StoredInv (topic : Topic ν) (settings : Settings ν) (locked : ℕ → ℕ)
    (batches : List (String × List (Message ν))) (t : TaskTables ω) : Prop where
  cursor : Storable topic settings.bootstrapFingerprint locked t.task.cursor
  stored : ∀ row ∈ t.commits,
    Storable topic settings.bootstrapFingerprint locked row.cursor ∧
      (t.task.cursor = SourceCursor.empty → row.cursor = SourceCursor.empty)
  rows : ∀ row ∈ t.commits, row.windowId = settings.windowId row.cursor ∧
    (cursorOffsets t.task.cursor).Covers (cursorOffsets row.cursor)
  recorded : batches.map Prod.fst = t.commits.map CommitRow.windowId
  records : ∀ p ∈ topic.partitions, ofPartition p (batches.flatMap Prod.snd) =
    topic.between p (topic.beginning p) (nextOffset topic (cursorOffsets t.task.cursor) p)
  known : ∀ m ∈ batches.flatMap Prod.snd, m.partition ∈ topic.partitions
  completed : t.task.status = .completed → ∀ p ∈ topic.partitions,
    topic.between p (nextOffset topic (cursorOffsets t.task.cursor) p) (locked p) = []

/-- Phases in which the source is at its end. -/
def Phase.ended : Phase → Bool
  | .flushing last | .acknowledging last => last
  | .drained => true
  | .reading => false

/-- Phases in which no record waits for a commit. -/
def Phase.empty : Phase → Bool
  | .acknowledging _ | .drained => true
  | .flushing _ | .reading => false

/-- The worker against the stored cursor `stored`. -/
structure WorkerInv (topic : Topic ν) (settings : Settings ν) (locked : ℕ → ℕ)
    (stored : SourceCursor) (w : Worker ν) : Prop where
  ends : ∀ p ∈ topic.partitions, w.reader.ends p = locked p
  cursor : (w.currentCursor = SourceCursor.empty ∧ w.reader.current = ∅) ∨
    w.currentCursor = checkpoint topic settings.bootstrapFingerprint locked w.reader.current
  fresh : w.currentCursor = SourceCursor.empty → stored = SourceCursor.empty
  valid : ValidOffsets topic locked w.reader.current
  covers : w.reader.current.Covers (cursorOffsets stored)
  ahead : w.batch ≠ [] → ¬(cursorOffsets stored).Covers w.reader.current
  idle : w.batch = [] → w.reader.current = cursorOffsets stored
  batch : ∀ p ∈ topic.partitions, ofPartition p w.batch =
    topic.between p (nextOffset topic (cursorOffsets stored) p)
      (nextOffset topic w.reader.current p)
  batchKnown : ∀ m ∈ w.batch, m.partition ∈ topic.partitions
  pending : ∀ p ∈ topic.partitions, beforeEnd (locked p) (ofPartition p w.reader.pending) =
    topic.between p (nextOffset topic w.reader.current p) (min (w.reader.position p) (locked p))
  pendingKnown : ∀ m ∈ w.reader.pending, m.partition ∈ topic.partitions
  position : ∀ p ∈ topic.partitions, nextOffset topic w.reader.current p ≤ w.reader.position p
  seen : ∀ pos ∈ w.seenPositions, pos.2 < nextOffset topic w.reader.current pos.1
  receipts : w.batch = [] → w.receiptPositions = []
  atEnd : w.phase.ended = true → w.reader.pending = [] ∧ w.reader.Reached topic
  noBatch : w.phase.empty = true → w.batch = []

def KafkaInv (topic : Topic ν) (settings : Settings ν) (taskId : String)
    (s : KafkaState ν ω Λ) : Prop :=
  ∃ t, s.store.tasks.get? taskId = some t ∧
    StoredInv topic settings s.locked s.batches t ∧
    ∀ w ∈ s.worker, WorkerInv topic settings s.locked t.task.cursor w

variable {topic : Topic ν} {settings : Settings ν} {locked : ℕ → ℕ} {taskId : String}
  {env : Env ω Λ ρ}

/-! ## Store calls that commit nothing -/

/-- The task after a call that neither commits nor completes. -/
theorem StoredInv.sameProgress {batches : List (String × List (Message ν))} {t t' : TaskTables ω}
    (hinv : StoredInv topic settings locked batches t) (hsame : t.SameProgress t')
    (hcompleted : t'.task.status = .completed → ∀ p ∈ topic.partitions,
      topic.between p (nextOffset topic (cursorOffsets t.task.cursor) p) (locked p) = []) :
    StoredInv topic settings locked batches t' where
  cursor := hsame.cursor ▸ hinv.cursor
  stored := by
    rw [hsame.commits, hsame.cursor]
    exact hinv.stored
  rows := by
    rw [hsame.commits, hsame.cursor]
    exact hinv.rows
  recorded := by rw [hsame.commits, hinv.recorded]
  records := by
    rw [hsame.cursor]
    exact hinv.records
  known := hinv.known
  completed := by
    rw [hsame.cursor]
    exact hcompleted

/-- A call that is no commit leaves the progress of the task as it was. -/
theorem apply_sameProgress (env : Env ω Λ ρ) {store : Store ω Λ} {t : TaskTables ω}
    {call : Call ω ρ} (ht : store.tasks.get? taskId = some t)
    (hnot : ∀ now request, call ≠ .commitWindow now taskId request) :
    ∃ t', (call.apply env store).tasks.get? taskId = some t' ∧ t.SameProgress t' ∧
      TaskStep env call taskId (some t) (some t') := by
  have hstep := call.taskStep env store taskId
  rw [ht] at hstep
  obtain ⟨t', ht', hprogress⟩ := hstep.progress
  rw [ht'] at hstep
  rcases hprogress with hsame | ⟨now, request, prepared, hnew⟩
  · exact ⟨t', ht', hsame, hstep⟩
  · exact absurd hnew.hcall (hnot now request)

theorem StoredInv.foreign {store : Store ω Λ} {batches : List (String × List (Message ν))}
    {t : TaskTables ω} (hinv : StoredInv topic settings locked batches t)
    (ht : store.tasks.get? taskId = some t) (env : Env ω Λ ρ) (call : Call ω ρ)
    (hforeign : Call.foreign call) :
    ∃ t', (call.apply env store).tasks.get? taskId = some t' ∧
      t'.task.cursor = t.task.cursor ∧ StoredInv topic settings locked batches t' := by
  have hnot : ∀ now request, call ≠ .commitWindow now taskId request := by
    rintro now request rfl
    exact hforeign
  obtain ⟨t', ht', hsame, hstep⟩ := apply_sameProgress env ht hnot
  refine ⟨t', ht', hsame.cursor, hinv.sameProgress hsame fun hcompleted => ?_⟩
  rcases hstep.completed hcompleted with hbefore | ⟨_, _, _, _, rfl⟩
  · exact hinv.completed hbefore
  · exact absurd hforeign id

/-! ## The reader's steps -/

variable {stored : SourceCursor} {w : Worker ν}

/-- A poll continues where the last one ended. -/
theorem WorkerInv.poll (hinv : WorkerInv topic settings locked stored w)
    (hphase : w.phase = .reading) (hpending : w.reader.pending = []) (advance : ℕ → ℕ) :
    WorkerInv topic settings locked stored { w with reader := w.reader.poll topic advance } where
  ends := hinv.ends
  cursor := hinv.cursor
  fresh := hinv.fresh
  valid := hinv.valid
  covers := hinv.covers
  ahead := hinv.ahead
  idle := hinv.idle
  batch := hinv.batch
  batchKnown := hinv.batchKnown
  pending p hp := by
    have hold := hinv.pending p hp
    rw [hpending] at hold
    have hpos := hinv.position p hp
    have hpolled : ofPartition p (w.reader.poll topic advance).pending =
        topic.between p (w.reader.position p) (w.reader.position p + advance p) :=
      ofPartition_flatMap topic _ _ topic.nodup hp
    change beforeEnd (locked p) (ofPartition p (w.reader.poll topic advance).pending) =
      topic.between p (nextOffset topic w.reader.current p)
        (min (w.reader.position p + advance p) (locked p))
    rw [hpolled, beforeEnd_between]
    rcases le_total (locked p) (w.reader.position p) with hle | hle
    · rw [min_eq_right hle] at hold
      rw [min_eq_right (by omega), ← hold]
      exact Log.slice_eq_nil_of_le hle
    · rw [min_eq_left hle] at hold
      rw [Topic.between, Topic.between,
        Log.slice_append (topic.increasing p) hpos (by omega : w.reader.position p ≤ _)]
      rw [Topic.between] at hold
      rw [← hold]
      rfl
  pendingKnown m hm := by
    obtain ⟨q, hq, hm⟩ := List.mem_flatMap.mp hm
    rw [topic.own q m (Log.mem_slice.mp hm).1]
    exact hq
  position p hp := le_trans (hinv.position p hp) (Nat.le_add_right _ _)
  seen := hinv.seen
  receipts := hinv.receipts
  atEnd h := by simp [hphase, Phase.ended] at h
  noBatch h := by simp [hphase, Phase.empty] at h

/-- A message behind the end of its partition can be dropped. -/
theorem WorkerInv.skip (hinv : WorkerInv topic settings locked stored w)
    (hphase : w.phase = .reading) {m : Message ν} {rest : List (Message ν)}
    (hpending : w.reader.pending = m :: rest) (hend : w.reader.ends m.partition ≤ m.offset) :
    WorkerInv topic settings locked stored { w with reader := w.reader.skip } where
  ends := hinv.ends
  cursor := hinv.cursor
  fresh := hinv.fresh
  valid := hinv.valid
  covers := hinv.covers
  ahead := hinv.ahead
  idle := hinv.idle
  batch := hinv.batch
  batchKnown := hinv.batchKnown
  pending p hp := by
    have hold := hinv.pending p hp
    have hrest : w.reader.skip.pending = rest := by simp [Reader.skip, hpending]
    change beforeEnd (locked p) (ofPartition p w.reader.skip.pending) =
      topic.between p (nextOffset topic w.reader.current p) (min (w.reader.position p) (locked p))
    rw [hpending] at hold
    rw [hrest, ← hold]
    by_cases hm : m.partition = p
    · have hlocked := hinv.ends p hp
      rw [ofPartition_cons_self hm, beforeEnd, beforeEnd, List.filter_cons_of_neg]
      subst hm
      simp only [decide_eq_true_eq]
      omega
    · rw [ofPartition_cons_of_ne hm]
  pendingKnown x hx := by
    have hrest : w.reader.skip.pending = rest := by simp [Reader.skip, hpending]
    refine hinv.pendingKnown x ?_
    rw [hpending]
    exact List.mem_cons_of_mem _ (hrest ▸ hx)
  position := hinv.position
  seen := hinv.seen
  receipts := hinv.receipts
  atEnd h := by simp [hphase, Phase.ended] at h
  noBatch h := by simp [hphase, Phase.empty] at h

/-- What is known of the message at the head of the last poll, when it lies before
the end of its partition. -/
theorem WorkerInv.head (hinv : WorkerInv topic settings locked stored w) {m : Message ν}
    {rest : List (Message ν)} (hpending : w.reader.pending = m :: rest)
    (hend : m.offset < w.reader.ends m.partition) :
    m.partition ∈ topic.partitions ∧ m.offset < locked m.partition ∧
      nextOffset topic w.reader.current m.partition ≤ m.offset ∧
      m.offset < w.reader.position m.partition ∧
      topic.between m.partition (nextOffset topic w.reader.current m.partition) (m.offset + 1) =
        [m] ∧
      topic.between m.partition (m.offset + 1)
        (min (w.reader.position m.partition) (locked m.partition)) =
          beforeEnd (locked m.partition) (ofPartition m.partition rest) := by
  have hp : m.partition ∈ topic.partitions := hinv.pendingKnown m (by simp [hpending])
  rw [hinv.ends _ hp] at hend
  have hslice := hinv.pending _ hp
  rw [hpending, ofPartition_cons_self rfl, beforeEnd,
    List.filter_cons_of_pos (by simpa using hend)] at hslice
  obtain ⟨hlo, hhi, hone, hrest⟩ := Log.slice_eq_cons (topic.increasing _) hslice.symm
  exact ⟨hp, hend, hlo, lt_of_lt_of_le hhi (min_le_left _ _), hone, hrest⟩

/-- The pipeline keeps the cursor that comes with the message, and the message is
new to it. -/
theorem WorkerInv.handle_eq (hinv : WorkerInv topic settings locked stored w) {m : Message ν}
    {rest : List (Message ν)} (hpending : w.reader.pending = m :: rest)
    (hend : m.offset < w.reader.ends m.partition) :
    w.handle topic settings m = .ok (Worker.append settings m { w with
      reader := w.reader.consume m
      currentCursor := checkpoint topic settings.bootstrapFingerprint locked
        (w.reader.consume m).current
      receiptPositions := w.receiptPositions ++ [(m.partition, m.offset)] }) := by
  obtain ⟨hp, _, hlo, _⟩ := hinv.head hpending hend
  have hcovers : OffsetMap.Covers (w.reader.consume m).current w.reader.current :=
    (covers_insert (lt_of_nextOffset_le hlo)).1
  have hcursor : (w.reader.consume m).cursor topic settings.bootstrapFingerprint =
      checkpoint topic settings.bootstrapFingerprint locked (w.reader.consume m).current :=
    checkpoint_congr (fun q hq => hinv.ends q hq) _ _
  have hkept : cursorAtLeast
      ((w.reader.consume m).cursor topic settings.bootstrapFingerprint) w.currentCursor =
        .ok (checkpoint topic settings.bootstrapFingerprint locked
          (w.reader.consume m).current) := by
    rw [hcursor]
    rcases hinv.cursor with ⟨hempty, _⟩ | hcheckpoint
    · rw [hempty]
      rfl
    · rw [hcheckpoint]
      exact cursorAtLeast_checkpoint topic _ _ hcovers
  have hnew : (m.partition, m.offset) ∉ w.seenPositions := fun hseen =>
    absurd (hinv.seen _ hseen) (not_lt.mpr hlo)
  rw [Worker.handle, hkept]
  exact if_neg hnew

/-- A message before the end of its partition joins the batch. -/
theorem WorkerInv.handle (hinv : WorkerInv topic settings locked stored w)
    {m : Message ν} {rest : List (Message ν)} {w' : Worker ν}
    (hpending : w.reader.pending = m :: rest) (hend : m.offset < w.reader.ends m.partition)
    (hhandle : w.handle topic settings m = .ok w') :
    WorkerInv topic settings locked stored w' := by
  rw [hinv.handle_eq hpending hend] at hhandle
  obtain rfl := Except.ok.inj hhandle
  obtain ⟨hp, hlocked, hlo, hposition, hone, hrest⟩ := hinv.head hpending hend
  obtain ⟨hcovers, hnot⟩ := covers_insert (lt_of_nextOffset_le hlo)
  have hnext : ∀ q, nextOffset topic (w.reader.consume m).current q =
      if q = m.partition then m.offset + 1 else nextOffset topic w.reader.current q :=
    nextOffset_insert topic _ _ _
  have htail : (w.reader.consume m).pending = rest := by simp [Reader.consume, hpending]
  have hle : ∀ q, nextOffset topic w.reader.current q ≤
      nextOffset topic (w.reader.consume m).current q := by
    intro q
    rw [hnext]
    split
    · rename_i hq
      subst hq
      omega
    · exact le_refl _
  refine ⟨hinv.ends, .inr rfl, fun h => (checkpoint_ne_empty _ _ _ _ h).elim, ?_, ?_, fun _ => ?_, fun hempty => ?_, fun p hp' => ?_, ?_,
    fun p hp' => ?_, ?_, fun p hp' => ?_, ?_, fun hempty => ?_, fun hended => ?_, fun hempty => ?_⟩
  · exact hinv.valid.insert hp ((hinv.valid.beginning_le hp).trans (by omega)) (by omega)
  · exact hcovers.trans hinv.covers
  · -- the stored map would have to reach the offset just read
    exact fun h => hnot (hinv.covers.trans h)
  · exact absurd hempty (List.append_ne_nil_of_right_ne_nil _ (List.cons_ne_nil _ _))
  · change ofPartition p (w.batch ++ [m]) =
      topic.between p _ (nextOffset topic (w.reader.consume m).current p)
    rw [ofPartition_append, hinv.batch p hp', hnext]
    by_cases hq : m.partition = p
    · subst hq
      rw [if_pos rfl, ofPartition_cons_self rfl, ofPartition_nil, ← hone]
      exact (Log.slice_append (topic.increasing _)
        (nextOffset_le_of_covers hinv.valid hinv.covers hp) (by omega)).symm
    · rw [if_neg fun h => hq h.symm, ofPartition_cons_of_ne hq, ofPartition_nil,
        List.append_nil]
  · intro x hx
    rcases List.mem_append.mp hx with hold | hnew
    · exact hinv.batchKnown x hold
    · rw [List.mem_singleton.mp hnew]
      exact hp
  · change beforeEnd (locked p) (ofPartition p (w.reader.consume m).pending) =
      topic.between p (nextOffset topic (w.reader.consume m).current p)
        (min (w.reader.position p) (locked p))
    rw [htail, hnext]
    by_cases hq : m.partition = p
    · subst hq
      rw [if_pos rfl, hrest]
    · rw [if_neg fun h => hq h.symm, ← hinv.pending p hp', hpending, ofPartition_cons_of_ne hq]
  · intro x hx
    refine hinv.pendingKnown x ?_
    rw [hpending]
    exact List.mem_cons_of_mem _ (htail ▸ hx)
  · change nextOffset topic (w.reader.consume m).current p ≤ w.reader.position p
    rw [hnext]
    split
    · rename_i hq
      subst hq
      omega
    · exact hinv.position p hp'
  · intro pos hpos
    rcases List.mem_cons.mp hpos with rfl | hold
    · change m.offset < nextOffset topic (w.reader.consume m).current m.partition
      rw [hnext, if_pos rfl]
      omega
    · exact lt_of_lt_of_le (hinv.seen pos hold) (hle pos.1)
  · exact absurd hempty (List.append_ne_nil_of_right_ne_nil _ (List.cons_ne_nil _ _))
  · simp only [Worker.append] at hended
    split at hended <;> simp [Phase.ended] at hended
  · simp only [Worker.append] at hempty
    split at hempty <;> simp [Phase.empty] at hempty

end LogRisk.Kafka
