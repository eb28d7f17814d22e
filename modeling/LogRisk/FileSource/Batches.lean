import LogRisk.FileSource.Resume
import LogRisk.Library.Transaction

/-!
# Batches of a file

The pipeline takes the records of a read one by one, passes over a record whose position it has
seen in this invocation, and flushes what it gathered when a batch is full.  A flush stores the
checkpoint from which an invocation that comes after an interruption reads on.
-/

namespace LogRisk.FileSource

open LogRisk.Library LogRisk.Streaming

variable {ν : Type}

/-! ## Positions -/

structure Position where
  partitionKey : String
  start : ℤ
  stop : ℤ
deriving DecidableEq, Repr

/-- `_source_record_position` of what a file source yields. -/
def sourceRecordPosition (item : SourceRecord ν) : Except FileError Position :=
  if item.lineNo < 0 ∨ item.lineNo + 1 ≤ item.lineNo then
    .error (.source "来源记录 position 必须是非负半开区间")
  else .ok ⟨"", item.lineNo, item.lineNo + 1⟩

theorem sourceRecordPosition_eq_ok {item : SourceRecord ν} {position : Position} :
    sourceRecordPosition item = .ok position ↔
      0 ≤ item.lineNo ∧ position = ⟨"", item.lineNo, item.lineNo + 1⟩ := by
  unfold sourceRecordPosition
  split
  · rename_i hbad
    refine ⟨fun h => (by cases h), fun h => ?_⟩
    omega
  · rename_i hgood
    rw [Except.ok.injEq, eq_comm]
    exact ⟨fun h => ⟨by omega, h⟩, And.right⟩

/-! ## The loop -/

def maxStreamBatchRecords : ℕ := 10000

def maxStreamBatchBytes : ℕ := 16 * 1024 * 1024

/-- The number of records in a batch, and the size of a record in bytes. -/
structure BatchLimits (ν : Type) where
  records : ℕ
  size : LogRecord ν → ℕ
  valid : 1 ≤ records ∧ records ≤ maxStreamBatchRecords

structure Batch (ν : Type) where
  records : List (SourceRecord ν)
  checkpoint : SourceCursor

structure Ingest (ν : Type) where
  cursor : SourceCursor
  seen : List Position := []
  batch : List (SourceRecord ν) := []
  bytes : ℕ := 0
  receiptRanges : List Position := []
  flushed : List (Batch ν) := []

def Ingest.flush (s : Ingest ν) : Ingest ν :=
  { s with
    batch := []
    bytes := 0
    receiptRanges := []
    flushed := s.flushed ++ [⟨s.batch, s.cursor⟩] }

/-- `_cursor_at_least`, which raises on cursors of other sources only. -/
def advance (candidate current : SourceCursor) : SourceCursor :=
  (cursorAtLeast candidate current).toOption.getD current

variable (L : BatchLimits ν)

def flushFull (s : Ingest ν) : Ingest ν :=
  if L.records ≤ s.batch.length ∨ maxStreamBatchBytes ≤ s.bytes then s.flush else s

def ingestItem (s : Ingest ν) (item : SourceRecord ν) : Except FileError (Ingest ν) := do
  let position ← sourceRecordPosition item
  let next : Ingest ν :=
    { s with
      cursor := advance item.nextCursor s.cursor
      receiptRanges := s.receiptRanges ++ [position] }
  if position ∈ s.seen then .ok next
  else
    .ok (flushFull L
      { next with
        seen := position :: s.seen
        batch := s.batch ++ [item]
        bytes := s.bytes + L.size item.record })

/-- The loop over the records, with the error it stops at. -/
def ingest : Ingest ν → List (SourceRecord ν) → Ingest ν × Option FileError
  | s, [] => (s, none)
  | s, item :: rest =>
      match ingestItem L s item with
      | .error e => (s, some e)
      | .ok next => ingest next rest

/-- What is left when the records end is a last batch. -/
def finish (s : Ingest ν) : Ingest ν := if s.batch = [] ∧ s.receiptRanges = [] then s else s.flush

/-- One invocation: the batches it flushes, and the error it ends with. -/
def invoke (options : FileOptions ν) (content : List UInt8) (cursor : SourceCursor) :
    List (Batch ν) × Option FileError :=
  let stream := read options content cursor
  let result := ingest L { cursor } stream.records
  match result.2, stream.error with
  | some e, _ => (result.1.flushed, some e)
  | none, some e => (result.1.flushed, some e)
  | none, none => ((finish result.1).flushed, none)

/-- Invocations one after the other, all but the last interrupted behind some of their batches. -/
def runInvocations (options : FileOptions ν) (content : List UInt8) :
    SourceCursor → List ℕ → List (Batch ν) × Option FileError
  | cursor, [] => invoke L options content cursor
  | cursor, stop :: later =>
      let done := (invoke L options content cursor).1.take stop
      let result := runInvocations options content
        ((done.getLast?.map Batch.checkpoint).getD cursor) later
      (done ++ result.1, result.2)

/-! ## What a loop commits -/

def Ingest.taken (s : Ingest ν) : List (SourceRecord ν) := s.flushed.flatMap Batch.records ++ s.batch

variable {L} {s next : Ingest ν} {item : SourceRecord ν} {items : List (SourceRecord ν)}

theorem taken_flush (s : Ingest ν) : s.flush.taken = s.taken := by
  unfold Ingest.taken Ingest.flush
  rw [List.flatMap_append, List.flatMap_singleton, List.append_nil]

theorem taken_flushFull (s : Ingest ν) : (flushFull L s).taken = s.taken := by
  unfold flushFull
  split
  · exact taken_flush s
  · rfl

theorem seen_flushFull (s : Ingest ν) : (flushFull L s).seen = s.seen := by
  unfold flushFull
  split
  · rfl
  · rfl

/-- A record is taken, or it is passed over because its position was seen. -/
theorem ingestItem_cases (h : ingestItem L s item = .ok next) :
    0 ≤ item.lineNo ∧
      ((⟨"", item.lineNo, item.lineNo + 1⟩ ∈ s.seen ∧ next.taken = s.taken ∧ next.seen = s.seen) ∨
        (⟨"", item.lineNo, item.lineNo + 1⟩ ∉ s.seen ∧ next.taken = s.taken ++ [item] ∧
          next.seen = ⟨"", item.lineNo, item.lineNo + 1⟩ :: s.seen)) := by
  unfold ingestItem at h
  obtain ⟨position, hposition, h⟩ := Transaction.bind_eq_ok.mp h
  obtain ⟨hnonneg, rfl⟩ := sourceRecordPosition_eq_ok.mp hposition
  refine ⟨hnonneg, ?_⟩
  dsimp only at h
  split at h
  · rename_i hseen
    cases h
    exact .inl ⟨hseen, rfl, rfl⟩
  · rename_i hnew
    cases h
    refine .inr ⟨hnew, ?_, seen_flushFull _⟩
    rw [taken_flushFull]
    exact (List.append_assoc _ _ _).symm

/-- Records are taken in order, some are passed over. -/
theorem ingest_sublist (s : Ingest ν) (items : List (SourceRecord ν)) :
    ∃ kept, kept.Sublist items ∧ (ingest L s items).1.taken = s.taken ++ kept := by
  induction items generalizing s with
  | nil => exact ⟨[], .refl _, (List.append_nil _).symm⟩
  | cons item rest ih =>
      unfold ingest
      split
      · exact ⟨[], List.nil_sublist _, (List.append_nil _).symm⟩
      · rename_i next hnext
        obtain ⟨kept, hkept, htaken⟩ := ih next
        rcases (ingestItem_cases hnext).2 with ⟨_, hsame, _⟩ | ⟨_, hmore, _⟩
        · exact ⟨kept, hkept.cons _, by rw [htaken, hsame]⟩
        · refine ⟨item :: kept, hkept.cons_cons _, ?_⟩
          rw [htaken, hmore, List.append_assoc]
          rfl

theorem taken_finish (s : Ingest ν) : (finish s).flushed.flatMap Batch.records = s.taken := by
  unfold finish
  split
  · rename_i hempty
    unfold Ingest.taken
    rw [hempty.1, List.append_nil]
  · rw [← taken_flush]
    exact (List.append_nil _).symm

/-! ## A read whose positions increase -/

/-- No candidate cursor falls behind. -/
def Onward : SourceCursor → List (SourceRecord ν) → Prop
  | _, [] => True
  | cursor, item :: rest =>
      advance item.nextCursor cursor = item.nextCursor ∧ Onward item.nextCursor rest

/-- Positions that increase from zero on. -/
def Increasing (items : List (SourceRecord ν)) : Prop :=
  (∀ item ∈ items, 0 ≤ item.lineNo) ∧ items.Pairwise fun a b => a.lineNo < b.lineNo

/-- Every batch has records, and its checkpoint is the cursor behind the last one. -/
def Checkpointed (batches : List (Batch ν)) : Prop :=
  ∀ b ∈ batches, ∃ last, b.records.getLast? = some last ∧ b.checkpoint = last.nextCursor

structure Steady (s : Ingest ν) : Prop where
  flushed : Checkpointed s.flushed
  cursor : ∀ last, s.batch.getLast? = some last → s.cursor = last.nextCursor
  empty : s.batch = [] → s.receiptRanges = []

theorem Steady.flush (h : Steady s) (hbatch : s.batch ≠ []) : Steady s.flush := by
  refine ⟨fun b hb => ?_, fun last hlast => (by cases hlast), fun _ => rfl⟩
  rcases List.mem_append.mp hb with hb | hb
  · exact h.flushed b hb
  · obtain rfl := List.mem_singleton.mp hb
    have hlast := List.getLast?_eq_some_getLast hbatch
    exact ⟨_, hlast, h.cursor _ hlast⟩

theorem Steady.flushFull (h : Steady s) (hbatch : s.batch ≠ []) : Steady (flushFull L s) := by
  unfold FileSource.flushFull
  split
  · exact h.flush hbatch
  · exact h

theorem cursor_flushFull (s : Ingest ν) : (flushFull L s).cursor = s.cursor := by
  unfold flushFull
  split
  · rfl
  · rfl

/-- A record with a new position behind the cursor is taken. -/
theorem ingestItem_new (h : Steady s) (hnonneg : 0 ≤ item.lineNo)
    (hnew : ∀ position ∈ s.seen, position.start < item.lineNo)
    (honward : advance item.nextCursor s.cursor = item.nextCursor) :
    ∃ next, ingestItem L s item = .ok next ∧ next.taken = s.taken ++ [item] ∧
      next.seen = ⟨"", item.lineNo, item.lineNo + 1⟩ :: s.seen ∧
      next.cursor = item.nextCursor ∧ Steady next := by
  have hposition := sourceRecordPosition_eq_ok.mpr ⟨hnonneg, rfl⟩
  have hnotSeen : (⟨"", item.lineNo, item.lineNo + 1⟩ : Position) ∉ s.seen :=
    fun hseen => lt_irrefl _ (hnew _ hseen)
  unfold ingestItem
  rw [hposition]
  dsimp only [bind, Except.bind]
  rw [if_neg hnotSeen, honward]
  refine ⟨_, rfl, ?_, seen_flushFull _, cursor_flushFull _, ?_⟩
  · rw [taken_flushFull]
    exact (List.append_assoc _ _ _).symm
  · have hbatch : s.batch ++ [item] ≠ [] := by simp
    refine Steady.flushFull ⟨h.flushed, fun last hlast => ?_, fun hempty => absurd hempty hbatch⟩ hbatch
    rw [List.getLast?_concat] at hlast
    cases hlast
    rfl

theorem ingest_increasing (h : Steady s) (hitems : Increasing items)
    (hnew : ∀ position ∈ s.seen, ∀ item ∈ items, position.start < item.lineNo)
    (honward : Onward s.cursor items) :
    (ingest L s items).2 = none ∧ (ingest L s items).1.taken = s.taken ++ items ∧
      Steady (ingest L s items).1 := by
  induction items generalizing s with
  | nil => exact ⟨rfl, (List.append_nil _).symm, h⟩
  | cons item rest ih =>
      obtain ⟨hnonneg, hpairs⟩ := hitems
      rw [List.pairwise_cons] at hpairs
      obtain ⟨next, hnext, htaken, hseen, hcursor, hsteady⟩ :=
        ingestItem_new (L := L) h (hnonneg item List.mem_cons_self)
          (fun position hmem => hnew position hmem item List.mem_cons_self) honward.1
      have hrest : Increasing rest :=
        ⟨fun later hlater => hnonneg later (List.mem_cons_of_mem _ hlater), hpairs.2⟩
      have hnewRest : ∀ position ∈ next.seen, ∀ later ∈ rest, position.start < later.lineNo := by
        intro position hmem later hlater
        rw [hseen] at hmem
        rcases List.mem_cons.mp hmem with rfl | hmem
        · exact hpairs.1 later hlater
        · exact hnew position hmem later (List.mem_cons_of_mem _ hlater)
      obtain ⟨hnone, hall, hsteady'⟩ := ih hsteady hrest hnewRest (hcursor ▸ honward.2)
      unfold ingest
      rw [hnext]
      refine ⟨hnone, ?_, hsteady'⟩
      show (ingest L next rest).1.taken = _
      rw [hall, htaken, List.append_assoc]
      rfl

theorem steady_start (cursor : SourceCursor) : Steady ({ cursor } : Ingest ν) :=
  ⟨fun _ h => absurd h List.not_mem_nil, fun _ h => (by cases h), fun _ => rfl⟩

theorem Steady.finish (h : Steady s) : Checkpointed (finish s).flushed := by
  unfold FileSource.finish
  split
  · exact h.flushed
  · rename_i hrest
    exact (h.flush fun hempty => hrest ⟨hempty, h.empty hempty⟩).flushed

variable (L) in
/-- An invocation over increasing positions commits every record. -/
theorem invoke_increasing {options : FileOptions ν} {content : List UInt8} {cursor : SourceCursor}
    (herror : (read options content cursor).error = none)
    (hitems : Increasing (read options content cursor).records)
    (honward : Onward cursor (read options content cursor).records) :
    (invoke L options content cursor).2 = none ∧
      (invoke L options content cursor).1.flatMap Batch.records =
        (read options content cursor).records ∧
      Checkpointed (invoke L options content cursor).1 := by
  obtain ⟨hnone, htaken, hsteady⟩ := ingest_increasing (L := L) (steady_start cursor) hitems
    (fun _ h => absurd h List.not_mem_nil) honward
  unfold invoke
  dsimp only
  rw [hnone, herror]
  refine ⟨rfl, ?_, hsteady.finish⟩
  show (FileSource.finish _).flushed.flatMap Batch.records = _
  rw [taken_finish, htaken]
  rfl

/-! ## What an interruption leaves -/

/-- The cursor from which the invocation behind these batches reads on. -/
def lastCheckpoint (cursor : SourceCursor) (done : List (Batch ν)) : SourceCursor :=
  (done.getLast?.map Batch.checkpoint).getD cursor

theorem lastCheckpoint_eq {done : List (Batch ν)} (h : Checkpointed done) (cursor : SourceCursor) :
    lastCheckpoint cursor done =
      ((done.flatMap Batch.records).getLast?.map SourceRecord.nextCursor).getD cursor := by
  unfold lastCheckpoint
  rcases List.eq_nil_or_concat done with rfl | ⟨front, b, rfl⟩
  · rfl
  · rw [List.concat_eq_append] at h ⊢
    obtain ⟨last, hlast, hcheckpoint⟩ := h b (List.mem_append_right _ List.mem_cons_self)
    rw [List.getLast?_concat, List.flatMap_append, List.flatMap_singleton, List.getLast?_append,
      hlast, Option.map_some, Option.getD_some, hcheckpoint]
    rfl

theorem Checkpointed.take {batches : List (Batch ν)} (h : Checkpointed batches) (n : ℕ) :
    Checkpointed (batches.take n) := fun b hb => h b (List.mem_of_mem_take hb)

theorem flatMap_take_prefix (batches : List (Batch ν)) (n : ℕ) :
    (batches.take n).flatMap Batch.records <+: batches.flatMap Batch.records := by
  have hsplit := congrArg (List.flatMap Batch.records) (List.take_append_drop n batches)
  rw [List.flatMap_append] at hsplit
  exact ⟨_, hsplit⟩

/-! ## Batches of one record -/

/-- Nothing is gathered, and every batch has one record. -/
def Singles (s : Ingest ν) : Prop := s.batch = [] ∧ ∀ b ∈ s.flushed, b.records.length = 1

theorem ingestItem_single (hL : L.records = 1) (h : Singles s) (hitem : ingestItem L s item = .ok next) :
    Singles next := by
  unfold ingestItem at hitem
  obtain ⟨position, _, hitem⟩ := Transaction.bind_eq_ok.mp hitem
  dsimp only at hitem
  split at hitem
  · cases hitem
    exact h
  · cases hitem
    unfold flushFull
    rw [hL, h.1, List.nil_append, if_pos (.inl (le_refl 1))]
    refine ⟨rfl, fun b hb => ?_⟩
    rcases List.mem_append.mp hb with hb | hb
    · exact h.2 b hb
    · rw [List.mem_singleton.mp hb]
      rfl

theorem ingest_single (hL : L.records = 1) (h : Singles s) (items : List (SourceRecord ν)) :
    Singles (ingest L s items).1 := by
  induction items generalizing s with
  | nil => exact h
  | cons item rest ih =>
      unfold ingest
      split
      · exact h
      · rename_i next hnext
        exact ih (ingestItem_single hL h hnext)

theorem flatMap_take_single {batches : List (Batch ν)} (h : ∀ b ∈ batches, b.records.length = 1) (n : ℕ) :
    (batches.take n).flatMap Batch.records = (batches.flatMap Batch.records).take n := by
  induction batches generalizing n with
  | nil => rw [List.take_nil, List.flatMap_nil, List.take_nil]
  | cons b rest ih =>
      obtain ⟨r, hr⟩ := List.length_eq_one_iff.mp (h b List.mem_cons_self)
      cases n with
      | zero => rfl
      | succ n =>
          rw [List.take_succ_cons, List.flatMap_cons, List.flatMap_cons, hr, List.singleton_append,
            List.singleton_append, List.take_succ_cons,
            ih (fun b hb => h b (List.mem_cons_of_mem _ hb))]

/-- An invocation over increasing positions that flushes after every record. -/
theorem invoke_single (hL : L.records = 1) {options : FileOptions ν} {content : List UInt8}
    {cursor : SourceCursor} (herror : (read options content cursor).error = none)
    (hitems : Increasing (read options content cursor).records)
    (honward : Onward cursor (read options content cursor).records) :
    ∀ b ∈ (invoke L options content cursor).1, b.records.length = 1 := by
  obtain ⟨hnone, _, hsteady⟩ := ingest_increasing (L := L) (steady_start cursor) hitems
    (fun _ h => absurd h List.not_mem_nil) honward
  have hsingle : Singles (ingest L { cursor } (read options content cursor).records).1 :=
    ingest_single hL ⟨rfl, fun _ h => absurd h List.not_mem_nil⟩ _
  unfold invoke
  dsimp only
  rw [hnone, herror]
  show ∀ b ∈ (FileSource.finish _).flushed, _
  unfold FileSource.finish
  rw [if_pos ⟨hsingle.1, hsteady.empty hsingle.1⟩]
  exact hsingle.2

/-! ## An invocation that ends -/

theorem ingest_nonneg {items : List (SourceRecord ν)} (h : (ingest L s items).2 = none) :
    ∀ item ∈ items, 0 ≤ item.lineNo := by
  induction items generalizing s with
  | nil => exact fun _ hitem => absurd hitem List.not_mem_nil
  | cons item rest ih =>
      unfold ingest at h
      split at h
      · cases h
      · rename_i next hnext
        rw [List.forall_mem_cons]
        exact ⟨(ingestItem_cases hnext).1, ih h⟩

theorem invoke_ends {options : FileOptions ν} {content : List UInt8} {cursor : SourceCursor}
    (h : (invoke L options content cursor).2 = none) :
    (read options content cursor).error = none ∧
      (∀ item ∈ (read options content cursor).records, 0 ≤ item.lineNo) ∧
      ((invoke L options content cursor).1.flatMap Batch.records).Sublist
        (read options content cursor).records := by
  unfold invoke at h ⊢
  dsimp only at h ⊢
  split at h
  · cases h
  · cases h
  · rename_i hnone herror
    refine ⟨herror, ingest_nonneg hnone, ?_⟩
    obtain ⟨kept, hkept, htaken⟩ :=
      ingest_sublist (L := L) { cursor } (read options content cursor).records
    show ((FileSource.finish _).flushed.flatMap Batch.records).Sublist _
    rw [taken_finish, htaken]
    exact hkept

end LogRisk.FileSource
