import LogRisk.Ledger.Run
import Mathlib.Algebra.GroupWithZero.Nat

/-!
# Every position is ingested once

Along every run of calls, whatever is recorded, replayed or settled in between,
the ranges booked as ingested for a source are disjoint, hold exactly the
positions of its verified receipts, and are counted by what the receipts report
as newly ingested.
-/

namespace LogRisk.Ledger

open LogRisk.Library LogRisk.Library.Transaction

variable {env : LedgerEnv} {ledger ledger' : LedgerTables}

namespace LedgerTables

/-- The receipts of a source. -/
def receiptsOf (ledger : LedgerTables) (sourceId : String) : List Receipt :=
  ledger.receipts.filter fun row => decide (row.sourceId = sourceId)

def ingestedRanges (ledger : LedgerTables) (sourceId : String) : List Range :=
  rangeRows .ingested sourceId ledger.sourceRanges

/-- The ranges of the verified receipts of a source. -/
def verifiedRanges (ledger : LedgerTables) (sourceId : String) : List Range :=
  ((ledger.receiptsOf sourceId).filter fun row => decide (row.provenance = .verified)).flatMap
    Receipt.ranges

/-- What the receipts of a source report as newly ingested, in sum. -/
def newlyIngested (ledger : LedgerTables) (sourceId : String) : ℕ :=
  ((ledger.receiptsOf sourceId).map fun row => row.newlyIngestedCount.getD 0).sum

end LedgerTables

/-! ## The invariant -/

structure IngestionInv (ledger : LedgerTables) : Prop where
  windows : (ledger.receipts.map Receipt.window).Nodup
  batchIds : (ledger.receipts.map Receipt.batchId).Nodup
  disjoint : ∀ sourceId, Keyed.DisjointList (ledger.ingestedRanges sourceId)
  points : ∀ sourceId, Keyed.points (ledger.ingestedRanges sourceId) =
    Keyed.points (ledger.verifiedRanges sourceId)
  counts : ∀ sourceId, ledger.newlyIngested sourceId = Keyed.total (ledger.ingestedRanges sourceId)

/-- The invariant speaks about receipts and ingested ranges only. -/
theorem IngestionInv.congr (hinv : IngestionInv ledger) (hreceipts : ledger'.receipts = ledger.receipts)
    (hranges : ∀ sourceId, ledger'.ingestedRanges sourceId = ledger.ingestedRanges sourceId) :
    IngestionInv ledger' where
  windows := hreceipts ▸ hinv.windows
  batchIds := hreceipts ▸ hinv.batchIds
  disjoint sourceId := hranges sourceId ▸ hinv.disjoint sourceId
  points sourceId := by
    rw [hranges, hinv.points, LedgerTables.verifiedRanges, LedgerTables.verifiedRanges,
      LedgerTables.receiptsOf, LedgerTables.receiptsOf, hreceipts]
  counts sourceId := by
    rw [hranges, ← hinv.counts, LedgerTables.newlyIngested, LedgerTables.newlyIngested,
      LedgerTables.receiptsOf, LedgerTables.receiptsOf, hreceipts]

theorem receiptsOf_append {receipt : Receipt}
    (h : ledger'.receipts = ledger.receipts ++ [receipt]) (sourceId : String) :
    ledger'.receiptsOf sourceId = ledger.receiptsOf sourceId ++
      if receipt.sourceId = sourceId then [receipt] else [] := by
  rw [LedgerTables.receiptsOf, h, List.filter_append]
  congr 1
  by_cases hsource : receipt.sourceId = sourceId <;> simp [hsource]

/-- A new receipt adds its ranges to the verified ones of its source. -/
theorem verifiedRanges_append {receipt : Receipt}
    (h : ledger'.receipts = ledger.receipts ++ [receipt]) (sourceId : String) :
    ledger'.verifiedRanges sourceId = ledger.verifiedRanges sourceId ++
      if receipt.sourceId = sourceId ∧ receipt.provenance = .verified then receipt.ranges
      else [] := by
  rw [LedgerTables.verifiedRanges, receiptsOf_append h, List.filter_append, List.flatMap_append]
  congr 1
  by_cases hsource : receipt.sourceId = sourceId <;>
    by_cases hverified : receipt.provenance = .verified <;> simp [hsource, hverified]

theorem newlyIngested_append {receipt : Receipt}
    (h : ledger'.receipts = ledger.receipts ++ [receipt]) (sourceId : String) :
    ledger'.newlyIngested sourceId = ledger.newlyIngested sourceId +
      if receipt.sourceId = sourceId then receipt.newlyIngestedCount.getD 0 else 0 := by
  rw [LedgerTables.newlyIngested, receiptsOf_append h, List.map_append, List.sum_append]
  congr 1
  split <;> simp

/-- What a new receipt does to the ranges ingested for a source. -/
theorem NewBatch.ingested {prepared : PreparedBatch} {receipt : Receipt}
    (hnew : NewBatch env prepared ledger ledger' receipt)
    (hkeys : ∀ r ∈ prepared.ranges, r.key.1 = none) (sourceId : String)
    (hdisjoint : Keyed.DisjointList (ledger.ingestedRanges sourceId)) :
    Keyed.DisjointList (ledger'.ingestedRanges sourceId) ∧
      Keyed.points (ledger'.ingestedRanges sourceId) =
        Keyed.points (ledger.ingestedRanges sourceId) ∪ Keyed.points
          (if receipt.sourceId = sourceId ∧ receipt.provenance = .verified then receipt.ranges
          else []) ∧
      Keyed.total (ledger'.ingestedRanges sourceId) =
        Keyed.total (ledger.ingestedRanges sourceId) +
          if receipt.sourceId = sourceId then receipt.newlyIngestedCount.getD 0 else 0 := by
  obtain ⟨⟨_, hsource, _, _, _, hprovenance⟩, hranges⟩ := hnew.hcontent
  obtain ⟨uncovered, huncovered, hcount, hbook⟩ := hnew.hranges
  rw [hcount]
  unfold bookIngested at hbook
  by_cases hverified : receipt.provenance = .verified
  · rw [if_pos (hprovenance ▸ hverified)] at hbook
    by_cases hid : receipt.sourceId = sourceId
    · rw [if_pos ⟨hid, hverified⟩, if_pos hid, if_pos hverified]
      subst hid
      rw [← hsource] at hbook
      have hbooked := booked_union hdisjoint hkeys huncovered hbook
      rw [← hranges] at hbooked
      exact hbooked
    · have hframe : ledger'.ingestedRanges sourceId = ledger.ingestedRanges sourceId :=
        booked_frame hbook fun h => hid (hsource.trans h.2)
      rw [if_neg fun h => hid h.1, if_neg hid, hframe]
      exact ⟨hdisjoint, by simp, rfl⟩
  · rw [if_neg (hprovenance ▸ hverified)] at hbook
    have hframe : ledger'.ingestedRanges sourceId = ledger.ingestedRanges sourceId := by
      rw [LedgerTables.ingestedRanges, ← Except.ok.inj hbook]
      rfl
    rw [if_neg fun h => hverified h.2, if_neg hverified, hframe]
    exact ⟨hdisjoint, by simp, by simp⟩

/-- A value that no row has yet keeps a column free of repetitions. -/
theorem nodup_column {α : Type} {column : Receipt → α} {receipts : List Receipt} {receipt : Receipt}
    (hnodup : (receipts.map column).Nodup) (hnew : ∀ row ∈ receipts, column row ≠ column receipt) :
    ((receipts ++ [receipt]).map column).Nodup := by
  rw [List.map_append, List.map_singleton]
  refine List.Nodup.append hnodup (List.nodup_singleton _) ?_
  rw [List.disjoint_singleton]
  intro hmem
  obtain ⟨row, hrow, hsame⟩ := List.mem_map.mp hmem
  exact hnew row hrow hsame

theorem IngestionInv.recorded {prepared : PreparedBatch} {receipt : Receipt}
    (hinv : IngestionInv ledger) (hnew : NewBatch env prepared ledger ledger' receipt)
    (hkeys : ∀ r ∈ prepared.ranges, r.key.1 = none) : IngestionInv ledger' where
  windows := by
    rw [hnew.hreceipts]
    exact nodup_column hinv.windows hnew.hwindow
  batchIds := by
    rw [hnew.hreceipts]
    exact nodup_column hinv.batchIds hnew.hid
  disjoint sourceId := (hnew.ingested hkeys sourceId (hinv.disjoint sourceId)).1
  points sourceId := by
    rw [(hnew.ingested hkeys sourceId (hinv.disjoint sourceId)).2.1, hinv.points,
      verifiedRanges_append hnew.hreceipts, Keyed.points_append]
  counts sourceId := by
    rw [(hnew.ingested hkeys sourceId (hinv.disjoint sourceId)).2.2, ← hinv.counts,
      newlyIngested_append hnew.hreceipts]

theorem IngestionInv.step (hinv : IngestionInv ledger) (hstep : LedgerStep env ledger ledger') :
    IngestionInv ledger' := by
  cases hstep with
  | unchanged => exact hinv
  | recorded hprepared hnew => exact hinv.recorded hnew (prepareBatch_eq_ok hprepared).1
  | created => exact hinv.congr rfl fun _ => rfl
  | registered => exact hinv.congr rfl fun _ => rfl
  | bound => exact hinv.congr rfl fun _ => rfl
  | finished => exact hinv.congr rfl fun _ => rfl
  | completed _ _ _ _ _ hsettles =>
      obtain ⟨hreceipts, hranges⟩ := hsettles.ingested
      exact hinv.congr hreceipts hranges
  | settled _ hsettles =>
      obtain ⟨hreceipts, hranges⟩ := hsettles.ingested
      exact hinv.congr hreceipts hranges

theorem IngestionInv.empty : IngestionInv LedgerTables.empty where
  windows := List.nodup_nil
  batchIds := List.nodup_nil
  disjoint _ := .nil
  points _ := rfl
  counts _ := rfl

theorem ingestionInv_after (env : LedgerEnv) (calls : List LedgerCall) :
    IngestionInv (ledgerAfter env calls) :=
  LedgerCall.run_invariant IngestionInv .empty (fun _ _ hinv hstep => hinv.step hstep) calls

/-! ## Replays and conflicts -/

/-- The receipt of a window is found under its job and checkpoint. -/
theorem IngestionInv.receiptOf (hinv : IngestionInv ledger) {row : Receipt}
    (hrow : row ∈ ledger.receipts) {inputJobId checkpointKey : String}
    (hwindow : row.window = (inputJobId, checkpointKey)) :
    ledger.receiptOf inputJobId checkpointKey = some row := by
  cases hfound : ledger.receiptOf inputJobId checkpointKey with
  | none => exact absurd hwindow (LedgerTables.receiptOf_eq_none hfound row hrow)
  | some found =>
      obtain ⟨hmem, hsame⟩ := LedgerTables.receiptOf_eq_some hfound
      rw [List.inj_on_of_nodup_map hinv.windows hmem hrow (hsame.trans hwindow.symm)]

theorem IngestionInv.replay (hinv : IngestionInv ledger) {now : String} {batch : IngestionBatch}
    {prepared : PreparedBatch} (hprepared : prepareBatch env now batch = .ok prepared)
    {row : Receipt} (hrow : row ∈ ledger.receipts)
    (hwindow : row.window = (prepared.inputJobId, prepared.checkpointKey)) :
    ledger.recordIngestionBatch env now batch =
      if row.comparable prepared then .ok (row, ledger)
      else .error (.conflict "相同 input_job_id/checkpoint_key 的收据内容冲突") := by
  rw [LedgerTables.recordIngestionBatch, hprepared]
  change ledger.recordPrepared env now prepared = _
  rw [LedgerTables.recordPrepared, hinv.receiptOf hrow hwindow]
  by_cases h : row.comparable prepared
  · rw [if_pos h]
    simp only [require_of h]
    rfl
  · rw [if_neg h]
    simp only [require_of_not h]
    rfl

/-- A batch identifier that belongs to another window is refused. -/
theorem IngestionInv.batchId_conflict (hinv : IngestionInv ledger) {now : String}
    {batch : IngestionBatch} {prepared : PreparedBatch}
    (hprepared : prepareBatch env now batch = .ok prepared) {row : Receipt}
    (hrow : row ∈ ledger.receipts) (hid : row.batchId = prepared.batchId)
    (hwindow : row.window ≠ (prepared.inputJobId, prepared.checkpointKey)) :
    ∃ message, ledger.recordIngestionBatch env now batch = .error (.conflict message) := by
  cases hfound : ledger.receiptOf prepared.inputJobId prepared.checkpointKey with
  | some found =>
      -- the window is recorded too, under another identifier
      obtain ⟨hmem, hsame⟩ := LedgerTables.receiptOf_eq_some hfound
      have hnot : ¬found.comparable prepared := by
        intro hcomparable
        have heq := List.inj_on_of_nodup_map hinv.batchIds hmem hrow (hcomparable.1.trans hid.symm)
        exact hwindow (heq ▸ hsame)
      rw [hinv.replay hprepared hmem hsame, if_neg hnot]
      exact ⟨_, rfl⟩
  | none =>
      have hnot : ¬∀ r ∈ ledger.receipts, r.batchId ≠ prepared.batchId := fun h => h row hrow hid
      rw [LedgerTables.recordIngestionBatch, hprepared]
      change ∃ message, ledger.recordPrepared env now prepared = .error (.conflict message)
      rw [LedgerTables.recordPrepared, hfound]
      simp only [LedgerTables.insertBatch, require_of_not hnot]
      exact ⟨_, rfl⟩

/-- A batch whose window or identifier is recorded writes nothing. -/
theorem IngestionInv.recorded_unchanged (hinv : IngestionInv ledger) {now : String}
    {batch : IngestionBatch} {prepared : PreparedBatch}
    (hprepared : prepareBatch env now batch = .ok prepared) {row : Receipt}
    (hrow : row ∈ ledger.receipts)
    (hsame : row.window = (prepared.inputJobId, prepared.checkpointKey) ∨
      row.batchId = prepared.batchId) :
    (LedgerCall.recordIngestionBatch now batch).apply env ledger = ledger := by
  rw [LedgerCall.apply, LedgerCall.run]
  by_cases hwindow : row.window = (prepared.inputJobId, prepared.checkpointKey)
  · rw [hinv.replay hprepared hrow hwindow]
    split_ifs <;> rfl
  · obtain ⟨message, h⟩ := hinv.batchId_conflict hprepared hrow (hsame.resolve_left hwindow) hwindow
    rw [h]
    rfl

/-- After every run of calls, for every source: the ingested ranges are disjoint,
hold the positions of the verified receipts, and are counted by the newly ingested
counts.  A call returns the receipt it leaves stored.  A recorded window is
answered with its receipt, or refused where the content differs; an identifier
recorded for another window is refused; and neither writes anything. -/
theorem ingested_exactly_once (env : LedgerEnv) (calls : List LedgerCall) :
    (∀ sourceId,
      Keyed.DisjointList ((ledgerAfter env calls).ingestedRanges sourceId) ∧
      Keyed.points ((ledgerAfter env calls).ingestedRanges sourceId) =
        Keyed.points ((ledgerAfter env calls).verifiedRanges sourceId) ∧
      (ledgerAfter env calls).newlyIngested sourceId =
        (Keyed.points ((ledgerAfter env calls).verifiedRanges sourceId)).card) ∧
    (∀ now batch receipt ledger',
      (ledgerAfter env calls).recordIngestionBatch env now batch = .ok (receipt, ledger') →
        receipt ∈ ledger'.receipts) ∧
    (∀ now batch prepared, prepareBatch env now batch = .ok prepared →
      ∀ row ∈ (ledgerAfter env calls).receipts,
        (row.window = (prepared.inputJobId, prepared.checkpointKey) →
          (ledgerAfter env calls).recordIngestionBatch env now batch =
            if row.comparable prepared then .ok (row, ledgerAfter env calls)
            else .error (.conflict "相同 input_job_id/checkpoint_key 的收据内容冲突")) ∧
        (row.batchId = prepared.batchId →
          row.window ≠ (prepared.inputJobId, prepared.checkpointKey) →
            ∃ message, (ledgerAfter env calls).recordIngestionBatch env now batch =
              .error (.conflict message)) ∧
        (row.window = (prepared.inputJobId, prepared.checkpointKey) ∨
          row.batchId = prepared.batchId →
            (LedgerCall.recordIngestionBatch now batch).apply env (ledgerAfter env calls) =
              ledgerAfter env calls)) := by
  have hinv := ingestionInv_after env calls
  refine ⟨fun sourceId => ⟨hinv.disjoint sourceId, hinv.points sourceId, ?_⟩, ?_, ?_⟩
  · rw [hinv.counts, ← hinv.points, Keyed.card_points (hinv.disjoint sourceId)]
  · intro now batch receipt ledger' h
    obtain ⟨prepared, _, ⟨rfl, hmem, _⟩ | hnew⟩ := LedgerTables.recordIngestionBatch_cases h
    · exact hmem
    · rw [hnew.hreceipts]
      exact List.mem_append_right _ (List.mem_singleton_self receipt)
  · intro now batch prepared hprepared row hrow
    exact ⟨hinv.replay hprepared hrow, hinv.batchId_conflict hprepared hrow,
      hinv.recorded_unchanged hprepared hrow⟩

end LogRisk.Ledger
