import LogRisk.Ledger.Tables

/-!
# Recording an ingestion batch

`record_ingestion_batch` cleans its arguments, returns the stored receipt where
the same window is recorded with the same content, and otherwise writes a receipt
and, for verified ones, the ranges nobody has ingested before.
-/

namespace LogRisk.Ledger

open LogRisk.Library LogRisk.Library.Transaction

structure IngestionBatch where
  batchId : String
  source : Source
  inputJobId : String
  checkpointKey : String
  parserVersion : String
  ranges : List Json
  actualCount : Option ℤ
  provenance : Provenance
  committedAt : Option String

/-- The cleaned arguments. -/
structure PreparedBatch where
  batchId : String
  source : Source
  inputJobId : String
  checkpointKey : String
  parserVersion : String
  ranges : List Range
  actualCount : Option ℕ
  provenance : Provenance
  committedAt : String

def prepareBatch (env : LedgerEnv) (now : String) (batch : IngestionBatch) :
    Result PreparedBatch := do
  let batchId ← text batch.batchId "batch_id"
  let inputJobId ← text batch.inputJobId "input_job_id"
  let checkpointKey ← text batch.checkpointKey "checkpoint_key"
  let parserVersion ← text batch.parserVersion "parser_version"
  require (batch.provenance = .verified ∨ batch.provenance = .reported)
    (.invalid "ingestion provenance 必须是 verified 或 reported")
  let source ← normalizeSource env batch.source
  let ranges ← canonicalRanges batch.ranges
  require (∀ r ∈ ranges, r.key.1 = none) (.invalid "ingestion ranges 不得携带 source_id")
  let rangeCount ← sumLengths ranges
  let actualCount ← nullableInt batch.actualCount "actual_count"
  require (batch.provenance = .verified → actualCount = some rangeCount)
    (.invalid "verified actual_count 必须等于区间并集长度")
  let committedAt ← timestampOr env now batch.committedAt
  return {
    batchId, source, inputJobId, checkpointKey, parserVersion, ranges, actualCount
    provenance := batch.provenance, committedAt }

def rangeJson (r : Range) : Json :=
  .obj [("partition_key", .str r.key.2), ("start", .num r.span.lo), ("end", .num r.span.hi)]

/-- The text stored under `ranges_json`. -/
def rangesText (ranges : List Range) : String := (Json.arr (ranges.map rangeJson)).canonical

/-- The stored receipt has the content of the batch. -/
def Receipt.comparable (row : Receipt) (batch : PreparedBatch) : Prop :=
  row.batchId = batch.batchId ∧ row.sourceId = batch.source.sourceId ∧
    row.parserVersion = batch.parserVersion ∧ rangesText row.ranges = rangesText batch.ranges ∧
    row.actualCount = batch.actualCount ∧ row.provenance = batch.provenance

instance (row : Receipt) (batch : PreparedBatch) : Decidable (row.comparable batch) :=
  inferInstanceAs (Decidable (_ ∧ _ ∧ _ ∧ _ ∧ _ ∧ _))

/-- Only a verified receipt has its ranges booked. -/
def bookIngested (env : LedgerEnv) (batch : PreparedBatch) (uncovered : List Range)
    (rows : List SourceRange) : Result (List SourceRange) :=
  if batch.provenance = .verified then
    bookRanges env .ingested batch.source.sourceId batch.batchId batch.committedAt uncovered rows
  else .ok rows

namespace LedgerTables

def receiptOf (ledger : LedgerTables) (inputJobId checkpointKey : String) : Option Receipt :=
  ledger.receipts.find? fun row =>
    decide (row.inputJobId = inputJobId ∧ row.checkpointKey = checkpointKey)

/-- A window that is not recorded yet. -/
def insertBatch (env : LedgerEnv) (now : String) (batch : PreparedBatch) (ledger : LedgerTables) :
    Result (Receipt × LedgerTables) := do
  require (∀ row ∈ ledger.receipts, row.batchId ≠ batch.batchId)
    (.conflict "batch_id 已绑定到不同窗口")
  let sources ← lockSource now batch.source ledger.sources
  let sourceId := batch.source.sourceId
  let uncovered ← subtractRanges batch.ranges (rangeRows .ingested sourceId ledger.sourceRanges)
  let newlyCount ← sumLengths uncovered
  let receipt : Receipt :=
    { batchId := batch.batchId
      sourceId := sourceId
      inputJobId := batch.inputJobId
      checkpointKey := batch.checkpointKey
      parserVersion := batch.parserVersion
      ranges := batch.ranges
      actualCount := batch.actualCount
      newlyIngestedCount := if batch.provenance = .verified then some newlyCount else none
      provenance := batch.provenance
      committedAt := batch.committedAt }
  let sourceRanges ← bookIngested env batch uncovered ledger.sourceRanges
  return (receipt, { ledger with
    sources := sources, receipts := ledger.receipts ++ [receipt], sourceRanges := sourceRanges })

def recordPrepared (env : LedgerEnv) (now : String) (batch : PreparedBatch)
    (ledger : LedgerTables) : Result (Receipt × LedgerTables) :=
  match ledger.receiptOf batch.inputJobId batch.checkpointKey with
  | some row => do
      require (row.comparable batch)
        (.conflict "相同 input_job_id/checkpoint_key 的收据内容冲突")
      return (row, ledger)
  | none => ledger.insertBatch env now batch

def recordIngestionBatch (env : LedgerEnv) (now : String) (batch : IngestionBatch)
    (ledger : LedgerTables) : Result (Receipt × LedgerTables) := do
  let prepared ← prepareBatch env now batch
  ledger.recordPrepared env now prepared

end LedgerTables

/-! ## What a call does -/

variable {env : LedgerEnv} {now : String} {ledger ledger' : LedgerTables}

/-- The identity of the window a batch stands for. -/
def Receipt.window (row : Receipt) : String × String := (row.inputJobId, row.checkpointKey)

theorem LedgerTables.receiptOf_eq_some {row : Receipt} {inputJobId checkpointKey : String}
    (h : ledger.receiptOf inputJobId checkpointKey = some row) :
    row ∈ ledger.receipts ∧ row.window = (inputJobId, checkpointKey) := by
  refine ⟨List.mem_of_find?_eq_some h, ?_⟩
  have hrow : row.inputJobId = inputJobId ∧ row.checkpointKey = checkpointKey := by
    simpa using List.find?_some h
  exact Prod.ext hrow.1 hrow.2

theorem LedgerTables.receiptOf_eq_none {inputJobId checkpointKey : String}
    (h : ledger.receiptOf inputJobId checkpointKey = none) :
    ∀ row ∈ ledger.receipts, row.window ≠ (inputJobId, checkpointKey) := by
  intro row hrow hwindow
  have hnot := List.find?_eq_none.mp h row hrow
  exact hnot (decide_eq_true (Prod.ext_iff.mp hwindow))

theorem prepareBatch_eq_ok {batch : IngestionBatch} {prepared : PreparedBatch}
    (h : prepareBatch env now batch = .ok prepared) :
    (∀ r ∈ prepared.ranges, r.key.1 = none) ∧
      (prepared.provenance = .verified →
        prepared.actualCount = some (Keyed.total prepared.ranges)) := by
  obtain ⟨_, _, h⟩ := bind_eq_ok.mp h
  obtain ⟨_, _, h⟩ := bind_eq_ok.mp h
  obtain ⟨_, _, h⟩ := bind_eq_ok.mp h
  obtain ⟨_, _, h⟩ := bind_eq_ok.mp h
  obtain ⟨_, h⟩ := require_bind_eq_ok.mp h
  obtain ⟨_, _, h⟩ := bind_eq_ok.mp h
  obtain ⟨_, _, h⟩ := bind_eq_ok.mp h
  obtain ⟨hkeys, h⟩ := require_bind_eq_ok.mp h
  obtain ⟨_, hcount, h⟩ := bind_eq_ok.mp h
  obtain ⟨_, _, h⟩ := bind_eq_ok.mp h
  obtain ⟨hactual, h⟩ := require_bind_eq_ok.mp h
  obtain ⟨_, _, h⟩ := bind_eq_ok.mp h
  obtain rfl := pure_eq_ok.mp h
  exact ⟨hkeys, fun hverified => sumLengths_eq_ok hcount ▸ hactual hverified⟩

/-- The writes of a new window. -/
structure NewBatch (env : LedgerEnv) (batch : PreparedBatch) (ledger ledger' : LedgerTables)
    (receipt : Receipt) : Prop where
  hwindow : ∀ row ∈ ledger.receipts, row.window ≠ receipt.window
  hid : ∀ row ∈ ledger.receipts, row.batchId ≠ receipt.batchId
  hreceipts : ledger'.receipts = ledger.receipts ++ [receipt]
  hroots : ledger'.roots = ledger.roots
  hmembers : ledger'.members = ledger.members
  hcontent : receipt.comparable batch ∧ receipt.ranges = batch.ranges
  hranges : ∃ uncovered,
    subtractRanges batch.ranges
      (rangeRows .ingested receipt.sourceId ledger.sourceRanges) = .ok uncovered ∧
    receipt.newlyIngestedCount =
      (if receipt.provenance = .verified then some (Keyed.total uncovered) else none) ∧
    bookIngested env batch uncovered ledger.sourceRanges = .ok ledger'.sourceRanges

/-- A call that goes through returns the recorded receipt and changes nothing, or
writes a new one. -/
theorem LedgerTables.recordPrepared_cases {batch : PreparedBatch} {receipt : Receipt}
    (h : ledger.recordPrepared env now batch = .ok (receipt, ledger')) :
    (ledger' = ledger ∧ receipt ∈ ledger.receipts ∧ receipt.comparable batch) ∨
      NewBatch env batch ledger ledger' receipt := by
  unfold recordPrepared at h
  split at h
  · rename_i row hrow
    obtain ⟨hcomparable, h⟩ := require_bind_eq_ok.mp h
    obtain ⟨rfl, rfl⟩ := Prod.mk.inj (pure_eq_ok.mp h)
    exact .inl ⟨rfl, (receiptOf_eq_some hrow).1, hcomparable⟩
  · rename_i hnone
    obtain ⟨hid, h⟩ := require_bind_eq_ok.mp h
    obtain ⟨sources, _, h⟩ := bind_eq_ok.mp h
    obtain ⟨uncovered, huncovered, h⟩ := bind_eq_ok.mp h
    obtain ⟨newlyCount, hcount, h⟩ := bind_eq_ok.mp h
    obtain ⟨sourceRanges, hbook, h⟩ := bind_eq_ok.mp h
    obtain ⟨rfl, rfl⟩ := Prod.mk.inj (pure_eq_ok.mp h)
    obtain rfl := sumLengths_eq_ok hcount
    exact .inr ⟨receiptOf_eq_none hnone, hid, rfl, rfl, rfl,
      ⟨⟨rfl, rfl, rfl, rfl, rfl, rfl⟩, rfl⟩, uncovered, huncovered, rfl, hbook⟩

theorem LedgerTables.recordIngestionBatch_cases {batch : IngestionBatch} {receipt : Receipt}
    (h : ledger.recordIngestionBatch env now batch = .ok (receipt, ledger')) :
    ∃ prepared, prepareBatch env now batch = .ok prepared ∧
      ((ledger' = ledger ∧ receipt ∈ ledger.receipts ∧ receipt.comparable prepared) ∨
        NewBatch env prepared ledger ledger' receipt) := by
  obtain ⟨prepared, hprepared, h⟩ := bind_eq_ok.mp h
  exact ⟨prepared, hprepared, recordPrepared_cases h⟩

end LogRisk.Ledger
