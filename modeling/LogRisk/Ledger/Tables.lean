import LogRisk.Ledger.Ranges

/-!
# Tables of the operational ledgers

Sources, ingestion receipts, the ranges booked for a source, analysis roots with
the ranges frozen into them, and analysis members.
-/

namespace LogRisk.Ledger

open LogRisk.Library LogRisk.Library.Intervals LogRisk.Library.Transaction

inductive Provenance where
  | verified
  | reported
  | unverifiedInput
deriving DecidableEq

/-- The statuses of roots and members. -/
inductive Status where
  | pending
  | running
  | partially
  | completed
  | failed
  | cancelled
deriving DecidableEq

def Status.terminalRoot : Status → Bool
  | completed | failed | cancelled => true
  | pending | running | partially => false

inductive RangeKind where
  | ingested
  | covered
deriving DecidableEq

def RangeKind.name : RangeKind → String
  | ingested => "ingested"
  | covered => "covered"

/-- A source as callers pass it. -/
structure Source where
  sourceId : String
  environment : String
  scopeKey : String
  sourceKind : String
  identityDigest : String
deriving DecidableEq

structure SourceRow where
  source : Source
  createdAt : String
deriving DecidableEq

/-- A row of `operational_ingestion_batches`; its `ranges_json` is the text of
`ranges`. -/
structure Receipt where
  batchId : String
  sourceId : String
  inputJobId : String
  checkpointKey : String
  parserVersion : String
  ranges : List Range
  actualCount : Option ℕ
  newlyIngestedCount : Option ℕ
  provenance : Provenance
  committedAt : String
deriving DecidableEq

/-- A row of `operational_source_ranges`. -/
structure SourceRange where
  rangeId : String
  sourceId : String
  kind : RangeKind
  partitionKey : String
  span : Ival
  firstEventAt : String
  originId : String
deriving DecidableEq

/-- A row of `operational_analysis_runs` with its rows of
`operational_analysis_ranges`. -/
structure Root where
  analysisRunId : String
  environment : String
  scopeKey : String
  requestKey : String
  inputJobId : Option String
  sourceId : Option String
  parentRunId : Option String
  provenance : Provenance
  status : Status
  expectedMembers : ℕ
  inputCount : Option ℕ
  reportedInputCount : Option ℕ
  createdAt : String
  updatedAt : String
  completedAt : Option String
  settledAt : Option String
  ranges : List Range
deriving DecidableEq

structure Member where
  memberId : String
  analysisRunId : String
  featureJobId : Option String
  status : Status
  createdAt : String
  updatedAt : String
deriving DecidableEq

structure LedgerTables where
  sources : Dict String SourceRow
  receipts : List Receipt
  sourceRanges : List SourceRange
  roots : Dict String Root
  members : Dict String Member
deriving DecidableEq

def LedgerTables.empty : LedgerTables where
  sources := ∅
  receipts := []
  sourceRanges := []
  roots := ∅
  members := ∅

/-- The hash function and the reading of timestamps. -/
structure LedgerEnv where
  sha256 : String → String
  /-- `_canonical_timestamp`. -/
  canonicalTimestamp : String → Result String

/-- A timestamp that is given, or the present one. -/
def timestampOr (env : LedgerEnv) (now : String) : Option String → Result String
  | some value => env.canonicalTimestamp value
  | none => .ok now

/-! ## Sources -/

def sourceIdentity (env : LedgerEnv) (source : Source) : String :=
  env.sha256 (Json.obj [("environment", .str source.environment),
    ("scope_key", .str source.scopeKey), ("source_kind", .str source.sourceKind),
    ("identity_digest", .str source.identityDigest)]).canonical

/-- `_source`: the fields cleaned, under the identifier they determine. -/
def normalizeSource (env : LedgerEnv) (source : Source) : Result Source := do
  let sourceId ← text source.sourceId "source_id"
  let environment ← text source.environment "environment"
  let scopeKey ← text source.scopeKey "scope_key"
  let sourceKind ← text source.sourceKind "source_kind"
  let identityDigest ← text source.identityDigest "identity_digest"
  let normalized : Source := ⟨sourceId, environment, scopeKey, sourceKind, identityDigest⟩
  require (sourceId = sourceIdentity env normalized)
    (.invalid "source_id 与规范来源身份不一致")
  return normalized

def Source.sameIdentity (a b : Source) : Prop :=
  a.environment = b.environment ∧ a.scopeKey = b.scopeKey ∧ a.sourceKind = b.sourceKind ∧
    a.identityDigest = b.identityDigest

instance (a b : Source) : Decidable (a.sameIdentity b) :=
  inferInstanceAs (Decidable (_ ∧ _ ∧ _ ∧ _))

/-- `_lock_source` on a cleaned source: registered once, then unchanged. -/
def lockSource (now : String) (source : Source) (sources : Dict String SourceRow) :
    Result (Dict String SourceRow) :=
  match sources.get? source.sourceId with
  | some row => do
      require (row.source.sameIdentity source) (.conflict "source_id 已绑定到不同来源身份")
      return sources
  | none => do
      require (∀ row ∈ sources.values, ¬row.source.sameIdentity source)
        (.integrity "UNIQUE constraint failed: operational_sources")
      return sources.set source.sourceId ⟨source, now⟩

/-! ## Booked ranges -/

/-- The ranges booked for a source, by partition. -/
def rangeRows (kind : RangeKind) (sourceId : String) (rows : List SourceRange) : List Range :=
  (rows.filter fun r => decide (r.kind = kind ∧ r.sourceId = sourceId)).map fun r =>
    ⟨(none, r.partitionKey), r.span⟩

def rangeId (env : LedgerEnv) (kind : RangeKind) (sourceId originId : String) (item : Range) :
    String :=
  env.sha256 (Json.obj [("source_id", .str sourceId), ("kind", .str kind.name),
    ("partition_key", .str item.key.2), ("start", .num item.span.lo),
    ("end", .num item.span.hi), ("origin_id", .str originId)]).canonical

def sourceRange (env : LedgerEnv) (kind : RangeKind) (sourceId originId firstEventAt : String)
    (item : Range) : SourceRange where
  rangeId := rangeId env kind sourceId originId item
  sourceId := sourceId
  kind := kind
  partitionKey := item.key.2
  span := item.span
  firstEventAt := firstEventAt
  originId := originId

/-- The inserts into `operational_source_ranges`, one after the other. -/
def bookRanges (env : LedgerEnv) (kind : RangeKind) (sourceId originId firstEventAt : String)
    (items : List Range) (rows : List SourceRange) : Result (List SourceRange) :=
  items.foldlM (fun rows item => do
    let row := sourceRange env kind sourceId originId firstEventAt item
    require (∀ r ∈ rows, r.rangeId ≠ row.rangeId)
      (.integrity "UNIQUE constraint failed: operational_source_ranges.range_id")
    return rows ++ [row]) rows

theorem bookRanges_eq_ok {env : LedgerEnv} {kind : RangeKind}
    {sourceId originId firstEventAt : String} {items : List Range} {rows rows' : List SourceRange}
    (h : bookRanges env kind sourceId originId firstEventAt items rows = .ok rows') :
    rows' = rows ++ items.map (sourceRange env kind sourceId originId firstEventAt) := by
  induction items generalizing rows with
  | nil =>
      rw [bookRanges, List.foldlM_nil] at h
      rw [← pure_eq_ok.mp h, List.map_nil, List.append_nil]
  | cons item items ih =>
      rw [bookRanges, List.foldlM_cons] at h
      obtain ⟨next, hnext, h⟩ := bind_eq_ok.mp h
      obtain ⟨_, hnext⟩ := require_bind_eq_ok.mp hnext
      rw [ih h, ← pure_eq_ok.mp hnext, List.map_cons, List.append_assoc]
      rfl

/-- Ranges without a source appear as they were booked. -/
theorem rangeRows_booked {env : LedgerEnv} (kind : RangeKind) (sourceId originId at' : String)
    {items : List Range} (hitems : ∀ item ∈ items, item.key.1 = none) :
    rangeRows kind sourceId (items.map (sourceRange env kind sourceId originId at')) = items := by
  induction items with
  | nil => rfl
  | cons item items ih =>
      obtain ⟨⟨source?, partitionKey⟩, span⟩ := item
      obtain rfl : source? = none := hitems _ (List.mem_cons_self ..)
      have ih := ih fun i hi => hitems i (List.mem_cons_of_mem _ hi)
      rw [List.map_cons, rangeRows, List.filter_cons_of_pos (by simp [sourceRange]),
        List.map_cons]
      rw [rangeRows] at ih
      rw [ih]
      rfl

theorem rangeRows_booked_of_ne {env : LedgerEnv} {kind kind' : RangeKind}
    {sourceId sourceId' : String} (originId at' : String) (items : List Range)
    (h : ¬(kind = kind' ∧ sourceId = sourceId')) :
    rangeRows kind' sourceId' (items.map (sourceRange env kind sourceId originId at')) = [] := by
  rw [rangeRows, List.filter_map, List.map_eq_nil_iff, List.map_eq_nil_iff]
  exact List.filter_eq_nil_iff.mpr fun item _ hitem => h (of_decide_eq_true hitem)

theorem rangeRows_append (kind : RangeKind) (sourceId : String) (rows rows' : List SourceRange) :
    rangeRows kind sourceId (rows ++ rows') =
      rangeRows kind sourceId rows ++ rangeRows kind sourceId rows' := by
  rw [rangeRows, List.filter_append, List.map_append]
  rfl

/-- What subtraction leaves of ranges without a source has no source. -/
theorem key_of_mem_subtractRanges {incoming existing output : List Range}
    (h : subtractRanges incoming existing = .ok output)
    (hincoming : ∀ r ∈ incoming, r.key.1 = none) : ∀ r ∈ output, r.key.1 = none := by
  intro r hr
  have hpoint : (r.key, r.span.lo) ∈ Keyed.points output :=
    Keyed.mem_points.mpr ⟨r, hr, Keyed.mem_toFinset.mpr ⟨rfl, le_refl _, r.span.lt⟩⟩
  rw [(subtractRanges_eq_ok h).2] at hpoint
  obtain ⟨s, hs, hpoint⟩ := Keyed.mem_points.mp (Finset.mem_sdiff.mp hpoint).1
  have hkey : r.key = s.key := (Keyed.mem_toFinset.mp hpoint).1
  rw [hkey]
  exact hincoming s hs

/-- Booking what an existing list does not hold: the list stays disjoint, its
points are united with the new ones, and its length grows by what is returned. -/
theorem booked_union {env : LedgerEnv} {kind : RangeKind} {sourceId originId at' : String}
    {incoming uncovered : List Range} {rows rows' : List SourceRange}
    (hdisjoint : Keyed.DisjointList (rangeRows kind sourceId rows))
    (hincoming : ∀ r ∈ incoming, r.key.1 = none)
    (hsubtract : subtractRanges incoming (rangeRows kind sourceId rows) = .ok uncovered)
    (hbook : bookRanges env kind sourceId originId at' uncovered rows = .ok rows') :
    Keyed.DisjointList (rangeRows kind sourceId rows') ∧
      Keyed.points (rangeRows kind sourceId rows') =
        Keyed.points (rangeRows kind sourceId rows) ∪ Keyed.points incoming ∧
      Keyed.total (rangeRows kind sourceId rows') =
        Keyed.total (rangeRows kind sourceId rows) + Keyed.total uncovered := by
  obtain ⟨hcanonical, hpoints⟩ := subtractRanges_eq_ok hsubtract
  have hrows : rangeRows kind sourceId rows' = rangeRows kind sourceId rows ++ uncovered := by
    rw [bookRanges_eq_ok hbook, rangeRows_append,
      rangeRows_booked _ _ _ _ (key_of_mem_subtractRanges hsubtract hincoming)]
  rw [hrows, Keyed.points_append, hpoints, Finset.union_sdiff_self_eq_union, Keyed.total_append]
  refine ⟨hdisjoint.append hcanonical.disjointList ?_, rfl, rfl⟩
  rw [hpoints]
  exact Finset.disjoint_sdiff

/-- Other sources and the other kind of ranges are left alone. -/
theorem booked_frame {env : LedgerEnv} {kind kind' : RangeKind}
    {sourceId sourceId' originId at' : String} {items : List Range} {rows rows' : List SourceRange}
    (hbook : bookRanges env kind sourceId originId at' items rows = .ok rows')
    (h : ¬(kind = kind' ∧ sourceId = sourceId')) :
    rangeRows kind' sourceId' rows' = rangeRows kind' sourceId' rows := by
  rw [bookRanges_eq_ok hbook, rangeRows_append, rangeRows_booked_of_ne _ _ _ h, List.append_nil]

end LogRisk.Ledger
