import LogRisk.Ledger.RangeAlgebra

/-!
# The length of a union, row by row

`_union_rows` reads the ranges of the ledger in the order of source, partition, start and end.
It extends one range as long as the next row overlaps or touches it, and adds its length up when
a row lies behind it or belongs to another source or partition.
-/

namespace LogRisk.Analytics

open LogRisk.Library LogRisk.Library.Intervals LogRisk.Library.Transaction LogRisk.Ledger

/-- A row of a query over ranges, with identifiers as the ledger stores them; it may be empty. -/
structure PositionRow where
  sourceId : String
  partitionKey : String
  startPosition : ℕ
  endPosition : ℕ
  source : Text.strip sourceId = sourceId ∧ sourceId ≠ "" ∧ '\x00' ∉ sourceId.toList
  partition : '\x00' ∉ partitionKey.toList
  bound : endPosition ≤ maxInt64

/-- The range that is being extended. -/
structure Active where
  source : String
  partition : String
  start : ℕ
  stop : ℕ

/-- A row that starts a range. -/
def activeOf (row : PositionRow) : Active :=
  ⟨row.sourceId, row.partitionKey, row.startPosition, row.endPosition⟩

/-- One row of the loop, on the total and the active range. -/
def unionStep (s : ℕ × Option Active) (row : PositionRow) : ℕ × Option Active :=
  if row.endPosition ≤ row.startPosition then s
  else
    match s.2 with
    | none => (s.1, some (activeOf row))
    | some active =>
        if active.source ≠ row.sourceId ∨ active.partition ≠ row.partitionKey ∨
            active.stop < row.startPosition then
          (s.1 + (active.stop - active.start), some (activeOf row))
        else if active.stop < row.endPosition then
          (s.1, some { active with stop := row.endPosition })
        else s

/-- The active range is added up at the end. -/
def flush (s : ℕ × Option Active) : ℕ :=
  match s.2 with
  | none => s.1
  | some active => s.1 + (active.stop - active.start)

def unionRows (rows : List PositionRow) : ℕ := flush (rows.foldl unionStep (0, none))

/-- `ORDER BY source_id, partition_key, start_position, end_position`. -/
def rowOrder (row : PositionRow) : String ×ₗ String ×ₗ ℕ ×ₗ ℕ :=
  toLex (row.sourceId, toLex (row.partitionKey, toLex (row.startPosition, row.endPosition)))

/-! ## Points -/

def rowPoints (row : PositionRow) : Finset ((Option String × String) × ℕ) :=
  {(some row.sourceId, row.partitionKey)} ×ˢ Finset.Ico row.startPosition row.endPosition

/-- The union of the rows. -/
def unionPoints (rows : List PositionRow) : Finset ((Option String × String) × ℕ) :=
  rows.foldr (fun row s => rowPoints row ∪ s) ∅

def activePoints (a : Active) : Finset ((Option String × String) × ℕ) :=
  {(some a.source, a.partition)} ×ˢ Finset.Ico a.start a.stop

theorem mem_rowPoints {row : PositionRow} {k : Option String × String} {x : ℕ} :
    (k, x) ∈ rowPoints row ↔ (some row.sourceId, row.partitionKey) = k ∧
      row.startPosition ≤ x ∧ x < row.endPosition := by
  unfold rowPoints
  rw [Finset.mem_product, Finset.mem_singleton, Finset.mem_Ico]
  exact and_congr_left fun _ => eq_comm

theorem mem_activePoints {a : Active} {k : Option String × String} {x : ℕ} :
    (k, x) ∈ activePoints a ↔ (some a.source, a.partition) = k ∧ a.start ≤ x ∧ x < a.stop := by
  unfold activePoints
  rw [Finset.mem_product, Finset.mem_singleton, Finset.mem_Ico]
  exact and_congr_left fun _ => eq_comm

theorem mem_unionPoints {rows : List PositionRow} {p : (Option String × String) × ℕ} :
    p ∈ unionPoints rows ↔ ∃ row ∈ rows, p ∈ rowPoints row := by
  induction rows with
  | nil => simp [unionPoints]
  | cons row rows ih =>
      show p ∈ rowPoints row ∪ unionPoints rows ↔ _
      rw [Finset.mem_union, ih]
      simp

@[simp] theorem unionPoints_cons (row : PositionRow) (rows : List PositionRow) :
    unionPoints (row :: rows) = rowPoints row ∪ unionPoints rows := rfl

theorem rowPoints_of_empty {row : PositionRow} (h : row.endPosition ≤ row.startPosition) :
    rowPoints row = ∅ := by
  unfold rowPoints
  rw [Finset.Ico_eq_empty (by omega), Finset.product_empty]

theorem card_activePoints (a : Active) : (activePoints a).card = a.stop - a.start := by
  unfold activePoints
  rw [Finset.card_product, Finset.card_singleton, Nat.card_Ico, Nat.one_mul]

/-! ## The order of the rows -/

theorem rowOrder_le {a b : PositionRow} (h : rowOrder a ≤ rowOrder b) :
    toLex (a.sourceId, a.partitionKey) < toLex (b.sourceId, b.partitionKey) ∨
      (a.sourceId = b.sourceId ∧ a.partitionKey = b.partitionKey) ∧
        a.startPosition ≤ b.startPosition := by
  unfold rowOrder at h
  rw [Prod.Lex.toLex_le_toLex] at h
  rcases h with hsource | ⟨hsource, h⟩
  · exact .inl (Prod.Lex.toLex_lt_toLex.mpr (.inl hsource))
  · have h : toLex (a.partitionKey, toLex (a.startPosition, a.endPosition)) ≤
        toLex (b.partitionKey, toLex (b.startPosition, b.endPosition)) := h
    rw [Prod.Lex.toLex_le_toLex] at h
    rcases h with hpartition | ⟨hpartition, h⟩
    · exact .inl (Prod.Lex.toLex_lt_toLex.mpr (.inr ⟨hsource, hpartition⟩))
    · have h : toLex (a.startPosition, a.endPosition) ≤ toLex (b.startPosition, b.endPosition) := h
      rw [Prod.Lex.toLex_le_toLex] at h
      refine .inr ⟨⟨hsource, hpartition⟩, ?_⟩
      rcases h with hlt | ⟨heq, _⟩
      · exact hlt.le
      · exact heq.le

/-- The rows that are still to come lie behind the active range, in its group or another. -/
def Behind (a : Active) (row : PositionRow) : Prop :=
  toLex (a.source, a.partition) < toLex (row.sourceId, row.partitionKey) ∨
    (a.source = row.sourceId ∧ a.partition = row.partitionKey) ∧ a.start ≤ row.startPosition

theorem behind_activeOf {row later : PositionRow} (h : rowOrder row ≤ rowOrder later) :
    Behind (activeOf row) later := rowOrder_le h

/-- Behind a row that closes the active range nothing meets it any more. -/
theorem disjoint_of_closed {a : Active} {row later : PositionRow} (hbehind : Behind a row)
    (hclosed : a.source ≠ row.sourceId ∨ a.partition ≠ row.partitionKey ∨
      a.stop < row.startPosition)
    (hle : rowOrder row ≤ rowOrder later) {p : (Option String × String) × ℕ}
    (hp : p ∈ activePoints a) : p ∉ rowPoints later := by
  obtain ⟨k, x⟩ := p
  intro hlater
  obtain ⟨hka, _, hxa⟩ := mem_activePoints.mp hp
  obtain ⟨hkl, hxl, _⟩ := mem_rowPoints.mp hlater
  obtain ⟨hsource, hpartition⟩ := Prod.mk.inj (hka.trans hkl.symm)
  have hsource : a.source = later.sourceId := Option.some.inj hsource
  have hgroup : toLex (later.sourceId, later.partitionKey) = toLex (a.source, a.partition) := by
    rw [hsource, hpartition]
  rcases hbehind with hlt | ⟨⟨hs, hp⟩, _⟩
  · rcases rowOrder_le hle with hnext | ⟨⟨hs, hp⟩, _⟩
    · exact lt_irrefl _ (hgroup ▸ hlt.trans hnext)
    · rw [hs, hp] at hlt
      exact lt_irrefl _ (hgroup ▸ hlt)
  · have hstop : a.stop < row.startPosition := by
      rcases hclosed with h | h | h
      · exact absurd hs h
      · exact absurd hp h
      · exact h
    rcases rowOrder_le hle with hnext | ⟨_, hstart⟩
    · rw [← hs, ← hp, hgroup] at hnext
      exact lt_irrefl _ hnext
    · omega

/-! ## The loop -/

theorem unionStep_of_empty {s : ℕ × Option Active} {row : PositionRow}
    (h : row.endPosition ≤ row.startPosition) : unionStep s row = s := if_pos h

/-- The total so far, and the points of the active range together with those to come. -/
theorem flush_foldl {rows : List PositionRow}
    (hsorted : rows.Pairwise fun a b => rowOrder a ≤ rowOrder b) {active : Active}
    (hbehind : ∀ row ∈ rows, Behind active row) (total : ℕ) :
    flush (rows.foldl unionStep (total, some active)) =
      total + (activePoints active ∪ unionPoints rows).card := by
  induction rows generalizing total active with
  | nil =>
      show total + (active.stop - active.start) = _
      rw [← card_activePoints, unionPoints, List.foldr_nil, Finset.union_empty]
  | cons row rows ih =>
      obtain ⟨hfirst, hrest⟩ := List.pairwise_cons.mp hsorted
      have hrow := hbehind row List.mem_cons_self
      have hlater : ∀ r ∈ rows, Behind active r :=
        fun r hr => hbehind r (List.mem_cons_of_mem row hr)
      rw [List.foldl_cons, unionPoints_cons]
      by_cases hempty : row.endPosition ≤ row.startPosition
      · rw [unionStep_of_empty hempty, ih hrest hlater, rowPoints_of_empty hempty,
          Finset.empty_union]
      · by_cases hclosed : active.source ≠ row.sourceId ∨ active.partition ≠ row.partitionKey ∨
            active.stop < row.startPosition
        · have hstep : unionStep (total, some active) row =
              (total + (active.stop - active.start), some (activeOf row)) := by
            simp only [unionStep, if_neg hempty, if_pos hclosed]
          have hfresh : activePoints (activeOf row) = rowPoints row := rfl
          have hdisjoint : Disjoint (activePoints active) (rowPoints row ∪ unionPoints rows) := by
            refine Finset.disjoint_left.mpr fun p hp hmem => ?_
            rcases Finset.mem_union.mp hmem with hmem | hmem
            · exact disjoint_of_closed hrow hclosed (le_refl _) hp hmem
            · obtain ⟨r, hr, hmem⟩ := mem_unionPoints.mp hmem
              exact disjoint_of_closed hrow hclosed (hfirst r hr) hp hmem
          rw [hstep, ih hrest fun r hr => behind_activeOf (hfirst r hr), hfresh,
            Finset.card_union_of_disjoint hdisjoint, card_activePoints, Nat.add_assoc]
        · obtain ⟨hsource, hpartition, hstart⟩ : active.source = row.sourceId ∧
              active.partition = row.partitionKey ∧ row.startPosition ≤ active.stop := by
            simpa using hclosed
          have hlo : active.start ≤ row.startPosition := by
            rcases hrow with hlt | ⟨_, hlo⟩
            · rw [hsource, hpartition] at hlt
              exact absurd hlt (lt_irrefl _)
            · exact hlo
          have hstep : unionStep (total, some active) row =
              (total, some { active with stop := max active.stop row.endPosition }) := by
            simp only [unionStep, if_neg hempty, if_neg hclosed]
            split
            · rename_i hstop
              rw [max_eq_right hstop.le]
            · rename_i hstop
              rw [max_eq_left (not_lt.mp hstop)]
          have hmerged : activePoints { active with stop := max active.stop row.endPosition } =
              activePoints active ∪ rowPoints row := by
            ext ⟨k, x⟩
            rw [Finset.mem_union, mem_activePoints, mem_activePoints, mem_rowPoints, hsource,
              hpartition]
            show _ ∧ active.start ≤ x ∧ x < max active.stop row.endPosition ↔ _
            rw [← and_or_left, lt_max_iff]
            refine and_congr_right fun _ => ?_
            omega
          rw [hstep, @ih hrest { active with stop := max active.stop row.endPosition } hlater,
            hmerged, Finset.union_assoc]

theorem unionRows_eq_card {rows : List PositionRow}
    (hsorted : rows.Pairwise fun a b => rowOrder a ≤ rowOrder b) :
    unionRows rows = (unionPoints rows).card := by
  unfold unionRows
  induction rows with
  | nil => rfl
  | cons row rows ih =>
      obtain ⟨hfirst, hrest⟩ := List.pairwise_cons.mp hsorted
      rw [List.foldl_cons, unionPoints_cons]
      by_cases hempty : row.endPosition ≤ row.startPosition
      · rw [unionStep_of_empty hempty, ih hrest, rowPoints_of_empty hempty, Finset.empty_union]
      · have hstep : unionStep (0, none) row = (0, some (activeOf row)) := if_neg hempty
        rw [hstep, flush_foldl hrest fun r hr => behind_activeOf (hfirst r hr), Nat.zero_add]
        rfl

/-! ## The same ranges in the ledger -/

/-- The rows that are not empty, as ranges. -/
def rangesOf (rows : List PositionRow) : List Range :=
  rows.filterMap fun row =>
    if h : row.startPosition < row.endPosition then
      some ⟨(some row.sourceId, row.partitionKey), ⟨row.startPosition, row.endPosition, h⟩⟩
    else none

theorem mem_rangesOf {rows : List PositionRow} {r : Range} :
    r ∈ rangesOf rows ↔ ∃ row ∈ rows, r.key = (some row.sourceId, row.partitionKey) ∧
      r.span.lo = row.startPosition ∧ r.span.hi = row.endPosition := by
  unfold rangesOf
  rw [List.mem_filterMap]
  refine exists_congr fun row => and_congr_right fun _ => ?_
  constructor
  · intro h
    split at h
    · obtain rfl := Option.some.inj h
      exact ⟨rfl, rfl, rfl⟩
    · cases h
  · rintro ⟨hkey, hlo, hhi⟩
    obtain ⟨key, ⟨lo, hi, hlt⟩⟩ := r
    obtain rfl : lo = row.startPosition := hlo
    obtain rfl : hi = row.endPosition := hhi
    obtain rfl : key = (some row.sourceId, row.partitionKey) := hkey
    rw [dif_pos hlt]

theorem valid_rangesOf (rows : List PositionRow) : ∀ r ∈ rangesOf rows, Valid r := by
  intro r hr
  obtain ⟨row, _, hkey, _, hhi⟩ := mem_rangesOf.mp hr
  refine ⟨?_, ?_, fun s hs => ?_⟩
  · rw [hkey]
    exact row.partition
  · rw [hhi]
    exact row.bound
  · rw [hkey] at hs
    obtain rfl := Option.some.inj hs
    exact row.source

theorem points_rangesOf (rows : List PositionRow) :
    Keyed.points (rangesOf rows) = unionPoints rows := by
  ext ⟨k, x⟩
  rw [Keyed.mem_points, mem_unionPoints]
  constructor
  · rintro ⟨r, hr, hx⟩
    obtain ⟨row, hrow, hkey, hlo, hhi⟩ := mem_rangesOf.mp hr
    obtain ⟨hk, hx, hx'⟩ := Keyed.mem_toFinset.mp hx
    have hk : k = r.key := hk
    refine ⟨row, hrow, mem_rowPoints.mpr ⟨(hk.trans hkey).symm, ?_, ?_⟩⟩
    · exact hlo ▸ hx
    · exact hhi ▸ hx'
  · rintro ⟨row, hrow, hx⟩
    obtain ⟨hk, hlo, hhi⟩ := mem_rowPoints.mp hx
    refine ⟨⟨(some row.sourceId, row.partitionKey),
      ⟨row.startPosition, row.endPosition, by omega⟩⟩, ?_, ?_⟩
    · exact mem_rangesOf.mpr ⟨row, hrow, rfl, rfl, rfl⟩
    · exact Keyed.mem_toFinset.mpr ⟨hk.symm, hlo, hhi⟩

/-- The total is the number of points in the union, and the total length of `canonical_ranges` of
the rows that are not empty, which accepts them exactly when the total fits into a `BIGINT`. -/
theorem unionRows_exact {rows : List PositionRow}
    (hsorted : rows.Pairwise fun a b => rowOrder a ≤ rowOrder b) :
    unionRows rows = (unionPoints rows).card ∧
      ((∃ output, canonicalRanges ((rangesOf rows).map document) = .ok output) ↔
        unionRows rows ≤ maxInt64) ∧
      ∀ output, canonicalRanges ((rangesOf rows).map document) = .ok output →
        unionRows rows = Keyed.total output := by
  have hitems := rangeItems_documents (valid_rangesOf rows) 0
  have hcard := unionRows_eq_card hsorted
  rw [← points_rangesOf] at hcard ⊢
  refine ⟨hcard, ?_, fun output h => ?_⟩
  · rw [hcard]
    constructor
    · rintro ⟨output, h⟩
      exact ((canonicalRanges_eq_ok hitems).mp h).2
    · intro hle
      exact ⟨_, (canonicalRanges_eq_ok hitems).mpr ⟨rfl, hle⟩⟩
  · obtain ⟨rfl, _⟩ := (canonicalRanges_eq_ok hitems).mp h
    have hnormal := normal_canonical (rangesOf rows)
    rw [hcard, ← hnormal.points, Keyed.card_points hnormal.canonical.disjointList]

/-! ## Examples -/

def rowOf (startPosition endPosition : ℕ) (h : endPosition ≤ maxInt64) : PositionRow :=
  ⟨"s", "p", startPosition, endPosition, by decide, by decide, h⟩

/-- Nested, touching and empty rows. -/
def fewRows : List PositionRow :=
  [rowOf 0 5 (by decide), rowOf 1 2 (by decide), rowOf 3 3 (by decide), rowOf 5 7 (by decide),
    rowOf 9 10 (by decide)]

theorem unionRows_exact_few : unionRows fewRows = 8 ∧ (unionPoints fewRows).card = 8 := by
  have hsorted : fewRows.Pairwise fun a b => rowOrder a ≤ rowOrder b := by decide +kernel
  have htotal : unionRows fewRows = 8 := by decide +kernel
  exact ⟨htotal, (unionRows_exact hsorted).1 ▸ htotal⟩

/-- The document of a row, empty or not. -/
def rowDocument (row : PositionRow) : Json :=
  .obj [("partition_key", .str row.partitionKey), ("start", .num row.startPosition),
    ("end", .num row.endPosition), ("source_id", .str row.sourceId)]

theorem empty_row_refused :
    ¬ ∀ rows : List PositionRow, (rows.Pairwise fun a b => rowOrder a ≤ rowOrder b) →
      ∃ output, canonicalRanges (rows.map rowDocument) = .ok output ∧
        unionRows rows = Keyed.total output := by
  intro h
  obtain ⟨output, houtput, _⟩ := h [rowOf 3 3 (by decide)] (List.pairwise_singleton _ _)
  obtain ⟨items, hitems, _⟩ := bind_eq_ok.mp houtput
  obtain ⟨item, _, hitem, _⟩ := rangeItems_cons.mp hitems
  obtain ⟨fields, hsays⟩ := rangeItem_eq_ok.mp hitem
  obtain rfl := Json.obj.inj hsays.object
  have hlo : (3 : ℤ) = item.span.lo := Json.num.inj hsays.start
  have hhi : (3 : ℤ) = item.span.hi := Json.num.inj hsays.stop
  have hlt := item.span.lt
  omega

end LogRisk.Analytics
