import LogRisk.Ledger.Ranges
import LogRisk.Library.Checks

/-!
# The algebra of ranges

`canonical_ranges` accepts the lists of ranges whose points can be counted in a `BIGINT`, and
answers with the one list in order, with gaps, of the same points.  `subtract_ranges` is the
difference of the sets of points, in the same form.
-/

namespace LogRisk.Ledger

open LogRisk.Library LogRisk.Library.Intervals LogRisk.Library.Transaction

/-! ## Documents of ranges -/

/-- The object of a range, as `canonical_ranges` writes it. -/
def document (r : Range) : Json :=
  .obj ([("partition_key", .str r.key.2), ("start", .num r.span.lo), ("end", .num r.span.hi)] ++
    match r.key.1 with
    | none => []
    | some source => [("source_id", .str source)])

/-- `subtract_ranges` on documents. -/
def subtractDocuments (incoming existing : List Json) : Result (List Range) := do
  let incomingItems ← canonicalRanges incoming
  let existingItems ← canonicalRanges existing
  canonicalItems (Keyed.subtract incomingItems existingItems)

/-- What a document of a range says. -/
structure Says (value : Json) (item : Range) (fields : List (String × Json)) : Prop where
  object : value = .obj fields
  supported : ∀ f ∈ fields, f.1 ∈ rangeFields
  named : "partition_key" ∈ fields.map Prod.fst
  partitionKey : Json.field "partition_key" fields = .str item.key.2
  partitionText : '\x00' ∉ item.key.2.toList
  start : Json.field "start" fields = .num item.span.lo
  stop : Json.field "end" fields = .num item.span.hi
  bound : item.span.hi ≤ maxInt64
  source : Json.field "source_id" fields = .null ∧ item.key.1 = none ∨
    ∃ s, Json.field "source_id" fields = .str s ∧ Text.strip s ≠ "" ∧
      '\x00' ∉ (Text.strip s).toList ∧ item.key.1 = some (Text.strip s)

theorem mappingOf_eq_ok {value : Json} {message : String} {fields : List (String × Json)} :
    mappingOf value message = .ok fields ↔ value = .obj fields := by
  unfold mappingOf
  split <;> simp_all

theorem stringOf_eq_ok {value : Json} {field s : String} :
    stringOf value field = .ok s ↔ value = .str s := by
  unfold stringOf
  split <;> simp_all

theorem rawText_eq_ok {value field s : String} :
    rawText value field = .ok s ↔ '\x00' ∉ value.toList ∧ value = s := by
  unfold rawText
  rw [require_bind_eq_ok, pure_eq_ok]

theorem text_eq_ok {value field s : String} :
    text value field = .ok s ↔
      Text.strip value ≠ "" ∧ '\x00' ∉ (Text.strip value).toList ∧ Text.strip value = s := by
  unfold text
  rw [require_bind_eq_ok, rawText_eq_ok]

theorem boundedInt_eq_ok {value : ℤ} {field : String} {n : ℕ} :
    boundedInt value field = .ok n ↔ value = n ∧ n ≤ maxInt64 := by
  unfold boundedInt
  rw [require_bind_eq_ok, pure_eq_ok]
  omega

theorem requiredInt_eq_ok {value : Json} {field : String} {n : ℕ} :
    requiredInt value field = .ok n ↔ value = .num n ∧ n ≤ maxInt64 := by
  unfold requiredInt
  split
  · simp
  · rw [boundedInt_eq_ok, Json.num.injEq]
  · simp_all

theorem rangeItem_eq_ok {value : Json} {index : ℕ} {item : Range} :
    rangeItem value index = .ok item ↔ ∃ fields, Says value item fields := by
  unfold rangeItem
  rw [bind_eq_ok]
  refine exists_congr fun fields => ?_
  rw [mappingOf_eq_ok, require_bind_eq_ok, require_bind_eq_ok, bind_eq_ok]
  simp only [bind_eq_ok, stringOf_eq_ok, rawText_eq_ok, requiredInt_eq_ok]
  constructor
  · rintro ⟨hobject, hsupported, hnamed, partitionText, hpartition, partitionKey,
      ⟨htext, rfl⟩, start, ⟨hstart, _⟩, stop, ⟨hstop, hbound⟩, h⟩
    split at h
    · split at h
      · rename_i hsource
        obtain rfl := pure_eq_ok.mp h
        exact ⟨hobject, hsupported, hnamed, hpartition, htext, hstart, hstop, hbound,
          .inl ⟨hsource, rfl⟩⟩
      · obtain ⟨sourceText, hsourceText, h⟩ := bind_eq_ok.mp h
        obtain ⟨sourceId, hsourceId, h⟩ := bind_eq_ok.mp h
        obtain rfl := pure_eq_ok.mp h
        obtain ⟨hne, hnul, rfl⟩ := text_eq_ok.mp hsourceId
        exact ⟨hobject, hsupported, hnamed, hpartition, htext, hstart, hstop, hbound,
          .inr ⟨sourceText, stringOf_eq_ok.mp hsourceText, hne, hnul, rfl⟩⟩
    · cases h
  · rintro ⟨hobject, hsupported, hnamed, hpartition, htext, hstart, hstop, hbound, hsource⟩
    have hlt := item.span.lt
    refine ⟨hobject, hsupported, hnamed, _, hpartition, _, ⟨htext, rfl⟩, _,
      ⟨hstart, by omega⟩, _, ⟨hstop, hbound⟩, ?_⟩
    rw [dif_pos hlt]
    obtain ⟨⟨source, partitionKey⟩, span⟩ := item
    rcases hsource with ⟨hnull, rfl⟩ | ⟨s, hs, hne, hnul, rfl⟩
    · rw [hnull]
      rfl
    · rw [hs]
      refine bind_eq_ok.mpr ⟨s, rfl, bind_eq_ok.mpr ⟨Text.strip s, ?_, rfl⟩⟩
      exact text_eq_ok.mpr ⟨hne, hnul, rfl⟩

/-! ## Validated items -/

/-- What holds of a range that has passed the validation. -/
structure Valid (r : Range) : Prop where
  partitionText : '\x00' ∉ r.key.2.toList
  bound : r.span.hi ≤ maxInt64
  source : ∀ s, r.key.1 = some s → Text.strip s = s ∧ s ≠ "" ∧ '\x00' ∉ s.toList

theorem Says.valid {value : Json} {item : Range} {fields : List (String × Json)}
    (h : Says value item fields) : Valid item := by
  refine ⟨h.partitionText, h.bound, fun s hs => ?_⟩
  rcases h.source with ⟨_, hnone⟩ | ⟨t, _, hne, hnul, hsome⟩
  · rw [hnone] at hs
    cases hs
  · rw [hsome] at hs
    obtain rfl := Option.some.inj hs
    exact ⟨Text.strip_strip t, hne, hnul⟩

/-- A valid range passes the validation as it is. -/
theorem rangeItem_document {r : Range} (h : Valid r) (index : ℕ) :
    rangeItem (document r) index = .ok r := by
  refine rangeItem_eq_ok.mpr ?_
  obtain ⟨⟨source, partitionKey⟩, span⟩ := r
  cases source with
  | none =>
      refine ⟨_, rfl, ?_, ?_, rfl, h.partitionText, rfl, rfl, h.bound, .inl ⟨rfl, rfl⟩⟩
      · simp [rangeFields]
      · simp
  | some s =>
      obtain ⟨hstrip, hne, hnul⟩ := h.source s rfl
      refine ⟨_, rfl, ?_, ?_, rfl, h.partitionText, rfl, rfl, h.bound,
        .inr ⟨s, rfl, ?_, ?_, ?_⟩⟩
      · simp [rangeFields]
      · simp
      · rwa [hstrip]
      · rwa [hstrip]
      · rw [hstrip]

theorem rangeItems_cons {index : ℕ} {value : Json} {rest : List Json} {items : List Range} :
    rangeItems index (value :: rest) = .ok items ↔
      ∃ item others, rangeItem value index = .ok item ∧ rangeItems (index + 1) rest = .ok others ∧
        items = item :: others := by
  rw [rangeItems, bind_eq_ok]
  refine exists_congr fun item => ?_
  rw [bind_eq_ok]
  constructor
  · rintro ⟨hitem, others, hothers, h⟩
    exact ⟨others, hitem, hothers, (pure_eq_ok.mp h).symm⟩
  · rintro ⟨others, hitem, hothers, rfl⟩
    exact ⟨hitem, others, hothers, rfl⟩

theorem valid_of_rangeItems {index : ℕ} {values : List Json} {items : List Range}
    (h : rangeItems index values = .ok items) : ∀ r ∈ items, Valid r := by
  induction values generalizing index items with
  | nil =>
      cases h
      exact fun _ hr => absurd hr List.not_mem_nil
  | cons value rest ih =>
      obtain ⟨item, others, hitem, hothers, rfl⟩ := rangeItems_cons.mp h
      obtain ⟨_, hsays⟩ := rangeItem_eq_ok.mp hitem
      intro r hr
      rcases List.mem_cons.mp hr with rfl | hr
      · exact hsays.valid
      · exact ih hothers r hr

theorem rangeItems_documents {items : List Range} (h : ∀ r ∈ items, Valid r) (index : ℕ) :
    rangeItems index (items.map document) = .ok items := by
  induction items generalizing index with
  | nil => rfl
  | cons r rest ih =>
      rw [List.map_cons]
      refine rangeItems_cons.mpr ⟨r, rest, rangeItem_document (h r List.mem_cons_self) index, ?_, rfl⟩
      exact ih (fun x hx => h x (List.mem_cons_of_mem r hx)) (index + 1)

/-- The index is for the messages only. -/
theorem rangeItem_index {value : Json} {item : Range} {i : ℕ} (h : rangeItem value i = .ok item)
    (j : ℕ) : rangeItem value j = .ok item := rangeItem_eq_ok.mpr (rangeItem_eq_ok.mp h)

/-- The items come in the order of the values. -/
theorem rangeItems_perm {values supplied : List Json} (hperm : values.Perm supplied) {i : ℕ}
    {items : List Range} (h : rangeItems i values = .ok items) :
    ∃ items', rangeItems i supplied = .ok items' ∧ items.Perm items' := by
  induction hperm generalizing i items with
  | nil => exact ⟨items, h, List.Perm.refl _⟩
  | cons value _ ih =>
      obtain ⟨item, others, hitem, hothers, rfl⟩ := rangeItems_cons.mp h
      obtain ⟨others', hothers', hperm⟩ := ih hothers
      exact ⟨item :: others', rangeItems_cons.mpr ⟨item, others', hitem, hothers', rfl⟩,
        hperm.cons item⟩
  | swap value value' rest =>
      obtain ⟨item, others, hitem, hothers, rfl⟩ := rangeItems_cons.mp h
      obtain ⟨item', others', hitem', hothers', rfl⟩ := rangeItems_cons.mp hothers
      refine ⟨item' :: item :: others', ?_, List.Perm.swap _ _ _⟩
      refine rangeItems_cons.mpr ⟨item', item :: others', rangeItem_index hitem' i, ?_, rfl⟩
      exact rangeItems_cons.mpr ⟨item, others', rangeItem_index hitem (i + 1), hothers', rfl⟩
  | trans _ _ ih ih' =>
      obtain ⟨middle, hmiddle, hperm⟩ := ih h
      obtain ⟨last, hlast, hperm'⟩ := ih' hmiddle
      exact ⟨last, hlast, hperm.trans hperm'⟩

/-! ## When a list is accepted -/

theorem sumLengths_isOk {ranges : List Range} (h : Keyed.total ranges ≤ maxInt64) :
    ∃ n, sumLengths ranges = .ok n := by
  have hfold : ∀ (ranges : List Range) (start : ℕ), start + Keyed.total ranges ≤ maxInt64 →
      ∃ n, ranges.foldlM (fun total r => do
        require (total + r.span.length ≤ maxInt64) (LedgerError.invalid "区间总长度超出 BIGINT 范围")
        return total + r.span.length) start = .ok n := by
    intro ranges
    induction ranges with
    | nil => exact fun start _ => ⟨start, rfl⟩
    | cons r rest ih =>
        intro start hle
        rw [Keyed.total_cons] at hle
        obtain ⟨n, hn⟩ := ih (start + r.span.length) (by omega)
        refine ⟨n, ?_⟩
        rw [List.foldlM_cons, bind_eq_ok]
        refine ⟨start + r.span.length, ?_, hn⟩
        exact require_bind_eq_ok.mpr ⟨by omega, rfl⟩
  exact hfold ranges 0 (by omega)

theorem total_le_of_sumLengths {ranges : List Range} {n : ℕ} (h : sumLengths ranges = .ok n) :
    Keyed.total ranges ≤ maxInt64 := by
  have hstep : ∀ (_ : List Range) (r : Range) (total total' : ℕ), total ≤ maxInt64 →
      (do require (total + r.span.length ≤ maxInt64) (LedgerError.invalid "区间总长度超出 BIGINT 范围")
          return total + r.span.length) = Except.ok total' → total' ≤ maxInt64 := by
    intro _ r total total' _ h
    obtain ⟨hle, h⟩ := require_bind_eq_ok.mp h
    exact pure_eq_ok.mp h ▸ hle
  have hbound : n ≤ maxInt64 :=
    @foldlM_invariant _ _ _ _ (fun _ total => total ≤ maxInt64) hstep [] _ _ _ (Nat.zero_le _) h
  exact sumLengths_eq_ok h ▸ hbound

/-- Accepted exactly when the points can be counted. -/
theorem canonicalItems_eq_ok_iff {items output : List Range} :
    canonicalItems items = .ok output ↔
      output = Keyed.canonical rangeOrder items ∧ (Keyed.points items).card ≤ maxInt64 := by
  have hcard : (Keyed.points items).card = Keyed.total (Keyed.canonical rangeOrder items) := by
    rw [← Keyed.points_canonical rangeOrder items]
    exact Keyed.card_points (Keyed.canonical_canonical rangeOrder items).disjointList
  rw [hcard]
  unfold canonicalItems
  rw [bind_eq_ok]
  constructor
  · rintro ⟨n, hn, h⟩
    exact ⟨(pure_eq_ok.mp h).symm, total_le_of_sumLengths hn⟩
  · rintro ⟨rfl, hle⟩
    obtain ⟨n, hn⟩ := sumLengths_isOk hle
    exact ⟨n, hn, rfl⟩

/-! ## The list of a set of points -/

instance : Std.Total rangeOrder := ⟨fun a b => le_total (toLex (a.1.getD "", a.2)) _⟩

instance : IsTrans (Option String × String) rangeOrder :=
  ⟨fun _ _ _ hab hbc => le_trans (α := String ×ₗ String) hab hbc⟩

/-- In order, with gaps, and with the points of the items. -/
structure Normal (items output : List Range) : Prop where
  sorted : output.Pairwise (Keyed.Precedes rangeOrder)
  canonical : Keyed.Canonical output
  points : Keyed.points output = Keyed.points items

theorem normal_canonical (items : List Range) : Normal items (Keyed.canonical rangeOrder items) :=
  ⟨Keyed.pairwise_canonical rangeOrder items, Keyed.canonical_canonical _ _,
    Keyed.points_canonical _ _⟩

/-- No two keys of valid ranges rank the same. -/
theorem Valid.key_eq {a b : Range} (ha : Valid a) (hb : Valid b) (hab : rangeOrder a.key b.key)
    (hba : rangeOrder b.key a.key) : a.key = b.key := by
  have hrank : toLex (a.key.1.getD "", a.key.2) = toLex (b.key.1.getD "", b.key.2) :=
    le_antisymm hab hba
  obtain ⟨hsource, hpartition⟩ := Prod.mk.inj (toLex.injective hrank)
  refine Prod.ext ?_ hpartition
  cases hsa : a.key.1 with
  | none =>
      cases hsb : b.key.1 with
      | none => rfl
      | some t =>
          rw [hsa, hsb] at hsource
          exact absurd hsource.symm (hb.source t hsb).2.1
  | some s =>
      cases hsb : b.key.1 with
      | none =>
          rw [hsa, hsb] at hsource
          exact absurd hsource (ha.source s hsa).2.1
      | some t =>
          rw [hsa, hsb] at hsource
          exact congrArg some hsource

/-- What has the points of valid ranges is valid. -/
theorem Normal.valid {items output : List Range} (h : Normal items output)
    (hitems : ∀ r ∈ items, Valid r) : ∀ r ∈ output, Valid r := by
  intro r hr
  have hlt := r.span.lt
  have hmem : (r.key, r.span.hi - 1) ∈ Keyed.points output := by
    refine Keyed.mem_points.mpr ⟨r, hr, Keyed.mem_toFinset.mpr ⟨rfl, ?_, ?_⟩⟩
    · show r.span.lo ≤ r.span.hi - 1
      omega
    · show r.span.hi - 1 < r.span.hi
      omega
  rw [h.points] at hmem
  obtain ⟨item, hitem, hin⟩ := Keyed.mem_points.mp hmem
  obtain ⟨hkey, hlo, hhi⟩ := Keyed.mem_toFinset.mp hin
  have hkey : r.key = item.key := hkey
  have hvalid := hitems item hitem
  refine ⟨?_, ?_, ?_⟩
  · rw [hkey]
    exact hvalid.partitionText
  · have hbound := hvalid.bound
    have hhi : r.span.hi - 1 < item.span.hi := hhi
    omega
  · rw [hkey]
    exact hvalid.source

/-- There is one such list only. -/
theorem Normal.unique {items output output' : List Range} (h : Normal items output)
    (h' : Normal items output') (hitems : ∀ r ∈ items, Valid r) : output = output' := by
  refine Keyed.eq_of_points h.sorted h'.sorted h.canonical h'.canonical ?_
    (h.points.trans h'.points.symm)
  intro a ha b hb
  exact (h.valid hitems a ha).key_eq (h'.valid hitems b hb)

theorem canonicalRanges_eq_ok {values : List Json} {items : List Range}
    (hitems : rangeItems 0 values = .ok items) {output : List Range} :
    canonicalRanges values = .ok output ↔
      output = Keyed.canonical rangeOrder items ∧ (Keyed.points items).card ≤ maxInt64 := by
  unfold canonicalRanges
  rw [hitems]
  exact canonicalItems_eq_ok_iff

theorem normal_of_canonicalRanges {values : List Json} {output : List Range}
    (h : canonicalRanges values = .ok output) : ∃ items, rangeItems 0 values = .ok items ∧
      (∀ r ∈ items, Valid r) ∧ Normal items output ∧ (Keyed.points items).card ≤ maxInt64 := by
  obtain ⟨items, hitems, _⟩ := bind_eq_ok.mp h
  obtain ⟨rfl, hcard⟩ := (canonicalRanges_eq_ok hitems).mp h
  exact ⟨items, hitems, valid_of_rangeItems hitems, normal_canonical items, hcard⟩

/-- The list for a list is the list. -/
theorem canonicalRanges_documents {values : List Json} {output : List Range}
    (h : canonicalRanges values = .ok output) :
    canonicalRanges (output.map document) = .ok output := by
  obtain ⟨items, _, hvalid, hnormal, hcard⟩ := normal_of_canonicalRanges h
  have houtput := hnormal.valid hvalid
  refine (canonicalRanges_eq_ok (rangeItems_documents houtput 0)).mpr ⟨?_, ?_⟩
  · have hself : Normal output output := ⟨hnormal.sorted, hnormal.canonical, rfl⟩
    exact hself.unique (normal_canonical output) houtput
  · rw [hnormal.points]
    exact hcard

theorem canonicalRanges_perm {values supplied : List Json} {output : List Range}
    (hperm : supplied.Perm values) (h : canonicalRanges values = .ok output) :
    canonicalRanges supplied = .ok output := by
  obtain ⟨items, hitems, hvalid, hnormal, hcard⟩ := normal_of_canonicalRanges h
  obtain ⟨items', hitems', hperm'⟩ := rangeItems_perm hperm.symm hitems
  have hpoints : Keyed.points items' = Keyed.points items := by
    ext x
    rw [Keyed.mem_points, Keyed.mem_points]
    exact exists_congr fun r => and_congr_left fun _ => hperm'.mem_iff.symm
  refine (canonicalRanges_eq_ok hitems').mpr ⟨?_, hpoints ▸ hcard⟩
  have hnormal' := normal_canonical items'
  exact hnormal.unique ⟨hnormal'.sorted, hnormal'.canonical, hnormal'.points.trans hpoints⟩ hvalid

theorem subtractDocuments_isOk {incoming existing : List Json} {new old : List Range}
    (hnew : canonicalRanges incoming = .ok new) (hold : canonicalRanges existing = .ok old) :
    ∃ difference, subtractDocuments incoming existing = .ok difference ∧
      difference.Pairwise (Keyed.Precedes rangeOrder) ∧ Keyed.Canonical difference ∧
      Keyed.points difference = Keyed.points new \ Keyed.points old := by
  obtain ⟨newItems, _, _, hnormalNew, hcard⟩ := normal_of_canonicalRanges hnew
  obtain ⟨_, _, _, hnormalOld, _⟩ := normal_of_canonicalRanges hold
  have hpoints : Keyed.points (Keyed.subtract new old) = Keyed.points new \ Keyed.points old :=
    Keyed.points_subtract new hnormalOld.canonical
  have hle : (Keyed.points (Keyed.subtract new old)).card ≤ maxInt64 := by
    rw [hpoints, hnormalNew.points]
    exact (Finset.card_le_card Finset.sdiff_subset).trans hcard
  have hnormal := normal_canonical (Keyed.subtract new old)
  refine ⟨_, ?_, hnormal.sorted, hnormal.canonical, hnormal.points.trans hpoints⟩
  unfold subtractDocuments
  rw [hnew, hold]
  exact canonicalItems_eq_ok_iff.mpr ⟨rfl, hle⟩

theorem card_union {new old difference : List Range} (hold : Keyed.Canonical old)
    (hdifference : Keyed.Canonical difference)
    (hpoints : Keyed.points difference = Keyed.points new \ Keyed.points old) :
    (Keyed.points new ∪ Keyed.points old).card = Keyed.total old + Keyed.total difference := by
  rw [← Keyed.card_points hold.disjointList, ← Keyed.card_points hdifference.disjointList, hpoints,
    Finset.union_comm, ← Finset.union_sdiff_self_eq_union]
  exact Finset.card_union_of_disjoint Finset.disjoint_sdiff

/-- Valid ranges are accepted exactly when their points can be counted, and then put in order,
with gaps and the same points, whatever their order; once more changes nothing.  Subtracting
gives the difference of the points in the same form, and its length is what the union has more. -/
theorem ranges_set_algebra :
    (∀ values items, rangeItems 0 values = .ok items →
      ((∃ output, canonicalRanges values = .ok output) ↔
        (Keyed.points items).card ≤ maxInt64) ∧
      ∀ output, canonicalRanges values = .ok output →
        Normal items output ∧ canonicalRanges (output.map document) = .ok output ∧
        ∀ supplied, supplied.Perm values → canonicalRanges supplied = .ok output) ∧
    ∀ incoming existing new old, canonicalRanges incoming = .ok new →
      canonicalRanges existing = .ok old →
      ∃ difference, subtractDocuments incoming existing = .ok difference ∧
        difference.Pairwise (Keyed.Precedes rangeOrder) ∧ Keyed.Canonical difference ∧
        Keyed.points difference = Keyed.points new \ Keyed.points old ∧
        (Keyed.points new ∪ Keyed.points old).card =
          Keyed.total old + Keyed.total difference := by
  constructor
  · intro values items hitems
    constructor
    · constructor
      · rintro ⟨output, h⟩
        exact ((canonicalRanges_eq_ok hitems).mp h).2
      · intro hcard
        exact ⟨_, (canonicalRanges_eq_ok hitems).mpr ⟨rfl, hcard⟩⟩
    · intro output h
      obtain ⟨rfl, _⟩ := (canonicalRanges_eq_ok hitems).mp h
      exact ⟨normal_canonical items, canonicalRanges_documents h,
        fun supplied hperm => canonicalRanges_perm hperm h⟩
  · intro incoming existing new old hnew hold
    obtain ⟨difference, hok, hsorted, hcanonical, hpoints⟩ := subtractDocuments_isOk hnew hold
    obtain ⟨_, _, _, hnormalOld, _⟩ := normal_of_canonicalRanges hold
    exact ⟨difference, hok, hsorted, hcanonical, hpoints,
      card_union hnormalOld.canonical hcanonical hpoints⟩

/-! ## Examples -/

def touching : List Range :=
  [⟨(some "s", "p"), ⟨3, 5, by decide⟩⟩, ⟨(some "s", "p"), ⟨0, 3, by decide⟩⟩]

def joined : List Range := [⟨(some "s", "p"), ⟨0, 5, by decide⟩⟩]

theorem ranges_set_algebra_touching :
    Normal touching joined ∧ canonicalRanges (joined.map document) = .ok joined ∧
      ∃ difference, subtractDocuments (touching.map document) (joined.map document) =
        .ok difference ∧ Keyed.points difference = ∅ := by
  have hitems : rangeItems 0 (touching.map document) = .ok touching :=
    eq_ok_of_toOption (by decide +kernel)
  have houtput : canonicalRanges (touching.map document) = .ok joined :=
    eq_ok_of_toOption (by decide +kernel)
  obtain ⟨hnormal, hagain, _⟩ := (ranges_set_algebra.1 _ touching hitems).2 joined houtput
  obtain ⟨difference, hdifference, _, _, hpoints, _⟩ :=
    ranges_set_algebra.2 _ _ joined joined houtput hagain
  exact ⟨hnormal, hagain, difference, hdifference, by rw [hpoints, Finset.sdiff_self]⟩

/-- Two ranges that can be counted one by one only. -/
def large : List Range :=
  [⟨(some "s", "p"), ⟨0, maxInt64, by decide⟩⟩, ⟨(some "s", "q"), ⟨0, maxInt64, by decide⟩⟩]

theorem large_refused :
    ¬ ∀ values items, rangeItems 0 values = .ok items →
      ∃ output, canonicalRanges values = .ok output := by
  intro h
  have hvalid : ∀ r ∈ large, Valid r := by
    intro r hr
    have hbound : r.span.hi = maxInt64 ∧ r.key.1 = some "s" ∧ '\x00' ∉ r.key.2.toList := by
      rcases List.mem_cons.mp hr with rfl | hr
      · decide
      · rw [List.mem_singleton.mp hr]
        decide
    refine ⟨hbound.2.2, hbound.1.le, fun s hs => ?_⟩
    rw [hbound.2.1] at hs
    obtain rfl := Option.some.inj hs
    decide
  have hitems := rangeItems_documents hvalid 0
  obtain ⟨output, houtput⟩ := h _ _ hitems
  have hcard := ((canonicalRanges_eq_ok hitems).mp houtput).2
  have hdisjoint : Keyed.DisjointList large := by
    refine List.pairwise_pair.mpr (Finset.disjoint_left.mpr fun x hx hx' => ?_)
    have hkeys := (Keyed.mem_toFinset.mp hx).1.symm.trans (Keyed.mem_toFinset.mp hx').1
    revert hkeys
    decide
  rw [Keyed.card_points hdisjoint] at hcard
  revert hcard
  decide

end LogRisk.Ledger
