import LogRisk.MultiSource.Completeness

/-!
# The search against a comparison of all pairs

The search looks for partners in buckets and may run out of comparisons.  It compares no pair
that a comparison of all pairs would not accept, and leaves one out only where more of them
are accepted than it has comparisons.
-/

namespace LogRisk.MultiSource

open LogRisk.Library LogRisk.Library.UnionFind

/-! ## All pairs -/

section Naive

variable (host : Host) (rule : CorrelationRule)

/-- What the search asks of a pair that it compares. -/
def accepts (first second : Item) : Bool :=
  decide (first.obs.cluster = second.obs.cluster) &&
    pairAllowed rule first.obs.sourceFamily second.obs.sourceFamily &&
    !(first.shares second).isEmpty && decide (gap first second ≤ rule.maxGapSeconds)

/-- Every item compared with all that follow it. -/
def naiveEdges : List Item → List Edge
  | [] => []
  | first :: rest =>
      (rest.filter (accepts rule first)).map (edgeOf host rule first) ++ naiveEdges rest

end Naive

variable {host : Host} {rule : CorrelationRule} {items : List Item} {first second : Item}
  {left right n : ℕ} {s s' s'' : Search}

theorem accepts_iff : accepts rule first second = true ↔ Pairs rule first second := by
  unfold accepts
  rw [Bool.and_eq_true, Bool.and_eq_true, Bool.and_eq_true, decide_eq_true_iff, decide_eq_true_iff,
    Bool.not_eq_true', List.isEmpty_eq_false_iff]
  constructor
  · rintro ⟨⟨⟨hcluster, hfamilies⟩, hshares⟩, hclose⟩
    obtain ⟨key, hkey⟩ := List.exists_mem_of_ne_nil _ hshares
    exact ⟨hcluster, hfamilies, ⟨key, mem_shares.mp hkey⟩, hclose⟩
  · rintro ⟨hcluster, hfamilies, ⟨key, hkey⟩, hclose⟩
    exact ⟨⟨⟨hcluster, hfamilies⟩, List.ne_nil_of_mem (mem_shares.mpr hkey)⟩, hclose⟩

theorem Pairs.ne (h : Pairs rule first second) : first ≠ second := by
  rintro rfl
  exact (of_decide_eq_true h.families).1 rfl

theorem exists_of_mem_naiveEdges {edge : Edge} (h : edge ∈ naiveEdges host rule items) :
    ∃ first ∈ items, ∃ second ∈ items, Pairs rule first second ∧ edge = edgeOf host rule first second := by
  induction items with
  | nil => exact absurd h List.not_mem_nil
  | cons first rest ih =>
      rcases List.mem_append.mp h with h | h
      · obtain ⟨second, hsecond, rfl⟩ := List.mem_map.mp h
        obtain ⟨hmem, haccepts⟩ := List.mem_filter.mp hsecond
        exact ⟨first, List.mem_cons_self, second, List.mem_cons_of_mem _ hmem,
          accepts_iff.mp haccepts, rfl⟩
      · obtain ⟨a, ha, b, hb, hpairs⟩ := ih h
        exact ⟨a, List.mem_cons_of_mem _ ha, b, List.mem_cons_of_mem _ hb, hpairs⟩

theorem mem_naiveEdges (host : Host) (hfirst : first ∈ items) (hsecond : second ∈ items)
    (h : Pairs rule first second) : edgeOf host rule first second ∈ naiveEdges host rule items := by
  induction items with
  | nil => exact absurd hfirst List.not_mem_nil
  | cons item rest ih =>
      rcases List.mem_cons.mp hfirst with rfl | hlater
      · rcases List.mem_cons.mp hsecond with rfl | hsecond
        · exact absurd rfl h.ne
        · exact List.mem_append_left _ (List.mem_map.mpr
            ⟨second, List.mem_filter.mpr ⟨hsecond, accepts_iff.mpr h⟩, rfl⟩)
      · rcases List.mem_cons.mp hsecond with rfl | hsecond
        · rw [edgeOf_comm]
          exact List.mem_append_left _ (List.mem_map.mpr
            ⟨first, List.mem_filter.mpr ⟨hlater, accepts_iff.mpr h.symm⟩, rfl⟩)
        · exact List.mem_append_right _ (ih hlater hsecond)

/-! ## Candidates -/

theorem le_of_mem_dropWhile {α : Type} [LinearOrder α] {l : List α} (hl : l.Pairwise (· ≤ ·)) {x low : α}
    (hx : x ∈ l.dropWhile fun e => decide (e < low)) : low ≤ x := by
  induction l with
  | nil => exact absurd hx List.not_mem_nil
  | cons a l ih =>
      obtain ⟨ha, hl⟩ := List.pairwise_cons.mp hl
      by_cases hlow : a < low
      · rw [List.dropWhile_cons_of_pos (p := fun e => decide (e < low)) (decide_eq_true hlow)] at hx
        exact ih hl hx
      · rw [List.dropWhile_cons_of_neg (p := fun e => decide (e < low))
          (by rw [decide_eq_true_iff]; exact hlow)] at hx
        rcases List.mem_cons.mp hx with rfl | hx
        · exact not_lt.mp hlow
        · exact (not_lt.mp hlow).trans (ha x hx)

theorem of_mem_slice {bucket : List (ℚ ×ₗ ℤ)} (hbucket : bucket.Pairwise (· ≤ ·)) {e low high : ℚ ×ₗ ℤ}
    (h : e ∈ slice bucket low high) : e ∈ bucket ∧ low ≤ e ∧ e ≤ high := by
  unfold slice at h
  have hdrop := (List.takeWhile_sublist _).mem h
  exact ⟨(List.dropWhile_sublist _).mem hdrop, le_of_mem_dropWhile hbucket hdrop,
    of_decide_eq_true (List.mem_takeWhile_imp (p := fun e => decide (e ≤ high)) h)⟩

/-- The search comes by no item but those that the rule relates to it. -/
theorem pairs_of_mem_positions (h : right ∈ positions rule items first) :
    ∃ second, items[right]? = some second ∧ Pairs rule first second := by
  unfold positions at h
  obtain ⟨pair, hpair, h⟩ := List.mem_flatMap.mp h
  obtain ⟨other, hother, h⟩ := List.mem_flatMap.mp h
  obtain ⟨key, hkey, h⟩ := List.mem_flatMap.mp h
  obtain ⟨e, he, rfl⟩ := List.mem_map.mp h
  obtain ⟨hbucket, hlow, hhigh⟩ := of_mem_slice (List.pairwise_insertionSort _ _) he
  rw [List.mem_insertionSort] at hbucket
  obtain ⟨⟨second, place⟩, hplace, rfl⟩ := List.mem_map.mp hbucket
  obtain ⟨hget, hsame⟩ := List.mem_filter.mp hplace
  obtain ⟨hcluster, hshared, hfamily⟩ := of_decide_eq_true hsame
  rw [Prod.Lex.toLex_le_toLex'] at hlow hhigh
  refine ⟨second, List.mk_mem_zipIdx_iff_getElem?.mp hget, hcluster.symm, ?_,
    ⟨key, List.mem_dedup.mp hkey, hshared⟩, ?_⟩
  · unfold otherFamilies at hother
    split at hother
    · rename_i hmember
      obtain ⟨hends, hne⟩ := List.mem_filter.mp hother
      have hne := of_decide_eq_true hne
      dsimp only at hfamily
      rw [hfamily]
      refine decide_eq_true ⟨hne.symm, ?_⟩
      rw [List.mem_cons, List.mem_singleton] at hends
      rcases hmember with hmember | hmember <;> rcases hends with hends | hends
      · exact absurd (hends.trans hmember.symm) hne
      · rw [hmember, hends]
        exact .inl hpair
      · rw [hmember, hends]
        exact .inr hpair
      · exact absurd (hends.trans hmember.symm) hne
    · exact absurd hother List.not_mem_nil
  · unfold gap
    rw [abs_le]
    have hlow := hlow.1
    have hhigh := hhigh.1
    dsimp only at hlow hhigh
    constructor
    · linarith
    · linarith

theorem collect_sound (remaining left : ℕ) (places : List ℕ) {candidates : List ℕ}
    (hnodup : candidates.Nodup) :
    (collect remaining left candidates places).1.Nodup ∧
      (∀ p ∈ (collect remaining left candidates places).1, p ∈ candidates ∨ (p ∈ places ∧ left < p)) ∧
      ((collect remaining left candidates places).2 = true →
        remaining < (collect remaining left candidates places).1.length) ∧
      ((collect remaining left candidates places).2 = false → candidates.length ≤ remaining →
        (collect remaining left candidates places).1.length ≤ remaining) := by
  induction places generalizing candidates with
  | nil =>
      rw [collect]
      exact ⟨hnodup, fun p hp => .inl hp, fun h => absurd h Bool.false_ne_true, fun _ h => h⟩
  | cons q places ih =>
      have hadded : (addLater left candidates q).Nodup := by
        unfold addLater
        split
        · exact hnodup.insert
        · exact hnodup
      have hfrom : ∀ p ∈ addLater left candidates q, p ∈ candidates ∨ (p = q ∧ left < p) := by
        intro p hp
        unfold addLater at hp
        split at hp
        · rename_i hleft
          rcases List.mem_insert_iff.mp hp with rfl | hp
          · exact .inr ⟨rfl, hleft⟩
          · exact .inl hp
        · exact .inl hp
      unfold collect
      split
      · rename_i hfull
        refine ⟨hadded, fun p hp => ?_, fun _ => hfull, fun h => by cases h⟩
        exact (hfrom p hp).imp_right fun ⟨heq, hleft⟩ => ⟨heq ▸ List.mem_cons_self, hleft⟩
      · rename_i hroom
        obtain ⟨hnodup', hfrom', htrue, hfalse⟩ := ih hadded
        refine ⟨hnodup', fun p hp => ?_, htrue, fun h _ => hfalse h (not_lt.mp hroom)⟩
        rcases hfrom' p hp with hp | ⟨hp, hleft⟩
        · exact (hfrom p hp).imp_right fun ⟨heq, hleft⟩ => ⟨heq ▸ List.mem_cons_self, hleft⟩
        · exact .inr ⟨List.mem_cons_of_mem _ hp, hleft⟩

/-! ## Comparisons -/

/-- What comparing the pairs of some edges adds to a search, as far as its comparisons go. -/
structure Spends (rule : CorrelationRule) (accepted : List Edge) (s s' : Search) : Prop where
  edges : ∃ new, s'.edges = s.edges ++ new ∧ new.Sublist accepted ∧
    new.length = min accepted.length (budget rule - s.comparisons)
  comparisons : s'.comparisons = s.comparisons + min accepted.length (budget rule - s.comparisons)
  isPartial : s'.isPartial = decide (budget rule - s.comparisons < accepted.length)

theorem Spends.nil (h : s.isPartial = false) : Spends rule [] s s where
  edges := ⟨[], (List.append_nil _).symm, List.Sublist.refl _, (Nat.zero_min _).symm⟩
  comparisons := by rw [List.length_nil, Nat.zero_min, Nat.add_zero]
  isPartial := by
    rw [h, List.length_nil]
    exact (decide_eq_false (Nat.not_lt_zero _)).symm

/-- A search that has run out is left where it is. -/
theorem Spends.stop {accepted : List Edge} (more : List Edge) (h : Spends rule accepted s s')
    (hincomplete : s'.isPartial = true) : Spends rule (accepted ++ more) s s' := by
  have hover := of_decide_eq_true (h.isPartial.symm.trans hincomplete)
  obtain ⟨new, hedges, hsub, hlength⟩ := h.edges
  have hboth : min (accepted ++ more).length (budget rule - s.comparisons) =
      min accepted.length (budget rule - s.comparisons) := by
    rw [List.length_append]
    omega
  refine ⟨⟨new, hedges, hsub.trans (List.sublist_append_left _ _), ?_⟩, ?_, ?_⟩
  · rw [hboth, hlength]
  · rw [hboth, h.comparisons]
  · rw [hincomplete, List.length_append]
    exact (decide_eq_true (by omega)).symm

theorem Spends.trans {accepted more : List Edge} (h : Spends rule accepted s s')
    (hincomplete : s'.isPartial = false) (h' : Spends rule more s' s'') :
    Spends rule (accepted ++ more) s s'' := by
  have hunder := of_decide_eq_false (h.isPartial.symm.trans hincomplete)
  obtain ⟨new, hedges, hsub, hlength⟩ := h.edges
  obtain ⟨new', hedges', hsub', hlength'⟩ := h'.edges
  have hspent := h.comparisons
  have hspent' := h'.comparisons
  refine ⟨⟨new ++ new', ?_, hsub.append hsub', ?_⟩, ?_, ?_⟩
  · rw [hedges', hedges, List.append_assoc]
  · rw [List.length_append, List.length_append]
    omega
  · rw [List.length_append]
    omega
  · rw [h'.isPartial, List.length_append]
    exact decide_eq_decide.mpr (by omega)

theorem compareOne_of_pairs (h : Pairs rule first second) :
    compareOne host rule n left right first second s = { s with
      comparisons := s.comparisons + 1
      parent := join n s.parent left right
      edges := s.edges ++ [edgeOf host rule first second] } := by
  have hshares : (first.shares second).isEmpty = false := by
    obtain ⟨key, hfirst, hsecond⟩ := h.shared
    exact List.isEmpty_eq_false_iff.mpr (List.ne_nil_of_mem (mem_shares.mpr ⟨hfirst, hsecond⟩))
  unfold compareOne
  rw [if_neg (not_not.mpr h.cluster), if_neg (not_not.mpr h.families)]
  dsimp only
  rw [hshares, if_neg Bool.false_ne_true, if_neg (not_lt.mpr h.close)]

/-- Candidates are compared as long as there are comparisons left, and each gives its edge. -/
theorem compareEach_spec (host : Host) (s : Search) {places : List ℕ}
    (hplaces : ∀ right ∈ places, ∃ second, items[right]? = some second ∧ Pairs rule first second) :
    (compareEach host rule items left first s places).edges = s.edges ++
        ((places.take (budget rule - s.comparisons)).filterMap (items[·]?)).map
          (edgeOf host rule first) ∧
      (compareEach host rule items left first s places).comparisons =
        s.comparisons + min places.length (budget rule - s.comparisons) ∧
      (compareEach host rule items left first s places).isPartial =
        (s.isPartial || decide (budget rule - s.comparisons < places.length)) := by
  induction places generalizing s with
  | nil =>
      refine ⟨?_, ?_, ?_⟩
      · rw [List.take_nil, List.filterMap_nil, List.map_nil, List.append_nil, compareEach]
      · rw [compareEach, List.length_nil, Nat.zero_min, Nat.add_zero]
      · rw [compareEach, List.length_nil, decide_eq_false (Nat.not_lt_zero _), Bool.or_false]
  | cons right places ih =>
      obtain ⟨second, hitem, hpairs⟩ := hplaces right List.mem_cons_self
      unfold compareEach
      by_cases hbudget : budget rule ≤ s.comparisons
      · have hnone : budget rule - s.comparisons = 0 := Nat.sub_eq_zero_of_le hbudget
        rw [if_pos hbudget, hnone]
        refine ⟨?_, ?_, ?_⟩
        · rw [List.take_zero, List.filterMap_nil, List.map_nil, List.append_nil]
        · rw [Nat.min_zero, Nat.add_zero]
        · rw [decide_eq_true (by rw [List.length_cons]; exact Nat.succ_pos _), Bool.or_true]
      · rw [if_neg hbudget, hitem]
        dsimp only
        rw [compareOne_of_pairs hpairs]
        obtain ⟨hedges, hcomparisons, hincomplete⟩ := ih { s with
            comparisons := s.comparisons + 1
            parent := join items.length s.parent left right
            edges := s.edges ++ [edgeOf host rule first second] }
          fun r hr => hplaces r (List.mem_cons_of_mem _ hr)
        have hone : budget rule - s.comparisons = budget rule - (s.comparisons + 1) + 1 := by omega
        refine ⟨?_, ?_, ?_⟩
        · rw [hedges, hone, List.take_succ_cons, List.filterMap_cons_some hitem, List.map_cons,
            List.append_assoc, List.singleton_append]
        · rw [hcomparisons, List.length_cons]
          dsimp only
          omega
        · rw [hincomplete, List.length_cons]
          exact congrArg (s.isPartial || ·) (decide_eq_decide.mpr (by dsimp only; omega))

/-- The later places that a rule relates to an item, in their order. -/
def laterPlaces (rule : CorrelationRule) (first : Item) (left : ℕ) (rest : List Item) : List ℕ :=
  ((rest.zipIdx (left + 1)).filter fun x => accepts rule first x.1).map Prod.snd

theorem pairwise_laterPlaces (rule : CorrelationRule) (first : Item) (left : ℕ) (rest : List Item) :
    (laterPlaces rule first left rest).Pairwise (· < ·) := by
  have hall : ((rest.zipIdx (left + 1)).map Prod.snd).Pairwise (· < ·) := by
    rw [List.zipIdx_map_snd]
    exact List.pairwise_lt_range'
  exact hall.sublist (List.filter_sublist.map _)

/-- What follows a place of the items. -/
def After (items : List Item) (left : ℕ) (rest : List Item) : Prop := items.drop (left + 1) = rest

theorem After.getElem? {rest : List Item} (h : After items left rest) {x : Item × ℕ} :
    x ∈ rest.zipIdx (left + 1) ↔ left < x.2 ∧ items[x.2]? = some x.1 := by
  obtain ⟨item, place⟩ := x
  rw [List.mk_mem_zipIdx_iff_le_and_getElem?_sub, ← h, List.getElem?_drop]
  refine and_congr_right fun hle => ?_
  rw [Nat.add_sub_cancel' hle]

theorem mem_laterPlaces {rest : List Item} (h : After items left rest) :
    right ∈ laterPlaces rule first left rest ↔
      left < right ∧ ∃ second, items[right]? = some second ∧ Pairs rule first second := by
  unfold laterPlaces
  constructor
  · intro hright
    obtain ⟨⟨second, place⟩, hplace, rfl⟩ := List.mem_map.mp hright
    obtain ⟨hmem, haccepts⟩ := List.mem_filter.mp hplace
    obtain ⟨hlt, hget⟩ := h.getElem?.mp hmem
    exact ⟨hlt, second, hget, accepts_iff.mp haccepts⟩
  · rintro ⟨hlt, second, hget, hpairs⟩
    exact List.mem_map.mpr ⟨(second, right),
      List.mem_filter.mpr ⟨h.getElem?.mpr ⟨hlt, hget⟩, accepts_iff.mpr hpairs⟩, rfl⟩

theorem filterMap_laterPlaces {rest : List Item} (h : After items left rest) :
    (laterPlaces rule first left rest).filterMap (items[·]?) = rest.filter (accepts rule first) := by
  have hget : ∀ x ∈ (rest.zipIdx (left + 1)).filter fun x => accepts rule first x.1,
      ((items[·]?) ∘ Prod.snd) x = (some ∘ Prod.fst) x := fun x hx =>
    (h.getElem?.mp (List.mem_filter.mp hx).1).2
  have hfst : (rest.zipIdx (left + 1)).map Prod.fst = rest := List.zipIdx_map_fst _ _
  unfold laterPlaces
  rw [List.filterMap_map, List.filterMap_congr hget, List.filterMap_eq_map]
  conv_rhs => rw [← hfst, List.filter_map]
  rfl

theorem length_laterPlaces (rule : CorrelationRule) (first : Item) (left : ℕ) (rest : List Item) :
    (laterPlaces rule first left rest).length = (rest.filter (accepts rule first)).length := by
  have hfst : (rest.zipIdx (left + 1)).map Prod.fst = rest := List.zipIdx_map_fst _ _
  unfold laterPlaces
  rw [List.length_map]
  conv_rhs => rw [← hfst, List.filter_map, List.length_map]
  rfl

/-- What the search finds before it compares: all the later places, or more than it can
compare. -/
theorem found_places {rest : List Item} (h : After items left rest) {remaining : ℕ}
    {found : List ℕ × Bool} (hfound : collect remaining left [] (positions rule items first) = found) :
    (found.1.insertionSort (· ≤ ·)).Sublist (laterPlaces rule first left rest) ∧
      ((found.2 = false ∧ found.1.length = (laterPlaces rule first left rest).length ∧
        found.1.length ≤ remaining) ∨ (found.2 = true ∧ remaining < found.1.length)) := by
  obtain ⟨hnodup, hfrom, htrue, hfalse⟩ :=
    collect_sound remaining left (positions rule items first) List.nodup_nil
  rw [hfound] at hnodup hfrom htrue hfalse
  have hall : ∀ p ∈ found.1, p ∈ laterPlaces rule first left rest := by
    intro p hp
    rcases hfrom p hp with hnil | ⟨hplace, hlt⟩
    · exact absurd hnil List.not_mem_nil
    · exact (mem_laterPlaces h).mpr ⟨hlt, pairs_of_mem_positions hplace⟩
  have hsubperm := List.subperm_of_subset hnodup hall
  constructor
  · refine List.sublist_of_subperm_of_pairwise ?_ (List.pairwise_insertionSort (α := ℕ) (· ≤ ·) _)
      ((pairwise_laterPlaces rule first left rest).imp Nat.le_of_lt)
    exact (List.perm_insertionSort _ _).subperm.trans hsubperm
  · cases hflag : found.2 with
    | true => exact .inr ⟨rfl, htrue hflag⟩
    | false =>
        have hflag' : (collect remaining left [] (positions rule items first)).2 = false := by
          rw [hfound, hflag]
        have hcomplete := collect_complete hflag'
        rw [hfound] at hcomplete
        have hback : ∀ p ∈ laterPlaces rule first left rest, p ∈ found.1 := by
          intro p hp
          obtain ⟨hlt, second, hget, hpairs⟩ := (mem_laterPlaces h).mp hp
          exact hcomplete.2 p (mem_positions hpairs hget) hlt
        have hlength := (List.subperm_of_subset
          ((pairwise_laterPlaces rule first left rest).imp Nat.ne_of_lt) hback).length_le
        exact .inl ⟨rfl, Nat.le_antisymm hsubperm.length_le hlength, hfalse hflag (Nat.zero_le _)⟩

/-- The search for partners of one item. -/
theorem searchOne_spends (host : Host) (rule : CorrelationRule) (first : Item) (s : Search)
    {rest : List Item} (h : After items left rest) :
    Spends rule ((rest.filter (accepts rule first)).map (edgeOf host rule first)) s
      (searchOne host rule items left first s) := by
  unfold searchOne
  generalize hfound : collect (budget rule - s.comparisons) left [] (positions rule items first) = found
  dsimp only
  obtain ⟨hsub, hcount⟩ := found_places h hfound
  have hsome : ∀ right ∈ found.1.insertionSort (· ≤ ·),
      ∃ second, items[right]? = some second ∧ Pairs rule first second := fun right hright =>
    ((mem_laterPlaces h).mp (hsub.mem hright)).2
  obtain ⟨hedges, hcomparisons, hincomplete⟩ :=
    compareEach_spec host { s with isPartial := found.2 } hsome
  dsimp only at hedges hcomparisons hincomplete
  have hlater := length_laterPlaces rule first left rest
  have hle := hsub.length_le
  rw [List.length_insertionSort] at hcomparisons hincomplete hle
  have htaken : (((found.1.insertionSort (· ≤ ·)).take (budget rule - s.comparisons)).filterMap
      (items[·]?)).length = min found.1.length (budget rule - s.comparisons) := by
    rw [List.filterMap_length_eq_length.mpr fun right hright => ?_, List.length_take,
      List.length_insertionSort, Nat.min_comm]
    obtain ⟨second, hget, -⟩ := hsome right (List.mem_of_mem_take hright)
    rw [hget]
    rfl
  refine ⟨⟨_, hedges, ?_, ?_⟩, ?_, ?_⟩
  · rw [← filterMap_laterPlaces h]
    exact (((List.take_sublist _ _).trans hsub).filterMap _).map _
  · rw [List.length_map, List.length_map, htaken]
    omega
  · rw [hcomparisons, List.length_map]
    omega
  · rw [hincomplete, List.length_map]
    rcases hcount with ⟨hflag, hlength, hroom⟩ | ⟨hflag, hover⟩
    · rw [hflag, Bool.false_or]
      exact decide_eq_decide.mpr (by omega)
    · rw [hflag, Bool.true_or]
      exact (decide_eq_true (by omega)).symm

/-- The search finds what the comparison of all pairs accepts, as far as its comparisons go. -/
theorem search_spends {rest : List Item} {n : ℕ} (hrest : items.drop n = rest)
    (hincomplete : s.isPartial = false) :
    Spends rule (naiveEdges host rule rest) s (search host rule items s (rest.zipIdx n)) := by
  induction rest generalizing s n with
  | nil => exact .nil hincomplete
  | cons first rest ih =>
      have hafter : After items n rest := by
        unfold After
        rw [← List.drop_drop, hrest]
        rfl
      have hone := searchOne_spends host rule first s hafter
      rw [List.zipIdx_cons, search]
      by_cases hstop : (searchOne host rule items n first s).isPartial = true
      · rw [if_pos hstop]
        exact hone.stop _ hstop
      · rw [if_neg hstop]
        have hflag := Bool.eq_false_iff.mpr hstop
        exact hone.trans hflag (ih hafter hflag)

end LogRisk.MultiSource
