import LogRisk.MultiSource.Correlation
import Mathlib.Algebra.Order.Group.Unbundled.Abs
import Mathlib.Tactic.Linarith

/-!
# Every pair has its edge

Where the search of a rule does not run out of comparisons, every two observations that the
rule relates get an edge, and the edge is in one of the correlations.
-/

namespace LogRisk.MultiSource

open LogRisk.Library LogRisk.Library.UnionFind

variable (host : Host) (rule : CorrelationRule)

/-- The rule relates two observations. -/
structure Pairs (first second : Item) : Prop where
  cluster : first.obs.cluster = second.obs.cluster
  families : pairAllowed rule first.obs.sourceFamily second.obs.sourceFamily = true
  shared : ∃ key ∈ first.obs.entityKeys, key ∈ second.obs.entityKeys
  close : gap first second ≤ rule.maxGapSeconds

/-- Two places are joined by their edge. -/
structure Joined (s : Search) (left right : ℕ) (first second : Item) : Prop where
  edge : edgeOf host rule first second ∈ s.edges
  same : Same s.parent left right

/-- Edges and classes of a search that later steps keep. -/
structure Grows (s s' : Search) : Prop where
  edges : ∀ edge ∈ s.edges, edge ∈ s'.edges
  same : ∀ i j, Same s.parent i j → Same s'.parent i j

theorem Grows.refl (s : Search) : Grows s s := ⟨fun _ h => h, fun _ _ h => h⟩

theorem Grows.trans {s s' s'' : Search} (h : Grows s s') (h' : Grows s' s'') : Grows s s'' :=
  ⟨fun e he => h'.edges e (h.edges e he), fun i j hij => h'.same i j (h.same i j hij)⟩

variable {host} {rule} {items : List Item} {first second : Item} {left right n : ℕ} {s s' : Search}

theorem Joined.grows (h : Joined host rule s left right first second) (hs : Grows s s') :
    Joined host rule s' left right first second :=
  ⟨hs.edges _ h.edge, hs.same _ _ h.same⟩

/-! ## Candidates -/

theorem mem_dropWhile {α : Type} {p : α → Bool} {l : List α} {x : α} (hx : x ∈ l)
    (hp : p x = false) : x ∈ l.dropWhile p := by
  induction l with
  | nil => exact hx
  | cons a l ih =>
      by_cases ha : p a = true
      · rw [List.dropWhile_cons_of_pos ha]
        rcases List.mem_cons.mp hx with rfl | hx
        · rw [hp] at ha
          cases ha
        · exact ih hx
      · rw [List.dropWhile_cons_of_neg ha]
        exact hx

theorem mem_takeWhile_le {α : Type} [LinearOrder α] {l : List α} (hl : l.Pairwise (· ≤ ·))
    {x high : α} (hx : x ∈ l) (hhigh : x ≤ high) : x ∈ l.takeWhile fun e => decide (e ≤ high) := by
  induction l with
  | nil => exact hx
  | cons a l ih =>
      obtain ⟨ha, hl⟩ := List.pairwise_cons.mp hl
      have hahigh : a ≤ high := by
        rcases List.mem_cons.mp hx with rfl | hx
        · exact hhigh
        · exact (ha x hx).trans hhigh
      rw [List.takeWhile_cons_of_pos (p := fun e => decide (e ≤ high)) (decide_eq_true hahigh)]
      rcases List.mem_cons.mp hx with rfl | hx
      · exact List.mem_cons_self
      · exact List.mem_cons_of_mem a (ih hl hx)

theorem mem_slice {bucket : List (ℚ ×ₗ ℤ)} (hbucket : bucket.Pairwise (· ≤ ·)) {e low high : ℚ ×ₗ ℤ}
    (he : e ∈ bucket) (hlow : low ≤ e) (hhigh : e ≤ high) : e ∈ slice bucket low high := by
  unfold slice
  refine mem_takeWhile_le (hbucket.sublist (List.dropWhile_sublist _)) ?_ hhigh
  exact mem_dropWhile he (decide_eq_false (not_lt.mpr hlow))

theorem Pairs.symm (h : Pairs rule first second) : Pairs rule second first where
  cluster := h.cluster.symm
  families := by
    have hfamilies := of_decide_eq_true h.families
    exact decide_eq_true ⟨hfamilies.1.symm, hfamilies.2.symm⟩
  shared := by
    obtain ⟨key, hfirst, hsecond⟩ := h.shared
    exact ⟨key, hsecond, hfirst⟩
  close := by
    unfold gap
    rw [abs_sub_comm]
    exact h.close

/-- The search for partners of an item comes by every item that the rule relates to it. -/
theorem mem_positions (h : Pairs rule first second) (hright : items[right]? = some second) :
    right ∈ positions rule items first := by
  obtain ⟨hne, hpair⟩ := of_decide_eq_true h.families
  obtain ⟨key, hfirst, hsecond⟩ := h.shared
  have hlt : right < items.length := (List.getElem?_eq_some_iff.mp hright).1
  have hbucket : toLex (second.time, (right : ℤ)) ∈
      bucket items first.obs.cluster key second.obs.sourceFamily := by
    unfold bucket
    rw [List.mem_insertionSort]
    refine List.mem_map.mpr ⟨(second, right), List.mem_filter.mpr ⟨?_, ?_⟩, rfl⟩
    · exact List.mk_mem_zipIdx_iff_getElem?.mpr hright
    · exact decide_eq_true ⟨h.cluster.symm, hsecond, rfl⟩
  have hclose := abs_le.mp h.close
  have hslice : toLex (second.time, (right : ℤ)) ∈ slice
      (bucket items first.obs.cluster key second.obs.sourceFamily)
      (toLex (first.time - rule.maxGapSeconds, -1))
      (toLex (first.time + rule.maxGapSeconds, (items.length : ℤ))) := by
    refine mem_slice (List.pairwise_insertionSort _ _) hbucket ?_ ?_
    · rw [Prod.Lex.toLex_le_toLex']
      exact ⟨by linarith, fun _ => by omega⟩
    · rw [Prod.Lex.toLex_le_toLex']
      exact ⟨by linarith, fun _ => by omega⟩
  have hfamily : ∃ pair ∈ rule.sourcePairs,
      second.obs.sourceFamily ∈ otherFamilies first.obs.sourceFamily pair := by
    rcases hpair with hpair | hpair
    · refine ⟨_, hpair, ?_⟩
      unfold otherFamilies
      rw [if_pos (.inl rfl)]
      exact List.mem_filter.mpr ⟨by simp, decide_eq_true hne.symm⟩
    · refine ⟨_, hpair, ?_⟩
      unfold otherFamilies
      rw [if_pos (.inr rfl)]
      exact List.mem_filter.mpr ⟨by simp, decide_eq_true hne.symm⟩
  obtain ⟨pair, hpair, hother⟩ := hfamily
  unfold positions
  refine List.mem_flatMap.mpr ⟨pair, hpair, List.mem_flatMap.mpr ⟨_, hother, ?_⟩⟩
  refine List.mem_flatMap.mpr ⟨key, List.mem_dedup.mpr hfirst, ?_⟩
  exact List.mem_map.mpr ⟨_, hslice, Int.toNat_natCast right⟩

theorem collect_complete {remaining : ℕ} {candidates places : List ℕ}
    (h : (collect remaining left candidates places).2 = false) :
    (∀ p ∈ candidates, p ∈ (collect remaining left candidates places).1) ∧
      ∀ p ∈ places, left < p → p ∈ (collect remaining left candidates places).1 := by
  induction places generalizing candidates with
  | nil => exact ⟨fun _ hp => hp, fun p hp => absurd hp List.not_mem_nil⟩
  | cons q places ih =>
      unfold collect at h ⊢
      by_cases hfull : remaining < (addLater left candidates q).length
      · rw [if_pos hfull] at h
        cases h
      · rw [if_neg hfull] at h ⊢
        obtain ⟨hcandidates, hplaces⟩ := ih h
        refine ⟨fun p hp => hcandidates p ?_, fun p hp hleft => ?_⟩
        · unfold addLater
          split
          · exact List.mem_insert_of_mem hp
          · exact hp
        · rcases List.mem_cons.mp hp with rfl | hp
          · refine hcandidates p ?_
            unfold addLater
            rw [if_pos hleft]
            exact List.mem_insert_self
          · exact hplaces p hp hleft

/-! ## Comparisons -/

theorem compareOne_keeps (host : Host) (rule : CorrelationRule) (first second : Item)
    (hforest : Forest n s.parent) (hleft : left < n) (hright : right < n) :
    Forest n (compareOne host rule n left right first second s).parent ∧
      Grows s (compareOne host rule n left right first second s) ∧
      (compareOne host rule n left right first second s).isPartial = s.isPartial := by
  unfold compareOne
  split
  · exact ⟨hforest, .refl s, rfl⟩
  split
  · exact ⟨hforest, .refl s, rfl⟩
  dsimp only
  split
  · exact ⟨hforest, ⟨fun _ h => h, fun _ _ h => h⟩, rfl⟩
  split
  · exact ⟨hforest, ⟨fun _ h => h, fun _ _ h => h⟩, rfl⟩
  · obtain ⟨hjoined, _, hsame⟩ := hforest.join hleft hright
    exact ⟨hjoined, ⟨fun _ h => List.mem_append_left _ h, hsame⟩, rfl⟩

theorem mem_shares {key : String} :
    key ∈ first.shares second ↔ key ∈ first.obs.entityKeys ∧ key ∈ second.obs.entityKeys := by
  unfold Item.shares
  rw [List.mem_insertionSort, List.mem_dedup, List.mem_filter, decide_eq_true_iff]

/-- Comparing a pair that the rule relates joins it. -/
theorem compareOne_joins (h : Pairs rule first second) (hforest : Forest n s.parent) (hleft : left < n)
    (hright : right < n) :
    Joined host rule (compareOne host rule n left right first second s) left right first second := by
  obtain ⟨key, hfirst, hsecond⟩ := h.shared
  have hshares : (first.shares second).isEmpty = false := by
    rw [List.isEmpty_eq_false_iff]
    exact List.ne_nil_of_mem (mem_shares.mpr ⟨hfirst, hsecond⟩)
  unfold compareOne
  rw [if_neg (not_not.mpr h.cluster), if_neg (not_not.mpr h.families)]
  dsimp only
  rw [hshares, if_neg Bool.false_ne_true, if_neg (not_lt.mpr h.close)]
  exact ⟨List.mem_append_right _ List.mem_cons_self, (hforest.join hleft hright).2.1⟩

theorem compareEach_complete {places : List ℕ} (hforest : Forest items.length s.parent)
    (hleft : left < items.length)
    (h : (compareEach host rule items left first s places).isPartial = false) :
    s.isPartial = false ∧
      Forest items.length (compareEach host rule items left first s places).parent ∧
      Grows s (compareEach host rule items left first s places) ∧
      ∀ right ∈ places, ∀ second, items[right]? = some second → Pairs rule first second →
        Joined host rule (compareEach host rule items left first s places) left right first second := by
  induction places generalizing s with
  | nil => exact ⟨h, hforest, .refl s, fun right hright => absurd hright List.not_mem_nil⟩
  | cons right places ih =>
      unfold compareEach at h ⊢
      by_cases hbudget : budget rule ≤ s.comparisons
      · rw [if_pos hbudget] at h
        cases h
      · rw [if_neg hbudget] at h ⊢
        cases hitem : items[right]? with
        | none =>
            rw [hitem] at h
            obtain ⟨hincomplete, hforest', hgrows, hjoined⟩ := ih hforest h
            refine ⟨hincomplete, hforest', hgrows, fun r hr second hsecond hpairs => ?_⟩
            rcases List.mem_cons.mp hr with rfl | hr
            · rw [hitem] at hsecond
              cases hsecond
            · exact hjoined r hr second hsecond hpairs
        | some second =>
            rw [hitem] at h
            have hright : right < items.length := (List.getElem?_eq_some_iff.mp hitem).1
            obtain ⟨hkept, hgrows, hflag⟩ := compareOne_keeps host rule first second hforest hleft
              hright
            obtain ⟨hincomplete, hforest', hgrows', hjoined⟩ := ih hkept h
            refine ⟨hflag ▸ hincomplete, hforest', hgrows.trans hgrows', fun r hr second' hsecond' hpairs => ?_⟩
            rcases List.mem_cons.mp hr with rfl | hr
            · obtain rfl := Option.some.inj (hitem.symm.trans hsecond')
              exact (compareOne_joins hpairs hforest hleft hright).grows hgrows'
            · exact hjoined r hr second' hsecond' hpairs

theorem searchOne_complete (hforest : Forest items.length s.parent) (hleft : left < items.length)
    (h : (searchOne host rule items left first s).isPartial = false) :
    Forest items.length (searchOne host rule items left first s).parent ∧
      Grows s (searchOne host rule items left first s) ∧
      ∀ right second, left < right → items[right]? = some second → Pairs rule first second →
        Joined host rule (searchOne host rule items left first s) left right first second := by
  unfold searchOne at h ⊢
  dsimp only at h ⊢
  have hstart : Forest items.length ({ s with
      isPartial := (collect (budget rule - s.comparisons) left [] (positions rule items first)).2 } :
        Search).parent := hforest
  obtain ⟨hincomplete, hforest', hgrows, hjoined⟩ := compareEach_complete hstart hleft h
  obtain ⟨_, hfound⟩ := collect_complete hincomplete
  refine ⟨hforest', ⟨hgrows.edges, hgrows.same⟩, fun right second hlt hright hpairs => ?_⟩
  refine hjoined right ?_ second hright hpairs
  rw [List.mem_insertionSort]
  exact hfound right (mem_positions hpairs hright) hlt

theorem search_complete {rest : List (Item × ℕ)} (hforest : Forest items.length s.parent)
    (hrest : ∀ x ∈ rest, items[x.2]? = some x.1) (h : (search host rule items s rest).isPartial = false) :
    Forest items.length (search host rule items s rest).parent ∧
      Grows s (search host rule items s rest) ∧
      ∀ x ∈ rest, ∀ right second, x.2 < right → items[right]? = some second →
        Pairs rule x.1 second → Joined host rule (search host rule items s rest) x.2 right x.1 second := by
  induction rest generalizing s with
  | nil => exact ⟨hforest, .refl s, fun x hx => absurd hx List.not_mem_nil⟩
  | cons x rest ih =>
      obtain ⟨first, left⟩ := x
      have hleft : left < items.length :=
        (List.getElem?_eq_some_iff.mp (hrest (first, left) List.mem_cons_self)).1
      unfold search at h ⊢
      dsimp only at h ⊢
      by_cases hincomplete : (searchOne host rule items left first s).isPartial = true
      · rw [if_pos hincomplete] at h
        rw [hincomplete] at h
        cases h
      · rw [if_neg hincomplete] at h ⊢
        obtain ⟨hforest', hgrows, hjoined⟩ := searchOne_complete hforest hleft
          (Bool.eq_false_iff.mpr hincomplete)
        obtain ⟨hforest'', hgrows', hjoined'⟩ :=
          ih hforest' (fun y hy => hrest y (List.mem_cons_of_mem _ hy)) h
        refine ⟨hforest'', hgrows.trans hgrows', fun y hy right second hlt hright hpairs => ?_⟩
        rcases List.mem_cons.mp hy with rfl | hy
        · exact (hjoined right second hlt hright hpairs).grows hgrows'
        · exact hjoined' y hy right second hlt hright hpairs

/-! ## Groups -/

theorem roots_eq {parent : Parents} (hforest : Forest n parent) (places : List ℕ) :
    roots n parent places = places.map fun i => (root n parent i).1 := by
  induction places generalizing parent with
  | nil => rfl
  | cons i places ih =>
      obtain ⟨_, hforest', hends⟩ := hforest.finds (hforest.within_bound i)
      unfold roots
      rw [ih hforest', List.map_cons]
      refine congrArg (List.cons _) (List.map_congr_left fun j _ => ?_)
      obtain ⟨hj, _⟩ := hforest.finds (hforest.within_bound j)
      exact ((hforest'.finds (hforest'.within_bound j)).1).unique (hends j _ hj)

/-- Two items of one class are in one group. -/
theorem exists_group (hforest : Forest items.length s.parent) (hleft : items[left]? = some first)
    (hright : items[right]? = some second) (hsame : Same s.parent left right) :
    ∃ group ∈ groups items s, first ∈ group ∧ second ∈ group := by
  have hmem : ∀ {i item}, items[i]? = some item → ((root items.length s.parent i).1, item) ∈
      (roots items.length s.parent (List.range items.length)).zip items := by
    intro i item hitem
    obtain ⟨hlt, hget⟩ := List.getElem?_eq_some_iff.mp hitem
    rw [roots_eq hforest]
    refine List.mem_iff_getElem.mpr ⟨i, by simpa using hlt, ?_⟩
    rw [List.getElem_zip, List.getElem_map, List.getElem_range, hget]
  have hkey : (root items.length s.parent left).1 ∈ (Dict.groupBy Prod.fst
      ((roots items.length s.parent (List.range items.length)).zip items)).keys :=
    Dict.mem_keys_groupBy.mpr ⟨_, hmem hleft, rfl⟩
  obtain ⟨group, hgroup⟩ := Dict.mem_keys.mp hkey
  have hfilter := Dict.get?_groupBy hgroup
  refine ⟨group.map Prod.snd, List.mem_map.mpr ⟨group, Dict.mem_values.mpr ⟨_, hgroup⟩, rfl⟩, ?_, ?_⟩
  · refine List.mem_map.mpr ⟨((root items.length s.parent left).1, first), ?_, rfl⟩
    rw [hfilter]
    exact List.mem_filter.mpr ⟨hmem hleft, decide_eq_true rfl⟩
  · refine List.mem_map.mpr ⟨((root items.length s.parent right).1, second), ?_, rfl⟩
    rw [hfilter]
    exact List.mem_filter.mpr ⟨hmem hright, decide_eq_true (hforest.root_eq hsame).symm⟩

theorem two_le_length {α : Type} {l : List α} {a b : α} (ha : a ∈ l) (hb : b ∈ l) (hne : a ≠ b) :
    2 ≤ l.length := by
  match l with
  | [] => exact absurd ha List.not_mem_nil
  | [x] => exact absurd ((List.mem_singleton.mp ha).trans (List.mem_singleton.mp hb).symm) hne
  | _ :: _ :: rest => exact Nat.le_add_left 2 rest.length

/-- A group with the edge of two of its items becomes a correlation that has the edge. -/
theorem correlationOf_edge {group : List Item} (hfirst : first ∈ group) (hsecond : second ∈ group)
    (hfamilies : first.obs.sourceFamily ≠ second.obs.sourceFamily)
    (hedge : edgeOf host rule first second ∈ s.edges) :
    ∃ c, correlationOf host rule s group = some c ∧ edgeOf host rule first second ∈ c.edges := by
  have hids : ∀ item ∈ group, item.obs.observationId ∈ idsOf group := fun item hitem =>
    (List.mem_insertionSort _).mpr (List.mem_map_of_mem hitem)
  have hmin : min first.obs.observationId second.obs.observationId ∈ idsOf group := by
    rcases min_choice first.obs.observationId second.obs.observationId with h | h
    · rw [h]
      exact hids first hfirst
    · rw [h]
      exact hids second hsecond
  have hmax : max first.obs.observationId second.obs.observationId ∈ idsOf group := by
    rcases max_choice first.obs.observationId second.obs.observationId with h | h
    · rw [h]
      exact hids first hfirst
    · rw [h]
      exact hids second hsecond
  have hmem : edgeOf host rule first second ∈ edgesOf s.edges (idsOf group) := by
    unfold edgesOf
    rw [List.mem_insertionSort]
    exact List.mem_filter.mpr ⟨hedge, decide_eq_true ⟨hmin, hmax⟩⟩
  have hlength : 2 ≤ group.length :=
    two_le_length hfirst hsecond fun heq => hfamilies (heq ▸ rfl)
  have hfamily : ∀ item ∈ group, item.obs.sourceFamily ∈ familiesOf group := fun item hitem => by
    unfold familiesOf
    rw [List.mem_insertionSort, List.mem_dedup]
    exact List.mem_map_of_mem hitem
  have hcount : 2 ≤ (familiesOf group).length :=
    two_le_length (hfamily first hfirst) (hfamily second hsecond) hfamilies
  unfold correlationOf
  dsimp only
  rw [if_neg]
  · exact ⟨_, rfl, hmem⟩
  · rintro (h | h | h)
    · omega
    · omega
    · rw [h] at hmem
      exact absurd hmem List.not_mem_nil

theorem mem_items_of_group {items : List Item} {s : Search} {group : List Item}
    (h : group ∈ groups items s) {item : Item} (hitem : item ∈ group) : item ∈ items := by
  obtain ⟨members, hmembers, rfl⟩ := List.mem_map.mp h
  obtain ⟨member, hmember, rfl⟩ := List.mem_map.mp hitem
  obtain ⟨k, hk⟩ := Dict.mem_values.mp hmembers
  rw [Dict.get?_groupBy hk] at hmember
  exact (List.of_mem_zip (List.mem_filter.mp hmember).1).2

theorem correlationOf_some {s : Search} {group : List Item} {c : Correlation}
    (h : correlationOf host rule s group = some c) : 2 ≤ group.length ∧
      c.correlationId = correlationId host rule (idsOf group) ∧
      c.edges = edgesOf s.edges (idsOf group) := by
  unfold correlationOf at h
  dsimp only at h
  split at h
  · cases h
  · rename_i hgroup
    push Not at hgroup
    rw [← Option.some.inj h]
    exact ⟨hgroup.1, rfl, rfl⟩

theorem itemOf_some {o : Observation} {item : Item} (h : itemOf host rule o = some item) :
    item.obs = o ∧ ∃ t, parseTime host o.windowStart = some t ∧ item.time = seconds t := by
  unfold itemOf at h
  split at h
  · obtain ⟨t, ht, rfl⟩ := Option.map_eq_some_iff.mp h
    exact ⟨rfl, t, ht, rfl⟩
  · cases h

/-- The search of a rule among observations runs to its end. -/
def WithinBudget (host : Host) (rule : CorrelationRule) (observations : List Observation) : Prop :=
  (search host rule (observations.filterMap (itemOf host rule)) {}
    (observations.filterMap (itemOf host rule)).zipIdx).isPartial = false

theorem edgeOf_comm (host : Host) (rule : CorrelationRule) (first second : Item) :
    edgeOf host rule first second = edgeOf host rule second first := by
  have hshares : first.shares second = second.shares first := by
    unfold Item.shares
    refine List.Perm.eq_of_pairwise (fun _ _ _ _ => le_antisymm) (List.pairwise_insertionSort _ _)
      (List.pairwise_insertionSort _ _) ?_
    refine ((List.perm_insertionSort _ _).trans ?_).trans (List.perm_insertionSort _ _).symm
    refine (List.perm_ext_iff_of_nodup (List.nodup_dedup _) (List.nodup_dedup _)).mpr fun key => ?_
    rw [List.mem_dedup, List.mem_dedup, List.mem_filter, List.mem_filter, decide_eq_true_iff,
      decide_eq_true_iff, and_comm]
  unfold edgeOf gap
  rw [hshares, min_comm, max_comm, abs_sub_comm]

/-- Two observations that an enabled rule relates have their edge in a correlation. -/
theorem correlate_complete {observations : List Observation} (henabled : rule.enabled = true)
    (hbudget : WithinBudget host rule observations)
    (hfirst : first ∈ observations.filterMap (itemOf host rule))
    (hsecond : second ∈ observations.filterMap (itemOf host rule)) (hpairs : Pairs rule first second) :
    ∃ c ∈ correlateObservations host rule observations, edgeOf host rule first second ∈ c.edges := by
  unfold WithinBudget at hbudget
  unfold correlateObservations
  rw [if_neg (not_not.mpr henabled)]
  dsimp only
  generalize observations.filterMap (itemOf host rule) = items at *
  have hplaces : ∀ x ∈ items.zipIdx, items[x.2]? = some x.1 := fun x hx =>
    List.mem_zipIdx_iff_getElem?.mp hx
  obtain ⟨hforest, _, hjoined⟩ := search_complete (forest_id items.length) hplaces hbudget
  -- the place of one comes before the place of the other
  have hordered : ∀ {left right : ℕ} {first second : Item}, items[left]? = some first →
      items[right]? = some second → left < right → Pairs rule first second →
      ∃ c ∈ ((groups items (search host rule items {} items.zipIdx)).filterMap
        (correlationOf host rule (search host rule items {} items.zipIdx))).insertionSort
          fun a b => a.correlationId ≤ b.correlationId, edgeOf host rule first second ∈ c.edges := by
    intro left right first second hleft hright hlt hpairs
    have hjoin := hjoined (first, left) (List.mem_zipIdx_iff_getElem?.mpr hleft) right second hlt hright
      hpairs
    obtain ⟨group, hgroup, hin, hin'⟩ := exists_group hforest hleft hright hjoin.same
    obtain ⟨c, hc, hedge⟩ := correlationOf_edge hin hin' (of_decide_eq_true hpairs.families).1 hjoin.edge
    exact ⟨c, (List.mem_insertionSort _).mpr (List.mem_filterMap.mpr ⟨group, hgroup, hc⟩), hedge⟩
  obtain ⟨left, hleft⟩ := List.mem_iff_getElem?.mp hfirst
  obtain ⟨right, hright⟩ := List.mem_iff_getElem?.mp hsecond
  rcases Nat.lt_trichotomy left right with hlt | heq | hgt
  · exact hordered hleft hright hlt hpairs
  · subst heq
    obtain rfl := Option.some.inj (hleft.symm.trans hright)
    exact absurd rfl (of_decide_eq_true hpairs.families).1
  · rw [edgeOf_comm]
    exact hordered hright hleft hgt hpairs.symm

end LogRisk.MultiSource
