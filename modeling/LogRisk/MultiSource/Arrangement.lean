import LogRisk.MultiSource.Exactness
import Mathlib.Data.List.Pairwise

/-!
# Observations in another order

Sources deliver their observations in any order.  Where the search of a rule does not run out
of comparisons, the order of the observations does not show in the correlations.
-/

namespace LogRisk.MultiSource

open LogRisk.Library

variable {host : Host} {rule : CorrelationRule} {items items' : List Item} {s s' : Search}
  {observations observations' : List Observation}

/-! ## Edges -/

theorem accepts_comm (rule : CorrelationRule) (first second : Item) :
    accepts rule first second = accepts rule second first := by
  rw [Bool.eq_iff_iff, accepts_iff, accepts_iff]
  exact ⟨Pairs.symm, Pairs.symm⟩

theorem naiveEdges_perm (host : Host) (rule : CorrelationRule) (h : items.Perm items') :
    (naiveEdges host rule items).Perm (naiveEdges host rule items') := by
  induction h with
  | nil => exact .refl _
  | cons item h ih => exact ((h.filter _).map _).append ih
  | swap a b items =>
      rw [naiveEdges, naiveEdges, naiveEdges, naiveEdges, List.filter_cons, List.filter_cons,
        accepts_comm rule a b]
      split
      · rw [List.map_cons, List.map_cons, edgeOf_comm host rule a b, List.cons_append,
          List.cons_append]
        refine .cons _ ?_
        rw [← List.append_assoc, ← List.append_assoc]
        exact List.perm_append_comm.append_right _
      · rw [← List.append_assoc, ← List.append_assoc]
        exact List.perm_append_comm.append_right _
  | trans _ _ ih ih' => exact ih.trans ih'

theorem acceptedEdges_perm (host : Host) (rule : CorrelationRule)
    (h : observations.Perm observations') :
    (acceptedEdges host rule observations).Perm (acceptedEdges host rule observations') := by
  unfold acceptedEdges
  split
  · exact naiveEdges_perm host rule (h.filterMap _)
  · exact .refl _

/-! ## Groups -/

theorem linked_congr (h : items.Perm items') {first second : Item} :
    Linked rule items first second ↔ Linked rule items' first second := by
  have hrelated : Related rule items = Related rule items' := by
    funext a b
    unfold Related
    rw [h.mem_iff, h.mem_iff]
  unfold Linked
  rw [hrelated]

theorem insertionSort_congr {l l' : List String} (h : l.Perm l') :
    l.insertionSort (· ≤ ·) = l'.insertionSort (· ≤ ·) :=
  (((List.perm_insertionSort _ l).trans h).trans (List.perm_insertionSort _ l').symm).eq_of_pairwise'
    (List.pairwise_insertionSort (α := String) (· ≤ ·) l)
    (List.pairwise_insertionSort (α := String) (· ≤ ·) l')

theorem insertionSort_dedup_congr {l l' : List String} (h : ∀ text, text ∈ l ↔ text ∈ l') :
    l.dedup.insertionSort (· ≤ ·) = l'.dedup.insertionSort (· ≤ ·) := by
  refine insertionSort_congr ((List.perm_ext_iff_of_nodup (List.nodup_dedup _)
    (List.nodup_dedup _)).mpr fun text => ?_)
  rw [List.mem_dedup, List.mem_dedup, h]

theorem mem_sharedKeys {group : List Item} (hne : group ≠ []) {key : String} :
    key ∈ sharedKeys group ↔ ∀ item ∈ group, key ∈ item.obs.entityKeys := by
  cases group with
  | nil => exact absurd rfl hne
  | cons first rest =>
      unfold sharedKeys
      rw [List.mem_insertionSort, List.mem_dedup, List.mem_filter, List.all_eq_true,
        List.forall_mem_cons]
      simp only [decide_eq_true_iff]

section Groups

variable {group group' : List Item}

theorem idsOf_congr (h : group.Perm group') : idsOf group = idsOf group' :=
  insertionSort_congr (h.map _)

theorem familiesOf_congr (h : group.Perm group') : familiesOf group = familiesOf group' :=
  insertionSort_dedup_congr fun _ => (h.map _).mem_iff

theorem sorted_sharedKeys (group : List Item) :
    (sharedKeys group).Pairwise (· ≤ ·) ∧ (sharedKeys group).Nodup := by
  cases group with
  | nil => exact ⟨.nil, List.nodup_nil⟩
  | cons first rest =>
      exact ⟨List.pairwise_insertionSort _ _,
        (List.perm_insertionSort _ _).nodup_iff.mpr (List.nodup_dedup _)⟩

theorem sharedKeys_congr (h : group.Perm group') : sharedKeys group = sharedKeys group' := by
  by_cases hne : group = []
  · rw [hne] at h ⊢
    rw [List.nil_perm.mp h]
  · have hne' : group' ≠ [] := fun hnil => hne (List.perm_nil.mp (hnil ▸ h))
    obtain ⟨hsorted, hnodup⟩ := sorted_sharedKeys group
    obtain ⟨hsorted', hnodup'⟩ := sorted_sharedKeys group'
    refine List.Perm.eq_of_pairwise' hsorted hsorted'
      ((List.perm_ext_iff_of_nodup hnodup hnodup').mpr fun key => ?_)
    rw [mem_sharedKeys hne, mem_sharedKeys hne']
    exact forall_congr' fun item => by rw [h.mem_iff]

end Groups

/-! ## Correlations -/

/-- A correlation without the order of its edges; the key of a correlation without a shared
entity is read off the first of them. -/
def Correlation.unordered (c : Correlation) : Correlation × Multiset Edge :=
  ({ c with
      edges := []
      primaryEntityKey := if c.groupScope = "shared_entity" then c.primaryEntityKey else "" },
    c.edges)

theorem edgesOf_perm {edges edges' : List Edge} (h : edges.Perm edges') (ids : List String) :
    (edgesOf edges ids).Perm (edgesOf edges' ids) :=
  ((List.perm_insertionSort _ _).trans (h.filter _)).trans (List.perm_insertionSort _ _).symm

/-- What is left where the edges are in one order. -/
theorem correlationOf_congr {group group' : List Item} (hgroup : group.Perm group')
    (hedges : edgesOf s.edges (idsOf group) = edgesOf s'.edges (idsOf group))
    (hincomplete : s.isPartial = s'.isPartial)
    (hcluster : ∀ first ∈ group, ∀ second ∈ group, first.obs.cluster = second.obs.cluster) :
    correlationOf host rule s group = correlationOf host rule s' group' := by
  have hhead : (group.head?).map (·.obs.cluster) = (group'.head?).map (·.obs.cluster) := by
    cases group with
    | nil => rw [List.nil_perm.mp hgroup]
    | cons first rest =>
        cases group' with
        | nil => exact absurd (List.perm_nil.mp hgroup) (List.cons_ne_nil _ _)
        | cons second rest' =>
            exact congrArg some (hcluster first List.mem_cons_self second
              (hgroup.mem_iff.mpr List.mem_cons_self))
  unfold correlationOf
  dsimp only
  rw [hgroup.length_eq, familiesOf_congr hgroup, ← idsOf_congr hgroup, hedges, hhead,
    sharedKeys_congr hgroup, hincomplete, min?_perm (hgroup.map (·.obs.windowStart)),
    max?_perm (hgroup.map (·.obs.windowEnd)), max?_perm (hgroup.map (·.obs.riskScore))]

theorem unordered_congr {group group' : List Item} (hgroup : group.Perm group')
    (hedges : s.edges.Perm s'.edges) (hincomplete : s.isPartial = s'.isPartial)
    (hcluster : ∀ first ∈ group, ∀ second ∈ group, first.obs.cluster = second.obs.cluster) :
    (correlationOf host rule s group).map Correlation.unordered =
      (correlationOf host rule s' group').map Correlation.unordered := by
  have horder : correlationOf host rule s group =
      correlationOf host rule { s' with edges := s.edges } group' := by
    refine correlationOf_congr hgroup ?_ ?_ hcluster
    · rfl
    · exact hincomplete
  rw [horder]
  have hsame := edgesOf_perm hedges (idsOf group')
  unfold correlationOf
  dsimp only
  by_cases hnone : group'.length < 2 ∨ (familiesOf group').length < 2 ∨ edgesOf s.edges (idsOf group') = []
  · have hnone' : group'.length < 2 ∨ (familiesOf group').length < 2 ∨
        edgesOf s'.edges (idsOf group') = [] := by
      refine hnone.imp_right (Or.imp_right fun hnil => ?_)
      rw [hnil] at hsame
      exact List.nil_perm.mp hsame
    rw [if_pos hnone, if_pos hnone']
  · have hsome : ¬(group'.length < 2 ∨ (familiesOf group').length < 2 ∨
        edgesOf s'.edges (idsOf group') = []) := by
      refine fun h => hnone (h.imp_right (Or.imp_right fun hnil => ?_))
      rw [hnil] at hsame
      exact List.perm_nil.mp hsame
    rw [if_neg hnone, if_neg hsome, Option.map_some, Option.map_some, Option.some.injEq]
    unfold Correlation.unordered
    dsimp only
    rw [Multiset.coe_eq_coe.mpr hsame]
    cases hshared : sharedKeys group' with
    | nil => rfl
    | cons key keys => rfl

/-! ## Names -/

/-- Edges of items whose names are free of bars are told apart by their ids. -/
theorem edgeOf_eq_of_edgeId {a b c d : Item} (hids : (items.map fun item => item.obs.observationId).Nodup)
    (hfree : ∀ item ∈ items, '|' ∉ item.obs.observationId.toList) (ha : a ∈ items) (hb : b ∈ items)
    (hc : c ∈ items) (hd : d ∈ items) (hab : Pairs rule a b) (hcd : Pairs rule c d)
    (h : (edgeOf host rule a b).edgeId = (edgeOf host rule c d).edgeId) :
    edgeOf host rule a b = edgeOf host rule c d := by
  have hshares : ∀ {first second : Item}, Pairs rule first second → first.shares second ≠ [] := by
    intro first second hpairs
    obtain ⟨key, hfirst, hsecond⟩ := hpairs.shared
    exact List.ne_nil_of_mem (mem_shares.mpr ⟨hfirst, hsecond⟩)
  have hmin : ∀ {first second : Item}, first ∈ items → second ∈ items →
      '|' ∉ (min first.obs.observationId second.obs.observationId).toList := by
    intro first second hfirst hsecond
    rcases min_choice first.obs.observationId second.obs.observationId with h | h <;> rw [h]
    · exact hfree first hfirst
    · exact hfree second hsecond
  have hmax : ∀ {first second : Item}, first ∈ items → second ∈ items →
      '|' ∉ (max first.obs.observationId second.obs.observationId).toList := by
    intro first second hfirst hsecond
    rcases max_choice first.obs.observationId second.obs.observationId with h | h <;> rw [h]
    · exact hfree first hfirst
    · exact hfree second hsecond
  have htexts := host.digest_injective ((String.append_right_inj "edge-").mp h)
  have hrest := Text.intercalate_cons_cancel '|' (List.cons_ne_nil _ _) (List.cons_ne_nil _ _)
    (Text.intercalate_cons_cancel '|' (List.cons_ne_nil _ _) (List.cons_ne_nil _ _) htexts)
  obtain ⟨hleft, hrest⟩ := Text.intercalate_cons_inj '|' (hmin ha hb) (hmin hc hd)
    (List.cons_ne_nil _ _) (List.cons_ne_nil _ _) hrest
  obtain ⟨hright, -⟩ := Text.intercalate_cons_inj '|' (hmax ha hb) (hmax hc hd)
    (hshares hab) (hshares hcd) hrest
  have hsame : (a.obs.observationId = c.obs.observationId ∧ b.obs.observationId = d.obs.observationId) ∨
      (a.obs.observationId = d.obs.observationId ∧ b.obs.observationId = c.obs.observationId) := by
    rcases le_total a.obs.observationId b.obs.observationId with hle | hle <;>
      rcases le_total c.obs.observationId d.obs.observationId with hle' | hle' <;>
      simp only [min_eq_left, min_eq_right, max_eq_left, max_eq_right, hle, hle'] at hleft hright
    · exact .inl ⟨hleft, hright⟩
    · exact .inr ⟨hleft, hright⟩
    · exact .inr ⟨hright, hleft⟩
    · exact .inl ⟨hright, hleft⟩
  rcases hsame with ⟨hac, hbd⟩ | ⟨had, hbc⟩
  · rw [eq_of_id hids ha hc hac, eq_of_id hids hb hd hbd]
  · rw [eq_of_id hids ha hd had, eq_of_id hids hb hc hbc, edgeOf_comm]

theorem edgesOf_congr (hsound : Sound host rule items s)
    (hids : (items.map fun item => item.obs.observationId).Nodup)
    (hfree : ∀ item ∈ items, '|' ∉ item.obs.observationId.toList) (hedges : s.edges.Perm s'.edges)
    (ids : List String) : edgesOf s.edges ids = edgesOf s'.edges ids := by
  have hle : ∀ (l : List Edge), (l.insertionSort fun a b => a.edgeId ≤ b.edgeId).Pairwise
      fun a b => a.edgeId ≤ b.edgeId := fun l =>
    List.pairwise_insertionSort (α := Edge) (fun a b => a.edgeId ≤ b.edgeId) l
  have hmem : ∀ edge ∈ edgesOf s.edges ids, edge ∈ s.edges := fun edge hedge =>
    (List.mem_filter.mp ((List.mem_insertionSort _).mp hedge)).1
  refine List.Perm.eq_of_pairwise (fun a b ha hb hab hba => ?_) (hle _) (hle _) (edgesOf_perm hedges ids)
  have hb := (edgesOf_perm hedges ids).mem_iff.mpr hb
  obtain ⟨_, _, x, y, hx, hy, hxy, -, rfl⟩ := hsound.joined a (hmem a ha)
  obtain ⟨_, _, z, w, hz, hw, hzw, -, rfl⟩ := hsound.joined b (hmem b hb)
  exact edgeOf_eq_of_edgeId hids hfree (List.mem_of_getElem? hx) (List.mem_of_getElem? hy)
    (List.mem_of_getElem? hz) (List.mem_of_getElem? hw) hxy hzw (le_antisymm hab hba)

/-! ## The correlations -/

theorem filterMap_forall₂ {α β γ : Type} {R : α → γ → Prop} {f : α → Option β} {g : γ → Option β}
    {l : List α} {l' : List γ} (h : List.Forall₂ R l l') (hfg : ∀ a ∈ l, ∀ c, R a c → f a = g c) :
    l.filterMap f = l'.filterMap g := by
  induction h with
  | nil => rfl
  | cons hac _ ih =>
      rw [List.filterMap_cons, List.filterMap_cons, hfg _ List.mem_cons_self _ hac,
        ih fun a ha => hfg a (List.mem_cons_of_mem _ ha)]

theorem reportsPartial_congr (host : Host) (rule : CorrelationRule)
    (hids : (observations.map Observation.observationId).Nodup)
    (hperm : observations.Perm observations') :
    ReportsPartial host rule observations ↔ ReportsPartial host rule observations' := by
  rw [reportsPartial_iff host rule hids, reportsPartial_iff host rule ((hperm.map _).nodup hids),
    (acceptedEdges_perm host rule hperm).length_eq]

namespace Searched

variable (h : Searched host rule observations items s) (h' : Searched host rule observations' items' s')
  (hperm : observations.Perm observations') (hwhole : ¬ReportsPartial host rule observations)
  (hwhole' : ¬ReportsPartial host rule observations')

include h h' hperm

theorem items_perm : items.Perm items' := by
  rw [h.drawn, h'.drawn]
  exact hperm.filterMap _

include hwhole hwhole'

theorem edges_perm : s.edges.Perm s'.edges := by
  rw [h.edges_eq hwhole, h'.edges_eq hwhole']
  exact acceptedEdges_perm host rule hperm

theorem isPartial_congr : s.isPartial = s'.isPartial := by
  rw [h.reportsPartial_iff] at hwhole
  rw [h'.reportsPartial_iff] at hwhole'
  rw [Bool.eq_false_iff.mpr hwhole, Bool.eq_false_iff.mpr hwhole']

/-- The groups of one order are those of the other. -/
theorem matched_groups : ∃ matched, List.Forall₂ List.Perm (groups items s) matched ∧
    matched.Perm (groups items' s') := by
  have hitems := h.items_perm h' hperm
  refine (partition_groups h.sound.forest h.ids.of_map).matched
    (partition_groups h'.sound.forest h'.ids.of_map) hitems h.ids.of_map fun a ha b _ => ?_
  rw [alike_iff h.sound h.ids ((h.edges_eq hwhole).trans h.accepted) ha,
    alike_iff h'.sound h'.ids ((h'.edges_eq hwhole').trans h'.accepted) (hitems.mem_iff.mp ha),
    linked_congr hitems]

theorem unordered_perm : ((correlateObservations host rule observations).map Correlation.unordered).Perm
    ((correlateObservations host rule observations').map Correlation.unordered) := by
  obtain ⟨matched, hmatched, hgroups⟩ := h.matched_groups h' hperm hwhole hwhole'
  have hsame := filterMap_forall₂ (f := fun group =>
      (correlationOf host rule s group).map Correlation.unordered)
    (g := fun group => (correlationOf host rule s' group).map Correlation.unordered) hmatched
    fun group hgroup group' hgroup' => unordered_congr hgroup'
      (h.edges_perm h' hperm hwhole hwhole') (h.isPartial_congr h' hperm hwhole hwhole')
      fun first hfirst second hsecond => (h.linked_of_group hgroup hfirst hsecond).cluster
  rw [h.correlations, h'.correlations]
  refine ((List.perm_insertionSort _ _).map _).trans (.trans ?_
    ((List.perm_insertionSort _ _).map _).symm)
  rw [List.map_filterMap, List.map_filterMap, hsame]
  exact hgroups.filterMap _

omit h' hperm hwhole hwhole' in
theorem free_items (hfree : ∀ o ∈ observations, '|' ∉ o.observationId.toList) :
    ∀ item ∈ items, '|' ∉ item.obs.observationId.toList := fun item hitem =>
  hfree item.obs (h.obs item hitem)

omit h' hperm hwhole hwhole' in
/-- Correlations of observations whose names are free of bars are told apart by their ids. -/
theorem eq_of_correlationId (hfree : ∀ o ∈ observations, '|' ∉ o.observationId.toList)
    {c c' : Correlation} (hc : c ∈ correlateObservations host rule observations)
    (hc' : c' ∈ correlateObservations host rule observations)
    (hid : c.correlationId = c'.correlationId) : c = c' := by
  obtain ⟨group, hgroup, hsome⟩ := h.mem_correlations.mp hc
  obtain ⟨group', hgroup', hsome'⟩ := h.mem_correlations.mp hc'
  have hpartition := partition_groups h.sound.forest h.ids.of_map
  have hinhabited : ∀ g ∈ groups items s, idsOf g ≠ [] := by
    intro g hg hnil
    obtain ⟨item, hitem⟩ := List.exists_mem_of_ne_nil g (hpartition.nonempty g hg)
    exact absurd (hnil ▸ mem_idsOf.mpr ⟨item, hitem, rfl⟩) List.not_mem_nil
  have hbars : ∀ g ∈ groups items s, ∀ id ∈ idsOf g, '|' ∉ id.toList := by
    intro g hg id hmem
    obtain ⟨item, hitem, rfl⟩ := mem_idsOf.mp hmem
    exact h.free_items hfree item (mem_items_of_group hg hitem)
  rw [(correlationOf_some hsome).2.1, (correlationOf_some hsome').2.1] at hid
  have htexts := host.digest_injective ((String.append_right_inj "correlation-").mp hid)
  have hids : idsOf group = idsOf group' := Text.intercalate_injective '|' (hbars group hgroup)
    (hbars group' hgroup') (hinhabited group hgroup) (hinhabited group' hgroup')
    (Text.intercalate_cons_cancel '|' (hinhabited group hgroup) (hinhabited group' hgroup')
      (Text.intercalate_cons_cancel '|' (List.cons_ne_nil _ _) (List.cons_ne_nil _ _) htexts))
  -- Groups with one observation in common are one group.
  have hsame : group = group' := by
    by_contra hne
    obtain ⟨item, hitem⟩ := List.exists_mem_of_ne_nil group (hpartition.nonempty group hgroup)
    have hsymm : Std.Symm (List.Disjoint (α := Item)) := ⟨fun _ _ hab => hab.symm⟩
    refine hpartition.disjoint.forall hgroup hgroup' hne hitem ?_
    refine mem_group_of_id h.ids hgroup' (mem_items_of_group hgroup hitem) ?_
    rw [← hids]
    exact mem_idsOf.mpr ⟨item, hitem, rfl⟩
  rw [hsame, hsome'] at hsome
  exact (Option.some.inj hsome).symm

theorem correlations_eq (hfree : ∀ o ∈ observations, '|' ∉ o.observationId.toList) :
    correlateObservations host rule observations = correlateObservations host rule observations' := by
  obtain ⟨matched, hmatched, hgroups⟩ := h.matched_groups h' hperm hwhole hwhole'
  have hsame : (groups items s).filterMap (correlationOf host rule s) =
      matched.filterMap (correlationOf host rule s') := by
    refine filterMap_forall₂ hmatched fun group hgroup group' hgroup' => correlationOf_congr hgroup' ?_
      (h.isPartial_congr h' hperm hwhole hwhole')
      fun first hfirst second hsecond => (h.linked_of_group hgroup hfirst hsecond).cluster
    exact edgesOf_congr h.sound h.ids (h.free_items hfree) (h.edges_perm h' hperm hwhole hwhole') _
  have hle : ∀ (l : List Correlation), (l.insertionSort fun a b => a.correlationId ≤ b.correlationId).Pairwise
      fun a b => a.correlationId ≤ b.correlationId := fun l =>
    List.pairwise_insertionSort (α := Correlation) (fun a b => a.correlationId ≤ b.correlationId) l
  have hout : (correlateObservations host rule observations).Perm
      (correlateObservations host rule observations') := by
    rw [h.correlations, h'.correlations, hsame]
    exact ((List.perm_insertionSort _ _).trans (hgroups.filterMap _)).trans
      (List.perm_insertionSort _ _).symm
  have hsorted := hle ((groups items s).filterMap (correlationOf host rule s))
  have hsorted' := hle ((groups items' s').filterMap (correlationOf host rule s'))
  rw [← h.correlations] at hsorted
  rw [← h'.correlations] at hsorted'
  refine hout.eq_of_pairwise (fun c c' hc hc' hcc' hc'c => ?_) hsorted hsorted'
  exact h.eq_of_correlationId hfree hc (hout.mem_iff.mpr hc') (le_antisymm hcc' hc'c)

end Searched

/-- Where the search is not partial, observations in another order have the same correlations,
each with the same edges, observations, name and score.  They come in the same order if no
name of an observation contains the mark that names are put together with. -/
theorem correlate_arranged (host : Host) (rule : CorrelationRule)
    {observations observations' : List Observation}
    (hids : (observations.map Observation.observationId).Nodup)
    (hperm : observations.Perm observations') (hwhole : ¬ReportsPartial host rule observations) :
    ¬ReportsPartial host rule observations' ∧
    ((correlateObservations host rule observations).map Correlation.unordered).Perm
      ((correlateObservations host rule observations').map Correlation.unordered) ∧
    ((∀ o ∈ observations, '|' ∉ o.observationId.toList) →
      correlateObservations host rule observations =
        correlateObservations host rule observations') := by
  have hwhole' := (reportsPartial_congr host rule hids hperm).not.mp hwhole
  refine ⟨hwhole', ?_⟩
  by_cases henabled : rule.enabled = true
  · obtain ⟨items, s, h⟩ := exists_searched host henabled hids
    obtain ⟨items', s', h'⟩ := exists_searched host henabled ((hperm.map _).nodup hids)
    exact ⟨h.unordered_perm h' hperm hwhole hwhole',
      fun hfree => h.correlations_eq h' hperm hwhole hwhole' hfree⟩
  · rw [correlateObservations_disabled host henabled, correlateObservations_disabled host henabled]
    exact ⟨.refl _, fun _ => rfl⟩

theorem reversed_arranged :
    correlateObservations Boundary.minutes Boundary.fiveMinutes Boundary.sighted =
      correlateObservations Boundary.minutes Boundary.fiveMinutes Boundary.sighted.reverse := by
  have hids : (Boundary.sighted.map Observation.observationId).Nodup := by decide
  have haccepted :
      (acceptedEdges Boundary.minutes Boundary.fiveMinutes Boundary.sighted).length = 1 := by
    decide +kernel
  have hbudget : budget Boundary.fiveMinutes = 100000 := rfl
  have hwhole : ¬ReportsPartial Boundary.minutes Boundary.fiveMinutes Boundary.sighted := by
    rw [reportsPartial_iff Boundary.minutes Boundary.fiveMinutes hids, haccepted, hbudget]
    decide
  exact (correlate_arranged Boundary.minutes Boundary.fiveMinutes hids
    (List.reverse_perm Boundary.sighted).symm hwhole).2.2 (by decide)

end LogRisk.MultiSource
