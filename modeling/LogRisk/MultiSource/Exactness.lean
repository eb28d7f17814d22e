import LogRisk.Library.Partition
import LogRisk.MultiSource.AllPairs
import Mathlib.Data.List.Zip

/-!
# Correlations as components

Where the search of a rule does not run out of comparisons, its edges are those that a
comparison of all pairs accepts, and the correlations are the components of their graph.
-/

namespace LogRisk.MultiSource

open LogRisk.Library LogRisk.Library.UnionFind

section Observations

variable (host : Host) (rule : CorrelationRule)

/-- The edges that a comparison of all pairs of observations accepts. -/
def acceptedEdges (observations : List Observation) : List Edge :=
  if rule.enabled then naiveEdges host rule (observations.filterMap (itemOf host rule)) else []

/-- The edges of all correlations. -/
def reportedEdges (observations : List Observation) : List Edge :=
  (correlateObservations host rule observations).flatMap Correlation.edges

/-- A correlation tells that the search ran out of comparisons. -/
def ReportsPartial (observations : List Observation) : Prop :=
  ∃ c ∈ correlateObservations host rule observations, c.isPartial = true

end Observations

/-- An edge has the two ends. -/
def Adjacent (edges : List Edge) (a b : String) : Prop :=
  ∃ edge ∈ edges, (edge.leftObservationId = a ∧ edge.rightObservationId = b) ∨
    (edge.leftObservationId = b ∧ edge.rightObservationId = a)

/-- A way along edges. -/
def Connected (edges : List Edge) : String → String → Prop := Relation.ReflTransGen (Adjacent edges)

variable {host : Host} {rule : CorrelationRule} {items : List Item} {first second : Item}
  {left right : ℕ} {s : Search}

/-! ## Classes -/

/-- The rule relates two of the items. -/
def Related (rule : CorrelationRule) (items : List Item) (first second : Item) : Prop :=
  first ∈ items ∧ second ∈ items ∧ Pairs rule first second

/-- The rule relates two of the items through others. -/
def Linked (rule : CorrelationRule) (items : List Item) : Item → Item → Prop :=
  Relation.ReflTransGen (Related rule items)

instance : Std.Symm (Related rule items) := ⟨fun _ _ ⟨ha, hb, hpairs⟩ => ⟨hb, ha, hpairs.symm⟩⟩

theorem Linked.symm (h : Linked rule items first second) : Linked rule items second first :=
  Relation.ReflTransGen.stdSymm.symm _ _ h

theorem Linked.cluster (hlinked : Linked rule items first second) :
    first.obs.cluster = second.obs.cluster := by
  induction hlinked with
  | refl => rfl
  | tail _ hstep ih => exact ih.trans hstep.2.2.cluster

/-- Places of one class hold items that are linked, and so do the ends of an edge. -/
structure Sound (host : Host) (rule : CorrelationRule) (items : List Item) (s : Search) : Prop where
  forest : Forest items.length s.parent
  linked : ∀ i j, Same s.parent i j → ∀ a b, items[i]? = some a → items[j]? = some b →
    Linked rule items a b
  joined : ∀ edge ∈ s.edges, ∃ i j a b, items[i]? = some a ∧ items[j]? = some b ∧
    Pairs rule a b ∧ Same s.parent i j ∧ edge = edgeOf host rule a b

theorem Sound.start (host : Host) (rule : CorrelationRule) (items : List Item) :
    Sound host rule items {} where
  forest := forest_id items.length
  linked i j h a b ha hb := by
    obtain ⟨r, hi, hj⟩ := h
    have hself : ∀ k, EndsAt (up id) k k := fun k => ⟨.refl, up_eq_none.mpr rfl⟩
    have hij : i = j := ((hself i).unique hi).trans ((hself j).unique hj).symm
    subst hij
    obtain rfl := Option.some.inj (ha.symm.trans hb)
    exact .refl
  joined _ h := absurd h List.not_mem_nil

theorem Sound.compareOne (h : Sound host rule items s) (hleft : items[left]? = some first)
    (hright : items[right]? = some second) :
    Sound host rule items (compareOne host rule items.length left right first second s) := by
  have hlt : left < items.length := (List.getElem?_eq_some_iff.mp hleft).1
  have hlt' : right < items.length := (List.getElem?_eq_some_iff.mp hright).1
  by_cases haccepts : accepts rule first second = true
  · have hpairs := accepts_iff.mp haccepts
    have hstep : Linked rule items first second :=
      .single ⟨List.mem_of_getElem? hleft, List.mem_of_getElem? hright, hpairs⟩
    obtain ⟨hforest, hsame, hkeeps⟩ := h.forest.join hlt hlt'
    rw [compareOne_of_pairs hpairs]
    refine ⟨hforest, fun i j hij a b ha hb => ?_, fun edge hedge => ?_⟩
    · rcases h.forest.same_of_join hij with hij | ⟨hi, hj⟩ | ⟨hi, hj⟩
      · exact h.linked i j hij a b ha hb
      · exact ((h.linked i left hi a first ha hleft).trans hstep).trans
          (h.linked right j hj second b hright hb)
      · exact ((h.linked i right hi a second ha hright).trans hstep.symm).trans
          (h.linked left j hj first b hleft hb)
    · rcases List.mem_append.mp hedge with hedge | hedge
      · obtain ⟨i, j, a, b, ha, hb, hab, hij, heq⟩ := h.joined edge hedge
        exact ⟨i, j, a, b, ha, hb, hab, hkeeps i j hij, heq⟩
      · exact ⟨left, right, first, second, hleft, hright, hpairs, hsame, List.mem_singleton.mp hedge⟩
  · have hkept : (MultiSource.compareOne host rule items.length left right first second s).parent =
          s.parent ∧
        (MultiSource.compareOne host rule items.length left right first second s).edges = s.edges := by
      unfold MultiSource.compareOne
      split
      · exact ⟨rfl, rfl⟩
      · rename_i hcluster
        split
        · exact ⟨rfl, rfl⟩
        · rename_i hfamilies
          dsimp only
          split
          · exact ⟨rfl, rfl⟩
          · rename_i hshares
            split
            · exact ⟨rfl, rfl⟩
            · rename_i hclose
              refine absurd ?_ haccepts
              unfold accepts
              rw [decide_eq_true (not_not.mp hcluster), not_not.mp hfamilies,
                Bool.eq_false_iff.mpr hshares, decide_eq_true (not_lt.mp hclose)]
              rfl
    obtain ⟨hparent, hedges⟩ := hkept
    refine ⟨?_, ?_, ?_⟩
    · rw [hparent]
      exact h.forest
    · rw [hparent]
      exact h.linked
    · rw [hparent, hedges]
      exact h.joined

theorem Sound.compareEach {places : List ℕ} (h : Sound host rule items s)
    (hleft : items[left]? = some first) :
    Sound host rule items (compareEach host rule items left first s places) := by
  induction places generalizing s with
  | nil => exact h
  | cons right places ih =>
      unfold MultiSource.compareEach
      split
      · exact ⟨h.forest, h.linked, h.joined⟩
      · cases hright : items[right]? with
        | none => exact ih h
        | some second => exact ih (h.compareOne hleft hright)

theorem Sound.search {rest : List (Item × ℕ)} (h : Sound host rule items s)
    (hrest : ∀ x ∈ rest, items[x.2]? = some x.1) :
    Sound host rule items (search host rule items s rest) := by
  induction rest generalizing s with
  | nil => exact h
  | cons x rest ih =>
      obtain ⟨first, left⟩ := x
      have hone : Sound host rule items (searchOne host rule items left first s) :=
        Sound.compareEach ⟨h.forest, h.linked, h.joined⟩ (hrest (first, left) List.mem_cons_self)
      rw [MultiSource.search]
      split
      · exact hone
      · exact ih hone fun y hy => hrest y (List.mem_cons_of_mem _ hy)

/-! ## Groups -/

/-- Two places of one class hold the items. -/
def Alike (items : List Item) (s : Search) (a b : Item) : Prop :=
  ∃ i j, items[i]? = some a ∧ items[j]? = some b ∧ Same s.parent i j

theorem groups_eq (hforest : Forest items.length s.parent) : ∃ roots : List ℕ, roots.Nodup ∧
    (∀ r, r ∈ roots ↔ ∃ x ∈ items.zipIdx, (root items.length s.parent x.2).1 = r) ∧
    groups items s = roots.map fun r =>
      (items.zipIdx.filter fun x => decide ((root items.length s.parent x.2).1 = r)).map Prod.fst := by
  have hzip : (roots items.length s.parent (List.range items.length)).zip items =
      items.zipIdx.map fun x => ((root items.length s.parent x.2).1, x.1) := by
    rw [roots_eq hforest, List.zip_map_left, List.zipIdx_eq_zip_range', ← List.range_eq_range',
      ← List.zip_swap items, List.map_map]
    rfl
  refine ⟨_, (Dict.groupBy Prod.fst
    ((roots items.length s.parent (List.range items.length)).zip items)).nodup, fun r => ?_, ?_⟩
  · refine Dict.mem_keys_groupBy.trans ?_
    rw [hzip]
    simp only [List.mem_map, exists_exists_and_eq_and]
  · unfold groups
    rw [Dict.values_groupBy, List.map_map, hzip]
    refine List.map_congr_left fun r _ => ?_
    dsimp only [Function.comp_apply]
    rw [List.filter_map, List.map_map]
    rfl

/-- The groups are the classes of the search. -/
theorem partition_groups (hforest : Forest items.length s.parent) (hnodup : items.Nodup) :
    Partition (Alike items s) items (groups items s) := by
  obtain ⟨roots, hroots, hmem, hgroups⟩ := groups_eq hforest
  have hplace : ∀ {a : Item} {r : ℕ}, a ∈ (items.zipIdx.filter fun x =>
      decide ((root items.length s.parent x.2).1 = r)).map Prod.fst ↔
      ∃ i, items[i]? = some a ∧ (root items.length s.parent i).1 = r := by
    intro a r
    rw [List.mem_map]
    constructor
    · rintro ⟨⟨a, i⟩, h, rfl⟩
      obtain ⟨hget, hr⟩ := List.mem_filter.mp h
      exact ⟨i, List.mk_mem_zipIdx_iff_getElem?.mp hget, of_decide_eq_true hr⟩
    · rintro ⟨i, hget, hr⟩
      exact ⟨(a, i), List.mem_filter.mpr ⟨List.mk_mem_zipIdx_iff_getElem?.mpr hget,
        decide_eq_true hr⟩, rfl⟩
  have hunique : ∀ {a : Item} {i j : ℕ}, items[i]? = some a → items[j]? = some a → i = j := by
    intro a i j hi hj
    exact (List.getElem?_inj (List.getElem?_eq_some_iff.mp hi).1 hnodup).mp (hi.trans hj.symm)
  rw [hgroups]
  refine ⟨?_, ?_, ?_, ?_, ?_⟩
  · intro c hc
    obtain ⟨r, -, rfl⟩ := List.mem_map.mp hc
    have hfst : items.zipIdx.map Prod.fst = items := List.zipIdx_map_fst 0 items
    conv_rhs => rw [← hfst]
    exact List.filter_sublist.map Prod.fst
  · intro c hc
    obtain ⟨r, hr, rfl⟩ := List.mem_map.mp hc
    obtain ⟨⟨a, i⟩, hx, hroot⟩ := (hmem r).mp hr
    exact List.ne_nil_of_mem (hplace.mpr ⟨i, List.mk_mem_zipIdx_iff_getElem?.mp hx, hroot⟩)
  · rw [List.pairwise_map]
    refine hroots.imp fun {r r'} hne a ha ha' => hne ?_
    obtain ⟨i, hi, hroot⟩ := hplace.mp ha
    obtain ⟨j, hj, hroot'⟩ := hplace.mp ha'
    rw [← hroot, ← hroot', hunique hi hj]
  · intro a ha
    obtain ⟨i, hi⟩ := List.mem_iff_getElem?.mp ha
    refine ⟨_, List.mem_map.mpr ⟨(root items.length s.parent i).1, (hmem _).mpr ⟨(a, i), ?_, rfl⟩, rfl⟩,
      hplace.mpr ⟨i, hi, rfl⟩⟩
    exact List.mk_mem_zipIdx_iff_getElem?.mpr hi
  · intro c hc a ha b hb
    obtain ⟨r, -, rfl⟩ := List.mem_map.mp hc
    obtain ⟨i, hi, hroot⟩ := hplace.mp ha
    rw [hplace]
    constructor
    · rintro ⟨j, hj, hroot'⟩
      exact ⟨i, j, hi, hj, hforest.same_of_root_eq (hroot.trans hroot'.symm)⟩
    · rintro ⟨i', j, hi', hj, hsame⟩
      rw [hunique hi' hi] at hsame
      exact ⟨j, hj, (hforest.root_eq hsame).symm.trans hroot⟩

/-! ## Correlations -/

theorem mem_idsOf {group : List Item} {id : String} :
    id ∈ idsOf group ↔ ∃ item ∈ group, item.obs.observationId = id := by
  unfold idsOf
  rw [List.mem_insertionSort, List.mem_map]

/-- The ends of an edge, in one order or the other. -/
theorem edgeOf_ends (host : Host) (rule : CorrelationRule) (first second : Item) :
    ((edgeOf host rule first second).leftObservationId = first.obs.observationId ∧
      (edgeOf host rule first second).rightObservationId = second.obs.observationId) ∨
    ((edgeOf host rule first second).leftObservationId = second.obs.observationId ∧
      (edgeOf host rule first second).rightObservationId = first.obs.observationId) := by
  unfold edgeOf
  dsimp only
  rcases le_total first.obs.observationId second.obs.observationId with h | h
  · exact .inl ⟨min_eq_left h, max_eq_right h⟩
  · exact .inr ⟨min_eq_right h, max_eq_left h⟩

/-- Both ends of an edge are in a group. -/
def within (group : List Item) (edge : Edge) : Bool :=
  decide (edge.leftObservationId ∈ idsOf group ∧ edge.rightObservationId ∈ idsOf group)

theorem within_edgeOf {group : List Item} : within group (edgeOf host rule first second) = true ↔
    first.obs.observationId ∈ idsOf group ∧ second.obs.observationId ∈ idsOf group := by
  unfold within
  rw [decide_eq_true_iff]
  rcases edgeOf_ends host rule first second with ⟨hleft, hright⟩ | ⟨hleft, hright⟩
  · rw [hleft, hright]
  · rw [hleft, hright, and_comm]

/-- What a group reports. -/
structure Reports (host : Host) (rule : CorrelationRule) (s : Search) (group : List Item)
    (c : Correlation) : Prop where
  observationIds : c.observationIds = idsOf group
  edges : c.edges = edgesOf s.edges (idsOf group)
  isPartial : c.isPartial = s.isPartial
  cluster : c.cluster = ((group.head?).map (·.obs.cluster)).getD ""
  nonempty : c.edges ≠ []

theorem reports_of_correlationOf {group : List Item} {c : Correlation}
    (h : correlationOf host rule s group = some c) : Reports host rule s group c := by
  unfold correlationOf at h
  dsimp only at h
  split at h
  · cases h
  · rename_i hgroup
    push Not at hgroup
    rw [← Option.some.inj h]
    exact ⟨rfl, rfl, rfl, rfl, hgroup.2.2⟩

section Distinct

variable (hsound : Sound host rule items s)
  (hids : (items.map fun item => item.obs.observationId).Nodup)

include hids in
theorem eq_of_id (hfirst : first ∈ items) (hsecond : second ∈ items)
    (h : first.obs.observationId = second.obs.observationId) : first = second :=
  List.inj_on_of_nodup_map hids hfirst hsecond h

include hids in
theorem mem_group_of_id {group : List Item} (hgroup : group ∈ groups items s) (hfirst : first ∈ items)
    (h : first.obs.observationId ∈ idsOf group) : first ∈ group := by
  obtain ⟨item, hitem, hid⟩ := mem_idsOf.mp h
  exact eq_of_id hids (mem_items_of_group hgroup hitem) hfirst hid ▸ hitem

include hsound hids in
/-- A group reports the edges among its items. -/
theorem edges_of_group {group : List Item} (hgroup : group ∈ groups items s) :
    ((correlationOf host rule s group).elim [] Correlation.edges).Perm
      (s.edges.filter (within group)) := by
  cases hc : correlationOf host rule s group with
  | some c =>
      rw [Option.elim_some, (reports_of_correlationOf hc).edges]
      exact List.perm_insertionSort _ _
  | none =>
      have hempty : s.edges.filter (within group) = [] := by
        refine List.filter_eq_nil_iff.mpr fun edge hedge hwithin => ?_
        obtain ⟨i, j, a, b, ha, hb, hpairs, -, rfl⟩ := hsound.joined edge hedge
        obtain ⟨hleft, hright⟩ := within_edgeOf.mp hwithin
        obtain ⟨c, hsome, -⟩ := correlationOf_edge
          (mem_group_of_id hids hgroup (List.mem_of_getElem? ha) hleft)
          (mem_group_of_id hids hgroup (List.mem_of_getElem? hb) hright)
          (of_decide_eq_true hpairs.families).1 hedge
        rw [hc] at hsome
        cases hsome
      rw [hempty]
      exact .refl _

include hsound hids in
/-- Every edge of a search is reported, and once. -/
theorem edges_of_groups :
    (((groups items s).filterMap (correlationOf host rule s)).flatMap Correlation.edges).Perm s.edges := by
  have hpartition := partition_groups hsound.forest hids.of_map
  refine (perm_flatMap_filterMap fun group hgroup => edges_of_group hsound hids hgroup).trans
    (perm_flatMap_filter ?_ fun edge hedge => ?_)
  · refine hpartition.disjoint.imp_of_mem fun {group group'} hgroup hgroup' hdisjoint edge hedge => ?_
    rintro ⟨hwithin, hwithin'⟩
    obtain ⟨i, j, a, b, ha, -, -, -, rfl⟩ := hsound.joined edge hedge
    exact hdisjoint
      (mem_group_of_id hids hgroup (List.mem_of_getElem? ha) (within_edgeOf.mp hwithin).1)
      (mem_group_of_id hids hgroup' (List.mem_of_getElem? ha) (within_edgeOf.mp hwithin').1)
  · obtain ⟨i, j, a, b, ha, hb, -, hsame, rfl⟩ := hsound.joined edge hedge
    obtain ⟨group, hgroup, hmem⟩ := hpartition.covers a (List.mem_of_getElem? ha)
    have hmem' : b ∈ group := (hpartition.related group hgroup a hmem b (List.mem_of_getElem? hb)).mpr
      ⟨i, j, ha, hb, hsame⟩
    exact ⟨group, hgroup, within_edgeOf.mpr ⟨mem_idsOf.mpr ⟨a, hmem, rfl⟩, mem_idsOf.mpr ⟨b, hmem', rfl⟩⟩⟩

end Distinct

/-! ## Components -/

/-- An edge names its ends. -/
theorem ends_of_edgeOf_eq {a b c d : Item} (h : edgeOf host rule a b = edgeOf host rule c d) :
    (a.obs.observationId = c.obs.observationId ∧ b.obs.observationId = d.obs.observationId) ∨
      (a.obs.observationId = d.obs.observationId ∧ b.obs.observationId = c.obs.observationId) := by
  have hleft := congrArg Edge.leftObservationId h
  have hright := congrArg Edge.rightObservationId h
  rcases edgeOf_ends host rule a b with ⟨ha, hb⟩ | ⟨hb, ha⟩ <;>
    rcases edgeOf_ends host rule c d with ⟨hc, hd⟩ | ⟨hd, hc⟩
  · exact .inl ⟨ha.symm.trans (hleft.trans hc), hb.symm.trans (hright.trans hd)⟩
  · exact .inr ⟨ha.symm.trans (hleft.trans hd), hb.symm.trans (hright.trans hc)⟩
  · exact .inr ⟨ha.symm.trans (hright.trans hd), hb.symm.trans (hleft.trans hc)⟩
  · exact .inl ⟨ha.symm.trans (hright.trans hc), hb.symm.trans (hleft.trans hd)⟩

theorem nodup_naiveEdges (host : Host) (rule : CorrelationRule)
    (hids : (items.map fun item => item.obs.observationId).Nodup) :
    (naiveEdges host rule items).Nodup := by
  induction items with
  | nil => exact List.nodup_nil
  | cons first rest ih =>
      obtain ⟨hfirst, hrest⟩ := List.nodup_cons.mp hids
      have hother : ∀ item ∈ rest, first.obs.observationId ≠ item.obs.observationId :=
        fun item hitem heq => hfirst (List.mem_map.mpr ⟨item, hitem, heq.symm⟩)
      refine List.Nodup.append ?_ (ih hrest) ?_
      · refine List.Nodup.map_on (fun a ha b hb heq => ?_) (hrest.of_map.filter _)
        have ha := (List.mem_filter.mp ha).1
        have hb := (List.mem_filter.mp hb).1
        rcases ends_of_edgeOf_eq heq with ⟨-, hab⟩ | ⟨hfb, -⟩
        · exact List.inj_on_of_nodup_map hrest ha hb hab
        · exact absurd hfb (hother b hb)
      · intro edge hedge hedge'
        obtain ⟨b, -, rfl⟩ := List.mem_map.mp hedge
        obtain ⟨c, hc, d, hd, -, heq⟩ := exists_of_mem_naiveEdges hedge'
        rcases ends_of_edgeOf_eq heq with ⟨hfc, -⟩ | ⟨hfd, -⟩
        · exact hother c hc hfc
        · exact hother d hd hfd

/-- Ways along the accepted edges go from item to item. -/
theorem connected_iff (hids : (items.map fun item => item.obs.observationId).Nodup)
    (hfirst : first ∈ items) {id : String} :
    Connected (naiveEdges host rule items) first.obs.observationId id ↔
      ∃ second ∈ items, second.obs.observationId = id ∧ Linked rule items first second := by
  constructor
  · intro h
    induction h with
    | refl => exact ⟨first, hfirst, rfl, .refl⟩
    | @tail mid last _ hstep ih =>
        obtain ⟨second, hsecond, hid, hlinked⟩ := ih
        obtain ⟨edge, hedge, hends⟩ := hstep
        obtain ⟨a, ha, b, hb, hpairs, rfl⟩ := exists_of_mem_naiveEdges hedge
        have hnext : (a.obs.observationId = second.obs.observationId ∧ b.obs.observationId = last) ∨
            (b.obs.observationId = second.obs.observationId ∧ a.obs.observationId = last) := by
          rw [hid]
          rcases edgeOf_ends host rule a b with ⟨hleft, hright⟩ | ⟨hleft, hright⟩ <;>
            rw [hleft, hright] at hends
          · exact hends.imp_right And.symm
          · exact hends.symm.imp_left And.symm
        rcases hnext with ⟨hsame, hother⟩ | ⟨hsame, hother⟩
        · rw [eq_of_id hids ha hsecond hsame] at hpairs ha
          exact ⟨b, hb, hother, hlinked.tail ⟨ha, hb, hpairs⟩⟩
        · rw [eq_of_id hids hb hsecond hsame] at hpairs hb
          exact ⟨a, ha, hother, hlinked.tail ⟨hb, ha, hpairs.symm⟩⟩
  · rintro ⟨second, -, rfl, hlinked⟩
    induction hlinked with
    | refl => exact .refl
    | tail _ hstep ih =>
        obtain ⟨ha, hb, hpairs⟩ := hstep
        exact ih.tail ⟨_, mem_naiveEdges host ha hb hpairs, edgeOf_ends host rule _ _⟩

/-- A search that found every edge has joined what is linked. -/
theorem alike_iff (hsound : Sound host rule items s)
    (hids : (items.map fun item => item.obs.observationId).Nodup)
    (hedges : s.edges = naiveEdges host rule items) (hfirst : first ∈ items) :
    Alike items s first second ↔ Linked rule items first second := by
  constructor
  · rintro ⟨i, j, hi, hj, hsame⟩
    exact hsound.linked i j hsame first second hi hj
  · intro h
    induction h with
    | refl =>
        obtain ⟨i, hi⟩ := List.mem_iff_getElem?.mp hfirst
        obtain ⟨r, hr⟩ := hsound.forest.exists_root i
        exact ⟨i, i, hi, hi, r, hr, hr⟩
    | tail _ hstep ih =>
        obtain ⟨hmem, hmem', hpairs⟩ := hstep
        obtain ⟨i, j, hi, hj, hsame⟩ := ih
        have hedge := mem_naiveEdges host hmem hmem' hpairs
        rw [← hedges] at hedge
        obtain ⟨k, l, c, d, hc, hd, -, hjoined, heq⟩ := hsound.joined _ hedge
        have hplace : ∀ {a : Item} {i j : ℕ}, items[i]? = some a → items[j]? = some a → i = j :=
          fun {a i j} hi hj => (List.getElem?_inj (List.getElem?_eq_some_iff.mp hi).1
            hids.of_map).mp (hi.trans hj.symm)
        obtain ⟨r, hri, hrj⟩ := hsame
        obtain ⟨r', hrk, hrl⟩ := hjoined
        rcases ends_of_edgeOf_eq heq with ⟨hbc, hcd⟩ | ⟨hbd, hcc⟩
        · obtain rfl := eq_of_id hids hmem (List.mem_of_getElem? hc) hbc
          obtain rfl := eq_of_id hids hmem' (List.mem_of_getElem? hd) hcd
          obtain rfl := hplace hj hc
          exact ⟨i, l, hi, hd, r, hri, hrk.unique hrj ▸ hrl⟩
        · obtain rfl := eq_of_id hids hmem (List.mem_of_getElem? hd) hbd
          obtain rfl := eq_of_id hids hmem' (List.mem_of_getElem? hc) hcc
          obtain rfl := hplace hj hd
          exact ⟨i, k, hi, hc, r, hri, hrl.unique hrj ▸ hrk⟩

/-! ## The correlations of observations -/

/-- The correlations are the components of a graph that have an edge. -/
structure Components (edges : List Edge) (correlations : List Correlation) : Prop where
  component : ∀ c ∈ correlations, ∀ a ∈ c.observationIds, ∀ b,
    b ∈ c.observationIds ↔ Connected edges a b
  inhabited : ∀ c ∈ correlations, ∃ edge ∈ edges, edge.leftObservationId ∈ c.observationIds
  covers : ∀ edge ∈ edges, ∃ c ∈ correlations, edge.leftObservationId ∈ c.observationIds
  disjoint : correlations.Pairwise fun c c' => c.observationIds.Disjoint c'.observationIds
  nodup : ∀ c ∈ correlations, c.observationIds.Nodup

variable {observations : List Observation}

theorem item_obs {item : Item} (h : item ∈ observations.filterMap (itemOf host rule)) :
    item.obs ∈ observations := by
  obtain ⟨o, ho, hsome⟩ := List.mem_filterMap.mp h
  rw [(itemOf_some hsome).1]
  exact ho

theorem nodup_itemIds (host : Host) (rule : CorrelationRule)
    (hids : (observations.map Observation.observationId).Nodup) :
    ((observations.filterMap (itemOf host rule)).map fun item => item.obs.observationId).Nodup := by
  refine hids.sublist ?_
  induction observations with
  | nil => exact .refl _
  | cons o observations ih =>
      have hrest := ih (List.nodup_cons.mp hids).2
      cases hitem : itemOf host rule o with
      | none =>
          rw [List.filterMap_cons_none hitem]
          exact hrest.cons _
      | some item =>
          rw [List.filterMap_cons_some hitem, List.map_cons, (itemOf_some hitem).1]
          exact hrest.cons_cons _

/-- The search of a rule that is switched on. -/
structure Searched (host : Host) (rule : CorrelationRule) (observations : List Observation)
    (items : List Item) (s : Search) : Prop where
  drawn : items = observations.filterMap (itemOf host rule)
  ids : (items.map fun item => item.obs.observationId).Nodup
  obs : ∀ item ∈ items, item.obs ∈ observations
  sound : Sound host rule items s
  spends : Spends rule (naiveEdges host rule items) {} s
  accepted : acceptedEdges host rule observations = naiveEdges host rule items
  correlations : correlateObservations host rule observations =
    ((groups items s).filterMap (correlationOf host rule s)).insertionSort
      fun a b => a.correlationId ≤ b.correlationId

theorem exists_searched (host : Host) (henabled : rule.enabled = true)
    (hids : (observations.map Observation.observationId).Nodup) :
    ∃ items s, Searched host rule observations items s := by
  refine ⟨observations.filterMap (itemOf host rule), search host rule
    (observations.filterMap (itemOf host rule)) {}
    (observations.filterMap (itemOf host rule)).zipIdx, rfl, nodup_itemIds host rule hids,
    fun item => item_obs, ?_, search_spends List.drop_zero rfl, ?_, ?_⟩
  · exact (Sound.start host rule _).search fun x hx => List.mem_zipIdx_iff_getElem?.mp hx
  · unfold acceptedEdges
    rw [if_pos henabled]
  · unfold correlateObservations
    rw [if_neg (not_not.mpr henabled)]

namespace Searched

variable (h : Searched host rule observations items s)

include h

theorem mem_correlations {c : Correlation} : c ∈ correlateObservations host rule observations ↔
    ∃ group ∈ groups items s, correlationOf host rule s group = some c := by
  rw [h.correlations, List.mem_insertionSort, List.mem_filterMap]

theorem reported : (reportedEdges host rule observations).Perm s.edges := by
  unfold reportedEdges
  rw [h.correlations]
  exact ((List.perm_insertionSort _ _).flatMap_right _).trans (edges_of_groups h.sound h.ids)

theorem edges_sublist : s.edges.Sublist (acceptedEdges host rule observations) ∧
    s.edges.length = min (acceptedEdges host rule observations).length (budget rule) := by
  obtain ⟨new, hedges, hsub, hlength⟩ := h.spends.edges
  rw [h.accepted, hedges]
  exact ⟨hsub, hlength⟩

theorem isPartial : s.isPartial = true ↔ budget rule < (acceptedEdges host rule observations).length := by
  rw [h.spends.isPartial, h.accepted, decide_eq_true_iff]
  exact Iff.rfl

/-- A search that ran out has edges to report, and so it tells. -/
theorem reportsPartial_iff : ReportsPartial host rule observations ↔ s.isPartial = true := by
  constructor
  · rintro ⟨c, hc, hincomplete⟩
    obtain ⟨group, -, hsome⟩ := h.mem_correlations.mp hc
    rw [← (reports_of_correlationOf hsome).isPartial, hincomplete]
  · intro hincomplete
    have hover := h.isPartial.mp hincomplete
    have hbudget : 1 ≤ budget rule := Nat.le_max_left _ _
    have hlength := h.reported.length_eq.trans h.edges_sublist.2
    have hne : reportedEdges host rule observations ≠ [] := by
      intro hnil
      rw [hnil, List.length_nil] at hlength
      omega
    obtain ⟨edge, hedge⟩ := List.exists_mem_of_ne_nil _ hne
    obtain ⟨c, hc, -⟩ := List.mem_flatMap.mp hedge
    obtain ⟨group, -, hsome⟩ := h.mem_correlations.mp hc
    exact ⟨c, hc, (reports_of_correlationOf hsome).isPartial.trans hincomplete⟩

theorem edges_eq (hincomplete : ¬ReportsPartial host rule observations) :
    s.edges = acceptedEdges host rule observations := by
  obtain ⟨hsub, hlength⟩ := h.edges_sublist
  rw [h.reportsPartial_iff, h.isPartial] at hincomplete
  exact hsub.eq_of_length (by omega)

/-- The items of a group are linked to each other. -/
theorem linked_of_group {group : List Item} (hgroup : group ∈ groups items s) (hfirst : first ∈ group)
    (hsecond : second ∈ group) : Linked rule items first second := by
  have hpartition := partition_groups h.sound.forest h.ids.of_map
  obtain ⟨i, j, hi, hj, hsame⟩ := (hpartition.related group hgroup first hfirst second
    (mem_items_of_group hgroup hsecond)).mp hsecond
  exact h.sound.linked i j hsame first second hi hj

/-- Observations of a correlation are of its cluster. -/
theorem cluster (hids : (observations.map Observation.observationId).Nodup) {c : Correlation}
    (hc : c ∈ correlateObservations host rule observations) {o : Observation} (ho : o ∈ observations)
    (hid : o.observationId ∈ c.observationIds) : o.cluster = c.cluster := by
  obtain ⟨group, hgroup, hsome⟩ := h.mem_correlations.mp hc
  have hreports := reports_of_correlationOf hsome
  rw [hreports.observationIds] at hid
  obtain ⟨item, hitem, hsame⟩ := mem_idsOf.mp hid
  have hobs : item.obs = o := List.inj_on_of_nodup_map hids
    (h.obs item (mem_items_of_group hgroup hitem)) ho hsame
  rw [hreports.cluster, ← hobs]
  cases group with
  | nil => exact absurd hitem List.not_mem_nil
  | cons head group =>
      exact (h.linked_of_group hgroup hitem List.mem_cons_self).cluster

theorem components (hincomplete : ¬ReportsPartial host rule observations) :
    Components (acceptedEdges host rule observations)
      (correlateObservations host rule observations) := by
  have hedges := h.edges_eq hincomplete
  rw [h.accepted] at hedges
  have hpartition := partition_groups h.sound.forest h.ids.of_map
  have hids : ∀ group ∈ groups items s, ∀ item ∈ items,
      item.obs.observationId ∈ idsOf group → item ∈ group := fun group hgroup item hitem hid =>
    mem_group_of_id h.ids hgroup hitem hid
  have hapart : (correlateObservations host rule observations).Pairwise
      fun c c' => c.observationIds.Disjoint c'.observationIds := by
    rw [h.correlations]
    refine (List.Perm.pairwise_iff (fun {c c'} hdisjoint => hdisjoint.symm)
      (List.perm_insertionSort _ _)).mpr ?_
    rw [List.pairwise_filterMap]
    refine hpartition.disjoint.imp_of_mem fun {group group'} hgroup hgroup' hdisjoint c hc c' hc' id hid hid' => ?_
    rw [(reports_of_correlationOf hc).observationIds] at hid
    rw [(reports_of_correlationOf hc').observationIds] at hid'
    obtain ⟨item, hitem, rfl⟩ := mem_idsOf.mp hid
    exact hdisjoint hitem (hids group' hgroup' item (mem_items_of_group hgroup hitem) hid')
  rw [h.accepted]
  refine ⟨fun c hc a ha b => ?_, fun c hc => ?_, fun edge hedge => ?_, hapart, fun c hc => ?_⟩
  · obtain ⟨group, hgroup, hsome⟩ := h.mem_correlations.mp hc
    rw [(reports_of_correlationOf hsome).observationIds] at ha ⊢
    obtain ⟨first, hfirst, rfl⟩ := mem_idsOf.mp ha
    have hmem := mem_items_of_group hgroup hfirst
    rw [connected_iff h.ids hmem, mem_idsOf]
    constructor
    · rintro ⟨second, hsecond, rfl⟩
      exact ⟨second, mem_items_of_group hgroup hsecond, rfl, h.linked_of_group hgroup hfirst hsecond⟩
    · rintro ⟨second, hsecond, rfl, hlinked⟩
      exact ⟨second, (hpartition.related group hgroup first hfirst second hsecond).mpr
        ((alike_iff h.sound h.ids hedges hmem).mpr hlinked), rfl⟩
  · obtain ⟨group, hgroup, hsome⟩ := h.mem_correlations.mp hc
    have hreports := reports_of_correlationOf hsome
    obtain ⟨edge, hedge⟩ := List.exists_mem_of_ne_nil _ hreports.nonempty
    rw [hreports.edges] at hedge
    obtain ⟨hmem, hends⟩ := List.mem_filter.mp ((List.mem_insertionSort _).mp hedge)
    rw [hedges] at hmem
    refine ⟨edge, hmem, ?_⟩
    rw [hreports.observationIds]
    exact (of_decide_eq_true hends).1
  · rw [← hedges] at hedge
    obtain ⟨c, hc, hmem⟩ := List.mem_flatMap.mp (h.reported.mem_iff.mpr hedge)
    obtain ⟨group, hgroup, hsome⟩ := h.mem_correlations.mp hc
    have hreports := reports_of_correlationOf hsome
    rw [hreports.edges] at hmem
    refine ⟨c, hc, ?_⟩
    rw [hreports.observationIds]
    exact (of_decide_eq_true (List.mem_filter.mp ((List.mem_insertionSort _).mp hmem)).2).1
  · obtain ⟨group, hgroup, hsome⟩ := h.mem_correlations.mp hc
    rw [(reports_of_correlationOf hsome).observationIds]
    unfold idsOf
    rw [(List.perm_insertionSort _ _).nodup_iff]
    exact h.ids.sublist ((hpartition.sublist group hgroup).map _)

end Searched

theorem correlateObservations_disabled (host : Host) (h : ¬rule.enabled = true) :
    correlateObservations host rule observations = [] := if_pos h

/-- A search is partial just when more pairs are accepted than it has comparisons. -/
theorem reportsPartial_iff (host : Host) (rule : CorrelationRule)
    (hids : (observations.map Observation.observationId).Nodup) :
    ReportsPartial host rule observations ↔
      budget rule < (acceptedEdges host rule observations).length := by
  by_cases henabled : rule.enabled = true
  · obtain ⟨items, s, h⟩ := exists_searched host henabled hids
    exact h.reportsPartial_iff.trans h.isPartial
  · have hnone : acceptedEdges host rule observations = [] := if_neg henabled
    rw [hnone]
    refine iff_of_false ?_ (Nat.not_lt_zero _)
    rintro ⟨c, hc, -⟩
    rw [correlateObservations_disabled host henabled] at hc
    exact absurd hc List.not_mem_nil

namespace Boundary

/-- Times are written with a mark for every minute. -/
def minutes : Host where
  casefold := id
  casefold_empty := id_empty
  casefold_default := id_default
  digest := id
  digest_injective := Function.injective_id
  fromIso text := some ⟨(text.toList.length : ℤ) * 60 * 1000000, 0⟩
  isoformat _ := ""

def fiveMinutes : CorrelationRule where
  ruleId := "cross-source-same-entity"
  sourcePairs := [("kernel", "kubelet")]
  maxGapSeconds := 300

def observation (id family time : String) : Observation where
  observationId := id
  sourceJobId := "j"
  cluster := "default"
  sourceType := family
  sourceFamily := family
  component := family
  severity := none
  templateHash := "h"
  template := ""
  count := 1
  riskScore := 60
  riskLevel := "high"
  windowStart := time
  windowEnd := time
  entityKeys := ["default/node/n"]
  relations := []

/-- Two windows are as far apart as the rule allows, the third is a minute later. -/
def sighted : List Observation :=
  [observation "a" "kernel" "", observation "b" "kubelet" "|||||", observation "c" "kubelet" "||||||"]

end Boundary

end LogRisk.MultiSource
