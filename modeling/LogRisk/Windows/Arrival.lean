import LogRisk.Windows.Split

/-!
# The order in which windows arrive

Windows reach the merge in the order of the commits.  Their sums, sets and times do not depend on
it, and merging in two steps is merging at once.  The severity is the label of the first window of
the highest rank, so it depends on the order where two labels share that rank.
-/

namespace LogRisk.Windows

open LogRisk.Library

variable {ν : Type}

/-! ## The severity of merged windows -/

/-- No window of the list ranks higher. -/
def IsTop (group : List (Window ν)) (w : Window ν) : Prop :=
  w ∈ group ∧ ∀ v ∈ group, mergeSeverityOrder v.severity ≤ mergeSeverityOrder w.severity

theorem severity_merged (current window : Window ν) : (current.merged window).severity =
    raised mergeSeverityOrder current.severity window.severity := rfl

theorem order_raised (order : Option String → ℤ) (a b : Option String) :
    order (raised order a b) = max (order a) (order b) := by
  unfold raised
  split
  · rename_i h
    rw [max_eq_right h.le]
  · rename_i h
    rw [max_eq_left (not_lt.mp h)]

/-- The first window keeps its label unless one ranks higher. -/
theorem severity_foldl_of_top {w : Window ν} {rest : List (Window ν)}
    (h : ∀ v ∈ rest, mergeSeverityOrder v.severity ≤ mergeSeverityOrder w.severity) :
    (rest.foldl Window.merged w).severity = w.severity := by
  induction rest generalizing w with
  | nil => rfl
  | cons v rest ih =>
      rw [List.forall_mem_cons] at h
      have hkept : (w.merged v).severity = w.severity := by
        rw [severity_merged]
        unfold raised
        rw [if_neg (not_lt.mpr h.1)]
      rw [List.foldl_cons, ih (by rw [hkept]; exact h.2), hkept]

/-- The label is that of a window of the highest rank. -/
theorem severity_foldl (w : Window ν) (rest : List (Window ν)) :
    ∃ v, IsTop (w :: rest) v ∧ (rest.foldl Window.merged w).severity = v.severity := by
  induction rest generalizing w with
  | nil => exact ⟨w, ⟨List.mem_cons_self, by simp⟩, rfl⟩
  | cons v rest ih =>
      obtain ⟨top, ⟨hmem, htop⟩, hsame⟩ := ih (w.merged v)
      rw [List.forall_mem_cons, severity_merged, order_raised mergeSeverityOrder, max_le_iff] at htop
      -- the joined window has the label of one of the two
      obtain ⟨u, hu, hlabel⟩ : ∃ u ∈ w :: v :: rest, top.severity = u.severity := by
        rcases List.mem_cons.mp hmem with rfl | hmem
        · rw [severity_merged]
          unfold raised
          split
          · exact ⟨v, List.mem_cons_of_mem _ List.mem_cons_self, rfl⟩
          · exact ⟨w, List.mem_cons_self, rfl⟩
        · exact ⟨top, List.mem_cons_of_mem _ (List.mem_cons_of_mem _ hmem), rfl⟩
      refine ⟨u, ⟨hu, ?_⟩, hsame.trans hlabel⟩
      rw [← hlabel, List.forall_mem_cons, List.forall_mem_cons]
      exact ⟨htop.1.1, htop.1.2, htop.2⟩

/-! ## Facts without the severity -/

/-- The facts with no label. -/
def Facts.unlabelled (f : Facts ν) : Facts ν := { f with severity := none }

theorem earliest_comm (a b : Option ℤ) : earliest a b = earliest b a := by
  cases a with
  | none => cases b <;> rfl
  | some x =>
      cases b with
      | none => rfl
      | some y =>
          unfold earliest
          dsimp only
          congr 1
          split_ifs <;> omega

theorem latest_comm (a b : Option ℤ) : latest a b = latest b a := by
  cases a with
  | none => cases b <;> rfl
  | some x =>
      cases b with
      | none => rfl
      | some y =>
          unfold latest
          dsimp only
          congr 1
          split_ifs <;> omega

theorem unlabelled_merge (f g : Facts ν) :
    (f.merge g).unlabelled = f.unlabelled.merge g.unlabelled := by
  have hnone : raised severityOrder none none = none := ite_self _
  unfold Facts.unlabelled Facts.merge
  rw [hnone]

theorem unlabelled_comm (f g : Facts ν) :
    f.unlabelled.merge g.unlabelled = g.unlabelled.merge f.unlabelled := by
  apply Facts.ext_fields
  · exact Nat.add_comm _ _
  · rfl
  · exact add_comm _ _
  · exact earliest_comm _ _
  · exact latest_comm _ _
  · exact Finset.union_comm _ _
  · exact Finset.union_comm _ _
  · exact Finset.union_comm _ _
  · exact Finset.union_comm _ _
  · exact add_comm _ _
  · exact Finset.union_comm _ _
  · exact add_comm _ _

/-- Facts are their fields without the label, and the label. -/
theorem facts_eq_iff {f g : Facts ν} :
    f = g ↔ f.unlabelled = g.unlabelled ∧ f.severity = g.severity := by
  constructor
  · rintro rfl
    exact ⟨rfl, rfl⟩
  · rintro ⟨hfields, hlabel⟩
    unfold Facts.unlabelled at hfields
    simp only [Facts.mk.injEq] at hfields
    obtain ⟨hcount, _, hdistribution, hfirst, hlast, hnamespaces, hpods, hkeys, hrelations, hsemantic,
      htags, hparameters⟩ := hfields
    exact Facts.ext_fields hcount hlabel hdistribution hfirst hlast hnamespaces hpods hkeys hrelations
      hsemantic htags hparameters

theorem map_unlabelled (f : Option (Facts ν)) (gs : List (Option (Facts ν))) :
    (gs.foldl mergeFacts f).map Facts.unlabelled =
      (gs.map fun g => g.map Facts.unlabelled).foldl mergeFacts (f.map Facts.unlabelled) := by
  induction gs generalizing f with
  | nil => rfl
  | cons g gs ih =>
      rw [List.foldl_cons, ih, List.map_cons, List.foldl_cons]
      congr 1
      cases f with
      | none => simp
      | some f =>
          cases g with
          | none => rfl
          | some g => exact congrArg some (unlabelled_merge f g)

theorem unlabelled_right_comm (z x y : Option (Facts ν)) :
    mergeFacts (mergeFacts z (x.map Facts.unlabelled)) (y.map Facts.unlabelled) =
      mergeFacts (mergeFacts z (y.map Facts.unlabelled)) (x.map Facts.unlabelled) := by
  rw [mergeFacts_assoc, mergeFacts_assoc]
  congr 1
  cases x with
  | none => simp
  | some x =>
      cases y with
      | none => simp
      | some y => exact congrArg some (unlabelled_comm x y)

/-- What is merged under an identity does not depend on the order, but for the label. -/
theorem unlabelled_perm {windows windows' : List (Window ν)} (h : windows'.Perm windows) (k : Identity) :
    ((mergedWindows windows').get? k).map (fun w => w.facts.unlabelled) =
      ((mergedWindows windows).get? k).map fun w => w.facts.unlabelled := by
  have hfold : ∀ ws : List (Window ν), ((mergedWindows ws).get? k).map (fun w => w.facts.unlabelled) =
      ((ws.filter fun w => decide (w.identity = k)).map fun w =>
        (some w.facts).map Facts.unlabelled).foldl mergeFacts none := by
    intro ws
    have hfacts := congrArg (Option.map Facts.unlabelled) (facts_mergedWindows ws k)
    rw [map_unlabelled, List.map_map, Option.map_map] at hfacts
    exact hfacts
  rw [hfold, hfold]
  refine ((h.filter _).map _).foldl_eq' (fun x hx y hy z => ?_) _
  obtain ⟨u, _, rfl⟩ := List.mem_map.mp hx
  obtain ⟨v, _, rfl⟩ := List.mem_map.mp hy
  exact unlabelled_right_comm z (some u.facts) (some v.facts)

/-! ## Merging in two steps -/

theorem filter_arranged {windows arranged : List (Window ν)}
    (h : arranged.Perm (mergeTemplateWindows windows)) (k : Identity) :
    arranged.filter (fun w => decide (w.identity = k)) = ((mergedWindows windows).get? k).toList := by
  have hvalues : (mergeTemplateWindows windows).filter (fun w => decide (w.identity = k)) =
      ((mergedWindows windows).get? k).toList := by
    unfold mergeTemplateWindows
    refine Dict.filter_values_key fun k' w hw => ?_
    rw [decide_eq_true_iff, identity_mergedWindows hw]
  have hperm := h.filter fun w => decide (w.identity = k)
  rw [hvalues] at hperm
  cases hget : (mergedWindows windows).get? k with
  | none =>
      rw [hget] at hperm
      exact hperm.eq_nil
  | some w =>
      rw [hget] at hperm
      exact List.perm_singleton.mp hperm

/-- Merging what was merged is merging the windows themselves, however the results are arranged. -/
theorem facts_twice {windows others arranged arranged' : List (Window ν)}
    (h : arranged.Perm (mergeTemplateWindows windows))
    (h' : arranged'.Perm (mergeTemplateWindows others)) (k : Identity) :
    ((mergedWindows (arranged ++ arranged')).get? k).map Window.facts =
      ((mergedWindows (windows ++ others)).get? k).map Window.facts := by
  have hone : ∀ o : Option (Window ν), (o.toList.map fun w => some w.facts).foldl mergeFacts none =
      o.map Window.facts := by
    intro o
    cases o with
    | none => rfl
    | some w => exact mergeFacts_none_left _
  rw [facts_mergedWindows, facts_mergedWindows, List.filter_append, List.filter_append,
    filter_arranged h, filter_arranged h', List.map_append, List.map_append, List.foldl_append,
    List.foldl_append, foldl_mergeFacts, hone, hone, facts_mergedWindows, facts_mergedWindows,
    ← foldl_mergeFacts]

/-! ## The labels that share a rank -/

/-- The windows of each identity that rank highest carry one label. -/
def TopLabelsAgree (windows : List (Window ν)) : Prop :=
  ∀ k x y, IsTop (windows.filter fun w => decide (w.identity = k)) x →
    IsTop (windows.filter fun w => decide (w.identity = k)) y → x.severity = y.severity

theorem severity_mergedWindows {windows : List (Window ν)} {k : Identity} {w : Window ν}
    (h : (mergedWindows windows).get? k = some w) :
    ∃ v, IsTop (windows.filter fun w => decide (w.identity = k)) v ∧ w.severity = v.severity := by
  rw [get?_mergedWindows] at h
  cases hfilter : windows.filter fun w => decide (w.identity = k) with
  | nil =>
      rw [hfilter] at h
      cases h
  | cons v rest =>
      rw [hfilter, foldSome_mergeStep_cons] at h
      obtain rfl := Option.some.inj h
      exact severity_foldl v rest

/-- Everything that the merge says under an identity is independent of the order of arrival, and
of whether parts were merged before. -/
structure ArrivalFree (windows : List (Window ν)) : Prop where
  order : ∀ windows', windows'.Perm windows → ∀ k,
    ((mergedWindows windows').get? k).map Window.facts =
      ((mergedWindows windows).get? k).map Window.facts
  steps : ∀ others arranged arranged', arranged.Perm (mergeTemplateWindows windows) →
    arranged'.Perm (mergeTemplateWindows others) → ∀ k,
    ((mergedWindows (arranged ++ arranged')).get? k).map Window.facts =
      ((mergedWindows (windows ++ others)).get? k).map Window.facts

theorem IsTop.perm {group group' : List (Window ν)} {w : Window ν} (h : IsTop group w)
    (hperm : group.Perm group') : IsTop group' w :=
  ⟨hperm.mem_iff.mp h.1, fun v hv => h.2 v (hperm.mem_iff.mpr hv)⟩

theorem order_of_agree {windows windows' : List (Window ν)} (h : TopLabelsAgree windows)
    (hperm : windows'.Perm windows) (k : Identity) :
    ((mergedWindows windows').get? k).map Window.facts =
      ((mergedWindows windows).get? k).map Window.facts := by
  have hfields := unlabelled_perm hperm k
  cases hget' : (mergedWindows windows').get? k with
  | none =>
      rw [hget'] at hfields
      rw [Option.map_eq_none_iff.mp hfields.symm]
  | some w' =>
      rw [hget', Option.map_some] at hfields
      obtain ⟨w, hget, hsame⟩ := Option.map_eq_some_iff.mp hfields.symm
      rw [hget]
      obtain ⟨v', htop', hlabel'⟩ := severity_mergedWindows hget'
      obtain ⟨v, htop, hlabel⟩ := severity_mergedWindows hget
      refine congrArg some (facts_eq_iff.mpr ⟨hsame.symm, ?_⟩)
      show w'.severity = w.severity
      rw [hlabel', hlabel]
      exact h k v' v (htop'.perm (hperm.filter _)) htop

/-- A window of the highest rank that comes first gives the label. -/
theorem severity_first {windows : List (Window ν)} {k : Identity} {x : Window ν}
    (h : IsTop (windows.filter fun w => decide (w.identity = k)) x) :
    ∃ windows' w, windows'.Perm windows ∧ (mergedWindows windows').get? k = some w ∧
      w.severity = x.severity := by
  obtain ⟨hx, hk⟩ := List.mem_filter.mp h.1
  obtain ⟨front, back, rfl⟩ := List.append_of_mem hx
  have hperm : (x :: (front ++ back)).Perm (front ++ x :: back) := List.perm_middle.symm
  refine ⟨x :: (front ++ back),
    ((front ++ back).filter fun w => decide (w.identity = k)).foldl Window.merged x, hperm, ?_, ?_⟩
  · rw [get?_mergedWindows, List.filter_cons, if_pos hk, foldSome_mergeStep_cons]
  · refine severity_foldl_of_top fun v hv => h.2 v ?_
    refine (hperm.filter _).mem_iff.mp ?_
    rw [List.filter_cons, if_pos hk]
    exact List.mem_cons_of_mem _ hv

/-- The merge is free of the order of arrival exactly if, under each identity, the windows of the
highest rank carry one label. -/
theorem arrivalFree_iff (windows : List (Window ν)) :
    ArrivalFree windows ↔ TopLabelsAgree windows := by
  refine ⟨fun h k x y hx hy => ?_, fun h => ⟨fun windows' hperm => order_of_agree h hperm,
    fun _ _ _ harranged harranged' => facts_twice harranged harranged'⟩⟩
  obtain ⟨xs, w, hxs, hw, hwx⟩ := severity_first hx
  obtain ⟨ys, v, hys, hv, hvy⟩ := severity_first hy
  have hsame := (h.order xs hxs k).trans (h.order ys hys k).symm
  rw [hw, hv] at hsame
  have hlabel : w.severity = v.severity := congrArg Facts.severity (Option.some.inj hsame)
  rw [← hwx, ← hvy, hlabel]

/-! ## Two labels of one rank -/

/-- An event of a node under a label. -/
def labelled (label : String) : TemplateEvent String :=
  { cluster := some "c", node := some "n", component := some "kernel", templateHash := some "h"
    severity := some label }

/-- The windows of two batches. -/
def labelledWindows (label label' : String) : List (Window String) :=
  minutes.aggregate [labelled label] ++ minutes.aggregate [labelled label']

/-- `WARN` and `WARNING` rank alike, so the one that arrives first is kept. -/
theorem label_of_first : ¬ ArrivalFree (labelledWindows "WARN" "WARNING") := by
  intro h
  have hperm : (labelledWindows "WARNING" "WARN").Perm (labelledWindows "WARN" "WARNING") :=
    List.perm_append_comm
  have hsame := congrArg (Option.map Facts.severity)
    (h.order _ hperm (minutes.identityOf (labelled "WARN")))
  have hdiffer : (((mergedWindows (labelledWindows "WARNING" "WARN")).get?
        (minutes.identityOf (labelled "WARN"))).map Window.facts).map Facts.severity ≠
      (((mergedWindows (labelledWindows "WARN" "WARNING")).get?
        (minutes.identityOf (labelled "WARN"))).map Window.facts).map Facts.severity := by
    decide
  exact hdiffer hsame

end LogRisk.Windows
