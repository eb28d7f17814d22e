import LogRisk.Library.Dict
import Mathlib.Data.List.Perm.Basic
import Mathlib.Data.Multiset.Defs
import Mathlib.Order.MinMax

/-!
# Lists parted into classes

What is drawn from the parts of a list, each item from one of them, is the list in another
order.  A list in another order has the same classes.
-/

namespace LogRisk.Library

variable {α β γ : Type}

/-! ## Parts -/

/-- Each item is taken by one part. -/
theorem perm_flatMap_filter {parts : List γ} {items : List β} {takes : γ → β → Bool}
    (hapart : parts.Pairwise fun c c' => ∀ e ∈ items, ¬(takes c e = true ∧ takes c' e = true))
    (hcovers : ∀ e ∈ items, ∃ c ∈ parts, takes c e = true) :
    (parts.flatMap fun c => items.filter (takes c)).Perm items := by
  induction parts generalizing items with
  | nil =>
      cases items with
      | nil => exact .refl _
      | cons e items =>
          obtain ⟨c, hc, -⟩ := hcovers e List.mem_cons_self
          exact absurd hc List.not_mem_nil
  | cons c parts ih =>
      obtain ⟨hc, hparts⟩ := List.pairwise_cons.mp hapart
      have hleft : ∀ c' ∈ parts,
          items.filter (takes c') = (items.filter fun e => !takes c e).filter (takes c') := by
        intro c' hc'
        rw [List.filter_filter]
        refine List.filter_congr fun e he => ?_
        have hnot := hc c' hc' e he
        cases hfirst : takes c e with
        | false => rw [Bool.not_false, Bool.and_true]
        | true =>
            rw [hfirst] at hnot
            rw [Bool.not_true, Bool.and_false]
            exact Bool.eq_false_iff.mpr fun h => hnot ⟨rfl, h⟩
      have hothers : parts.Pairwise fun c' c'' => ∀ e ∈ items.filter fun e => !takes c e,
          ¬(takes c' e = true ∧ takes c'' e = true) :=
        hparts.imp fun h e he => h e (List.mem_filter.mp he).1
      have hrest := ih hothers fun e he => by
          obtain ⟨hmem, hnot⟩ := List.mem_filter.mp he
          obtain ⟨c', hc', htakes⟩ := hcovers e hmem
          rcases List.mem_cons.mp hc' with rfl | hc'
          · rw [htakes] at hnot
            cases hnot
          · exact ⟨c', hc', htakes⟩
      rw [List.flatMap_cons, List.flatMap_congr hleft]
      exact (hrest.append_left _).trans (List.filter_append_perm (takes c) items)

theorem perm_flatMap_filterMap {δ : Type} {f : γ → Option δ} {draw : δ → List β} {draw' : γ → List β}
    {parts : List γ} (h : ∀ c ∈ parts, ((f c).elim [] draw).Perm (draw' c)) :
    ((parts.filterMap f).flatMap draw).Perm (parts.flatMap draw') := by
  induction parts with
  | nil => exact .refl _
  | cons c parts ih =>
      have hrest := ih fun c' hc' => h c' (List.mem_cons_of_mem _ hc')
      have hc := h c List.mem_cons_self
      rw [List.filterMap_cons, List.flatMap_cons]
      cases hf : f c with
      | none =>
          rw [hf] at hc
          have hnil : draw' c = [] := hc.nil_eq.symm
          rw [hnil]
          exact hrest
      | some d =>
          rw [hf] at hc
          rw [List.flatMap_cons]
          exact hc.append hrest

/-! ## Extremes -/

section Extremes

variable {σ : Type} [LinearOrder σ] {l l' : List σ}

theorem max?_perm (h : l.Perm l') : l.max? = l'.max? := by
  cases hmax : l.max? with
  | none =>
      rw [List.max?_eq_none_iff] at hmax
      rw [hmax] at h
      rw [List.nil_perm.mp h]
      rfl
  | some peak =>
      obtain ⟨hmem, hle⟩ := List.max?_eq_some_iff.mp hmax
      exact (List.max?_eq_some_iff.mpr
        ⟨h.mem_iff.mp hmem, fun b hb => hle b (h.mem_iff.mpr hb)⟩).symm

theorem min?_perm (h : l.Perm l') : l.min? = l'.min? := by
  cases hmin : l.min? with
  | none =>
      rw [List.min?_eq_none_iff] at hmin
      rw [hmin] at h
      rw [List.nil_perm.mp h]
      rfl
  | some least =>
      obtain ⟨hmem, hle⟩ := List.min?_eq_some_iff.mp hmin
      exact (List.min?_eq_some_iff.mpr
        ⟨h.mem_iff.mp hmem, fun b hb => hle b (h.mem_iff.mpr hb)⟩).symm

end Extremes

/-! ## Classes -/

/-- The parts are the classes of a relation among the items. -/
structure Partition (related : α → α → Prop) (items : List α) (parts : List (List α)) : Prop where
  sublist : ∀ c ∈ parts, c.Sublist items
  nonempty : ∀ c ∈ parts, c ≠ []
  disjoint : parts.Pairwise List.Disjoint
  covers : ∀ a ∈ items, ∃ c ∈ parts, a ∈ c
  related : ∀ c ∈ parts, ∀ a ∈ c, ∀ b ∈ items, b ∈ c ↔ related a b

variable {related related' : α → α → Prop} {items items' : List α} {parts parts' : List (List α)}

theorem Partition.nodup (h : Partition related items parts) :
    (parts.map Multiset.ofList).Nodup := by
  refine List.pairwise_map.mpr (h.disjoint.imp_of_mem fun {c c'} hc _ hdisjoint heq => ?_)
  obtain ⟨a, ha⟩ := List.exists_mem_of_ne_nil c (h.nonempty c hc)
  exact hdisjoint ha ((Multiset.coe_eq_coe.mp heq).mem_iff.mp ha)

/-- A class of one partition is a class of the other. -/
theorem Partition.exists_perm (h : Partition related items parts)
    (h' : Partition related' items' parts') (hitems : items.Perm items') (hnodup : items.Nodup)
    (hrelated : ∀ a ∈ items, ∀ b ∈ items, related a b ↔ related' a b) {c : List α} (hc : c ∈ parts) :
    ∃ c' ∈ parts', c.Perm c' := by
  obtain ⟨a, ha⟩ := List.exists_mem_of_ne_nil c (h.nonempty c hc)
  have hmem : a ∈ items := (h.sublist c hc).mem ha
  obtain ⟨c', hc', ha'⟩ := h'.covers a (hitems.mem_iff.mp hmem)
  refine ⟨c', hc', (List.perm_ext_iff_of_nodup (hnodup.sublist (h.sublist c hc))
    ((hitems.nodup hnodup).sublist (h'.sublist c' hc'))).mpr fun b => ?_⟩
  constructor
  · intro hb
    have hb' := (h.sublist c hc).mem hb
    exact (h'.related c' hc' a ha' b (hitems.mem_iff.mp hb')).mpr
      ((hrelated a hmem b hb').mp ((h.related c hc a ha b hb').mp hb))
  · intro hb
    have hb' := hitems.mem_iff.mpr ((h'.sublist c' hc').mem hb)
    exact (h.related c hc a ha b hb').mpr ((hrelated a hmem b hb').mpr
      ((h'.related c' hc' a ha' b (hitems.mem_iff.mp hb')).mp hb))

/-- A list in another order has the same classes, each in another order. -/
theorem Partition.matched (h : Partition related items parts)
    (h' : Partition related' items' parts') (hitems : items.Perm items') (hnodup : items.Nodup)
    (hrelated : ∀ a ∈ items, ∀ b ∈ items, related a b ↔ related' a b) :
    ∃ matched, List.Forall₂ List.Perm parts matched ∧ matched.Perm parts' := by
  have hsame : (parts.map Multiset.ofList).Perm (parts'.map Multiset.ofList) := by
    refine (List.perm_ext_iff_of_nodup h.nodup h'.nodup).mpr fun m => ?_
    rw [List.mem_map, List.mem_map]
    constructor
    · rintro ⟨c, hc, rfl⟩
      obtain ⟨c', hc', hperm⟩ := h.exists_perm h' hitems hnodup hrelated hc
      exact ⟨c', hc', (Multiset.coe_eq_coe.mpr hperm).symm⟩
    · rintro ⟨c', hc', rfl⟩
      obtain ⟨c, hc, hperm⟩ := h'.exists_perm h hitems.symm (hitems.nodup hnodup)
        (fun a ha b hb => (hrelated a (hitems.mem_iff.mpr ha) b (hitems.mem_iff.mpr hb)).symm) hc'
      exact ⟨c, hc, (Multiset.coe_eq_coe.mpr hperm).symm⟩
  have hback : List.Forall₂ (fun m (c : List α) => m = Multiset.ofList c)
      (parts'.map Multiset.ofList) parts' := by
    rw [List.forall₂_map_left_iff, List.forall₂_same]
    exact fun _ _ => rfl
  obtain ⟨matched, hmatched, hperm⟩ := List.perm_comp_forall₂ hsame hback
  refine ⟨matched, ?_, hperm⟩
  rw [List.forall₂_map_left_iff] at hmatched
  exact hmatched.imp fun _ _ heq => Multiset.coe_eq_coe.mp heq

/-! ## Grouping by a key -/

section Grouping

variable {κ : Type} [DecidableEq κ] (key : α → κ) (xs : List α)

theorem partition_groupBy :
    Partition (fun a b => key a = key b) xs (Dict.groupBy key xs).values where
  sublist c hc := by
    rw [Dict.values_groupBy, List.mem_map] at hc
    obtain ⟨k, -, rfl⟩ := hc
    exact List.filter_sublist
  nonempty c hc := by
    rw [Dict.values_groupBy, List.mem_map] at hc
    obtain ⟨k, hk, rfl⟩ := hc
    obtain ⟨x, hx, hkey⟩ := Dict.mem_keys_groupBy.mp hk
    exact List.ne_nil_of_mem (List.mem_filter.mpr ⟨hx, decide_eq_true hkey⟩)
  disjoint := by
    rw [Dict.values_groupBy, List.pairwise_map]
    refine (Dict.groupBy key xs).nodup.imp fun {k k'} hne a ha ha' => hne ?_
    have hk := of_decide_eq_true (List.mem_filter.mp ha).2
    exact hk.symm.trans (of_decide_eq_true (List.mem_filter.mp ha').2)
  covers a ha := by
    rw [Dict.values_groupBy]
    exact ⟨_, List.mem_map_of_mem (Dict.mem_keys_groupBy.mpr ⟨a, ha, rfl⟩),
      List.mem_filter.mpr ⟨ha, decide_eq_true rfl⟩⟩
  related c hc a ha b hb := by
    rw [Dict.values_groupBy, List.mem_map] at hc
    obtain ⟨k, -, rfl⟩ := hc
    have hk := of_decide_eq_true (List.mem_filter.mp ha).2
    rw [List.mem_filter, hk, decide_eq_true_eq]
    exact ⟨fun h => h.2.symm, fun h => ⟨hb, h.symm⟩⟩

/-- The groups together are the items in another order. -/
theorem flatten_groupBy_perm : (Dict.groupBy key xs).values.flatten.Perm xs := by
  rw [Dict.values_groupBy, ← List.flatMap_def]
  refine perm_flatMap_filter ?_ ?_
  · refine (Dict.groupBy key xs).nodup.imp fun {k k'} hne e _ htakes => hne ?_
    exact (of_decide_eq_true htakes.1).symm.trans (of_decide_eq_true htakes.2)
  · intro e he
    exact ⟨key e, Dict.mem_keys_groupBy.mpr ⟨e, he, rfl⟩, decide_eq_true rfl⟩

omit [DecidableEq κ] in
theorem flatMap_one [DecidableEq γ] {parts : List γ} (hnodup : parts.Nodup) {q : γ} (hq : q ∈ parts)
    (items : List α) : (parts.flatMap fun p => if p = q then items else []) = items := by
  induction parts with
  | nil => cases hq
  | cons p rest ih =>
      obtain ⟨hnot, hrest⟩ := List.nodup_cons.mp hnodup
      rw [List.flatMap_cons]
      by_cases hp : p = q
      · have hothers : ∀ r ∈ rest, (if r = q then items else []) = [] := by
          intro r hr
          refine if_neg fun h => hnot ?_
          rw [hp, ← h]
          exact hr
        rw [if_pos hp, List.flatMap_eq_nil_iff.mpr hothers, List.append_nil]
      · rw [if_neg hp, List.nil_append]
        exact ih hrest ((List.mem_cons.mp hq).resolve_left (Ne.symm hp))

/-- A class that lies in one part is the same whether the parts or all items are searched. -/
theorem filter_flatMap_parts {part : α → γ} [DecidableEq γ] {parts : List γ} {items : List α}
    (hnodup : parts.Nodup) (hcovers : ∀ x ∈ items, part x ∈ parts) {k : κ}
    (hrefines : ∀ x ∈ items, ∀ y ∈ items, key x = k → key y = k → part x = part y) :
    (parts.flatMap fun p => items.filter fun x => decide (part x = p)).filter
        (fun x => decide (key x = k)) =
      items.filter fun x => decide (key x = k) := by
  rw [List.filter_flatMap]
  by_cases hclass : ∃ x ∈ items, key x = k
  · obtain ⟨x, hx, hxk⟩ := hclass
    have hone : ∀ p ∈ parts, (items.filter fun y => decide (part y = p)).filter
        (fun y => decide (key y = k)) =
          if p = part x then items.filter fun y => decide (key y = k) else [] := by
      intro p _
      rw [List.filter_filter]
      split
      · rename_i hp
        refine List.filter_congr fun y hy => ?_
        by_cases hyk : key y = k
        · simp [hyk, hp, hrefines y hy x hx hyk hxk]
        · simp [hyk]
      · rename_i hp
        refine List.filter_eq_nil_iff.mpr fun y hy hboth => ?_
        rw [Bool.and_eq_true, decide_eq_true_eq, decide_eq_true_eq] at hboth
        exact hp (hboth.2.symm.trans (hrefines y hy x hx hboth.1 hxk))
    rw [List.flatMap_congr hone]
    exact flatMap_one hnodup (hcovers x hx) _
  · have hnone : ∀ x ∈ items, ¬ key x = k := fun x hx h => hclass ⟨x, hx, h⟩
    rw [List.filter_eq_nil_iff.mpr fun x hx => by simpa using hnone x hx]
    refine List.flatMap_eq_nil_iff.mpr fun p _ => ?_
    refine List.filter_eq_nil_iff.mpr fun x hx => ?_
    simpa using hnone x (List.mem_filter.mp hx).1

/-- Folding items by key makes the same entries of any two lists that agree on every key. -/
theorem perm_groupFold {σ : Type} (step : Option σ → α → σ) {ys : List α}
    (h : ∀ k, (ys.filter fun x => decide (key x = k)) = xs.filter fun x => decide (key x = k)) :
    (Dict.groupFold key step ∅ ys).entries.Perm (Dict.groupFold key step ∅ xs).entries := by
  have hnodup : ∀ d : Dict κ σ, d.entries.Nodup := fun d => List.Nodup.of_map _ d.nodup
  refine (List.perm_ext_iff_of_nodup (hnodup _) (hnodup _)).mpr ?_
  rintro ⟨k, v⟩
  rw [← Dict.get?_eq_some, ← Dict.get?_eq_some, Dict.get?_groupFold, Dict.get?_groupFold, h k]

end Grouping

end LogRisk.Library
