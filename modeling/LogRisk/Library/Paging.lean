import Mathlib.Data.List.Sort
import Mathlib.Order.Basic

/-!
# Reading a table page by page

A keyset query returns the first rows whose key lies behind a given one.  What
remains behind the key of the last row read is what remained before, less the
rows read: the rule behind every loop that walks a table in pages, wherever it
is interrupted and taken up again.
-/

namespace LogRisk.Library.Paging

universe u v

variable {α : Type u} {κ : Type v} [LinearOrder κ]

/-- The rows in the order of their keys. -/
def ordered (key : α → κ) (rows : List α) : List α :=
  rows.insertionSort fun a b => key a ≤ key b

/-- The rows behind a key, in the order of their keys. -/
def remaining (key : α → κ) (after : κ) (rows : List α) : List α :=
  (ordered key rows).filter fun r => decide (after < key r)

/-- `WHERE key > after ORDER BY key LIMIT limit`. -/
def page (key : α → κ) (after : κ) (limit : ℕ) (rows : List α) : List α :=
  (remaining key after rows).take limit

variable {key : α → κ} {rows : List α}

theorem ordered_perm (key : α → κ) (rows : List α) : (ordered key rows).Perm rows :=
  List.perm_insertionSort _ _

theorem mem_ordered {r : α} : r ∈ ordered key rows ↔ r ∈ rows := (ordered_perm key rows).mem_iff

theorem mem_remaining {after : κ} {r : α} :
    r ∈ remaining key after rows ↔ r ∈ rows ∧ after < key r := by
  simp [remaining, mem_ordered]

theorem pairwise_ordered_le (key : α → κ) (rows : List α) :
    (ordered key rows).Pairwise fun a b => key a ≤ key b :=
  letI : Std.Total fun a b : α => key a ≤ key b := ⟨fun a b => le_total (key a) (key b)⟩
  letI : IsTrans α fun a b : α => key a ≤ key b := ⟨fun _ _ _ hab hbc => le_trans hab hbc⟩
  List.pairwise_insertionSort _ rows

theorem pairwise_ordered (hkeys : (rows.map key).Nodup) :
    (ordered key rows).Pairwise fun a b => key a < key b := by
  have hne : (ordered key rows).Pairwise fun a b => key a ≠ key b := by
    have hnodup : ((ordered key rows).map key).Nodup :=
      ((ordered_perm key rows).map key).nodup_iff.mpr hkeys
    exact List.pairwise_map.mp hnodup
  exact (pairwise_ordered_le key rows).imp₂ (fun _ _ hle hab => lt_of_le_of_ne hle hab) hne

/-- With distinct keys the order does not depend on where the rows come from. -/
theorem ordered_eq_of_perm {rows' : List α} (h : rows.Perm rows') (hkeys : (rows.map key).Nodup) :
    ordered key rows = ordered key rows' := by
  have hperm : (ordered key rows).Perm (ordered key rows') :=
    ((ordered_perm key rows).trans h).trans (ordered_perm key rows').symm
  refine hperm.eq_of_pairwise ?_ (pairwise_ordered hkeys)
    (pairwise_ordered ((h.map key).nodup_iff.mp hkeys))
  intro a b _ _ hab hba
  exact absurd hab (lt_asymm hba)

theorem pairwise_remaining (hkeys : (rows.map key).Nodup) (after : κ) :
    (remaining key after rows).Pairwise fun a b => key a < key b :=
  (pairwise_ordered hkeys).filter _

/-- Behind a lower key the rows of a higher key remain, filtered. -/
theorem remaining_of_le {a b : κ} (hab : a ≤ b) :
    remaining key b rows = (remaining key a rows).filter fun r => decide (b < key r) := by
  rw [remaining, remaining, List.filter_filter]
  refine List.filter_congr fun r _ => ?_
  by_cases hb : b < key r
  · simp [hb, lt_of_le_of_lt hab hb]
  · simp [hb]

/-- The paging rule: what is behind the last row read is what was not read. -/
theorem remaining_split (hkeys : (rows.map key).Nodup) {after : κ} {read rest : List α} {last : α}
    (h : remaining key after rows = read ++ last :: rest) :
    remaining key (key last) rows = rest := by
  have hlast : after < key last := by
    have hmem : last ∈ remaining key after rows := by simp [h]
    exact (mem_remaining.mp hmem).2
  have hsorted := pairwise_remaining hkeys after
  rw [h] at hsorted
  rw [remaining_of_le hlast.le, h, List.filter_append, List.filter_cons_of_neg (by simp)]
  have hread : read.filter (fun r => decide (key last < key r)) = [] := by
    refine List.filter_eq_nil_iff.mpr fun r hr => ?_
    have hlt := (List.pairwise_append.mp hsorted).2.2 r hr last (List.mem_cons_self ..)
    simpa using hlt.le
  have hrest : rest.filter (fun r => decide (key last < key r)) = rest := by
    refine List.filter_eq_self.mpr fun r hr => ?_
    have hcons := (List.pairwise_append.mp hsorted).2.1
    simpa using (List.pairwise_cons.mp hcons).1 r hr
  rw [hread, hrest, List.nil_append]

theorem remaining_prefix_append (hkeys : (rows.map key).Nodup) {after : κ} {read rest : List α}
    (hread : read ≠ []) (h : remaining key after rows = read ++ rest) :
    remaining key (key (read.getLast hread)) rows = rest := by
  have hsplit : remaining key after rows = read.dropLast ++ read.getLast hread :: rest := by
    rw [h, List.append_cons, List.dropLast_append_getLast]
  exact remaining_split hkeys hsplit

theorem page_eq_nil_iff {after : κ} {limit : ℕ} (hlimit : 0 < limit) :
    page key after limit rows = [] ↔ remaining key after rows = [] := by
  rw [page, List.take_eq_nil_iff]
  constructor
  · rintro (h | h)
    · omega
    · exact h
  · exact Or.inr

theorem page_append_drop (key : α → κ) (after : κ) (limit : ℕ) (rows : List α) :
    remaining key after rows =
      page key after limit rows ++ (remaining key after rows).drop limit :=
  (List.take_append_drop limit _).symm

/-- A key below all others leaves the whole table. -/
theorem remaining_eq_ordered {after : κ} (h : ∀ r ∈ rows, after < key r) :
    remaining key after rows = ordered key rows :=
  List.filter_eq_self.mpr fun r hr => by simpa using h r (mem_ordered.mp hr)

/-! ## What has been read -/

/-- The rows up to a key, in the order of their keys. -/
def passed (key : α → κ) (after : κ) (rows : List α) : List α :=
  (ordered key rows).filter fun r => decide (key r ≤ after)

theorem mem_passed {after : κ} {r : α} :
    r ∈ passed key after rows ↔ r ∈ rows ∧ key r ≤ after := by
  simp [passed, mem_ordered]

theorem passed_append_remaining (key : α → κ) (after : κ) (rows : List α) :
    passed key after rows ++ remaining key after rows = ordered key rows := by
  unfold passed remaining
  have hsorted := pairwise_ordered_le key rows
  generalize ordered key rows = l at hsorted
  induction l with
  | nil => rfl
  | cons r l ih =>
      obtain ⟨hle, hsorted⟩ := List.pairwise_cons.mp hsorted
      have ih := ih hsorted
      by_cases hr : key r ≤ after
      · rw [List.filter_cons_of_pos (by simpa using hr), List.filter_cons_of_neg (by simpa using hr),
          List.cons_append, ih]
      · have hnone : l.filter (fun r => decide (key r ≤ after)) = [] := by
          refine List.filter_eq_nil_iff.mpr fun r' hr' hle' => hr ?_
          exact (hle r' hr').trans (of_decide_eq_true hle')
        rw [hnone] at ih
        rw [List.filter_cons_of_neg (by simpa using hr),
          List.filter_cons_of_pos (by simpa using hr), hnone, List.nil_append]
        exact congrArg (r :: ·) ih

/-- Behind the last row read, that row and those before it have been read. -/
theorem passed_append_of_prefix (hkeys : (rows.map key).Nodup) {after : κ} {read rest : List α}
    (hread : read ≠ []) (h : remaining key after rows = read ++ rest) :
    passed key (key (read.getLast hread)) rows = passed key after rows ++ read := by
  have hbefore := passed_append_remaining key after rows
  have hafter := passed_append_remaining key (key (read.getLast hread)) rows
  rw [remaining_prefix_append hkeys hread h] at hafter
  rw [h, ← List.append_assoc] at hbefore
  exact List.append_cancel_right (hafter.trans hbefore.symm)

theorem passed_eq_ordered {after : κ} (h : remaining key after rows = []) :
    passed key after rows = ordered key rows := by
  rw [← passed_append_remaining key after rows, h, List.append_nil]

theorem passed_eq_nil {after : κ} (h : ∀ r ∈ rows, after < key r) : passed key after rows = [] :=
  List.filter_eq_nil_iff.mpr fun r hr hle =>
    absurd (of_decide_eq_true hle) (h r (mem_ordered.mp hr)).not_ge

end LogRisk.Library.Paging
