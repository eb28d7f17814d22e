import LogRisk.Library.Paging
import Mathlib.Data.Prod.Lex

/-!
# Intervals that cover a day

`covers_day` walks over the intervals in order and keeps the time up to which the day has been
covered.  An interval that ends before that time adds nothing, one that starts behind it leaves
a gap.
-/

namespace LogRisk.ServerRisk

open LogRisk.Library.Paging

variable {α : Type} [LinearOrder α]

/-- The loop of `covers_day`, on intervals in order. -/
def coversFrom (stop through : α) : List (α × α) → Bool
  | [] => false
  | (left, right) :: rest =>
      if right ≤ through then coversFrom stop through rest
      else if through < left then false
      else if stop ≤ right then true
      else coversFrom stop right rest

def coversDay (intervals : List (α × α)) (start stop : α) : Bool :=
  coversFrom stop start (ordered toLex intervals)

/-- Every point of the half-open day lies in some half-open interval. -/
def Covered (intervals : List (α × α)) (start stop : α) : Prop :=
  ∀ x, start ≤ x → x < stop → ∃ i ∈ intervals, i.1 ≤ x ∧ x < i.2

theorem Covered.mono {intervals intervals' : List (α × α)} {start stop : α}
    (h : Covered intervals start stop) (hsub : ∀ i ∈ intervals, i ∈ intervals') :
    Covered intervals' start stop := by
  intro x hx hstop
  obtain ⟨i, hi, hix⟩ := h x hx hstop
  exact ⟨i, hsub i hi, hix⟩

/-- An interval that ends before the day starts covers nothing of it. -/
theorem covered_cons_of_le {i : α × α} {intervals : List (α × α)} {start stop : α}
    (h : i.2 ≤ start) : Covered (i :: intervals) start stop ↔ Covered intervals start stop := by
  constructor
  · intro hcovered x hx hstop
    obtain ⟨j, hj, hjx⟩ := hcovered x hx hstop
    rcases List.mem_cons.mp hj with rfl | hj
    · exact absurd hjx.2 (not_lt.mpr (h.trans hx))
    · exact ⟨j, hj, hjx⟩
  · intro hcovered
    exact hcovered.mono fun j hj => List.mem_cons_of_mem i hj

/-- What an interval covers from the start on needs no other. -/
theorem covered_cons_of_start {i : α × α} {intervals : List (α × α)} {start stop : α}
    (hleft : i.1 ≤ start) (hright : start < i.2) :
    Covered (i :: intervals) start stop ↔ Covered intervals i.2 stop := by
  constructor
  · intro hcovered x hx hstop
    obtain ⟨j, hj, hjx⟩ := hcovered x (hright.le.trans hx) hstop
    rcases List.mem_cons.mp hj with rfl | hj
    · exact absurd hjx.2 (not_lt.mpr hx)
    · exact ⟨j, hj, hjx⟩
  · intro hcovered x hx hstop
    rcases lt_or_ge x i.2 with hlt | hge
    · exact ⟨i, List.mem_cons_self, hleft.trans hx, hlt⟩
    · obtain ⟨j, hj, hjx⟩ := hcovered x hge hstop
      exact ⟨j, List.mem_cons_of_mem i hj, hjx⟩

/-- A gap before every interval is not covered. -/
theorem not_covered_of_gap {intervals : List (α × α)} {start stop : α} (hlt : start < stop)
    (h : ∀ i ∈ intervals, start < i.1) : ¬ Covered intervals start stop := by
  intro hcovered
  obtain ⟨i, hi, hle, _⟩ := hcovered start le_rfl hlt
  exact absurd (h i hi) (not_lt.mpr hle)

theorem coversFrom_iff {intervals : List (α × α)}
    (hsorted : intervals.Pairwise fun a b => toLex a ≤ toLex b) {stop through : α}
    (hlt : through < stop) :
    coversFrom stop through intervals = true ↔ Covered intervals through stop := by
  induction intervals generalizing through with
  | nil =>
      have hgap := not_covered_of_gap hlt fun i (hi : i ∈ ([] : List (α × α))) =>
        absurd hi List.not_mem_nil
      rw [coversFrom]
      exact ⟨fun h => (by cases h), fun h => absurd h hgap⟩
  | cons i rest ih =>
      obtain ⟨left, right⟩ := i
      obtain ⟨hfirst, hrest⟩ := List.pairwise_cons.mp hsorted
      have hleft : ∀ j ∈ rest, left ≤ j.1 := fun j hj => Prod.Lex.monotone_fst _ _ (hfirst j hj)
      rw [coversFrom]
      by_cases hright : right ≤ through
      · rw [if_pos hright, covered_cons_of_le hright]
        exact ih hrest hlt
      · rw [if_neg hright]
        by_cases hgap : through < left
        · rw [if_pos hgap]
          refine ⟨fun h => (by cases h), fun h => absurd h (not_covered_of_gap hlt ?_)⟩
          intro j hj
          rcases List.mem_cons.mp hj with rfl | hj
          · exact hgap
          · exact hgap.trans_le (hleft j hj)
        · rw [if_neg hgap, covered_cons_of_start (not_lt.mp hgap) (not_le.mp hright)]
          by_cases hstop : stop ≤ right
          · rw [if_pos hstop]
            refine ⟨fun _ x hx hxstop => ?_, fun _ => rfl⟩
            exact absurd (hstop.trans hx) (not_le.mpr hxstop)
          · rw [if_neg hstop]
            exact ih hrest (not_le.mp hstop)

/-- A day is covered exactly when each of its points lies in an interval. -/
theorem coversDay_iff (intervals : List (α × α)) {start stop : α} (h : start < stop) :
    coversDay intervals start stop = true ↔
      ∀ x, start ≤ x → x < stop → ∃ i ∈ intervals, i.1 ≤ x ∧ x < i.2 := by
  unfold coversDay
  rw [coversFrom_iff (pairwise_ordered_le toLex intervals) h]
  unfold Covered
  simp only [mem_ordered]

theorem coversDay_iff_six :
    coversDay [(3, 6), (1, 2), (0, 3), ((5 : ℤ), 6)] 0 6 = true ∧
      ∀ x : ℤ, 0 ≤ x → x < 6 → ∃ i ∈ [(3, 6), (1, 2), (0, 3), ((5 : ℤ), 6)], i.1 ≤ x ∧ x < i.2 := by
  have hcovers : coversDay [(3, 6), (1, 2), (0, 3), ((5 : ℤ), 6)] 0 6 = true := by decide
  exact ⟨hcovers, (coversDay_iff _ (by decide)).mp hcovers⟩

end LogRisk.ServerRisk
