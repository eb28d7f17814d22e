import Mathlib.Data.List.Basic
import Mathlib.Order.Basic

/-!
# Slices of an ordered log

The entries of a log carry strictly increasing offsets, with gaps allowed.  A
slice holds the entries between two offsets.  Neighbouring slices join, and the
first entry of a slice is cut off by starting one past its offset.
-/

namespace LogRisk.Library.Log

universe u

variable {α : Type u}

/-- The entries with `lo ≤ offset < hi`. -/
def slice (offset : α → ℕ) (lo hi : ℕ) (log : List α) : List α :=
  log.filter fun x => decide (lo ≤ offset x ∧ offset x < hi)

/-- Offsets increase along the log. -/
def Increasing (offset : α → ℕ) (log : List α) : Prop :=
  log.Pairwise fun a b => offset a < offset b

variable {offset : α → ℕ} {log : List α}

theorem mem_slice {lo hi : ℕ} {x : α} :
    x ∈ slice offset lo hi log ↔ x ∈ log ∧ lo ≤ offset x ∧ offset x < hi := by
  simp [slice]

theorem slice_eq_nil_of_le {lo hi : ℕ} (h : hi ≤ lo) : slice offset lo hi log = [] := by
  refine List.filter_eq_nil_iff.mpr fun x _ => ?_
  simp only [decide_eq_true_eq]
  omega

@[simp] theorem slice_self (lo : ℕ) : slice offset lo lo log = [] := slice_eq_nil_of_le (Nat.le_refl _)

theorem slice_cons (lo hi : ℕ) (x : α) (rest : List α) :
    slice offset lo hi (x :: rest) =
      if lo ≤ offset x ∧ offset x < hi then x :: slice offset lo hi rest
      else slice offset lo hi rest := by
  by_cases h : lo ≤ offset x ∧ offset x < hi
  · rw [if_pos h, slice, List.filter_cons_of_pos (by simpa using h)]
    rfl
  · rw [if_neg h, slice, List.filter_cons_of_neg (by simpa using h)]
    rfl

/-- Neighbouring slices join. -/
theorem slice_append (hlog : Increasing offset log) {lo mid hi : ℕ} (hlo : lo ≤ mid)
    (hhi : mid ≤ hi) :
    slice offset lo hi log = slice offset lo mid log ++ slice offset mid hi log := by
  induction log with
  | nil => rfl
  | cons x rest ih =>
      obtain ⟨hx, hrest⟩ := List.pairwise_cons.mp hlog
      have ih := ih hrest
      by_cases hmid : offset x < mid
      · rw [slice_cons mid hi, if_neg (by omega), slice_cons, slice_cons, ih]
        by_cases hlow : lo ≤ offset x
        · rw [if_pos (by omega), if_pos (by omega), List.cons_append]
        · rw [if_neg (by omega), if_neg (by omega)]
      · -- everything from here on lies behind the middle
        have hnone : slice offset lo mid rest = [] := by
          refine List.eq_nil_iff_forall_not_mem.mpr fun y hy => ?_
          obtain ⟨hy, _, hlt⟩ := mem_slice.mp hy
          have hxy := hx y hy
          omega
        rw [hnone, List.nil_append] at ih
        rw [slice_cons lo mid, if_neg (by omega), hnone, slice_cons, slice_cons, ih,
          List.nil_append]
        by_cases hhigh : offset x < hi
        · rw [if_pos (by omega), if_pos (by omega)]
        · rw [if_neg (by omega), if_neg (by omega)]

/-- A slice can be cut from a longer one. -/
theorem slice_slice {lo lo' hi hi' : ℕ} (hlo : lo ≤ lo') (hhi : hi' ≤ hi) :
    slice offset lo' hi' (slice offset lo hi log) = slice offset lo' hi' log := by
  rw [slice, slice, slice, List.filter_filter]
  refine List.filter_congr fun x _ => ?_
  rw [← Bool.decide_and]
  refine decide_eq_decide.mpr ⟨And.left, fun h => ⟨h, ?_, ?_⟩⟩
  · omega
  · omega

/-- Behind the first entry of a slice is its rest, up to it is the entry alone. -/
theorem slice_eq_cons (hlog : Increasing offset log) {lo hi : ℕ} {x : α} {rest : List α}
    (h : slice offset lo hi log = x :: rest) :
    lo ≤ offset x ∧ offset x < hi ∧ slice offset lo (offset x + 1) log = [x] ∧
      slice offset (offset x + 1) hi log = rest := by
  have hall : ∀ y ∈ x :: rest, lo ≤ offset y ∧ offset y < hi := fun y hy =>
    (mem_slice.mp (h ▸ hy)).2
  obtain ⟨hlo, hhi⟩ := hall x (List.mem_cons_self ..)
  have hsorted : (x :: rest).Pairwise fun a b => offset a < offset b := h ▸ hlog.filter _
  obtain ⟨hx, _⟩ := List.pairwise_cons.mp hsorted
  refine ⟨hlo, hhi, ?_, ?_⟩
  · rw [← slice_slice (Nat.le_refl _) (Nat.succ_le_of_lt hhi), h, slice_cons, if_pos (by omega)]
    congr 1
    refine List.eq_nil_iff_forall_not_mem.mpr fun y hy => ?_
    obtain ⟨hy, _, hlt⟩ := mem_slice.mp hy
    have hxy := hx y hy
    omega
  · rw [← slice_slice (Nat.le_succ_of_le hlo) (Nat.le_refl _), h, slice_cons,
      if_neg (by omega)]
    refine List.filter_eq_self.mpr fun y hy => ?_
    have hxy := hx y hy
    have hrange := hall y (List.mem_cons_of_mem _ hy)
    simp only [decide_eq_true_eq]
    omega

/-- Where nothing lies between two offsets, a slice may end at either. -/
theorem slice_extend (hlog : Increasing offset log) {lo mid hi : ℕ} (hlo : lo ≤ mid)
    (hnone : slice offset mid hi log = []) (hhi : mid ≤ hi ∨ mid = lo) :
    slice offset lo hi log = slice offset lo mid log := by
  rcases hhi with hle | rfl
  · rw [slice_append hlog hlo hle, hnone, List.append_nil]
  · rw [hnone, slice_self]

end LogRisk.Library.Log
