import Mathlib.Algebra.BigOperators.Group.List.Basic
import Mathlib.Algebra.GroupWithZero.Nat
import Mathlib.Data.Finset.Card
import Mathlib.Data.List.Sort
import Mathlib.Order.Interval.Finset.Nat

/-!
# Half-open intervals of positions

Finite sets of natural numbers written as lists of half-open intervals.  A
canonical list is sorted, with a gap between any two neighbours, so it has one
interval for every maximal run of positions.  `normalize` brings any list into
that form, `subtractFrom` removes the positions of a canonical list, and on
lists of disjoint intervals the total length counts the positions.
-/

namespace LogRisk.Library.Intervals

/-- The non-empty interval `lo ≤ x < hi`. -/
structure Ival where
  lo : ℕ
  hi : ℕ
  lt : lo < hi
deriving DecidableEq, Repr

namespace Ival

def toFinset (i : Ival) : Finset ℕ := Finset.Ico i.lo i.hi

@[simp] theorem mem_toFinset {i : Ival} {x : ℕ} : x ∈ i.toFinset ↔ i.lo ≤ x ∧ x < i.hi :=
  Finset.mem_Ico

def length (i : Ival) : ℕ := i.hi - i.lo

theorem card_toFinset (i : Ival) : i.toFinset.card = i.length := Nat.card_Ico _ _

end Ival

/-! ## Denotation -/

/-- The positions some interval of the list holds. -/
def points (l : List Ival) : Finset ℕ := l.foldr (fun i s => i.toFinset ∪ s) ∅

@[simp] theorem points_nil : points [] = ∅ := rfl

@[simp] theorem points_cons (i : Ival) (l : List Ival) : points (i :: l) = i.toFinset ∪ points l :=
  rfl

theorem mem_points {l : List Ival} {x : ℕ} : x ∈ points l ↔ ∃ i ∈ l, i.lo ≤ x ∧ x < i.hi := by
  induction l with
  | nil => simp
  | cons i l ih => simp [ih]

theorem points_perm {l l' : List Ival} (h : l.Perm l') : points l = points l' := by
  ext x
  simp only [mem_points, h.mem_iff]

@[simp] theorem points_append (l l' : List Ival) : points (l ++ l') = points l ∪ points l' := by
  ext x
  simp only [mem_points, Finset.mem_union, List.mem_append, or_and_right, exists_or]

/-- The summed length of the intervals of a list. -/
def total (l : List Ival) : ℕ := (l.map Ival.length).sum

theorem total_append (l l' : List Ival) : total (l ++ l') = total l + total l' := by
  simp [total]

/-! ## Canonical lists -/

/-- `a` ends before `b` starts, with a gap between them. -/
def Gap (a b : Ival) : Prop := a.hi < b.lo

instance (a b : Ival) : Decidable (Gap a b) := inferInstanceAs (Decidable (_ < _))

/-- Sorted, pairwise disjoint and non-adjacent. -/
def Canonical (l : List Ival) : Prop := l.Pairwise Gap

instance (l : List Ival) : Decidable (Canonical l) := inferInstanceAs (Decidable (l.Pairwise Gap))

/-- Order by start, then by end. -/
def Before (a b : Ival) : Prop := a.lo < b.lo ∨ a.lo = b.lo ∧ a.hi ≤ b.hi

instance : DecidableRel Before := fun _ _ => inferInstanceAs (Decidable (_ ∨ _))

theorem Before.lo_le {a b : Ival} (h : Before a b) : a.lo ≤ b.lo := by
  rcases h with h | ⟨h, _⟩ <;> omega

instance : Std.Total Before := ⟨fun a b => by unfold Before; omega⟩

instance : IsTrans Ival Before := ⟨fun a b c hab hbc => by unfold Before at *; omega⟩

/-! ## Coalescing -/

/-- Extend `cur` while the next interval overlaps or touches it. -/
def coalesceFrom (cur : Ival) : List Ival → List Ival
  | [] => [cur]
  | i :: rest =>
      if i.lo ≤ cur.hi then
        coalesceFrom ⟨cur.lo, max cur.hi i.hi, lt_max_of_lt_left cur.lt⟩ rest
      else
        cur :: coalesceFrom i rest

def coalesce : List Ival → List Ival
  | [] => []
  | i :: rest => coalesceFrom i rest

/-- Sort and coalesce. -/
def normalize (l : List Ival) : List Ival := coalesce (l.insertionSort Before)

theorem lo_le_of_mem_coalesceFrom {cur x : Ival} {rest : List Ival}
    (hrest : ∀ i ∈ rest, cur.lo ≤ i.lo) (hsorted : rest.Pairwise fun a b => a.lo ≤ b.lo)
    (hx : x ∈ coalesceFrom cur rest) : cur.lo ≤ x.lo := by
  induction rest generalizing cur with
  | nil =>
      rw [coalesceFrom, List.mem_singleton] at hx
      exact hx ▸ le_rfl
  | cons i rest ih =>
      obtain ⟨hi, htail⟩ := List.pairwise_cons.mp hsorted
      rw [coalesceFrom] at hx
      split at hx
      · let merged : Ival := ⟨cur.lo, max cur.hi i.hi, lt_max_of_lt_left cur.lt⟩
        have hmerged : ∀ j ∈ rest, merged.lo ≤ j.lo :=
          fun j hj => hrest j (List.mem_cons_of_mem _ hj)
        exact @ih merged hmerged htail hx
      · rcases List.mem_cons.mp hx with rfl | hx
        · exact le_rfl
        · exact (hrest i List.mem_cons_self).trans (ih hi htail hx)

theorem points_coalesceFrom {cur : Ival} {rest : List Ival}
    (hrest : ∀ i ∈ rest, cur.lo ≤ i.lo) (hsorted : rest.Pairwise fun a b => a.lo ≤ b.lo) :
    points (coalesceFrom cur rest) = cur.toFinset ∪ points rest := by
  induction rest generalizing cur with
  | nil => rfl
  | cons i rest ih =>
      obtain ⟨hi, htail⟩ := List.pairwise_cons.mp hsorted
      have hlo : cur.lo ≤ i.lo := hrest i List.mem_cons_self
      rw [coalesceFrom]
      split
      · rename_i htouch
        let merged : Ival := ⟨cur.lo, max cur.hi i.hi, lt_max_of_lt_left cur.lt⟩
        have hmerged : ∀ j ∈ rest, merged.lo ≤ j.lo :=
          fun j hj => hrest j (List.mem_cons_of_mem _ hj)
        rw [@ih merged hmerged htail, points_cons, ← Finset.union_assoc]
        congr 1
        ext x
        simp only [merged, Ival.mem_toFinset, Finset.mem_union]
        omega
      · rw [points_cons, ih hi htail, points_cons]

theorem canonical_coalesceFrom {cur : Ival} {rest : List Ival}
    (hsorted : rest.Pairwise fun a b => a.lo ≤ b.lo) : Canonical (coalesceFrom cur rest) := by
  induction rest generalizing cur with
  | nil => exact List.pairwise_singleton _ _
  | cons i rest ih =>
      obtain ⟨hi, htail⟩ := List.pairwise_cons.mp hsorted
      rw [coalesceFrom]
      split
      · exact ih htail
      · rename_i hgap
        refine List.pairwise_cons.mpr ⟨fun x hx => ?_, ih htail⟩
        have hlo := lo_le_of_mem_coalesceFrom hi htail hx
        unfold Gap
        omega

theorem pairwise_lo_insertionSort (l : List Ival) :
    (l.insertionSort Before).Pairwise fun a b => a.lo ≤ b.lo :=
  (List.pairwise_insertionSort Before l).imp Before.lo_le

theorem canonical_normalize (l : List Ival) : Canonical (normalize l) := by
  have hsorted := pairwise_lo_insertionSort l
  unfold normalize
  cases hl : l.insertionSort Before with
  | nil => exact List.Pairwise.nil
  | cons i rest =>
      rw [hl] at hsorted
      exact canonical_coalesceFrom (List.pairwise_cons.mp hsorted).2

theorem points_normalize (l : List Ival) : points (normalize l) = points l := by
  have hsorted := pairwise_lo_insertionSort l
  have hperm := points_perm (List.perm_insertionSort Before l)
  unfold normalize
  cases hl : l.insertionSort Before with
  | nil => rw [← hperm, hl]; rfl
  | cons i rest =>
      rw [hl] at hsorted hperm
      obtain ⟨hi, htail⟩ := List.pairwise_cons.mp hsorted
      rw [coalesce, points_coalesceFrom hi htail, ← hperm, points_cons]

/-! ## Canonical lists of the same points -/

theorem Canonical.lt_of_mem_points {a : Ival} {l : List Ival} (h : Canonical (a :: l)) {x : ℕ}
    (hx : x ∈ points l) : a.hi < x := by
  obtain ⟨i, hi, hix⟩ := mem_points.mp hx
  have hgap : a.hi < i.lo := (List.pairwise_cons.mp h).1 i hi
  omega

theorem Canonical.lo_le_of_mem_points {a : Ival} {l : List Ival} (h : Canonical (a :: l)) {x : ℕ}
    (hx : x ∈ points (a :: l)) : a.lo ≤ x := by
  rw [points_cons, Finset.mem_union, Ival.mem_toFinset] at hx
  rcases hx with hx | hx
  · exact hx.1
  · have hlt := h.lt_of_mem_points hx
    have := a.lt
    omega

theorem lo_mem_points (a : Ival) (l : List Ival) : a.lo ∈ points (a :: l) := by
  rw [points_cons, Finset.mem_union, Ival.mem_toFinset]
  exact .inl ⟨le_refl _, a.lt⟩

theorem Canonical.hi_notMem_points {a : Ival} {l : List Ival} (h : Canonical (a :: l)) :
    a.hi ∉ points (a :: l) := by
  rw [points_cons, Finset.mem_union, Ival.mem_toFinset]
  rintro (hx | hx)
  · omega
  · exact absurd (h.lt_of_mem_points hx) (lt_irrefl _)

theorem Canonical.hi_le {a b : Ival} {l l' : List Ival} (h : Canonical (a :: l))
    (hlo : a.lo = b.lo) (hpoints : points (a :: l) = points (b :: l')) : b.hi ≤ a.hi := by
  by_contra hlt
  refine h.hi_notMem_points ?_
  rw [hpoints, points_cons, Finset.mem_union, Ival.mem_toFinset]
  have := a.lt
  exact .inl (by omega)

/-- A canonical list is determined by its points. -/
theorem Canonical.eq_of_points {l l' : List Ival} (h : Canonical l) (h' : Canonical l')
    (hpoints : points l = points l') : l = l' := by
  induction l generalizing l' with
  | nil =>
      cases l' with
      | nil => rfl
      | cons b l' =>
          have hlo := lo_mem_points b l'
          rw [← hpoints] at hlo
          exact absurd hlo (Finset.notMem_empty _)
  | cons a l ih =>
      cases l' with
      | nil =>
          have hlo := lo_mem_points a l
          rw [hpoints] at hlo
          exact absurd hlo (Finset.notMem_empty _)
      | cons b l' =>
          have hlo : a.lo = b.lo := by
            refine le_antisymm (h.lo_le_of_mem_points ?_) (h'.lo_le_of_mem_points ?_)
            · rw [hpoints]
              exact lo_mem_points b l'
            · rw [← hpoints]
              exact lo_mem_points a l
          have hhi : a.hi = b.hi :=
            le_antisymm (h'.hi_le hlo.symm hpoints.symm) (h.hi_le hlo hpoints)
          have hab : a = b := by
            cases a
            cases b
            simp_all
          subst hab
          have hrest : points l = points l' := by
            ext x
            have hx := Finset.ext_iff.mp hpoints x
            rw [points_cons, points_cons, Finset.mem_union, Finset.mem_union,
              Ival.mem_toFinset] at hx
            constructor
            · intro hmem
              have hlt := h.lt_of_mem_points hmem
              exact (hx.mp (.inr hmem)).resolve_left fun hin => by omega
            · intro hmem
              have hlt := h'.lt_of_mem_points hmem
              exact (hx.mpr (.inr hmem)).resolve_left fun hin => by omega
          rw [ih (List.pairwise_cons.mp h).2 (List.pairwise_cons.mp h').2 hrest]

/-! ## Subtraction -/

/-- The positions `cursor ≤ x < hi` outside `occupied`, scanned from the left:
an interval ending before the cursor is passed over, one starting at or after
`hi` ends the scan, and any other cuts off the part before it. -/
def subtractFrom (cursor hi : ℕ) : List Ival → List Ival
  | [] => if h : cursor < hi then [⟨cursor, hi, h⟩] else []
  | o :: rest =>
      if o.hi ≤ cursor then
        subtractFrom cursor hi rest
      else if hi ≤ o.lo then
        if h : cursor < hi then [⟨cursor, hi, h⟩] else []
      else
        (if h : cursor < min o.lo hi then [⟨cursor, min o.lo hi, h⟩] else []) ++
          if hi ≤ max cursor o.hi then [] else subtractFrom (max cursor o.hi) hi rest

theorem points_fragment (a b : ℕ) :
    points (if h : a < b then [⟨a, b, h⟩] else []) = Finset.Ico a b := by
  split
  · ext x
    simp
  · rename_i h
    rw [points_nil, Finset.Ico_eq_empty h]

/-- What is left of an interval after subtracting a canonical list is its set
difference. -/
theorem mem_points_subtractFrom {occupied : List Ival} (hocc : Canonical occupied)
    (cursor hi x : ℕ) :
    x ∈ points (subtractFrom cursor hi occupied) ↔
      (cursor ≤ x ∧ x < hi) ∧ x ∉ points occupied := by
  induction occupied generalizing cursor with
  | nil =>
      rw [subtractFrom, points_fragment, Finset.mem_Ico]
      simp
  | cons o rest ih =>
      obtain ⟨hgap, hrest⟩ := List.pairwise_cons.mp hocc
      have hlt := o.lt
      -- every later interval starts after `o` ends
      have hlater : x ∈ points rest → o.hi < x := by
        intro hx
        obtain ⟨j, hj, hjx⟩ := mem_points.mp hx
        exact (hgap j hj).trans_le hjx.1
      rw [subtractFrom, points_cons, Finset.mem_union, Ival.mem_toFinset, not_or]
      split
      · rw [ih hrest]
        constructor
        · rintro ⟨hx, hnot⟩
          exact ⟨hx, by omega, hnot⟩
        · rintro ⟨hx, _, hnot⟩
          exact ⟨hx, hnot⟩
      split
      · rw [points_fragment, Finset.mem_Ico]
        constructor
        · intro hx
          exact ⟨hx, by omega, fun hr => by have := hlater hr; omega⟩
        · exact fun hx => hx.1
      · rw [points_append, Finset.mem_union, points_fragment, Finset.mem_Ico]
        split
        · rw [points_nil]
          constructor
          · rintro (hx | hx)
            · exact ⟨by omega, by omega, fun hr => by have := hlater hr; omega⟩
            · exact absurd hx (Finset.notMem_empty x)
          · rintro ⟨hx, hout, _⟩
            left
            omega
        · rw [ih hrest]
          constructor
          · rintro (hx | ⟨hx, hnot⟩)
            · exact ⟨by omega, by omega, fun hr => by have := hlater hr; omega⟩
            · exact ⟨by omega, by omega, hnot⟩
          · rintro ⟨hx, hout, hnot⟩
            by_cases hbefore : x < o.lo
            · left
              omega
            · right
              exact ⟨by omega, hnot⟩

end LogRisk.Library.Intervals
