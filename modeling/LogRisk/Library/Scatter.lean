import LogRisk.Library.Dict
import Mathlib.Data.List.Perm.Basic
import Mathlib.Data.List.Range
import Mathlib.Data.List.ReduceOption

/-!
# Results put back in their places

Items are handed out in groups, each with its position; what comes back for an
item is written at its position.  When every position is served once, the order in
which the results come back does not matter.
-/

namespace LogRisk.Library

universe u v

variable {α : Type u} {κ : Type v}

/-- Write each value at its position. -/
def scatter (n : ℕ) (pairs : List (ℕ × α)) : List (Option α) :=
  pairs.foldl (fun slots p => slots.set p.1 (some p.2)) (List.replicate n none)

theorem length_scatter (n : ℕ) (pairs : List (ℕ × α)) : (scatter n pairs).length = n := by
  have hfold : ∀ slots : List (Option α),
      (pairs.foldl (fun slots p => slots.set p.1 (some p.2)) slots).length = slots.length := by
    induction pairs with
    | nil => exact fun _ => rfl
    | cons p pairs ih =>
        intro slots
        rw [List.foldl_cons, ih, List.length_set]
  rw [scatter, hfold, List.length_replicate]

/-- The value of a position that is written once. -/
theorem getElem?_scatter {n i : ℕ} {a : α} {pairs : List (ℕ × α)}
    (hnodup : (pairs.map Prod.fst).Nodup) (hmem : (i, a) ∈ pairs) (hi : i < n) :
    (scatter n pairs)[i]? = some (some a) := by
  have hkeep : ∀ (pairs : List (ℕ × α)) (slots : List (Option α)), i ∉ pairs.map Prod.fst →
      (pairs.foldl (fun slots p => slots.set p.1 (some p.2)) slots)[i]? = slots[i]? := by
    intro pairs
    induction pairs with
    | nil => exact fun _ _ => rfl
    | cons p pairs ih =>
        intro slots hnot
        rw [List.map_cons, List.mem_cons, not_or] at hnot
        rw [List.foldl_cons, ih _ hnot.2, List.getElem?_set_ne (Ne.symm hnot.1)]
  have hfold : ∀ (slots : List (Option α)), slots.length = n →
      (pairs.foldl (fun slots p => slots.set p.1 (some p.2)) slots)[i]? = some (some a) := by
    induction pairs with
    | nil => cases hmem
    | cons p pairs ih =>
        intro slots hlength
        obtain ⟨hnot, hnodup⟩ := List.nodup_cons.mp hnodup
        rw [List.foldl_cons]
        rcases List.mem_cons.mp hmem with rfl | hmem
        · rw [hkeep pairs _ hnot, List.getElem?_set_self (by omega)]
        · exact ih hnodup hmem _ (by rw [List.length_set, hlength])
  exact hfold _ (List.length_replicate ..)

/-- When each position is written once, the written list is complete. -/
theorem exists_of_scatter {n : ℕ} {pairs : List (ℕ × α)}
    (hperm : (pairs.map Prod.fst).Perm (List.range n)) :
    ∃ l : List α, l.length = n ∧ scatter n pairs = l.map some ∧
      ∀ i a, (i, a) ∈ pairs → l[i]? = some a := by
  have hnodup : (pairs.map Prod.fst).Nodup := hperm.nodup_iff.mpr List.nodup_range
  have hsome : ∀ slot ∈ scatter n pairs, slot.isSome := by
    intro slot hslot
    obtain ⟨i, hi, rfl⟩ := List.getElem_of_mem hslot
    rw [length_scatter] at hi
    obtain ⟨⟨j, a⟩, hpair, rfl⟩ := List.mem_map.mp (hperm.mem_iff.mpr (List.mem_range.mpr hi))
    have hget := getElem?_scatter hnodup hpair hi
    rw [List.getElem?_eq_some_iff] at hget
    obtain ⟨_, hget⟩ := hget
    rw [hget]
    rfl
  have hmap : scatter n pairs = (scatter n pairs).reduceOption.map some := by
    generalize scatter n pairs = slots at hsome
    induction slots with
    | nil => rfl
    | cons slot slots ih =>
        obtain ⟨a, rfl⟩ := Option.isSome_iff_exists.mp (hsome slot List.mem_cons_self)
        rw [List.reduceOption_cons_of_some, List.map_cons,
          ← ih fun s hs => hsome s (List.mem_cons_of_mem _ hs)]
  refine ⟨(scatter n pairs).reduceOption, ?_, hmap, ?_⟩
  · rw [← List.length_map (f := some), ← hmap, length_scatter]
  · intro i a hpair
    have hi : i < n := List.mem_range.mp (hperm.mem_iff.mp (List.mem_map_of_mem hpair))
    have hget := getElem?_scatter hnodup hpair hi
    rw [hmap, List.getElem?_map] at hget
    obtain ⟨b, hb, hab⟩ := Option.map_eq_some_iff.mp hget
    rw [hb, hab]

namespace Dict

variable [DecidableEq κ]

/-- One item goes to its group. -/
theorem values_alter_append (d : Dict κ (List α)) (k : κ) (x : α) :
    (d.alter k fun o => o.getD [] ++ [x]).values.flatten.Perm (d.values.flatten ++ [x]) := by
  have hentries : ∀ l : List (κ × List α),
      ((alterEntries k (fun o => o.getD [] ++ [x]) l).map Prod.snd).flatten.Perm
        ((l.map Prod.snd).flatten ++ [x]) := by
    intro l
    induction l with
    | nil => exact .refl _
    | cons entry l ih =>
        obtain ⟨k', g⟩ := entry
        unfold alterEntries
        split
        · simp only [List.map_cons, List.flatten_cons, Option.getD_some, List.append_assoc]
          exact (List.perm_append_comm).append_left g
        · simp only [List.map_cons, List.flatten_cons, List.append_assoc]
          exact ih.append_left g
  exact hentries d.entries

/-- The groups hold every item once. -/
theorem flatten_values_groupBy (key : α → κ) (xs : List α) :
    (groupBy key xs).values.flatten.Perm xs := by
  have hfold : ∀ d : Dict κ (List α),
      (groupFold key (fun o x => o.getD [] ++ [x]) d xs).values.flatten.Perm
        (d.values.flatten ++ xs) := by
    induction xs with
    | nil =>
        intro d
        rw [List.append_nil]
        exact .refl _
    | cons x xs ih =>
        intro d
        refine (ih _).trans ?_
        rw [List.append_cons]
        exact (values_alter_append d (key x) x).append_right xs
  exact hfold ∅

end Dict

end LogRisk.Library
