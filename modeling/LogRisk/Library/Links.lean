import Mathlib.Data.Fintype.Card
import Mathlib.Data.Set.Finite.Basic
import Mathlib.Logic.Relation
import Mathlib.Order.RelClasses

/-!
# Links

Every item has at most one link to another one.  A link may be set without closing a
circle where its target does not lead back, and following the links of finitely many items
without circles comes to an end.
-/

namespace LogRisk.Library.Links

variable {α : Type}

/-- Following the links leads from one item to the other. -/
abbrev Leads (next : α → Option α) : α → α → Prop :=
  Relation.ReflTransGen fun a b => next a = some b

def Acyclic (next : α → Option α) : Prop :=
  ∀ a b, next a = some b → ¬ Leads next b a

variable {next next' : α → Option α} {a b c : α}

/-- Where only the link of one item has changed, a path leads past it or through it. -/
theorem leads_through (hother : ∀ x, x ≠ a → next' x = next x) (hpath : Leads next' b c) :
    Leads next b c ∨ (Leads next b a ∧ ∃ t, next' a = some t ∧ Leads next t c) := by
  induction hpath with
  | refl => exact .inl .refl
  | @tail x y _ hstep ih =>
      by_cases hxa : x = a
      · subst hxa
        exact .inr ⟨ih.elim (fun h => h) fun h => h.1, y, hstep, .refl⟩
      · have hxy : next x = some y := by
          rw [← hother x hxa]
          exact hstep
        rcases ih with hx | ⟨ha, t, ht, hx⟩
        · exact .inl (hx.tail hxy)
        · exact .inr ⟨ha, t, ht, hx.tail hxy⟩

/-- A link to where nothing leads back closes no circle. -/
theorem Acyclic.update (h : Acyclic next) (hother : ∀ x, x ≠ a → next' x = next x)
    (hnew : ∀ t, next' a = some t → ¬ Leads next t a) : Acyclic next' := by
  intro x y hxy hback
  have hpath := leads_through hother hback
  by_cases hxa : x = a
  · subst hxa
    exact hnew y hxy (hpath.elim (fun h => h) fun h => h.1)
  · have hxy' : next x = some y := by
      rw [← hother x hxa]
      exact hxy
    rcases hpath with hyx | ⟨hya, t, ht, htx⟩
    · exact h x y hxy' hyx
    · exact hnew t ht ((htx.tail hxy').trans hya)

/-- Links of finitely many items that close no circle lead to an end. -/
theorem Acyclic.exists_end (h : Acyclic next) (keys : Finset α)
    (hkeys : ∀ x y, next x = some y → x ∈ keys) (x : α) : ∃ e, Leads next x e ∧ next e = none := by
  let follows : keys → keys → Prop := fun y x => Relation.TransGen (fun a b => next a = some b) x.1 y.1
  have hirrefl : ∀ x, ¬ follows x x := by
    intro x hx
    obtain ⟨y, hxy, hyx⟩ := Relation.TransGen.head'_iff.mp hx
    exact h x.1 y hxy hyx
  have hwf : WellFounded follows :=
    have : IsTrans keys follows := ⟨fun _ _ _ hab hbc => hbc.trans hab⟩
    have : Std.Irrefl follows := ⟨hirrefl⟩
    Finite.wellFounded_of_trans_of_irrefl follows
  have hend : ∀ x : keys, ∃ e, Leads next x.1 e ∧ next e = none := by
    intro x
    induction x using hwf.induction with
    | _ x ih =>
      cases hx : next x.1 with
      | none => exact ⟨x.1, .refl, hx⟩
      | some y =>
          by_cases hy : y ∈ keys
          · obtain ⟨e, hye, he⟩ := ih ⟨y, hy⟩ (.single hx)
            exact ⟨e, hye.head hx, he⟩
          · refine ⟨y, .single hx, ?_⟩
            by_contra hsome
            obtain ⟨z, hz⟩ := Option.ne_none_iff_exists'.mp hsome
            exact hy (hkeys y z hz)
  by_cases hx : x ∈ keys
  · exact hend ⟨x, hx⟩
  · refine ⟨x, .refl, ?_⟩
    by_contra hsome
    obtain ⟨y, hy⟩ := Option.ne_none_iff_exists'.mp hsome
    exact hx (hkeys x y hy)

/-- What every link carries over holds where the links lead. -/
theorem Leads.carries {P : α → Prop} (h : Leads next a b)
    (hlink : ∀ x y, next x = some y → P x → P y) (ha : P a) : P b := by
  induction h with
  | refl => exact ha
  | tail _ hstep ih => exact hlink _ _ hstep ih

/-! ## The length of the way -/

/-- The links come to an end after so many steps at the latest. -/
def Within (next : α → Option α) : ℕ → α → Prop
  | 0, x => next x = none
  | k + 1, x => ∀ y, next x = some y → Within next k y

theorem Within.of_end {x : α} (h : next x = none) (k : ℕ) : Within next k x := by
  cases k with
  | zero => exact h
  | succ k =>
      intro y hy
      rw [h] at hy
      cases hy

theorem Within.mono {k m : ℕ} {x : α} (h : Within next k x) (hkm : k ≤ m) : Within next m x := by
  induction k generalizing x m with
  | zero => exact .of_end h m
  | succ k ih =>
      obtain ⟨m, rfl⟩ := Nat.exists_eq_add_of_le' (Nat.one_le_of_lt hkm)
      exact fun y hy => ih (h y hy) (Nat.le_of_succ_le_succ hkm)

/-- A way on which the links are the same. -/
theorem Within.congr {k : ℕ} {x : α} (h : Within next k x)
    (hsame : ∀ y, Leads next x y → next' y = next y) : Within next' k x := by
  induction k generalizing x with
  | zero => exact (hsame x .refl).trans h
  | succ k ih =>
      intro y hy
      have hxy : next x = some y := (hsame x .refl).symm.trans hy
      exact ih (h y hxy) fun z hz => hsame z (hz.head hxy)

/-- No way is longer than there are items with a link. -/
theorem Acyclic.within (h : Acyclic next) (keys : Finset α)
    (hkeys : ∀ x y, next x = some y → x ∈ keys) (x : α) : Within next keys.card x := by
  classical
  let ahead : α → Finset α := fun x => keys.filter fun y => Leads next x y
  have hway : ∀ m x, (ahead x).card ≤ m → Within next m x := by
    intro m
    induction m with
    | zero =>
        intro x hx
        by_contra hsome
        obtain ⟨y, hy⟩ := Option.ne_none_iff_exists'.mp hsome
        have hmem : x ∈ ahead x := Finset.mem_filter.mpr ⟨hkeys x y hy, .refl⟩
        rw [Finset.card_eq_zero.mp (Nat.le_zero.mp hx)] at hmem
        exact absurd hmem (Finset.notMem_empty x)
    | succ m ih =>
        intro x hx y hy
        refine ih y (Nat.le_of_lt_succ (lt_of_lt_of_le (Finset.card_lt_card ?_) hx))
        refine Finset.ssubset_iff_of_subset (fun z hz => ?_) |>.mpr ⟨x, ?_, fun hback => ?_⟩
        · obtain ⟨hz, hyz⟩ := Finset.mem_filter.mp hz
          exact Finset.mem_filter.mpr ⟨hz, hyz.head hy⟩
        · exact Finset.mem_filter.mpr ⟨hkeys x y hy, .refl⟩
        · exact h x y hy (Finset.mem_filter.mp hback).2
  exact hway _ x (Finset.card_le_card (Finset.filter_subset _ _))

end LogRisk.Library.Links
