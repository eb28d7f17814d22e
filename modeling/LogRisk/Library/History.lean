import Mathlib.Data.List.Infix

/-!
# Histories

What has happened is kept as a list, oldest first, that only grows at its end.
`Preceded P` says of every entry what had happened before it.
-/

namespace LogRisk.Library

variable {α : Type}

/-- Every entry meets its condition on the entries before it. -/
def Preceded (P : List α → α → Prop) (log : List α) : Prop :=
  ∀ before x after, log = before ++ x :: after → P before x

variable {P : List α → α → Prop} {log : List α}

theorem preceded_nil : Preceded P [] := fun before x after h => by simp at h

theorem preceded_append_singleton {x : α} :
    Preceded P (log ++ [x]) ↔ Preceded P log ∧ P log x := by
  constructor
  · intro h
    exact ⟨fun before y after hlog => h before y (after ++ [x]) (by rw [hlog]; simp),
      h log x [] rfl⟩
  · rintro ⟨hlog, hx⟩ before y after h
    rcases List.eq_nil_or_concat after with rfl | ⟨rest, z, rfl⟩
    · obtain ⟨rfl, hxy⟩ := List.append_inj' h rfl
      rw [← List.singleton_inj.mp hxy]
      exact hx
    · rw [List.concat_eq_append, ← List.cons_append, ← List.append_assoc] at h
      exact hlog before y rest (List.append_inj' h rfl).1

theorem Preceded.append {x : α} (hlog : Preceded P log) (hx : P log x) :
    Preceded P (log ++ [x]) :=
  preceded_append_singleton.mpr ⟨hlog, hx⟩

end LogRisk.Library
