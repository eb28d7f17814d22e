import Mathlib.Data.List.Basic

/-!
# Lines that keep their end marks

A list is cut behind every end mark; what is left behind the last one is a line
without an end mark.  Joined again the lines are the list, and a list that ends at
a mark can be split apart from what follows it.
-/

namespace LogRisk.Library.Lines

universe u

variable {α : Type u} (isEnd : α → Bool)

def split : List α → List (List α)
  | [] => []
  | x :: xs =>
      if isEnd x then [x] :: split xs
      else
        match split xs with
        | [] => [[x]]
        | line :: rest => (x :: line) :: rest

/-- Empty, or ending at a mark. -/
def Closed (xs : List α) : Prop := ∀ x ∈ xs.getLast?, isEnd x = true

instance (xs : List α) : Decidable (Closed isEnd xs) :=
  inferInstanceAs (Decidable (∀ x ∈ xs.getLast?, _))

variable {isEnd}

theorem closed_nil : Closed isEnd [] := fun x hx => by cases hx

theorem Closed.tail {x : α} {xs : List α} (h : Closed isEnd (x :: xs)) : Closed isEnd xs := by
  intro y hy
  refine h y ?_
  cases xs with
  | nil => cases hy
  | cons z zs => rwa [List.getLast?_cons_cons]

theorem Closed.append {xs ys : List α} (hxs : Closed isEnd xs) (hys : Closed isEnd ys) :
    Closed isEnd (xs ++ ys) := by
  intro x hx
  rw [List.getLast?_append] at hx
  cases hy : ys.getLast? with
  | none => exact hxs x (by simpa [hy] using hx)
  | some y => exact hys x (by simpa [hy] using hx)

theorem flatten_split (xs : List α) : (split isEnd xs).flatten = xs := by
  induction xs with
  | nil => rfl
  | cons x xs ih =>
      rw [split]
      split
      · rw [List.flatten_cons, ih, List.singleton_append]
      · split
        · rename_i hnil
          rw [hnil] at ih
          simp [← ih]
        · rename_i line rest hcons
          rw [hcons, List.flatten_cons] at ih
          rw [List.flatten_cons, List.cons_append, ih]

theorem split_ne_nil {xs : List α} (h : xs ≠ []) : split isEnd xs ≠ [] := by
  intro hnil
  have hjoin : (split isEnd xs).flatten = xs := flatten_split xs
  rw [hnil] at hjoin
  exact h hjoin.symm

/-- What follows a closed list is split on its own. -/
theorem split_append {xs : List α} (h : Closed isEnd xs) (ys : List α) :
    split isEnd (xs ++ ys) = split isEnd xs ++ split isEnd ys := by
  induction xs with
  | nil => rfl
  | cons x xs ih =>
      have ih := ih h.tail
      rw [List.cons_append, split, split, ih]
      by_cases hx : isEnd x = true
      · rw [if_pos hx, if_pos hx, List.cons_append]
      · rw [if_neg hx, if_neg hx]
        have hne : xs ≠ [] := by
          rintro rfl
          exact hx (h x rfl)
        have hlines : split isEnd xs ≠ [] := split_ne_nil hne
        obtain ⟨line, rest, hsplit⟩ := List.exists_cons_of_ne_nil hlines
        rw [hsplit]
        rfl

/-- The first line, apart from the others. -/
theorem split_eq_cons {xs line : List α} {rest : List (List α)}
    (h : split isEnd xs = line :: rest) :
    xs = line ++ rest.flatten ∧ split isEnd line = [line] ∧ split isEnd rest.flatten = rest ∧
      (rest ≠ [] → Closed isEnd line) := by
  induction xs generalizing line rest with
  | nil => cases h
  | cons x xs ih =>
      rw [split] at h
      by_cases hx : isEnd x = true
      · rw [if_pos hx] at h
        obtain ⟨rfl, rfl⟩ := List.cons.inj h
        refine ⟨by rw [flatten_split]; rfl, by simp [split, hx], by rw [flatten_split], fun _ => ?_⟩
        intro y hy
        obtain rfl := Option.some.inj hy
        exact hx
      · rw [if_neg hx] at h
        split at h
        · rename_i hnil
          obtain ⟨rfl, rfl⟩ := List.cons.inj h
          have hxs : xs = [] := by
            by_contra hne
            exact split_ne_nil hne hnil
          refine ⟨by rw [hxs]; rfl, by simp [split, hx], rfl, fun hne => absurd rfl hne⟩
        · rename_i first others hcons
          obtain ⟨rfl, rfl⟩ := List.cons.inj h
          obtain ⟨hxs, hfirst, hothers, hclosed⟩ := ih hcons
          refine ⟨by rw [List.cons_append, ← hxs], by simp [split, hx, hfirst], hothers, ?_⟩
          intro hne y hy
          refine hclosed hne y ?_
          cases first with
          | nil => cases hfirst
          | cons z zs => rwa [List.getLast?_cons_cons] at hy

/-- Some lines, apart from the others. -/
theorem split_eq_append {xs : List α} {front back : List (List α)}
    (h : split isEnd xs = front ++ back) :
    xs = front.flatten ++ back.flatten ∧ split isEnd front.flatten = front ∧
      (back ≠ [] → Closed isEnd front.flatten) := by
  induction front generalizing xs with
  | nil =>
      refine ⟨?_, rfl, fun _ => closed_nil⟩
      rw [← h.trans (List.nil_append back), flatten_split]
      rfl
  | cons line front ih =>
      obtain ⟨hxs, hline, hrest, hclosed⟩ := split_eq_cons h
      obtain ⟨hjoin, hfront, hfrontClosed⟩ := ih hrest
      refine ⟨by rw [hxs, hjoin, List.flatten_cons, List.append_assoc], ?_, fun hne => ?_⟩
      · by_cases hempty : front = []
        · subst hempty
          simpa using hline
        · rw [List.flatten_cons, split_append (hclosed fun hnil => hempty (List.append_eq_nil_iff.mp hnil).1),
            hline, hfront]
          rfl
      · exact (hclosed fun hnil => hne (List.append_eq_nil_iff.mp hnil).2).append (hfrontClosed hne)

theorem split_flatten_back {xs : List α} {front back : List (List α)}
    (h : split isEnd xs = front ++ back) : split isEnd back.flatten = back := by
  by_cases hback : back = []
  · rw [hback]
    rfl
  · obtain ⟨hxs, hfront, hclosed⟩ := split_eq_append h
    rw [hxs, split_append (hclosed hback), hfront] at h
    exact List.append_cancel_left h

/-- A line without an end mark is continued by the first line of what follows. -/
theorem split_append_line {line : List α} (hline : split isEnd line = [line])
    (hopen : ¬Closed isEnd line) {ys first : List α} {rest : List (List α)}
    (hys : split isEnd ys = first :: rest) :
    split isEnd (line ++ ys) = (line ++ first) :: rest := by
  induction line with
  | nil => cases hline
  | cons x xs ih =>
      rw [split] at hline
      by_cases hx : isEnd x = true
      · rw [if_pos hx] at hline
        obtain ⟨hsingle, -⟩ := List.cons.inj hline
        refine absurd ?_ hopen
        rw [← hsingle]
        intro y hy
        obtain rfl := Option.some.inj hy
        exact hx
      · rw [List.cons_append, split, if_neg hx]
        rw [if_neg hx] at hline
        cases hxs : xs with
        | nil => rw [List.nil_append, hys]; rfl
        | cons z zs =>
            rw [← hxs]
            have hxsplit : split isEnd xs = [xs] := by
              split at hline
              · rename_i hnil
                exact absurd hnil (split_ne_nil (by rw [hxs]; exact List.cons_ne_nil z zs))
              · rename_i l ls hcons
                obtain ⟨heq, rfl⟩ := List.cons.inj hline
                rw [hcons, (List.cons.inj heq).2]
            have hxopen : ¬Closed isEnd xs := by
              intro hclosed
              refine hopen fun y hy => hclosed y ?_
              rw [hxs] at hy ⊢
              rwa [List.getLast?_cons_cons] at hy
            rw [ih hxsplit hxopen]
            rfl

end LogRisk.Library.Lines
