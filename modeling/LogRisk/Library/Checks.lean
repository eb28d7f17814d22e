import LogRisk.Library.Transaction

/-!
# Checks and the errors they raise

Inversion of checks made one after the other and of checks made in a loop, and a bound on the
errors that a computation can end in.
-/

namespace LogRisk.Library.Transaction

universe w

variable {ε : Type w} {α β : Type}

/-- The value of a computation that goes through. -/
theorem eq_ok_getD {x : Except ε α} (h : x.toOption.isSome = true) (d : α) :
    x = .ok (x.toOption.getD d) := by
  cases x with
  | ok a => rfl
  | error e => cases h

theorem eq_ok_of_toOption {x : Except ε α} {a : α} (h : x.toOption = some a) : x = .ok a := by
  cases x with
  | ok b => exact congrArg Except.ok (Option.some.inj h)
  | error e => cases h

/-- A check before the rest. -/
theorem check_bind_eq_ok {x : Except ε Unit} {y : Except ε β} {b : β} :
    (x >>= fun _ => y) = .ok b ↔ x = .ok () ∧ y = .ok b := by
  rw [bind_eq_ok]
  exact ⟨fun ⟨_, hx, hy⟩ => ⟨hx, hy⟩, fun ⟨hx, hy⟩ => ⟨(), hx, hy⟩⟩

/-- A loop over a list goes through where it does for every item. -/
theorem mapM_isOk_iff {f : α → Except ε β} {xs : List α} :
    (∃ ys, xs.mapM f = .ok ys) ↔ ∀ x ∈ xs, ∃ y, f x = .ok y := by
  induction xs with
  | nil => exact ⟨fun _ x hx => absurd hx List.not_mem_nil, fun _ => ⟨[], rfl⟩⟩
  | cons x xs ih =>
      rw [List.forall_mem_cons, ← ih]
      simp only [mapM_eq_ok, List.forall₂_cons_left_iff]
      constructor
      · rintro ⟨_, y, rest, hy, hrest, -⟩
        exact ⟨⟨y, hy⟩, rest, hrest⟩
      · rintro ⟨⟨y, hy⟩, rest, hrest⟩
        exact ⟨y :: rest, y, rest, hy, hrest, rfl⟩

theorem forM_eq_ok {f : α → Except ε Unit} {xs : List α} :
    xs.forM f = .ok () ↔ ∀ x ∈ xs, f x = .ok () := by
  induction xs with
  | nil => exact ⟨fun _ x hx => absurd hx List.not_mem_nil, fun _ => rfl⟩
  | cons x xs ih =>
      have hcons : (x :: xs).forM f = (f x >>= fun _ => xs.forM f) := rfl
      rw [hcons, bind_eq_ok, List.forall_mem_cons, ← ih]
      exact ⟨fun ⟨_, hx, hxs⟩ => ⟨hx, hxs⟩, fun ⟨hx, hxs⟩ => ⟨(), hx, hxs⟩⟩

/-! ## Errors -/

/-- Whatever error a computation ends in is one of `E`. -/
def Raises (E : ε → Prop) (x : Except ε α) : Prop := ∀ e, x = .error e → E e

theorem Raises.pure {E : ε → Prop} (a : α) : Raises E (pure a : Except ε α) := by
  intro e h
  cases h

theorem Raises.error {E : ε → Prop} {e : ε} (he : E e) : Raises E (.error e : Except ε α) := by
  intro e' h
  cases h
  exact he

theorem Raises.bind {E : ε → Prop} {x : Except ε α} {f : α → Except ε β} (hx : Raises E x)
    (hf : ∀ a, x = .ok a → Raises E (f a)) : Raises E (x >>= f) := by
  cases x with
  | ok a => exact hf a rfl
  | error e => exact .error (hx e rfl)

theorem Raises.require {E : ε → Prop} {p : Prop} [Decidable p] {e : ε} (he : E e) :
    Raises E (require p e) := by
  unfold Transaction.require
  split
  · exact .pure ()
  · exact .error he

theorem Raises.orFail {E : ε → Prop} {x : Option α} {e : ε} (he : E e) :
    Raises E (orFail x e) := by
  cases x with
  | some a => exact .pure a
  | none => exact .error he

theorem Raises.forM {E : ε → Prop} {f : α → Except ε Unit} {xs : List α}
    (hf : ∀ x ∈ xs, Raises E (f x)) : Raises E (xs.forM f) := by
  induction xs with
  | nil => exact .pure ()
  | cons x xs ih =>
      have hcons : (x :: xs).forM f = (f x >>= fun _ => xs.forM f) := rfl
      rw [hcons]
      refine (hf x List.mem_cons_self).bind fun _ _ => ?_
      exact ih fun x' hx' => hf x' (List.mem_cons_of_mem x hx')

theorem Raises.mapM {E : ε → Prop} {f : α → Except ε β} {xs : List α}
    (hf : ∀ x ∈ xs, Raises E (f x)) : Raises E (xs.mapM f) := by
  induction xs with
  | nil => exact .pure []
  | cons x xs ih =>
      rw [List.mapM_cons]
      refine (hf x List.mem_cons_self).bind fun y _ => ?_
      refine (ih fun x' hx' => hf x' (List.mem_cons_of_mem x hx')).bind fun rest _ => ?_
      exact .pure _

end LogRisk.Library.Transaction
