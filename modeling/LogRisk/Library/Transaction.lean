import Mathlib.Data.List.Forall2
import Mathlib.Logic.Relation
import Mathlib.Tactic.Basic

/-!
# Transactions and runs

A transaction is a function on a state that either fails, in which case nothing
is written, or returns a value together with the next state.  A run is a list of
inputs fed to such a function; a nondeterministic system is a step relation.
Both come with one induction rule each, so that an invariant is proved for a
single step only.
-/

namespace LogRisk.Library.Transaction

universe u v w

variable {σ : Type u} {ι : Type v} {ε : Type w} {α β : Type}

/-! ## Guards and inversion -/

/-- Fail with `err` unless `p` holds. -/
def require (p : Prop) [Decidable p] (err : ε) : Except ε Unit :=
  if p then .ok () else .error err

/-- The value of an option, or the failure `err`. -/
def orFail (x : Option α) (err : ε) : Except ε α :=
  match x with
  | some a => .ok a
  | none => .error err

theorem bind_eq_ok {x : Except ε α} {f : α → Except ε β} {b : β} :
    (x >>= f) = .ok b ↔ ∃ a, x = .ok a ∧ f a = .ok b := by
  cases x <;> simp [bind, Except.bind]

theorem pure_eq_ok {a b : α} : (pure a : Except ε α) = .ok b ↔ a = b := by
  simp [pure, Except.pure]

@[simp] theorem require_eq_ok {p : Prop} [Decidable p] {err : ε} {u : Unit} :
    require p err = .ok u ↔ p := by
  unfold require
  split <;> simp_all

@[simp] theorem require_of {p : Prop} [Decidable p] {err : ε} (hp : p) :
    require p err = .ok () := if_pos hp

@[simp] theorem require_of_not {p : Prop} [Decidable p] {err : ε} (hp : ¬p) :
    require p err = .error err := if_neg hp

@[simp] theorem orFail_eq_ok {x : Option α} {err : ε} {a : α} :
    orFail x err = .ok a ↔ x = some a := by
  cases x <;> simp [orFail]

/-- Peel one guard off a monadic computation. -/
theorem require_bind_eq_ok {p : Prop} [Decidable p] {err : ε} {f : Unit → Except ε β} {b : β} :
    (require p err >>= f) = .ok b ↔ p ∧ f () = .ok b := by
  simp only [bind_eq_ok, require_eq_ok]
  constructor
  · rintro ⟨_, hp, hf⟩
    exact ⟨hp, hf⟩
  · rintro ⟨hp, hf⟩
    exact ⟨(), hp, hf⟩

/-- Peel one lookup off a monadic computation. -/
theorem orFail_bind_eq_ok {x : Option α} {err : ε} {f : α → Except ε β} {b : β} :
    (orFail x err >>= f) = .ok b ↔ ∃ a, x = some a ∧ f a = .ok b := by
  simp only [bind_eq_ok, orFail_eq_ok]

/-! ## Failing loops -/

/-- A loop that may fail: what every step carries on from the items seen so far holds
of all of them in the end. -/
theorem foldlM_invariant {step : β → α → Except ε β} {I : List α → β → Prop}
    (hstep : ∀ seen x s s', I seen s → step s x = .ok s' → I (seen ++ [x]) s')
    {seen xs : List α} {s s' : β} (hs : I seen s) (h : xs.foldlM step s = .ok s') :
    I (seen ++ xs) s' := by
  induction xs generalizing seen s with
  | nil =>
      rw [List.foldlM_nil] at h
      obtain rfl := pure_eq_ok.mp h
      rwa [List.append_nil]
  | cons x xs ih =>
      rw [List.foldlM_cons] at h
      obtain ⟨next, hnext, h⟩ := bind_eq_ok.mp h
      rw [List.append_cons]
      exact ih (hstep seen x s next hs hnext) h

/-- A loop over a list yields one result for each item. -/
theorem mapM_eq_ok {f : α → Except ε β} {xs : List α} {ys : List β} :
    xs.mapM f = .ok ys ↔ List.Forall₂ (fun x y => f x = .ok y) xs ys := by
  induction xs generalizing ys with
  | nil =>
      rw [List.mapM_nil, pure_eq_ok, List.forall₂_nil_left_iff]
      exact eq_comm
  | cons x xs ih =>
      rw [List.mapM_cons, List.forall₂_cons_left_iff, bind_eq_ok]
      constructor
      · rintro ⟨y, hy, h⟩
        obtain ⟨rest, hrest, h⟩ := bind_eq_ok.mp h
        exact ⟨y, rest, hy, ih.mp hrest, (pure_eq_ok.mp h).symm⟩
      · rintro ⟨y, rest, hy, hrest, rfl⟩
        exact ⟨y, hy, bind_eq_ok.mpr ⟨rest, ih.mpr hrest, rfl⟩⟩

theorem exists_of_mem_results {R : α → β → Prop} {xs : List α} {ys : List β}
    (h : List.Forall₂ R xs ys) {y : β} (hy : y ∈ ys) : ∃ x, (x, y) ∈ xs.zip ys ∧ R x y := by
  induction h with
  | nil => exact absurd hy List.not_mem_nil
  | cons hxy _ ih =>
      rw [List.zip_cons_cons]
      rcases List.mem_cons.mp hy with rfl | hy
      · exact ⟨_, List.mem_cons_self, hxy⟩
      · obtain ⟨x, hx, hR⟩ := ih hy
        exact ⟨x, List.mem_cons_of_mem _ hx, hR⟩

/-! ## Commit and rollback -/

/-- The state after a transaction started in `s`: a failed one is rolled back. -/
def settled (s : σ) : Except ε (α × σ) → σ
  | .ok r => r.2
  | .error _ => s

@[simp] theorem settled_ok (s : σ) (r : α × σ) : settled s (.ok r : Except ε (α × σ)) = r.2 := rfl

@[simp] theorem settled_error (s : σ) (e : ε) : settled s (.error e : Except ε (α × σ)) = s := rfl

/-- What holds of the old state and of every state a success can leave holds
after the transaction. -/
theorem settled_induction {P : σ → Prop} {s : σ} {r : Except ε (α × σ)} (hs : P s)
    (hok : ∀ a s', r = .ok (a, s') → P s') : P (settled s r) := by
  cases r with
  | error e => exact hs
  | ok r => exact hok r.1 r.2 rfl

/-! ## Deterministic runs -/

section Runs

variable (step : σ → ι → σ)

/-- The state after the inputs of a run. -/
def exec (s : σ) (is : List ι) : σ := is.foldl step s

@[simp] theorem exec_nil (s : σ) : exec step s [] = s := rfl

@[simp] theorem exec_cons (s : σ) (i : ι) (is : List ι) :
    exec step s (i :: is) = exec step (step s i) is := rfl

theorem exec_append (s : σ) (is js : List ι) :
    exec step s (is ++ js) = exec step (exec step s is) js := List.foldl_append

/-- Every input of the run meets `P` in the state it arrives in. -/
def Along (P : σ → ι → Prop) : σ → List ι → Prop
  | _, [] => True
  | s, i :: is => P s i ∧ Along P (step s i) is

instance instDecidableAlong {P : σ → ι → Prop} [∀ s i, Decidable (P s i)] :
    (s : σ) → (is : List ι) → Decidable (Along step P s is)
  | _, [] => isTrue trivial
  | s, i :: is =>
      letI : Decidable (Along step P (step s i) is) := instDecidableAlong _ is
      inferInstanceAs (Decidable (P s i ∧ Along step P (step s i) is))

variable {step}

theorem Along.imp {P Q : σ → ι → Prop} (himp : ∀ s i, P s i → Q s i) {s : σ} {is : List ι}
    (hrun : Along step P s is) : Along step Q s is := by
  induction is generalizing s with
  | nil => trivial
  | cons i is ih => exact ⟨himp s i hrun.1, ih hrun.2⟩

theorem Along.of_forall {P : σ → ι → Prop} (h : ∀ s i, P s i) (s : σ) (is : List ι) :
    Along step P s is := by
  induction is generalizing s with
  | nil => trivial
  | cons i is ih => exact ⟨h s i, ih _⟩

/-- The run rule: an invariant that every step meeting `P` keeps holds at the
end of a run all of whose steps meet `P`. -/
theorem exec_invariant {P : σ → ι → Prop} {I : σ → Prop}
    (hstep : ∀ s i, I s → P s i → I (step s i)) {s : σ} {is : List ι}
    (hs : I s) (hrun : Along step P s is) : I (exec step s is) := by
  induction is generalizing s with
  | nil => exact hs
  | cons i is ih => exact ih (hstep s i hs hrun.1) hrun.2

/-- The same rule where every step keeps the invariant. -/
theorem exec_invariant' {I : σ → Prop} (hstep : ∀ s i, I s → I (step s i)) {s : σ}
    (hs : I s) (is : List ι) : I (exec step s is) := by
  induction is generalizing s with
  | nil => exact hs
  | cons i is ih => exact ih (hstep s i hs)

/-- A property that follows at every step from an invariant and a condition on
the step holds along every run that meets the condition. -/
theorem Along.of_invariant {P Q : σ → ι → Prop} {I : σ → Prop}
    (hstep : ∀ s i, I s → P s i → I (step s i)) (hQ : ∀ s i, I s → P s i → Q s i)
    {s : σ} {is : List ι} (hs : I s) (hrun : Along step P s is) : Along step Q s is := by
  induction is generalizing s with
  | nil => trivial
  | cons i is ih => exact ⟨hQ s i hs hrun.1, ih (hstep s i hs hrun.1) hrun.2⟩

/-- A preorder that every step climbs is climbed by the whole run. -/
theorem exec_mono {P : σ → ι → Prop} {R : σ → σ → Prop} (hrefl : ∀ s, R s s)
    (htrans : ∀ a b c, R a b → R b c → R a c) (hstep : ∀ s i, P s i → R s (step s i))
    {s : σ} {is : List ι} (hrun : Along step P s is) : R s (exec step s is) := by
  induction is generalizing s with
  | nil => exact hrefl s
  | cons i is ih => exact htrans _ _ _ (hstep s i hrun.1) (ih hrun.2)

end Runs

/-! ## Nondeterministic systems -/

/-- Initial states and a step relation. -/
structure System (σ : Type u) where
  Init : σ → Prop
  Step : σ → σ → Prop

/-- States some run of the system ends in. -/
def System.Reachable (S : System σ) (s : σ) : Prop :=
  ∃ s₀, S.Init s₀ ∧ Relation.ReflTransGen S.Step s₀ s

theorem System.Reachable.init {S : System σ} {s : σ} (h : S.Init s) : S.Reachable s :=
  ⟨s, h, .refl⟩

theorem System.Reachable.step {S : System σ} {s s' : σ} (h : S.Reachable s) (hs : S.Step s s') :
    S.Reachable s' := by
  obtain ⟨s₀, hinit, hrun⟩ := h
  exact ⟨s₀, hinit, hrun.tail hs⟩

/-- The run rule: what holds initially and is kept by every step holds in every
reachable state. -/
theorem System.Reachable.invariant {S : System σ} {I : σ → Prop} (hinit : ∀ s, S.Init s → I s)
    (hstep : ∀ s s', I s → S.Step s s' → I s') {s : σ} (h : S.Reachable s) : I s := by
  obtain ⟨s₀, h₀, hrun⟩ := h
  induction hrun with
  | refl => exact hinit s₀ h₀
  | tail _ hlast ih => exact hstep _ _ ih hlast

end LogRisk.Library.Transaction
