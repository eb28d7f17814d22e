import Mathlib.Data.Nat.Notation
import Mathlib.Logic.Basic
import Mathlib.Tactic.Basic
import Mathlib.Tactic.SplitIfs

/-!
# Programs that act on shared state

A program ends with a value or an exception, or performs an action on the shared state
and goes on with its answer.  Between two actions of a program others may act.
`Upholds` says what a program does under such interference: `rely` bounds what the
others do, `does` is the meaning of the actions, `guar` is what every action of the
program satisfies, and `good` and `bad` hold where it returns or raises.
-/

namespace LogRisk.Library

variable {Act : Type} {Ans : Act → Type} {ε α β S : Type}

inductive Program (Act : Type) (Ans : Act → Type) (ε α : Type) where
  | done (result : Except ε α)
  | act (a : Act) (next : Except ε (Ans a) → Program Act Ans ε α)

namespace Program

protected def bind (p : Program Act Ans ε α) (f : α → Program Act Ans ε β) :
    Program Act Ans ε β :=
  match p with
  | .done (.ok x) => f x
  | .done (.error e) => .done (.error e)
  | .act a next => .act a fun r => (next r).bind f

protected def tryCatch (p : Program Act Ans ε α) (handler : ε → Program Act Ans ε α) :
    Program Act Ans ε α :=
  match p with
  | .done (.ok x) => .done (.ok x)
  | .done (.error e) => handler e
  | .act a next => .act a fun r => (next r).tryCatch handler

instance : Monad (Program Act Ans ε) where
  pure x := .done (.ok x)
  bind := Program.bind

instance : MonadExceptOf ε (Program Act Ans ε) where
  throw e := .done (.error e)
  tryCatch := Program.tryCatch

/-- One action, with its answer or its exception. -/
def call (a : Act) : Program Act Ans ε (Ans a) := .act a .done

/-! ## Interference -/

variable (rely : S → S → Prop)
variable (does guar : (a : Act) → S → Except ε (Ans a) → S → Prop)

def Upholds (good : α → S → Prop) (bad : ε → S → Prop) : Program Act Ans ε α → S → Prop
  | .done (.ok x), s => ∀ t, rely s t → good x t
  | .done (.error e), s => ∀ t, rely s t → bad e t
  | .act a next, s => ∀ t, rely s t → ∀ r t', does a t r t' →
      guar a t r t' ∧ (next r).Upholds good bad t'

variable {rely does guar} {good good' : α → S → Prop} {bad bad' : ε → S → Prop}

theorem upholds_pure {x : α} {s : S} (h : ∀ t, rely s t → good x t) :
    (pure x : Program Act Ans ε α).Upholds rely does guar good bad s := h

theorem upholds_throw {e : ε} {s : S} (h : ∀ t, rely s t → bad e t) :
    (throw e : Program Act Ans ε α).Upholds rely does guar good bad s := h

/-- What a program upholds it upholds after the others have acted. -/
theorem Upholds.stable (htrans : ∀ s t u, rely s t → rely t u → rely s u)
    {p : Program Act Ans ε α} {s t : S} (hp : p.Upholds rely does guar good bad s)
    (ht : rely s t) : p.Upholds rely does guar good bad t := by
  match p with
  | .done (.ok _) => exact fun u hu => hp u (htrans _ _ _ ht hu)
  | .done (.error _) => exact fun u hu => hp u (htrans _ _ _ ht hu)
  | .act _ _ => exact fun u hu => hp u (htrans _ _ _ ht hu)

theorem Upholds.mono {p : Program Act Ans ε α} (hgood : ∀ x t, good x t → good' x t)
    (hbad : ∀ e t, bad e t → bad' e t) {s : S}
    (hp : p.Upholds rely does guar good bad s) : p.Upholds rely does guar good' bad' s := by
  induction p generalizing s with
  | done r =>
      cases r with
      | ok x => exact fun t ht => hgood _ _ (hp t ht)
      | error e => exact fun t ht => hbad _ _ (hp t ht)
  | act a next ih =>
      intro t ht r t' hr
      obtain ⟨hguar, hnext⟩ := hp t ht r t' hr
      exact ⟨hguar, ih r hnext⟩

/-- Where also the actions of the program are such as it relies on of the others, what
these leave alone holds at its end. -/
theorem Upholds.frame (keeps : S → Prop) (hdoes : ∀ a s r s', does a s r s' → rely s s')
    (hrely : ∀ s t, rely s t → keeps s → keeps t) {p : Program Act Ans ε α} {s : S}
    (hp : p.Upholds rely does guar good bad s) (hs : keeps s) :
    p.Upholds rely does guar (fun x t => good x t ∧ keeps t) (fun e t => bad e t ∧ keeps t) s := by
  induction p generalizing s with
  | done r =>
      cases r with
      | ok x => exact fun t ht => ⟨hp t ht, hrely _ _ ht hs⟩
      | error e => exact fun t ht => ⟨hp t ht, hrely _ _ ht hs⟩
  | act a next ih =>
      intro t ht r t' hr
      obtain ⟨hguar, hnext⟩ := hp t ht r t' hr
      exact ⟨hguar, ih r hnext (hrely _ _ (hdoes _ _ _ _ hr) (hrely _ _ ht hs))⟩

section Sequence

variable {after : β → S → Prop}

theorem Upholds.bind (hrefl : ∀ s, rely s s) {p : Program Act Ans ε α}
    {f : α → Program Act Ans ε β} {s : S}
    (hp : p.Upholds rely does guar
      (fun x t => (f x).Upholds rely does guar after bad t) bad s) :
    (p >>= f).Upholds rely does guar after bad s := by
  induction p generalizing s with
  | done r =>
      cases r with
      | ok x => exact hp s (hrefl s)
      | error e => exact hp
  | act a next ih =>
      intro t ht r t' hr
      obtain ⟨hguar, hnext⟩ := hp t ht r t' hr
      exact ⟨hguar, ih r hnext⟩

theorem Upholds.tryCatch (hrefl : ∀ s, rely s s) {p : Program Act Ans ε α}
    {handler : ε → Program Act Ans ε α} {s : S}
    (hp : p.Upholds rely does guar good
      (fun e t => (handler e).Upholds rely does guar good bad t) s) :
    (MonadExcept.tryCatch p handler).Upholds rely does guar good bad s := by
  change (p.tryCatch handler).Upholds rely does guar good bad s
  induction p generalizing s with
  | done r =>
      cases r with
      | ok x => exact hp
      | error e => exact hp s (hrefl s)
  | act a next ih =>
      intro t ht r t' hr
      obtain ⟨hguar, hnext⟩ := hp t ht r t' hr
      exact ⟨hguar, ih r hnext⟩

/-- An action and what follows it. -/
theorem upholds_call_bind {a : Act} {f : Ans a → Program Act Ans ε β} {s : S}
    (h : ∀ t, rely s t → ∀ r t', does a t r t' → guar a t r t' ∧
      match r with
      | .ok x => (f x).Upholds rely does guar after bad t'
      | .error e => ∀ u, rely t' u → bad e u) :
    (call a >>= f).Upholds rely does guar after bad s := by
  intro t ht r t' hr
  obtain ⟨hguar, hnext⟩ := h t ht r t' hr
  refine ⟨hguar, ?_⟩
  cases r with
  | ok x => exact hnext
  | error e => exact hnext

end Sequence

/-! ## How often a program acts -/

/-- The actions on some way through the program, up to some point. -/
inductive Performs : Program Act Ans ε α → List Act → Prop
  | nil {p : Program Act Ans ε α} : Performs p []
  | cons {a : Act} {next : Except ε (Ans a) → Program Act Ans ε α} {r : Except ε (Ans a)}
      {acts : List Act} (h : Performs (next r) acts) : Performs (.act a next) (a :: acts)

/-- An allowance for the actions that count: each takes one. -/
def spends (counts : Act → Bool) (a : Act) (n : ℕ) (_ : Except ε (Ans a)) (n' : ℕ) : Prop :=
  n' = if counts a then n - 1 else n

/-- The program does with the allowance; `good` and `bad` say what is left of it. -/
def Affords (counts : Act → Bool) (good : α → ℕ → Prop) (bad : ε → ℕ → Prop)
    (p : Program Act Ans ε α) (n : ℕ) : Prop :=
  p.Upholds Eq (spends counts) (fun a n _ _ => counts a = true → 0 < n) good bad n

theorem Affords.bind {counts : Act → Bool} {good : β → ℕ → Prop} {bad : ε → ℕ → Prop}
    {p : Program Act Ans ε α} {f : α → Program Act Ans ε β} {n : ℕ}
    (hp : p.Affords counts (fun x m => (f x).Affords counts good bad m) bad n) :
    (p >>= f).Affords counts good bad n := by
  exact Upholds.bind (fun _ => rfl) hp

theorem Affords.tryCatch {counts : Act → Bool} {good : α → ℕ → Prop} {bad : ε → ℕ → Prop}
    {p : Program Act Ans ε α} {handler : ε → Program Act Ans ε α} {n : ℕ}
    (hp : p.Affords counts good (fun e m => (handler e).Affords counts good bad m) n) :
    (MonadExcept.tryCatch p handler).Affords counts good bad n := by
  exact Upholds.tryCatch (fun _ => rfl) hp

theorem Affords.count_le {counts : Act → Bool} {good : α → ℕ → Prop} {bad : ε → ℕ → Prop}
    {p : Program Act Ans ε α} {acts : List Act} (hacts : p.Performs acts) {n : ℕ}
    (h : p.Affords counts good bad n) : acts.countP counts ≤ n := by
  induction hacts generalizing n with
  | nil => exact Nat.zero_le n
  | @cons a next r acts _ ih =>
      obtain ⟨hallowed, hnext⟩ := h n rfl r _ rfl
      have hrest := ih hnext
      rw [List.countP_cons]
      split_ifs with hcounts
      · have hpos := hallowed hcounts
        rw [if_pos hcounts] at hrest
        omega
      · rw [if_neg hcounts] at hrest
        omega

/-! ## Which actions a program performs -/

/-- Every action that the program performs satisfies `only`. -/
def Uses (only : Act → Prop) : Program Act Ans ε α → Prop
  | .done _ => True
  | .act a next => only a ∧ ∀ r, (next r).Uses only

variable {only only' : Act → Prop}

@[simp] theorem uses_pure (x : α) : (pure x : Program Act Ans ε α).Uses only := trivial

@[simp] theorem uses_throw (e : ε) : (throw e : Program Act Ans ε α).Uses only := trivial

@[simp] theorem uses_call (a : Act) : (call a : Program Act Ans ε (Ans a)).Uses only ↔ only a :=
  ⟨fun h => h.1, fun h => ⟨h, fun _ => trivial⟩⟩

theorem Uses.bind {p : Program Act Ans ε α} {f : α → Program Act Ans ε β} (hp : p.Uses only)
    (hf : ∀ x, (f x).Uses only) : (p >>= f).Uses only := by
  induction p with
  | done r =>
      cases r with
      | ok x => exact hf x
      | error e => exact trivial
  | act a next ih => exact ⟨hp.1, fun r => ih r (hp.2 r)⟩

theorem Uses.tryCatch {p : Program Act Ans ε α} {handler : ε → Program Act Ans ε α}
    (hp : p.Uses only) (hh : ∀ e, (handler e).Uses only) :
    (MonadExcept.tryCatch p handler).Uses only := by
  change (p.tryCatch handler).Uses only
  induction p with
  | done r =>
      cases r with
      | ok x => exact trivial
      | error e => exact hh e
  | act a next ih => exact ⟨hp.1, fun r => ih r (hp.2 r)⟩

/-- An assertion that neither the others nor the actions of a program touch holds at its
end as at its beginning. -/
theorem Uses.upholds {P : S → Prop} {p : Program Act Ans ε α}
    (hrely : ∀ s t, rely s t → P s → P t)
    (hact : ∀ a s r s', only a → P s → does a s r s' → guar a s r s' ∧ P s')
    (hp : p.Uses only) {s : S} (hs : P s) :
    p.Upholds rely does guar (fun _ => P) (fun _ => P) s := by
  induction p generalizing s with
  | done r =>
      cases r with
      | ok x => exact fun t ht => hrely _ _ ht hs
      | error e => exact fun t ht => hrely _ _ ht hs
  | act a next ih =>
      intro t ht r t' hr
      have hact := hact a t r t' hp.1 (hrely _ _ ht hs) hr
      exact ⟨hact.1, ih r (hp.2 r) hact.2⟩

/-- A part that does not touch an assertion, and what follows it. -/
theorem Uses.upholds_bind {keeps : S → Prop} {after : β → S → Prop} {p : Program Act Ans ε α}
    {f : α → Program Act Ans ε β} (hrefl : ∀ s, rely s s)
    (hrely : ∀ s t, rely s t → keeps s → keeps t)
    (hact : ∀ a s r s', only a → keeps s → does a s r s' → guar a s r s' ∧ keeps s')
    (hbad : ∀ e t, keeps t → bad e t) (hp : p.Uses only) {s : S} (hs : keeps s)
    (hf : ∀ x t, keeps t → (f x).Upholds rely does guar after bad t) :
    (p >>= f).Upholds rely does guar after bad s :=
  Upholds.bind hrefl ((hp.upholds hrely hact hs).mono hf hbad)

end Program

end LogRisk.Library
