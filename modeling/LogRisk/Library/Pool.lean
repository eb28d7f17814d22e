import LogRisk.Library.Program
import Mathlib.Data.List.Pairwise
import Mathlib.Logic.Relation

/-!
# Pools of programs

A system tells which programs may start beside which others, what an action does to the
shared state, what happens where a program ends, and which of them may die together.
The programs of a pool take their actions in any order.

A contract gives every caller what it relies on and what its actions guarantee.  Where
no action of a caller breaks what the callers beside it rely on, every program of every
reachable pool keeps its contract.
-/

namespace LogRisk.Library

structure System (K Act : Type) (Ans : Act → Type) (ε ρ S : Type) where
  /-- The program of a caller. -/
  entry : K → Program Act Ans ε ρ
  /-- What an action of a caller answers and leaves. -/
  does : K → (a : Act) → S → Except ε (Ans a) → S → Prop
  /-- The caller may start beside the callers at work. -/
  start : K → List K → S → S → Prop
  /-- Where a program has ended, its caller leaves or goes on with another program. -/
  finish : K → Except ε ρ → S → Option (Program Act Ans ε ρ) → S → Prop
  /-- The callers that die at once. -/
  dies : (K → Bool) → S → S → Prop

structure Pool (K Act : Type) (Ans : Act → Type) (ε ρ S : Type) where
  state : S
  threads : List (K × Program Act Ans ε ρ)

variable {K Act : Type} {Ans : Act → Type} {ε ρ S : Type}

namespace System

variable (Y : System K Act Ans ε ρ S)

inductive Step : Pool K Act Ans ε ρ S → Pool K Act Ans ε ρ S → Prop
  | start {s s' threads} (k : K) (h : Y.start k (threads.map Prod.fst) s s') :
      Step ⟨s, threads⟩ ⟨s', threads ++ [(k, Y.entry k)]⟩
  | act {s s' before after k a next r} (h : Y.does k a s r s') :
      Step ⟨s, before ++ (k, .act a next) :: after⟩ ⟨s', before ++ (k, next r) :: after⟩
  | leave {s s' before after k r} (h : Y.finish k r s none s') :
      Step ⟨s, before ++ (k, .done r) :: after⟩ ⟨s', before ++ after⟩
  | again {s s' before after k r p} (h : Y.finish k r s (some p) s') :
      Step ⟨s, before ++ (k, .done r) :: after⟩ ⟨s', before ++ (k, p) :: after⟩
  | die {s s' threads} (gone : K → Bool) (h : Y.dies gone s s') :
      Step ⟨s, threads⟩ ⟨s', threads.filter fun x => !gone x.1⟩

abbrev Run : Pool K Act Ans ε ρ S → Pool K Act Ans ε ρ S → Prop := Relation.ReflTransGen Y.Step

/-- The pools that a run reaches. -/
abbrev Reachable (first : Pool K Act Ans ε ρ S) : Type := { c // Y.Run first c }

/-! ## Runs that are computed -/

section Turns

variable (ask : K → (a : Act) → S → Except ε (Ans a) × S)

/-- The thread at a place performs its next action. -/
def turn (c : Pool K Act Ans ε ρ S) (i : ℕ) : Pool K Act Ans ε ρ S :=
  match c.threads[i]? with
  | some (k, .act a next) =>
      ⟨(ask k a c.state).2, c.threads.set i (k, next (ask k a c.state).1)⟩
  | _ => c

def turns (c : Pool K Act Ans ε ρ S) (order : List ℕ) : Pool K Act Ans ε ρ S :=
  order.foldl (turn ask) c

variable {ask} {Y}

theorem run_turn (hask : ∀ k a s, Y.does k a s (ask k a s).1 (ask k a s).2)
    (c : Pool K Act Ans ε ρ S) (i : ℕ) : Y.Run c (turn ask c i) := by
  unfold turn
  split
  · rename_i k a next hi
    obtain ⟨hlt, hget⟩ := List.getElem?_eq_some_iff.mp hi
    have hsplit : c.threads = c.threads.take i ++ (k, .act a next) :: c.threads.drop (i + 1) := by
      rw [← hget, List.getElem_cons_drop, List.take_append_drop]
    have hset : c.threads.set i (k, next (ask k a c.state).1) =
        c.threads.take i ++ (k, next (ask k a c.state).1) :: c.threads.drop (i + 1) :=
      List.set_eq_take_append_cons_drop.trans (if_pos hlt)
    rw [hset]
    have hstep : Y.Step
        ⟨c.state, c.threads.take i ++ (k, .act a next) :: c.threads.drop (i + 1)⟩
        ⟨(ask k a c.state).2,
          c.threads.take i ++ (k, next (ask k a c.state).1) :: c.threads.drop (i + 1)⟩ :=
      .act (hask k a c.state)
    rw [← hsplit] at hstep
    exact .single hstep
  · exact .refl

theorem run_turns (hask : ∀ k a s, Y.does k a s (ask k a s).1 (ask k a s).2)
    (c : Pool K Act Ans ε ρ S) (order : List ℕ) : Y.Run c (turns ask c order) := by
  induction order generalizing c with
  | nil => exact .refl
  | cons i order ih => exact (run_turn hask c i).trans (ih (turn ask c i))

end Turns

/-! ## Systems that anyone may enter and leave -/

/-- Every caller may start and may die at any time, and neither leaves a trace. -/
def unrestricted (entry : K → Program Act Ans ε ρ)
    (does : K → (a : Act) → S → Except ε (Ans a) → S → Prop) : System K Act Ans ε ρ S where
  entry := entry
  does := does
  start _ _ s s' := s' = s
  finish _ _ s next s' := next = none ∧ s' = s
  dies _ s s' := s' = s

variable {entry : K → Program Act Ans ε ρ}
  {does : K → (a : Act) → S → Except ε (Ans a) → S → Prop} {c c' : Pool K Act Ans ε ρ S}

/-- What every action does to the state a run does. -/
theorem unrestricted_run {R : S → S → Prop} (hrefl : ∀ s, R s s)
    (htrans : ∀ s t u, R s t → R t u → R s u) (hdoes : ∀ k a s r s', does k a s r s' → R s s')
    (h : (unrestricted entry does).Run c c') : R c.state c'.state := by
  induction h with
  | refl => exact hrefl _
  | tail _ hstep ih =>
      refine htrans _ _ _ ih ?_
      cases hstep with
      | start k h => exact h ▸ hrefl _
      | act h => exact hdoes _ _ _ _ _ h
      | leave h => exact h.2 ▸ hrefl _
      | again h => cases h.1
      | die gone h => exact h ▸ hrefl _

/-- Every thread performs only what its caller's program performs. -/
theorem unrestricted_uses {only : K → Act → Prop} (hentry : ∀ k, (entry k).Uses (only k))
    (h : (unrestricted entry does).Run c c') (hc : ∀ x ∈ c.threads, x.2.Uses (only x.1)) :
    ∀ x ∈ c'.threads, x.2.Uses (only x.1) := by
  induction h with
  | refl => exact hc
  | tail _ hstep ih =>
      intro x hx
      cases hstep with
      | start k h =>
          rcases List.mem_append.mp hx with hx | hx
          · exact ih x hx
          · rw [List.mem_singleton.mp hx]
            exact hentry k
      | @act _ _ before after k a next r h =>
          rcases List.mem_append.mp hx with hx | hx
          · exact ih x (List.mem_append_left _ hx)
          · rcases List.mem_cons.mp hx with rfl | hx
            · exact (ih (k, .act a next) (List.mem_append_right _ List.mem_cons_self)).2 r
            · exact ih x (List.mem_append_right _ (List.mem_cons_of_mem _ hx))
      | leave h =>
          refine ih x ?_
          rcases List.mem_append.mp hx with hx | hx
          · exact List.mem_append_left _ hx
          · exact List.mem_append_right _ (List.mem_cons_of_mem _ hx)
      | again h => cases h.1
      | die gone h => exact ih x (List.mem_filter.mp hx).1

/-- A caller starts, or the thread at a place performs its next action. -/
def scene (entry : K → Program Act Ans ε ρ) (ask : K → (a : Act) → S → Except ε (Ans a) × S)
    (c : Pool K Act Ans ε ρ S) : K ⊕ ℕ → Pool K Act Ans ε ρ S
  | .inl k => ⟨c.state, c.threads ++ [(k, entry k)]⟩
  | .inr i => turn ask c i

theorem run_scenes {ask : K → (a : Act) → S → Except ε (Ans a) × S}
    (hask : ∀ k a s, does k a s (ask k a s).1 (ask k a s).2) (c : Pool K Act Ans ε ρ S)
    (order : List (K ⊕ ℕ)) :
    (unrestricted entry does).Run c (order.foldl (scene entry ask) c) := by
  induction order generalizing c with
  | nil => exact .refl
  | cons next order ih =>
      refine Relation.ReflTransGen.trans ?_ (ih (scene entry ask c next))
      cases next with
      | inl k => exact .single (.start k rfl)
      | inr i => exact run_turn hask c i

end System

/-! ## Contracts -/

structure Contract (K Act : Type) (Ans : Act → Type) (ε ρ S : Type) where
  inv : S → Prop
  /-- The callers that may be at work together. -/
  beside : K → K → Prop
  /-- What a caller relies on of a step of the others. -/
  rely : K → S → S → Prop
  /-- What an action of a caller guarantees. -/
  guar : K → (a : Act) → S → Except ε (Ans a) → S → Prop
  good : K → ρ → S → Prop
  bad : K → ε → S → Prop

namespace Contract

variable (C : Contract K Act Ans ε ρ S) (Y : System K Act Ans ε ρ S)

/-- The program of a caller keeps the contract from the state on. -/
def Meets (k : K) (p : Program Act Ans ε ρ) (s : S) : Prop :=
  p.Upholds (C.rely k) (fun a s r s' => C.inv s ∧ Y.does k a s r s') (C.guar k)
    (C.good k) (C.bad k) s

def Ends (k : K) (s : S) : Except ε ρ → Prop
  | .ok x => C.good k x s
  | .error e => C.bad k e s

structure Sound : Prop where
  refl : ∀ k s, C.rely k s s
  trans : ∀ k s t u, C.rely k s t → C.rely k t u → C.rely k s u
  start : ∀ k ks s s', C.inv s → Y.start k ks s s' → C.inv s' ∧
    (∀ j ∈ ks, C.beside j k ∧ C.beside k j ∧ C.rely j s s') ∧ C.Meets Y k (Y.entry k) s'
  act : ∀ k a s r s', C.inv s → Y.does k a s r s' → C.guar k a s r s' →
    C.inv s' ∧ ∀ j, C.beside k j → C.rely j s s'
  finish : ∀ k r s next s', C.inv s → Y.finish k r s next s' → C.Ends k s r →
    C.inv s' ∧ (∀ j, C.beside k j → C.rely j s s') ∧ ∀ p, next = some p → C.Meets Y k p s'
  die : ∀ gone s s', C.inv s → Y.dies gone s s' →
    C.inv s' ∧ ∀ j, gone j = false → C.rely j s s'

structure Holds (c : Pool K Act Ans ε ρ S) : Prop where
  inv : C.inv c.state
  beside : c.threads.Pairwise fun x y => C.beside x.1 y.1 ∧ C.beside y.1 x.1
  meets : ∀ x ∈ c.threads, C.Meets Y x.1 x.2 c.state

variable {C Y}

theorem Sound.stable (hC : C.Sound Y) {k : K} {p : Program Act Ans ε ρ} {s t : S}
    (hp : C.Meets Y k p s) (ht : C.rely k s t) : C.Meets Y k p t :=
  Program.Upholds.stable (hC.trans k) hp ht

/-- The threads around one thread are beside it. -/
theorem Holds.beside_mid {s : S} {before after : List (K × Program Act Ans ε ρ)} {k : K}
    {p : Program Act Ans ε ρ} (h : C.Holds Y ⟨s, before ++ (k, p) :: after⟩) :
    ∀ x ∈ before ++ after, C.beside k x.1 := by
  obtain ⟨_, hrest, hacross⟩ := List.pairwise_append.mp h.beside
  intro x hx
  rcases List.mem_append.mp hx with hx | hx
  · exact (hacross x hx (k, p) List.mem_cons_self).2
  · exact ((List.pairwise_cons.mp hrest).1 x hx).1

/-- The one thread has another program, all others have theirs in another state. -/
theorem Holds.replace (hC : C.Sound Y) {s s' : S} {before after : List (K × Program Act Ans ε ρ)}
    {k : K} {p p' : Program Act Ans ε ρ} (h : C.Holds Y ⟨s, before ++ (k, p) :: after⟩)
    (hinv : C.inv s') (hrely : ∀ j, C.beside k j → C.rely j s s') (hp : C.Meets Y k p' s') :
    C.Holds Y ⟨s', before ++ (k, p') :: after⟩ := by
  refine ⟨hinv, ?_, fun x hx => ?_⟩
  · have hmap := List.pairwise_map (f := Prod.fst) (l := before ++ (k, p) :: after)
      (R := fun x y => C.beside x y ∧ C.beside y x)
    have hbeside := hmap.mpr h.beside
    refine List.pairwise_map (f := Prod.fst) (R := fun x y => C.beside x y ∧ C.beside y x) |>.mp ?_
    simpa using hbeside
  · have hbeside := h.beside_mid
    rcases List.mem_append.mp hx with hx | hx
    · exact hC.stable (h.meets x (List.mem_append_left _ hx))
        (hrely _ (hbeside x (List.mem_append_left _ hx)))
    · rcases List.mem_cons.mp hx with rfl | hx
      · exact hp
      · exact hC.stable (h.meets x (List.mem_append_right _ (List.mem_cons_of_mem _ hx)))
          (hrely _ (hbeside x (List.mem_append_right _ hx)))

/-- What an action in a pool that keeps the contract guarantees. -/
theorem Holds.guar (hC : C.Sound Y) {s s' : S} {before after : List (K × Program Act Ans ε ρ)}
    {k : K} {a : Act} {next : Except ε (Ans a) → Program Act Ans ε ρ} {r : Except ε (Ans a)}
    (h : C.Holds Y ⟨s, before ++ (k, .act a next) :: after⟩) (hdoes : Y.does k a s r s') :
    C.guar k a s r s' ∧ C.Meets Y k (next r) s' :=
  h.meets (k, .act a next) (List.mem_append_right _ List.mem_cons_self) s (hC.refl k s) r s'
    ⟨h.inv, hdoes⟩

theorem Holds.step (hC : C.Sound Y) {c c' : Pool K Act Ans ε ρ S} (h : C.Holds Y c)
    (hstep : Y.Step c c') : C.Holds Y c' := by
  cases hstep with
  | @start s s' threads k hstart =>
      obtain ⟨hinv, hothers, hentry⟩ := hC.start _ _ _ _ h.inv hstart
      have hother : ∀ x ∈ threads, C.beside x.1 k ∧ C.beside k x.1 ∧ C.rely x.1 s s' :=
        fun x hx => hothers x.1 (List.mem_map_of_mem hx)
      refine ⟨hinv, List.pairwise_append.mpr ⟨h.beside, List.pairwise_singleton _ _, ?_⟩, ?_⟩
      · intro x hx y hy
        rw [List.mem_singleton] at hy
        subst hy
        exact ⟨(hother x hx).1, (hother x hx).2.1⟩
      · intro x hx
        rcases List.mem_append.mp hx with hx | hx
        · exact hC.stable (h.meets x hx) (hother x hx).2.2
        · rw [List.mem_singleton] at hx
          subst hx
          exact hentry
  | act hdoes =>
      obtain ⟨hguar, hnext⟩ := h.guar hC hdoes
      obtain ⟨hinv, hrely⟩ := hC.act _ _ _ _ _ h.inv hdoes hguar
      exact h.replace hC hinv hrely hnext
  | @leave s s' before after k r hfinish =>
      obtain ⟨hinv, hrely, _⟩ := hC.finish _ _ _ _ _ h.inv hfinish (ends h)
      have hsub : (before ++ after).Sublist (before ++ (k, .done r) :: after) :=
        (List.Sublist.refl before).append (List.sublist_cons_self _ _)
      refine ⟨hinv, h.beside.sublist hsub, fun x hx => ?_⟩
      exact hC.stable (h.meets x (hsub.subset hx)) (hrely _ (h.beside_mid x hx))
  | again hfinish =>
      obtain ⟨hinv, hrely, hnext⟩ := hC.finish _ _ _ _ _ h.inv hfinish (ends h)
      exact h.replace hC hinv hrely (hnext _ rfl)
  | die gone hdies =>
      obtain ⟨hinv, hrely⟩ := hC.die _ _ _ h.inv hdies
      refine ⟨hinv, h.beside.sublist List.filter_sublist, fun x hx => ?_⟩
      obtain ⟨hx, hstays⟩ := List.mem_filter.mp hx
      exact hC.stable (h.meets x hx) (hrely _ (by simpa using hstays))
where
  ends {s : S} {before after : List (K × Program Act Ans ε ρ)} {k : K} {r : Except ε ρ}
      (h : C.Holds Y ⟨s, before ++ (k, .done r) :: after⟩) : C.Ends k s r := by
    have hdone := h.meets (k, .done r) (List.mem_append_right _ List.mem_cons_self)
    cases r with
    | ok x => exact hdone s (hC.refl k s)
    | error e => exact hdone s (hC.refl k s)

/-- Every pool of a run keeps the contract. -/
theorem Holds.run (hC : C.Sound Y) {c c' : Pool K Act Ans ε ρ S} (h : C.Holds Y c)
    (hrun : Y.Run c c') : C.Holds Y c' := by
  induction hrun with
  | refl => exact h
  | tail _ hstep ih => exact ih.step hC hstep

theorem Holds.reachable (hC : C.Sound Y) {first : Pool K Act Ans ε ρ S} (h : C.Holds Y first)
    (c : Y.Reachable first) : C.Holds Y c.val :=
  h.run hC c.property

/-- A pool in which no program is at work. -/
theorem holds_idle {s : S} (h : C.inv s) : C.Holds Y ⟨s, []⟩ :=
  ⟨h, .nil, fun _ hx => absurd hx List.not_mem_nil⟩

end Contract

/-! ## Invariants -/

/-- What every action that its caller may send preserves holds throughout a run. -/
theorem System.unrestricted_inv {entry : K → Program Act Ans ε ρ}
    {does : K → (a : Act) → S → Except ε (Ans a) → S → Prop} {only : K → Act → Prop} {I : S → Prop}
    (hentry : ∀ k, (entry k).Uses (only k))
    (hdoes : ∀ k a s r s', only k a → I s → does k a s r s' → I s') {s : S}
    {c : Pool K Act Ans ε ρ S} (h : (System.unrestricted entry does).Run ⟨s, []⟩ c) (hs : I s) :
    I c.state := by
  let C : Contract K Act Ans ε ρ S :=
    { inv := I, beside := fun _ _ => True, rely := fun _ _ _ => True, guar := fun k a _ _ _ => only k a,
      good := fun _ _ _ => True, bad := fun _ _ _ => True }
  have hC : C.Sound (System.unrestricted entry does) :=
    { refl := fun _ _ => trivial
      trans := fun _ _ _ _ _ _ => trivial
      start := fun k _ s s' hs h => by
        rw [show s' = s from h]
        exact ⟨hs, fun _ _ => ⟨trivial, trivial, trivial⟩,
          (hentry k).upholds (P := fun _ => True) (fun _ _ _ _ => trivial)
            (fun _ _ _ _ ha _ _ => ⟨ha, trivial⟩) trivial⟩
      act := fun k a s r s' hs h ha => ⟨hdoes k a s r s' ha hs h, fun _ _ => trivial⟩
      finish := fun _ _ s _ s' hs h _ => by
        rw [h.2]
        exact ⟨hs, fun _ _ => trivial, fun _ hp => by rw [h.1] at hp; cases hp⟩
      die := fun _ s s' hs h => by
        rw [show s' = s from h]
        exact ⟨hs, fun _ _ => trivial⟩ }
  exact ((Contract.holds_idle hs).run hC h).inv

end LogRisk.Library
