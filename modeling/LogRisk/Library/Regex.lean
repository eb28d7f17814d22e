import Mathlib.Data.List.Basic
import Mathlib.Data.Nat.Notation
import Mathlib.Tactic.Basic

/-!
# Regular expressions that backtrack

An expression is tried at a place of a text and yields the places where it may end, those
that are tried first in front.  `remove` takes every match out of a text, from left to right.
Removing twice is removing once where what is left of a match cannot begin another.
-/

namespace LogRisk.Library

/-- A place in a text: the character before it and what follows. -/
structure Place where
  prev : Option Char
  rest : List Char
deriving DecidableEq

/-- `times least most body` repeats greedily, without an upper bound where `most` is `none`;
`notBehind` and `notAhead` look at the character before and after the place. -/
inductive Regex where
  | char (accepts : Char → Bool)
  | seq (first second : Regex)
  | times (least : ℕ) (most : Option ℕ) (body : Regex)
  | notBehind (accepts : Char → Bool)
  | notAhead (accepts : Char → Bool)

/-- The last character passed over. -/
def lastOf (prev : Option Char) (passed : List Char) : Option Char := passed.getLast?.or prev

theorem lastOf_cons (prev : Option Char) (c : Char) (passed : List Char) :
    lastOf prev (c :: passed) = lastOf (some c) passed := by
  unfold lastOf
  rw [List.getLast?_cons]
  cases passed.getLast? <;> rfl

theorem lastOf_append (prev : Option Char) (first second : List Char) :
    lastOf prev (first ++ second) = lastOf (lastOf prev first) second := by
  unfold lastOf
  rw [List.getLast?_append]
  cases second.getLast? <;> rfl

namespace Regex

/-! ## Matching -/

def exactly (f : Place → List Place) : ℕ → Place → List Place
  | 0, p => [p]
  | n + 1, p => (f p).flatMap (exactly f n)

/-- At most `n` more times, the most first; a turn that consumes nothing is not taken. -/
def greedy (f : Place → List Place) : ℕ → Place → List Place
  | 0, p => [p]
  | n + 1, p => ((f p).filter (·.rest.length < p.rest.length)).flatMap (greedy f n) ++ [p]

/-- The ends of a match that begins at the place, in the order in which they are tried. -/
def run : Regex → Place → List Place
  | .char accepts, ⟨_, rest⟩ =>
      match rest with
      | [] => []
      | c :: cs => if accepts c then [⟨some c, cs⟩] else []
  | .seq first second, p => (run first p).flatMap (run second)
  | .times least most body, p => (exactly (run body) least p).flatMap fun q =>
      greedy (run body) (most.elim q.rest.length (· - least)) q
  | .notBehind accepts, p => if p.prev.any accepts then [] else [p]
  | .notAhead accepts, p => if p.rest.head?.any accepts then [] else [p]

/-- The length of the match that is found at a place, zero where none is. -/
def matchLength (r : Regex) (prev : Option Char) (rest : List Char) : ℕ :=
  match (r.run ⟨prev, rest⟩).head? with
  | none => 0
  | some q => rest.length - q.rest.length

/-! ### Ends -/

section Ends

variable {accepts : Char → Bool} {p q : Place}

theorem mem_run_char : q ∈ (char accepts).run p ↔
    ∃ c, p.rest = c :: q.rest ∧ accepts c = true ∧ q.prev = some c := by
  obtain ⟨prev, rest⟩ := p
  cases rest with
  | nil => exact iff_of_false List.not_mem_nil fun ⟨_, h, _⟩ => by cases h
  | cons c cs =>
      rw [run]
      split
      · rename_i haccepts
        rw [List.mem_singleton]
        constructor
        · rintro rfl
          exact ⟨c, rfl, haccepts, rfl⟩
        · rintro ⟨d, hrest, -, hprev⟩
          obtain ⟨rfl, hrest⟩ := List.cons.inj hrest
          cases q
          cases hprev
          cases hrest
          rfl
      · rename_i haccepts
        refine iff_of_false List.not_mem_nil fun ⟨d, hrest, hd, _⟩ => haccepts ?_
        rw [(List.cons.inj hrest).1]
        exact hd

/-- The match takes the characters `w`. -/
structure Takes (accepts : Char → Bool) (p q : Place) (w : List Char) : Prop where
  rest : p.rest = w ++ q.rest
  accepted : ∀ c ∈ w, accepts c = true
  prev : q.prev = lastOf p.prev w

theorem takes_nil : Takes accepts p p [] := ⟨rfl, fun _ hc => absurd hc List.not_mem_nil, rfl⟩

theorem takes_cons {c : Char} {w : List Char} : Takes accepts p q (c :: w) ↔
    ∃ p', p' ∈ (char accepts).run p ∧ p'.prev = some c ∧ Takes accepts p' q w := by
  constructor
  · intro h
    refine ⟨⟨some c, w ++ q.rest⟩, mem_run_char.mpr ⟨c, h.rest, ?_, rfl⟩, rfl, rfl, fun d hd => ?_, ?_⟩
    · exact h.accepted c List.mem_cons_self
    · exact h.accepted d (List.mem_cons_of_mem _ hd)
    · rw [h.prev, lastOf_cons]
  · rintro ⟨p', hp', hprev, h⟩
    obtain ⟨d, hrest, hd, hprev'⟩ := mem_run_char.mp hp'
    obtain rfl := Option.some.inj (hprev.symm.trans hprev')
    refine ⟨?_, fun e he => ?_, ?_⟩
    · rw [hrest, h.rest]
      rfl
    · rcases List.mem_cons.mp he with rfl | he
      · exact hd
      · exact h.accepted e he
    · rw [h.prev, hprev, lastOf_cons]

theorem Takes.eq {w : List Char} {q' : Place} (h : Takes accepts p q w) (h' : Takes accepts p q' w) :
    q = q' := by
  have hrest := List.append_cancel_left (h.rest.symm.trans h'.rest)
  have hprev := h.prev.trans h'.prev.symm
  cases q
  cases q'
  cases hrest
  cases hprev
  rfl

theorem mem_exactly_char {n : ℕ} : q ∈ exactly (char accepts).run n p ↔
    ∃ w, w.length = n ∧ Takes accepts p q w := by
  induction n generalizing p with
  | zero =>
      rw [exactly, List.mem_singleton]
      constructor
      · rintro rfl
        exact ⟨[], rfl, takes_nil⟩
      · rintro ⟨w, hlength, h⟩
        obtain rfl := List.eq_nil_of_length_eq_zero hlength
        exact h.eq takes_nil
  | succ n ih =>
      rw [exactly, List.mem_flatMap]
      constructor
      · rintro ⟨p', hp', hq⟩
        obtain ⟨w, hlength, h⟩ := ih.mp hq
        obtain ⟨c, -, -, hprev⟩ := mem_run_char.mp hp'
        exact ⟨c :: w, congrArg (· + 1) hlength, takes_cons.mpr ⟨p', hp', hprev, h⟩⟩
      · rintro ⟨w, hlength, h⟩
        obtain ⟨c, w, rfl⟩ := List.exists_cons_of_length_eq_add_one hlength
        obtain ⟨p', hp', -, h⟩ := takes_cons.mp h
        exact ⟨p', hp', ih.mpr ⟨w, Nat.succ.inj hlength, h⟩⟩

theorem mem_greedy_char {n : ℕ} : q ∈ greedy (char accepts).run n p ↔
    ∃ w, w.length ≤ n ∧ Takes accepts p q w := by
  induction n generalizing p with
  | zero =>
      rw [greedy, List.mem_singleton]
      constructor
      · rintro rfl
        exact ⟨[], Nat.le_refl _, takes_nil⟩
      · rintro ⟨w, hlength, h⟩
        obtain rfl := List.eq_nil_of_length_eq_zero (Nat.le_zero.mp hlength)
        exact h.eq takes_nil
  | succ n ih =>
      rw [greedy, List.mem_append, List.mem_flatMap, List.mem_singleton]
      constructor
      · rintro (⟨p', hp', hq⟩ | rfl)
        · obtain ⟨w, hlength, h⟩ := ih.mp hq
          have hmem := (List.mem_filter.mp hp').1
          obtain ⟨c, -, -, hprev⟩ := mem_run_char.mp hmem
          exact ⟨c :: w, Nat.succ_le_succ hlength, takes_cons.mpr ⟨p', hmem, hprev, h⟩⟩
        · exact ⟨[], Nat.zero_le _, takes_nil⟩
      · rintro ⟨w, hlength, h⟩
        cases w with
        | nil => exact .inr (h.eq takes_nil)
        | cons c w =>
            obtain ⟨p', hp', -, h⟩ := takes_cons.mp h
            obtain ⟨d, hrest, -, -⟩ := mem_run_char.mp hp'
            refine .inl ⟨p', List.mem_filter.mpr ⟨hp', decide_eq_true ?_⟩,
              ih.mpr ⟨w, Nat.le_of_succ_le_succ hlength, h⟩⟩
            rw [hrest, List.length_cons]
            exact Nat.lt_succ_self _

theorem mem_run_times_char {least most : ℕ} (hle : least ≤ most) :
    q ∈ (times least (some most) (char accepts)).run p ↔
      ∃ w, least ≤ w.length ∧ w.length ≤ most ∧ Takes accepts p q w := by
  rw [run, List.mem_flatMap]
  simp only [Option.elim_some, mem_greedy_char, mem_exactly_char]
  constructor
  · rintro ⟨q', ⟨w, hlength, h⟩, w', hlength', h'⟩
    refine ⟨w ++ w', ?_, ?_, ?_, fun c hc => ?_, ?_⟩
    · rw [List.length_append]
      omega
    · rw [List.length_append]
      omega
    · rw [h.rest, h'.rest, List.append_assoc]
    · exact (List.mem_append.mp hc).elim (h.accepted c) (h'.accepted c)
    · rw [h'.prev, h.prev, lastOf_append]
  · rintro ⟨w, hleast, hmost, h⟩
    have hsplit := List.take_append_drop least w
    refine ⟨⟨lastOf p.prev (w.take least), w.drop least ++ q.rest⟩,
      ⟨w.take least, List.length_take_of_le hleast, ?_⟩, w.drop least, ?_, ?_⟩
    · refine ⟨?_, fun c hc => h.accepted c (List.mem_of_mem_take hc), rfl⟩
      rw [h.rest, ← List.append_assoc, hsplit]
    · rw [List.length_drop]
      omega
    · refine ⟨rfl, fun c hc => h.accepted c (List.mem_of_mem_drop hc), ?_⟩
      rw [h.prev, ← lastOf_append, hsplit]

end Ends

/-! ### Suffixes -/

/-- A match reads on from its place. -/
def ReadsOn (p q : Place) : Prop := ∃ w, p.rest = w ++ q.rest ∧ q.prev = lastOf p.prev w

theorem ReadsOn.refl (p : Place) : ReadsOn p p := ⟨[], rfl, rfl⟩

theorem ReadsOn.trans {p q r : Place} (h : ReadsOn p q) (h' : ReadsOn q r) : ReadsOn p r := by
  obtain ⟨w, hrest, hprev⟩ := h
  obtain ⟨w', hrest', hprev'⟩ := h'
  refine ⟨w ++ w', ?_, ?_⟩
  · rw [hrest, hrest', List.append_assoc]
  · rw [hprev', hprev, lastOf_append]

theorem ReadsOn.length_le {p q : Place} (h : ReadsOn p q) : q.rest.length ≤ p.rest.length := by
  obtain ⟨w, hrest, -⟩ := h
  rw [hrest, List.length_append]
  exact Nat.le_add_left _ _

theorem readsOn_exactly {f : Place → List Place} (hf : ∀ p q, q ∈ f p → ReadsOn p q) {n : ℕ}
    {p q : Place} (h : q ∈ exactly f n p) : ReadsOn p q := by
  induction n generalizing p with
  | zero =>
      rw [exactly, List.mem_singleton] at h
      rw [h]
      exact ReadsOn.refl p
  | succ n ih =>
      obtain ⟨p', hp', h⟩ := List.mem_flatMap.mp h
      exact (hf p p' hp').trans (ih h)

theorem readsOn_greedy {f : Place → List Place} (hf : ∀ p q, q ∈ f p → ReadsOn p q) {n : ℕ}
    {p q : Place} (h : q ∈ greedy f n p) : ReadsOn p q := by
  induction n generalizing p with
  | zero =>
      rw [greedy, List.mem_singleton] at h
      rw [h]
      exact ReadsOn.refl p
  | succ n ih =>
      rw [greedy, List.mem_append, List.mem_singleton] at h
      rcases h with h | rfl
      · obtain ⟨p', hp', h⟩ := List.mem_flatMap.mp h
        exact (hf p p' (List.mem_filter.mp hp').1).trans (ih h)
      · exact ReadsOn.refl _

theorem readsOn_run {r : Regex} {p q : Place} (h : q ∈ r.run p) : ReadsOn p q := by
  induction r generalizing p q with
  | char accepts =>
      obtain ⟨c, hrest, -, hprev⟩ := mem_run_char.mp h
      exact ⟨[c], hrest, hprev⟩
  | seq first second ih ih' =>
      obtain ⟨p', hp', h⟩ := List.mem_flatMap.mp h
      exact (ih hp').trans (ih' h)
  | times least most body ih =>
      obtain ⟨p', hp', h⟩ := List.mem_flatMap.mp h
      exact (readsOn_exactly (fun _ _ => ih) hp').trans (readsOn_greedy (fun _ _ => ih) h)
  | notBehind accepts =>
      rw [run] at h
      split at h
      · cases h
      · rw [List.mem_singleton.mp h]
        exact ReadsOn.refl p
  | notAhead accepts =>
      rw [run] at h
      split at h
      · cases h
      · rw [List.mem_singleton.mp h]
        exact ReadsOn.refl p

theorem self_mem_greedy (f : Place → List Place) (n : ℕ) (p : Place) : p ∈ greedy f n p := by
  cases n with
  | zero => exact List.mem_singleton_self p
  | succ n => exact List.mem_append_right _ (List.mem_singleton_self p)

/-- The match that is found, and where it ends. -/
theorem matchLength_pos {r : Regex} {prev : Option Char} {text : List Char}
    (h : 0 < r.matchLength prev text) : ∃ q, (r.run ⟨prev, text⟩).head? = some q ∧
      text.drop (r.matchLength prev text) = q.rest ∧
      lastOf prev (text.take (r.matchLength prev text)) = q.prev := by
  unfold matchLength at h ⊢
  cases hhead : (r.run ⟨prev, text⟩).head? with
  | none =>
      rw [hhead] at h
      cases h
  | some q =>
      obtain ⟨w, hrest, hprev⟩ := readsOn_run (List.mem_of_mem_head? hhead)
      dsimp only at hrest hprev
      have hlength : text.length - q.rest.length = w.length := by
        rw [hrest, List.length_append, Nat.add_sub_cancel_right]
      refine ⟨q, rfl, ?_, ?_⟩
      · dsimp only
        rw [hlength, hrest, List.drop_left]
      · dsimp only
        rw [hlength, hrest, List.take_left, hprev]

theorem matchLength_pos_iff {r : Regex} {prev : Option Char} {text : List Char}
    (hconsumes : ∀ q ∈ r.run ⟨prev, text⟩, q.rest.length < text.length) :
    0 < r.matchLength prev text ↔ r.run ⟨prev, text⟩ ≠ [] := by
  unfold matchLength
  cases hruns : r.run ⟨prev, text⟩ with
  | nil => exact iff_of_false (Nat.lt_irrefl 0) fun h => h rfl
  | cons q qs =>
      have hlt := hconsumes q (hruns ▸ List.mem_cons_self)
      refine iff_of_true ?_ (List.cons_ne_nil q qs)
      exact Nat.sub_pos_of_lt hlt

/-! ### Characters that part a text -/

/-- No step and no look of the expression accepts the character. -/
def Rejects (c : Option Char) : Regex → Prop
  | .char accepts => c.any accepts = false
  | .seq first second => first.Rejects c ∧ second.Rejects c
  | .times _ _ body => body.Rejects c
  | .notBehind accepts => c.any accepts = false
  | .notAhead accepts => c.any accepts = false

theorem rejects_none (r : Regex) : r.Rejects none := by
  induction r with
  | char accepts => rfl
  | seq first second ih ih' => exact ⟨ih, ih'⟩
  | times least most body ih => exact ih
  | notBehind accepts => rfl
  | notAhead accepts => rfl

end Regex

/-- The place in a longer text. -/
def Place.between (before : Option Char) (after : List Char) (p : Place) : Place :=
  ⟨p.prev.or before, p.rest ++ after⟩

namespace Regex

section Between

variable {before : Option Char} {after : List Char}

theorem exactly_between {f : Place → List Place}
    (hf : ∀ p, f (p.between before after) = (f p).map (·.between before after)) (n : ℕ) (p : Place) :
    exactly f n (p.between before after) = (exactly f n p).map (·.between before after) := by
  induction n generalizing p with
  | zero => rfl
  | succ n ih =>
      rw [exactly, exactly, hf, List.flatMap_map, List.map_flatMap]
      exact congrArg (List.flatMap · (f p)) (funext ih)

theorem greedy_between {f : Place → List Place}
    (hf : ∀ p, f (p.between before after) = (f p).map (·.between before after)) (n : ℕ) (p : Place) :
    greedy f n (p.between before after) = (greedy f n p).map (·.between before after) := by
  induction n generalizing p with
  | zero => rfl
  | succ n ih =>
      have hkept : ((f p).map (·.between before after)).filter
            (·.rest.length < (p.between before after).rest.length) =
          ((f p).filter (·.rest.length < p.rest.length)).map (·.between before after) := by
        rw [List.filter_map]
        refine congrArg (List.map _) (List.filter_congr fun q _ => ?_)
        unfold Place.between
        simp only [Function.comp_apply, List.length_append, Nat.add_lt_add_iff_right]
      rw [greedy, greedy, hf, hkept, List.flatMap_map, List.map_append, List.map_flatMap]
      exact congrArg (· ++ _) (congrArg (List.flatMap · _) (funext ih))

/-- More turns than characters change nothing. -/
theorem greedy_add (f : Place → List Place) {m : ℕ} {p : Place} (hm : p.rest.length ≤ m) (n : ℕ) :
    greedy f (m + n) p = greedy f m p := by
  have hnone (n : ℕ) {p : Place} (hnil : p.rest.length = 0) : greedy f n p = [p] := by
    cases n with
    | zero => rfl
    | succ n =>
        have hkept : (f p).filter (·.rest.length < p.rest.length) = [] := by
          rw [List.filter_eq_nil_iff, hnil]
          exact fun q _ => by simp
        rw [greedy, hkept]
        rfl
  induction m generalizing p with
  | zero => rw [hnone _ (Nat.le_zero.mp hm), hnone _ (Nat.le_zero.mp hm)]
  | succ m ih =>
      rw [Nat.succ_add, greedy, greedy]
      refine congrArg (· ++ _) (List.flatMap_congr fun q hq => ?_)
      have hlt := of_decide_eq_true (List.mem_filter.mp hq).2
      exact ih (by omega)

/-- What an expression rejects on both sides of a text does not change its matches. -/
theorem run_between {r : Regex} (hbefore : r.Rejects before) (hafter : r.Rejects after.head?)
    (p : Place) : r.run (p.between before after) = (r.run p).map (·.between before after) := by
  induction r generalizing p with
  | char accepts =>
      obtain ⟨prev, rest⟩ := p
      cases rest with
      | nil =>
          cases after with
          | nil => rfl
          | cons d ds =>
              rw [Rejects, List.head?_cons, Option.any_some] at hafter
              show (if accepts d then _ else _) = _
              rw [hafter]
              rfl
      | cons c cs =>
          show (if accepts c then _ else _) = List.map _ (if accepts c then _ else _)
          split <;> rfl
  | seq first second ih ih' =>
      rw [run, run, ih hbefore.1 hafter.1, List.flatMap_map, List.map_flatMap]
      exact congrArg (List.flatMap · _) (funext (ih' hbefore.2 hafter.2))
  | times least most body ih =>
      have hbody := ih hbefore hafter
      rw [run, run, exactly_between hbody, List.flatMap_map, List.map_flatMap]
      refine congrArg (List.flatMap · _) (funext fun q => ?_)
      rw [← greedy_between hbody]
      cases most with
      | none =>
          have hlength : (q.between before after).rest.length = q.rest.length + after.length :=
            List.length_append
          rw [Option.elim_none, Option.elim_none, hlength, greedy_between hbody,
            greedy_between hbody, greedy_add _ (Nat.le_refl _)]
      | some most => rfl
  | notBehind accepts =>
      obtain ⟨prev, rest⟩ := p
      have hlook : (prev.or before).any accepts = prev.any accepts := by
        cases prev with
        | none => exact hbefore
        | some c => rfl
      show (if (prev.or before).any accepts then _ else _) = List.map _ (if prev.any accepts then _ else _)
      rw [hlook]
      split <;> rfl
  | notAhead accepts =>
      obtain ⟨prev, rest⟩ := p
      have hlook : (rest ++ after).head?.any accepts = rest.head?.any accepts := by
        cases rest with
        | nil => exact hafter
        | cons c cs => rfl
      show (if (rest ++ after).head?.any accepts then _ else _) =
        List.map _ (if rest.head?.any accepts then _ else _)
      rw [hlook]
      split <;> rfl

theorem matchLength_between (before : Option Char) (after : List Char) {r : Regex} (hbefore : r.Rejects before)
    (hafter : r.Rejects after.head?) (prev : Option Char) (text : List Char) :
    r.matchLength (prev.or before) (text ++ after) = r.matchLength prev text := by
  have hruns := run_between hbefore hafter ⟨prev, text⟩
  unfold Place.between at hruns
  dsimp only at hruns
  unfold matchLength
  rw [hruns, List.head?_map]
  cases (r.run ⟨prev, text⟩).head? with
  | none => rfl
  | some q =>
      dsimp only [Option.map_some]
      rw [List.length_append, List.length_append, Nat.add_sub_add_right]

end Between

theorem matchLength_le (r : Regex) (prev : Option Char) (text : List Char) :
    r.matchLength prev text ≤ text.length := by
  unfold matchLength
  split
  · exact Nat.zero_le _
  · exact Nat.sub_le _ _

end Regex

/-! ## Removing matches -/

/-- Take out what `len` finds: `skip` characters of a match are still to be passed over. -/
def strike (len : Option Char → List Char → ℕ) : ℕ → Option Char → List Char → List Char
  | _, _, [] => []
  | skip + 1, _, c :: cs => strike len skip (some c) cs
  | 0, prev, c :: cs =>
      match len prev (c :: cs) with
      | 0 => c :: strike len 0 (some c) cs
      | n + 1 => strike len n (some c) cs

/-- `re.sub(r, "", text)`. -/
def Regex.remove (r : Regex) (text : List Char) : List Char := strike r.matchLength 0 none text

section Strike

variable {len : Option Char → List Char → ℕ}

@[simp] theorem strike_nil (skip : ℕ) (prev : Option Char) : strike len skip prev [] = [] := by
  cases skip <;> rfl

theorem strike_cons_of_none {prev : Option Char} {c : Char} {cs : List Char}
    (h : len prev (c :: cs) = 0) : strike len 0 prev (c :: cs) = c :: strike len 0 (some c) cs := by
  rw [strike, h]

theorem strike_skip (skip : ℕ) (prev : Option Char) (text : List Char) :
    strike len skip prev text = strike len 0 (lastOf prev (text.take skip)) (text.drop skip) := by
  induction skip generalizing prev text with
  | zero => rfl
  | succ skip ih =>
      cases text with
      | nil => rw [List.drop_nil, strike_nil, strike_nil]
      | cons c cs =>
          rw [strike, ih, List.drop_succ_cons, List.take_succ_cons, lastOf_cons]

theorem strike_of_match {prev : Option Char} {text : List Char} (h : 0 < len prev text) :
    strike len 0 prev text =
      strike len 0 (lastOf prev (text.take (len prev text))) (text.drop (len prev text)) := by
  cases text with
  | nil => rw [List.drop_nil, strike_nil, strike_nil]
  | cons c cs =>
      obtain ⟨n, hn⟩ := Nat.exists_eq_add_one_of_ne_zero (Nat.ne_of_gt h)
      have hstruck : strike len 0 prev (c :: cs) = strike len n (some c) cs := by rw [strike, hn]
      rw [← strike_skip, hn, hstruck]
      rfl

theorem strike_sublist (skip : ℕ) (prev : Option Char) (text : List Char) :
    (strike len skip prev text).Sublist text := by
  induction text generalizing skip prev with
  | nil => rw [strike_nil]
  | cons c cs ih =>
      cases skip with
      | succ skip => exact (ih skip (some c)).cons c
      | zero =>
          rw [strike]
          split
          · exact (ih 0 (some c)).cons_cons c
          · exact (ih _ (some c)).cons c

/-- A text with a character that parts it. -/
theorem strike_append {c : Char} (hle : ∀ prev text, len prev text ≤ text.length)
    {more : List Char} (happend : ∀ prev text, len prev (text ++ c :: more) = len prev text)
    (hafter : len (some c) more = len none more) {skip : ℕ} {prev : Option Char} {text : List Char}
    (hskip : skip ≤ text.length) :
    strike len skip prev (text ++ c :: more) =
      strike len skip prev text ++ c :: strike len 0 none more := by
  induction text generalizing skip prev with
  | nil =>
      have hnone : len prev (c :: more) = 0 :=
        (happend prev []).trans (Nat.le_zero.mp (hle prev []))
      rw [Nat.le_zero.mp hskip, List.nil_append, strike_cons_of_none hnone, strike_nil,
        List.nil_append]
      cases more with
      | nil => rw [strike_nil, strike_nil]
      | cons d ds => rw [strike, strike, hafter]
  | cons d ds ih =>
      rw [List.cons_append]
      cases skip with
      | succ skip => exact ih (Nat.le_of_succ_le_succ hskip)
      | zero =>
          have hshort := hle prev (d :: ds)
          have hsame := happend prev (d :: ds)
          rw [List.cons_append] at hsame
          rw [strike, strike, hsame]
          cases hlen : len prev (d :: ds) with
          | zero => exact congrArg (d :: ·) (ih (Nat.zero_le _))
          | succ n =>
              rw [hlen] at hshort
              exact ih (Nat.le_of_succ_le_succ hshort)

/-- Nothing is found at any place of a text. -/
def Clean (len : Option Char → List Char → ℕ) : Option Char → List Char → Prop
  | _, [] => True
  | prev, c :: cs => len prev (c :: cs) = 0 ∧ Clean len (some c) cs

theorem strike_of_clean {prev : Option Char} {text : List Char} (h : Clean len prev text) :
    strike len 0 prev text = text := by
  induction text generalizing prev with
  | nil => exact strike_nil 0 prev
  | cons c cs ih => rw [strike_cons_of_none h.1, ih h.2]

theorem Clean.drop {prev : Option Char} {text : List Char} (h : Clean len prev text) (n : ℕ) :
    Clean len (lastOf prev (text.take n)) (text.drop n) := by
  induction n generalizing prev text with
  | zero => exact h
  | succ n ih =>
      cases text with
      | nil => trivial
      | cons c cs =>
          rw [List.take_succ_cons, List.drop_succ_cons, lastOf_cons]
          exact ih h.2

section Leaves

variable {len' : Option Char → List Char → ℕ} {blocked : Option Char → Prop}
  {hit : List Char → Prop}

/-- Only the character before a text and a property of the text decide whether a match is
found at its beginning. -/
structure Finds (len : Option Char → List Char → ℕ) (blocked : Option Char → Prop)
    (hit : List Char → Prop) : Prop where
  found : ∀ prev text, 0 < len prev text ↔ ¬blocked prev ∧ hit text

theorem Finds.not_hit (h : Finds len blocked hit) {prev : Option Char}
    {text : List Char} (hhit : ¬hit text) : len prev text = 0 := by
  by_contra hlen
  exact hhit ((h.found prev text).mp (Nat.pos_of_ne_zero hlen)).2

/-- Taking the matches of `len` out brings no match of `len'` about: none where a character
stays, none over a gap and none behind one. -/
structure Leaves (len : Option Char → List Char → ℕ) (hit : List Char → Prop) : Prop where
  pulled : ∀ prev text, hit (strike len 0 prev text) → hit text
  behind : ∀ prev text, 0 < len prev text →
    ¬hit (strike len 0 (lastOf prev (text.take (len prev text))) (text.drop (len prev text)))

theorem clean_strike (hfinds : Finds len' blocked hit)
    (hleaves : Leaves len hit) {P : Option Char → List Char → Prop}
    (hdrop : ∀ prev text n, P prev text → P (lastOf prev (text.take n)) (text.drop n))
    (hkept : ∀ prev c cs, P prev (c :: cs) → len prev (c :: cs) = 0 → len' prev (c :: cs) = 0)
    {prev : Option Char} {text : List Char} (h : P prev text) :
    Clean len' prev (strike len 0 prev text) := by
  induction hn : text.length using Nat.strongRecOn generalizing prev text with
  | ind n ih =>
      cases text with
      | nil =>
          rw [strike_nil]
          trivial
      | cons c cs =>
          by_cases hlen : len prev (c :: cs) = 0
          · have hnone := hkept prev c cs h hlen
            have hrest := hdrop prev (c :: cs) 1 h
            rw [strike_cons_of_none hlen]
            refine ⟨?_, ih cs.length (by rw [← hn]; exact Nat.lt_succ_self _) hrest rfl⟩
            -- A match over a gap would have been one before.
            by_contra hmatch
            obtain ⟨hopen, hhit⟩ := (hfinds.found _ _).mp (Nat.pos_of_ne_zero hmatch)
            rw [← strike_cons_of_none hlen] at hhit
            have hpos := (hfinds.found prev (c :: cs)).mpr ⟨hopen, hleaves.pulled _ _ hhit⟩
            omega
          · have hpos := Nat.pos_of_ne_zero hlen
            have hshorter : ((c :: cs).drop (len prev (c :: cs))).length < n := by
              rw [List.length_drop, hn]
              have hlength : 0 < n := by
                rw [← hn]
                exact Nat.succ_pos _
              omega
            have hclean := ih _ hshorter (hdrop prev (c :: cs) (len prev (c :: cs)) h) rfl
            have hbehind := hleaves.behind prev (c :: cs) hpos
            rw [strike_of_match hpos]
            cases hleft : strike len 0 (lastOf prev ((c :: cs).take (len prev (c :: cs))))
                ((c :: cs).drop (len prev (c :: cs))) with
            | nil => trivial
            | cons d ds =>
                rw [hleft] at hclean hbehind
                exact ⟨hfinds.not_hit hbehind, hclean.2⟩

/-- Taking out matches of another kind leaves a text without matches without them. -/
theorem Clean.strike (hfinds : Finds len' blocked hit) (hleaves : Leaves len hit) {prev : Option Char} {text : List Char} (h : Clean len' prev text) :
    Clean len' prev (LogRisk.Library.strike len 0 prev text) := by
  exact clean_strike hfinds hleaves (fun _ _ n hclean => hclean.drop n)
    (fun _ _ _ hclean _ => hclean.1) h

end Leaves

end Strike

/-- What an expression rejects parts a text. -/
theorem Regex.remove_append {r : Regex} {c : Char} (hc : r.Rejects (some c)) (text more : List Char) :
    r.remove (text ++ c :: more) = r.remove text ++ c :: r.remove more := by
  have hnone := rejects_none r
  refine strike_append r.matchLength_le (fun prev text => ?_) ?_ (Nat.zero_le _)
  · have happend : r.matchLength (prev.or none) (text ++ c :: more) = r.matchLength prev text :=
      matchLength_between none (c :: more) hnone hc prev text
    rwa [Option.or_none] at happend
  · have hafter : r.matchLength (some c) (more ++ []) = r.matchLength none more :=
      matchLength_between (some c) [] hc hnone none more
    rwa [List.append_nil] at hafter

end LogRisk.Library
