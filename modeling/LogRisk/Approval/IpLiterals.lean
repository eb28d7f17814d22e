import LogRisk.Library.Regex
import LogRisk.Library.Text

/-!
# IP literals

Templates are compared without the IP literals in them: two expressions are taken out of the
text, one for each version of the protocol.  Both match groups of characters with a separator
between them, and neither may stand next to what could belong to a group.  Taking the literals
out twice is taking them out once.
-/

namespace LogRisk.Approval

open LogRisk.Library LogRisk.Library.Regex

/-! ## Groups of characters -/

/-- Groups of `least` to `most` members with a separator between them, and what may not
stand around them. -/
structure Literal where
  member : Char → Bool
  separator : Char
  least : ℕ
  most : ℕ
  around : Char → Bool
  member_around : ∀ c, member c = true → around c = true
  separator_around : around separator = false
  least_le : least ≤ most

namespace Literal

variable (L : Literal)

def digits : Regex := .times L.least (some L.most) (.char L.member)

def group : Regex := .seq L.digits (.char (· == L.separator))

/-- The last group. -/
def tail : Regex := .seq L.digits (.notAhead L.around)

/-- `least` groups or more, at most `most`, and the last one. -/
def regex (least : ℕ) (most : Option ℕ) : Regex :=
  .seq (.notBehind L.around) (.seq (.times least most L.group) L.tail)

/-- `n` separators are to come, `k` members of the group are read: the text goes on with
groups, and behind the last of them nothing stands that could belong to it. -/
def goesOn : ℕ → ℕ → List Char → Bool
  | n, k, [] => n == 0 && decide (L.least ≤ k)
  | n, k, c :: cs =>
      if L.member c then decide (k < L.most) && goesOn n (k + 1) cs
      else if c = L.separator then decide (L.least ≤ k) && (n == 0 || goesOn (n - 1) 0 cs)
      else n == 0 && decide (L.least ≤ k) && !L.around c

variable {L}

theorem member_separator : L.member L.separator = false := by
  rw [Bool.eq_false_iff]
  intro h
  have haround := L.member_around _ h
  rw [L.separator_around] at haround
  cases haround

theorem goesOn_cons_member {n k : ℕ} {c : Char} {cs : List Char} (hc : L.member c = true) :
    L.goesOn n k (c :: cs) = (decide (k < L.most) && L.goesOn n (k + 1) cs) := by
  rw [goesOn, if_pos hc]

theorem goesOn_separator_zero {k : ℕ} {cs : List Char} :
    L.goesOn 0 k (L.separator :: cs) = decide (L.least ≤ k) := by
  rw [goesOn, if_neg (by rw [member_separator]; exact Bool.false_ne_true), if_pos rfl]
  exact Bool.and_true _

theorem goesOn_separator_succ {n k : ℕ} {cs : List Char} :
    L.goesOn (n + 1) k (L.separator :: cs) = (decide (L.least ≤ k) && L.goesOn n 0 cs) := by
  rw [goesOn, if_neg (by rw [member_separator]; exact Bool.false_ne_true), if_pos rfl]
  rfl

theorem goesOn_cons_other {n k : ℕ} {c : Char} {cs : List Char} (hc : L.member c = false)
    (hne : c ≠ L.separator) :
    L.goesOn n k (c :: cs) = (n == 0 && decide (L.least ≤ k) && !L.around c) := by
  rw [goesOn, if_neg (by rw [hc]; exact Bool.false_ne_true), if_neg hne]

/-- More groups contain fewer. -/
theorem goesOn_of_succ {n k : ℕ} {text : List Char} (h : L.goesOn (n + 1) k text = true) :
    L.goesOn n k text = true := by
  induction text generalizing n k with
  | nil =>
      rw [goesOn, Bool.and_eq_true, beq_iff_eq] at h
      cases h.1
  | cons c cs ih =>
      by_cases hc : L.member c = true
      · rw [goesOn_cons_member hc, Bool.and_eq_true] at h ⊢
        exact ⟨h.1, ih h.2⟩
      · rw [Bool.not_eq_true] at hc
        by_cases hne : c = L.separator
        · subst hne
          rw [goesOn_separator_succ, Bool.and_eq_true] at h
          cases n with
          | zero => rw [goesOn_separator_zero, h.1]
          | succ n =>
              rw [goesOn_separator_succ, Bool.and_eq_true]
              exact ⟨h.1, ih h.2⟩
        · rw [goesOn_cons_other hc hne, Bool.and_eq_true, Bool.and_eq_true, beq_iff_eq] at h
          cases h.1.1

theorem goesOn_mono {m n k : ℕ} {text : List Char} (hle : m ≤ n) (h : L.goesOn n k text = true) :
    L.goesOn m k text = true := by
  induction n, hle using Nat.le_induction with
  | base => exact h
  | succ n _ ih => exact ih (goesOn_of_succ h)

/-- What follows `w` if `w` is the rest of a group. -/
def Follows (L : Literal) : ℕ → List Char → Prop
  | 0, rest => rest.head?.any L.around = false
  | n + 1, rest => ∃ rest', rest = L.separator :: rest' ∧ L.goesOn n 0 rest' = true

theorem follows_zero {rest : List Char} : L.Follows 0 rest ↔ rest.head?.any L.around = false := Iff.rfl

theorem follows_not_member {n : ℕ} {rest : List Char} (h : L.Follows n rest) :
    ∀ c ∈ rest.head?, L.member c = false := by
  intro c hc
  cases n with
  | zero =>
      rw [Bool.eq_false_iff]
      intro hmember
      rw [follows_zero, Option.mem_def.mp hc, Option.any_some, L.member_around c hmember] at h
      cases h
  | succ n =>
      obtain ⟨rest', rfl, -⟩ := h
      rw [List.head?_cons, Option.mem_some] at hc
      rw [← hc]
      exact member_separator

/-- The group that is being read, and what follows it. -/
theorem goesOn_iff {n k : ℕ} (hk : k ≤ L.most) {text : List Char} :
    L.goesOn n k text = true ↔ ∃ w rest, text = w ++ rest ∧ (∀ c ∈ w, L.member c = true) ∧
      L.least ≤ k + w.length ∧ k + w.length ≤ L.most ∧ L.Follows n rest := by
  induction text generalizing k with
  | nil =>
      rw [goesOn, Bool.and_eq_true, beq_iff_eq, decide_eq_true_eq]
      constructor
      · rintro ⟨rfl, hleast⟩
        exact ⟨[], [], rfl, fun _ hc => absurd hc List.not_mem_nil, hleast, hk, rfl⟩
      · rintro ⟨w, rest, htext, -, hleast, -, hfollows⟩
        obtain ⟨rfl, rfl⟩ := List.append_eq_nil_iff.mp htext.symm
        refine ⟨?_, hleast⟩
        cases n with
        | zero => rfl
        | succ n =>
            obtain ⟨rest', hrest, -⟩ := hfollows
            cases hrest
  | cons c cs ih =>
      by_cases hc : L.member c = true
      · rw [goesOn_cons_member hc, Bool.and_eq_true, decide_eq_true_eq]
        constructor
        · rintro ⟨hlt, h⟩
          obtain ⟨w, rest, rfl, hw, hleast, hmost, hfollows⟩ := (ih hlt).mp h
          refine ⟨c :: w, rest, rfl, fun d hd => ?_, ?_, ?_, hfollows⟩
          · exact (List.mem_cons.mp hd).elim (fun heq => heq ▸ hc) (hw d)
          · rw [List.length_cons]
            omega
          · rw [List.length_cons]
            omega
        · rintro ⟨w, rest, htext, hw, hleast, hmost, hfollows⟩
          cases w with
          | nil =>
              rw [List.nil_append] at htext
              subst htext
              have hno := follows_not_member hfollows c rfl
              rw [hc] at hno
              cases hno
          | cons d w =>
              obtain ⟨rfl, rfl⟩ := List.cons.inj htext
              rw [List.length_cons] at hleast hmost
              have hlt : k < L.most := by omega
              refine ⟨hlt, (ih hlt).mpr ⟨w, rest, rfl, fun d hd => hw d (List.mem_cons_of_mem _ hd),
                ?_, ?_, hfollows⟩⟩
              · omega
              · omega
      · rw [Bool.not_eq_true] at hc
        -- Nothing more belongs to the group.
        have hend : (∃ w rest, c :: cs = w ++ rest ∧ (∀ c ∈ w, L.member c = true) ∧
            L.least ≤ k + w.length ∧ k + w.length ≤ L.most ∧ L.Follows n rest) ↔
            L.least ≤ k ∧ L.Follows n (c :: cs) := by
          constructor
          · rintro ⟨w, rest, htext, hw, hleast, -, hfollows⟩
            cases w with
            | nil => exact ⟨hleast, htext ▸ hfollows⟩
            | cons d w =>
                have hd := hw d List.mem_cons_self
                rw [← (List.cons.inj htext).1, hc] at hd
                cases hd
          · rintro ⟨hleast, hfollows⟩
            exact ⟨[], c :: cs, rfl, fun _ hd => absurd hd List.not_mem_nil, hleast, hk, hfollows⟩
        rw [hend]
        by_cases hne : c = L.separator
        · subst hne
          cases n with
          | zero =>
              rw [goesOn_separator_zero, decide_eq_true_eq]
              refine (and_iff_left ?_).symm
              rw [follows_zero, List.head?_cons, Option.any_some, L.separator_around]
          | succ n =>
              rw [goesOn_separator_succ, Bool.and_eq_true, decide_eq_true_eq]
              refine and_congr_right fun _ => ⟨fun h => ⟨cs, rfl, h⟩, fun ⟨rest', hrest, h⟩ => ?_⟩
              rwa [(List.cons.inj hrest).2]
        · rw [goesOn_cons_other hc hne, Bool.and_eq_true, Bool.and_eq_true, beq_iff_eq,
            decide_eq_true_eq, Bool.not_eq_true']
          cases n with
          | zero =>
              rw [follows_zero, List.head?_cons, Option.any_some]
              exact ⟨fun h => ⟨h.1.2, h.2⟩, fun h => ⟨⟨rfl, h.1⟩, h.2⟩⟩
          | succ n =>
              refine iff_of_false (fun h => by cases h.1.1) fun ⟨_, rest', hrest, _⟩ => ?_
              exact hne (List.cons.inj hrest).1

/-! ## Matches -/

theorem mem_digits {p q : Place} : q ∈ L.digits.run p ↔
    ∃ w, L.least ≤ w.length ∧ w.length ≤ L.most ∧ Takes L.member p q w :=
  mem_run_times_char L.least_le

theorem mem_group {p q : Place} : q ∈ L.group.run p ↔
    ∃ w, p.rest = w ++ L.separator :: q.rest ∧ (∀ c ∈ w, L.member c = true) ∧
      L.least ≤ w.length ∧ w.length ≤ L.most ∧ q.prev = some L.separator := by
  unfold group
  rw [run, List.mem_flatMap]
  constructor
  · rintro ⟨p', hp', hq⟩
    obtain ⟨w, hleast, hmost, h⟩ := mem_digits.mp hp'
    obtain ⟨c, hrest, hc, hprev⟩ := mem_run_char.mp hq
    obtain rfl := beq_iff_eq.mp hc
    exact ⟨w, by rw [h.rest, hrest], h.accepted, hleast, hmost, hprev⟩
  · rintro ⟨w, hrest, hw, hleast, hmost, hprev⟩
    refine ⟨⟨lastOf p.prev w, L.separator :: q.rest⟩, ?_, ?_⟩
    · exact mem_digits.mpr ⟨w, hleast, hmost, hrest, hw, rfl⟩
    · exact mem_run_char.mpr ⟨L.separator, rfl, beq_self_eq_true _, hprev⟩

theorem mem_tail {p q : Place} : q ∈ L.tail.run p ↔
    ∃ w, L.least ≤ w.length ∧ w.length ≤ L.most ∧ Takes L.member p q w ∧
      q.rest.head?.any L.around = false := by
  unfold tail
  rw [run, List.mem_flatMap]
  constructor
  · rintro ⟨p', hp', hq⟩
    obtain ⟨w, hleast, hmost, h⟩ := mem_digits.mp hp'
    rw [run] at hq
    split at hq
    · cases hq
    · rename_i haround
      rw [List.mem_singleton.mp hq]
      exact ⟨w, hleast, hmost, h, Bool.eq_false_of_not_eq_true haround⟩
  · rintro ⟨w, hleast, hmost, h, haround⟩
    refine ⟨q, mem_digits.mpr ⟨w, hleast, hmost, h⟩, ?_⟩
    rw [run, if_neg (by rw [haround]; exact Bool.false_ne_true)]
    exact List.mem_singleton_self q

theorem exists_tail {p : Place} : (∃ q, q ∈ L.tail.run p) ↔ L.goesOn 0 0 p.rest = true := by
  rw [goesOn_iff (Nat.zero_le _)]
  simp only [mem_tail, Nat.zero_add]
  constructor
  · rintro ⟨q, w, hleast, hmost, h, haround⟩
    exact ⟨w, q.rest, h.rest, h.accepted, hleast, hmost, haround⟩
  · rintro ⟨w, rest, hrest, hw, hleast, hmost, haround⟩
    exact ⟨⟨lastOf p.prev w, rest⟩, w, hleast, hmost, ⟨hrest, hw, rfl⟩, haround⟩

theorem exists_group {n : ℕ} {p : Place} :
    (∃ q ∈ L.group.run p, L.goesOn n 0 q.rest = true) ↔ L.goesOn (n + 1) 0 p.rest = true := by
  rw [goesOn_iff (Nat.zero_le _)]
  simp only [mem_group, Nat.zero_add]
  constructor
  · rintro ⟨q, ⟨w, hrest, hw, hleast, hmost, -⟩, hq⟩
    exact ⟨w, L.separator :: q.rest, hrest, hw, hleast, hmost, q.rest, rfl, hq⟩
  · rintro ⟨w, rest, hrest, hw, hleast, hmost, rest', rfl, hq⟩
    exact ⟨⟨some L.separator, rest'⟩, ⟨w, hrest, hw, hleast, hmost, rfl⟩, hq⟩

theorem exists_exactly {n : ℕ} {p : Place} :
    (∃ q ∈ exactly L.group.run n p, L.goesOn 0 0 q.rest = true) ↔
      L.goesOn n 0 p.rest = true := by
  induction n generalizing p with
  | zero =>
      rw [exactly]
      simp only [List.mem_singleton, exists_eq_left]
  | succ n ih =>
      rw [← exists_group, exactly]
      simp only [List.mem_flatMap]
      constructor
      · rintro ⟨q, ⟨p', hp', hq⟩, h⟩
        exact ⟨p', hp', ih.mp ⟨q, hq, h⟩⟩
      · rintro ⟨p', hp', h⟩
        obtain ⟨q, hq, h⟩ := ih.mpr h
        exact ⟨q, ⟨p', hp', hq⟩, h⟩

theorem goesOn_of_greedy {m : ℕ} {p q : Place} (hq : q ∈ greedy L.group.run m p)
    (h : L.goesOn 0 0 q.rest = true) : L.goesOn 0 0 p.rest = true := by
  induction m generalizing p with
  | zero =>
      rw [greedy, List.mem_singleton] at hq
      rwa [← hq]
  | succ m ih =>
      rw [greedy, List.mem_append, List.mem_singleton] at hq
      rcases hq with hq | rfl
      · obtain ⟨p', hp', hq⟩ := List.mem_flatMap.mp hq
        exact goesOn_of_succ (exists_group.mp ⟨p', (List.mem_filter.mp hp').1, ih hq⟩)
      · exact h

/-- Where a match ends. -/
theorem mem_regex {least : ℕ} {most : Option ℕ} {p q : Place} : q ∈ (L.regex least most).run p ↔
    p.prev.any L.around = false ∧ ∃ p' ∈ exactly L.group.run least p,
      ∃ p'' ∈ greedy L.group.run (most.elim p'.rest.length (· - least)) p', q ∈ L.tail.run p'' := by
  unfold regex
  rw [run, run]
  split
  · rename_i haround
    rw [List.flatMap_nil]
    exact iff_of_false List.not_mem_nil fun h => by rw [haround] at h; cases h.1
  · rename_i haround
    rw [List.flatMap_singleton, run, run, List.mem_flatMap]
    simp only [List.mem_flatMap]
    rw [and_iff_right (Bool.eq_false_of_not_eq_true haround)]
    constructor
    · rintro ⟨p'', ⟨p', hp', hp''⟩, hq⟩
      exact ⟨p', hp', p'', hp'', hq⟩
    · rintro ⟨p', hp', p'', hp'', hq⟩
      exact ⟨p'', ⟨p', hp', hp''⟩, hq⟩

theorem exists_regex {least : ℕ} {most : Option ℕ} {p : Place} :
    (∃ q, q ∈ (L.regex least most).run p) ↔
      p.prev.any L.around = false ∧ L.goesOn least 0 p.rest = true := by
  simp only [mem_regex]
  constructor
  · rintro ⟨q, haround, p', hp', p'', hp'', hq⟩
    refine ⟨haround, exists_exactly.mp ⟨p', hp', goesOn_of_greedy hp'' (exists_tail.mp ⟨q, hq⟩)⟩⟩
  · rintro ⟨haround, h⟩
    obtain ⟨p', hp', h⟩ := exists_exactly.mpr h
    obtain ⟨q, hq⟩ := exists_tail.mpr h
    exact ⟨q, haround, p', hp', p', self_mem_greedy _ _ _, hq⟩

/-- A group takes its separator at least. -/
theorem length_of_mem_exactly {n : ℕ} {p q : Place} (h : q ∈ exactly L.group.run n p) :
    q.rest.length + n ≤ p.rest.length := by
  induction n generalizing p with
  | zero =>
      rw [exactly, List.mem_singleton] at h
      rw [h]
      exact Nat.le_refl _
  | succ n ih =>
      obtain ⟨p', hp', h⟩ := List.mem_flatMap.mp h
      obtain ⟨w, hrest, -⟩ := mem_group.mp hp'
      have hlength := ih h
      rw [hrest, List.length_append, List.length_cons]
      omega

theorem finds {least : ℕ} (hleast : 0 < least) (most : Option ℕ) :
    Finds (L.regex least most).matchLength (fun prev => prev.any L.around = true)
      fun text => L.goesOn least 0 text = true where
  found prev text := by
    have hsome (ends : List Place) : ends ≠ [] ↔ ∃ q, q ∈ ends :=
      ⟨List.exists_mem_of_ne_nil _, fun ⟨_, hq⟩ => List.ne_nil_of_mem hq⟩
    rw [matchLength_pos_iff, hsome, exists_regex, Bool.not_eq_true]
    intro q hq
    obtain ⟨-, p', hp', p'', hp'', hq⟩ := mem_regex.mp hq
    have hgroups := length_of_mem_exactly hp'
    have hmore := ReadsOn.length_le (readsOn_greedy (fun _ _ => readsOn_run) hp'')
    have htail := ReadsOn.length_le (readsOn_run hq)
    dsimp only at hgroups
    omega

/-! ## Behind a match -/

/-- What no group can begin with begins no groups. -/
theorem starts_false {L' : Literal} (hmember : ∀ c, L'.member c = true → L.around c = true)
    (hleast : 0 < L'.least) {n : ℕ} {rest : List Char} (h : rest.head?.any L.around = false) :
    L'.goesOn n 0 rest = false := by
  rw [Bool.eq_false_iff]
  intro hgoes
  obtain ⟨w, rest', rfl, hw, hlength, -, -⟩ := (goesOn_iff (Nat.zero_le _)).mp hgoes
  cases w with
  | nil =>
      rw [List.length_nil] at hlength
      omega
  | cons c w =>
      rw [List.cons_append, List.head?_cons, Option.any_some,
        hmember c (hw c List.mem_cons_self)] at h
      cases h

/-- A match without an upper bound is not followed by another group. -/
theorem greedy_exhausts {n m : ℕ} {p q : Place} (hm : p.rest.length ≤ m)
    (h : ((greedy L.group.run m p).flatMap L.tail.run).head? = some q) :
    L.goesOn (n + 1) 0 q.rest = false := by
  induction m generalizing p with
  | zero =>
      rw [greedy, List.flatMap_singleton] at h
      have hshort := ReadsOn.length_le (readsOn_run (List.mem_of_mem_head? h))
      have hnil : q.rest = [] := List.eq_nil_of_length_eq_zero (by omega)
      rw [hnil]
      rfl
  | succ m ih =>
      rw [greedy, List.flatMap_append, List.head?_append, List.flatMap_singleton] at h
      cases hmore : ((((L.group.run p).filter (·.rest.length < p.rest.length)).flatMap
          (greedy L.group.run m)).flatMap L.tail.run).head? with
      | some q' =>
          rw [hmore] at h
          obtain rfl := Option.some.inj h
          rw [List.flatMap_assoc, List.head?_flatMap] at hmore
          obtain ⟨p', hp', hhead⟩ := List.exists_of_findSome?_eq_some hmore
          have hlt := of_decide_eq_true (List.mem_filter.mp hp').2
          exact ih (by omega) hhead
      | none =>
          rw [hmore] at h
          have hnone := List.head?_eq_none_iff.mp hmore
          obtain ⟨w, hleast, hmost, htakes, haround⟩ := mem_tail.mp (List.mem_of_mem_head? h)
          rw [Bool.eq_false_iff]
          intro hgoes
          obtain ⟨w', rest, hrest, hw', -, -, rest', rfl, hgoes⟩ :=
            (goesOn_iff (Nat.zero_le _)).mp hgoes
          have hnil : w' = [] := by
            cases w' with
            | nil => rfl
            | cons c w' =>
                rw [hrest, List.cons_append, List.head?_cons, Option.any_some,
                  L.member_around c (hw' c List.mem_cons_self)] at haround
                cases haround
          subst hnil
          -- One more group would have been tried first.
          have hgroup : (⟨some L.separator, rest'⟩ : Place) ∈ L.group.run p :=
            mem_group.mpr ⟨w, by rw [htakes.rest, hrest]; rfl, htakes.accepted, hleast, hmost, rfl⟩
          have hshorter : rest'.length < p.rest.length := by
            rw [htakes.rest, hrest, List.length_append, List.nil_append, List.length_cons]
            omega
          have hlast : L.goesOn 0 0 (⟨some L.separator, rest'⟩ : Place).rest = true :=
            goesOn_mono (Nat.zero_le n) hgoes
          obtain ⟨q', hq'⟩ := exists_tail.mpr hlast
          refine List.ne_nil_of_mem (List.mem_flatMap.mpr ⟨_, List.mem_flatMap.mpr ⟨_, ?_,
            self_mem_greedy _ m _⟩, hq'⟩) hnone
          exact List.mem_filter.mpr ⟨hgroup, decide_eq_true hshorter⟩

theorem head?_regex {least : ℕ} {most : Option ℕ} {p q : Place}
    (h : ((L.regex least most).run p).head? = some q) :
    q.rest.head?.any L.around = false ∧
      (most = none → ∀ n, L.goesOn (n + 1) 0 q.rest = false) := by
  constructor
  · obtain ⟨-, p', -, p'', -, hq⟩ := mem_regex.mp (List.mem_of_mem_head? h)
    obtain ⟨w, -, -, -, haround⟩ := mem_tail.mp hq
    exact haround
  · rintro rfl n
    unfold regex at h
    rw [run, run] at h
    split at h
    · cases h
    · rw [List.flatMap_singleton, run, run, List.flatMap_assoc, List.head?_flatMap] at h
      obtain ⟨p', -, hhead⟩ := List.exists_of_findSome?_eq_some h
      exact greedy_exhausts (Nat.le_refl _) hhead

/-! ## Taking literals out -/

section Strike

variable {least : ℕ} {most : Option ℕ}

/-- Groups that are there without the literals were there with them. -/
theorem goesOn_of_strike (hleast : 0 < least) {prev : Option Char} {text : List Char} {n k : ℕ}
    (hn : n ≤ least) (hk : 0 < k → prev.any L.around = true)
    (h : L.goesOn n k (strike (L.regex least most).matchLength 0 prev text) = true) :
    L.goesOn n k text = true := by
  induction text generalizing prev n k with
  | nil => rwa [strike_nil] at h
  | cons c cs ih =>
      by_cases hlen : (L.regex least most).matchLength prev (c :: cs) = 0
      · rw [strike_cons_of_none hlen] at h
        by_cases hc : L.member c = true
        · rw [goesOn_cons_member hc, Bool.and_eq_true] at h ⊢
          have hnext : 0 < k + 1 → (some c).any L.around = true := fun _ => L.member_around c hc
          exact ⟨h.1, ih hn hnext h.2⟩
        · rw [Bool.not_eq_true] at hc
          by_cases hne : c = L.separator
          · subst hne
            cases n with
            | zero => rwa [goesOn_separator_zero] at h ⊢
            | succ n =>
                rw [goesOn_separator_succ, Bool.and_eq_true] at h ⊢
                exact ⟨h.1, ih (by omega) (fun hzero => absurd hzero (Nat.lt_irrefl 0)) h.2⟩
          · rwa [goesOn_cons_other hc hne] at h ⊢
      · obtain ⟨hopen, hhit⟩ := ((finds hleast most).found _ _).mp (Nat.pos_of_ne_zero hlen)
        have hzero : k = 0 := by
          by_contra hpos
          exact hopen (hk (Nat.pos_of_ne_zero hpos))
        subst hzero
        exact goesOn_mono hn hhit

/-- Taking literals out leaves none, where a group is not empty or literals are as long as
possible. -/
theorem leaves (hleast : 0 < least) (hgroups : 0 < L.least ∨ most = none) :
    Leaves (L.regex least most).matchLength fun text => L.goesOn least 0 text = true where
  pulled _ _ h := goesOn_of_strike hleast (Nat.le_refl _) (fun hzero => absurd hzero (Nat.lt_irrefl 0)) h
  behind prev text h := by
    intro hgoes
    have hbehind := goesOn_of_strike hleast (Nat.le_refl _)
      (fun hzero => absurd hzero (Nat.lt_irrefl 0)) hgoes
    obtain ⟨q, hhead, hdrop, -⟩ := matchLength_pos h
    obtain ⟨haround, hexhausted⟩ := head?_regex hhead
    obtain ⟨n, rfl⟩ := Nat.exists_eq_add_one_of_ne_zero (Nat.ne_of_gt hleast)
    rw [hdrop] at hbehind
    rcases hgroups with hfull | hmost
    · rw [starts_false L.member_around hfull haround] at hbehind
      cases hbehind
    · rw [hexhausted hmost n] at hbehind
      cases hbehind

theorem clean_remove (hleast : 0 < least) (hgroups : 0 < L.least ∨ most = none)
    (prev : Option Char) (text : List Char) :
    Clean (L.regex least most).matchLength prev
      (strike (L.regex least most).matchLength 0 prev text) :=
  clean_strike (P := fun _ _ => True) (finds hleast most) (leaves hleast hgroups)
    (fun _ _ _ _ => trivial) (fun _ _ _ _ hlen => hlen) trivial

/-- After a match, what is left does not begin with what could belong to a group. -/
theorem head?_strike_behind (hleast : 0 < least) {prev : Option Char} {text : List Char}
    (h : 0 < (L.regex least none).matchLength prev text) :
    (strike (L.regex least none).matchLength 0
      (lastOf prev (text.take ((L.regex least none).matchLength prev text)))
      (text.drop ((L.regex least none).matchLength prev text))).head?.any L.around = false := by
  obtain ⟨q, hhead, hdrop, hprev⟩ := matchLength_pos h
  obtain ⟨haround, hexhausted⟩ := head?_regex hhead
  obtain ⟨n, rfl⟩ := Nat.exists_eq_add_one_of_ne_zero (Nat.ne_of_gt hleast)
  rw [hdrop, hprev]
  cases hrest : q.rest with
  | nil =>
      rw [strike_nil]
      rfl
  | cons d ds =>
      have hnot : ¬L.goesOn (n + 1) 0 (d :: ds) = true := by
        rw [← hrest, hexhausted rfl n]
        exact Bool.false_ne_true
      rw [hrest] at haround
      rw [strike_cons_of_none ((finds hleast none).not_hit hnot)]
      exact haround

variable {L' : Literal}

/-- Groups of another literal are not brought about either, if its members could belong to a
group of the literal that is taken out. -/
theorem goesOn_of_strike_other (hleast : 0 < least) (hmember : ∀ c, L'.member c = true → L.around c = true)
    (hfull : 0 < L'.least) {prev : Option Char} {text : List Char} {n k : ℕ}
    (hk : 0 < k → prev.any L.around = true)
    (h : L'.goesOn n k (strike (L.regex least none).matchLength 0 prev text) = true) :
    L'.goesOn n k text = true := by
  induction text generalizing prev n k with
  | nil => rwa [strike_nil] at h
  | cons c cs ih =>
      by_cases hlen : (L.regex least none).matchLength prev (c :: cs) = 0
      · rw [strike_cons_of_none hlen] at h
        by_cases hc : L'.member c = true
        · rw [goesOn_cons_member hc, Bool.and_eq_true] at h ⊢
          have hnext : 0 < k + 1 → (some c).any L.around = true := fun _ => hmember c hc
          exact ⟨h.1, ih hnext h.2⟩
        · rw [Bool.not_eq_true] at hc
          by_cases hne : c = L'.separator
          · subst hne
            cases n with
            | zero => rwa [goesOn_separator_zero] at h ⊢
            | succ n =>
                rw [goesOn_separator_succ, Bool.and_eq_true] at h ⊢
                exact ⟨h.1, ih (fun hzero => absurd hzero (Nat.lt_irrefl 0)) h.2⟩
          · rwa [goesOn_cons_other hc hne] at h ⊢
      · have hpos := Nat.pos_of_ne_zero hlen
        obtain ⟨hopen, -⟩ := ((finds hleast none).found _ _).mp hpos
        have hzero : k = 0 := by
          by_contra hne
          exact hopen (hk (Nat.pos_of_ne_zero hne))
        subst hzero
        rw [strike_of_match hpos, starts_false hmember hfull (head?_strike_behind hleast hpos)] at h
        cases h

theorem leaves_other (hleast : 0 < least) (hmember : ∀ c, L'.member c = true → L.around c = true)
    (hfull : 0 < L'.least) (n : ℕ) :
    Leaves (L.regex least none).matchLength fun text => L'.goesOn n 0 text = true where
  pulled _ _ h := goesOn_of_strike_other hleast hmember hfull
    (fun hzero => absurd hzero (Nat.lt_irrefl 0)) h
  behind prev text h := by
    rw [starts_false hmember hfull (head?_strike_behind hleast h)]
    exact Bool.false_ne_true

end Strike

end Literal

/-! ## The two literals -/

/-- `[0-9A-Fa-f]`. -/
def isHexDigit (c : Char) : Bool :=
  c.isDigit || ('a' ≤ c && c ≤ 'f') || ('A' ≤ c && c ≤ 'F')

/-- `(?<![0-9A-Za-z])(?:[0-9]{1,3}\.){3}[0-9]{1,3}(?![0-9A-Za-z])`. -/
def ipv4 : Literal where
  member := Char.isDigit
  separator := '.'
  least := 1
  most := 3
  around := Char.isAlphanum
  member_around c h := by
    unfold Char.isAlphanum
    rw [h, Bool.or_true]
  separator_around := by decide
  least_le := by decide

/-- `(?<![0-9A-Fa-f])(?:[0-9A-Fa-f]{0,4}:){2,}[0-9A-Fa-f]{0,4}(?![0-9A-Fa-f])`. -/
def ipv6 : Literal where
  member := isHexDigit
  separator := ':'
  least := 0
  most := 4
  around := isHexDigit
  member_around _ h := h
  separator_around := by decide
  least_le := by decide

/-- The patterns of `_remove_ip_literals`, in their order. -/
def ipv4Pattern : Regex := ipv4.regex 3 (some 3)

def ipv6Pattern : Regex := ipv6.regex 2 none

def removeLiterals (text : List Char) : List Char := ipv6Pattern.remove (ipv4Pattern.remove text)

/-- `_remove_ip_literals`. -/
def removeIpLiterals (value : String) : String := String.ofList (removeLiterals value.toList)

theorem digit_isHexDigit (c : Char) (h : ipv4.member c = true) : ipv6.around c = true := by
  unfold ipv6 isHexDigit
  dsimp only
  rw [show c.isDigit = true from h, Bool.true_or, Bool.true_or]

/-- Neither pattern is found in the text. -/
def IpFree (text : List Char) : Prop :=
  Clean ipv4Pattern.matchLength none text ∧ Clean ipv6Pattern.matchLength none text

theorem ipFree_removeLiterals (text : List Char) : IpFree (removeLiterals text) := by
  have hfirst : Clean ipv4Pattern.matchLength none (ipv4Pattern.remove text) :=
    Literal.clean_remove (by decide) (.inl (by decide)) none text
  have hleaves : Leaves ipv6Pattern.matchLength fun text => ipv4.goesOn 3 0 text = true :=
    Literal.leaves_other (by decide) digit_isHexDigit (by decide) 3
  exact ⟨hfirst.strike (Literal.finds (by decide) (some 3)) hleaves,
    Literal.clean_remove (by decide) (.inr rfl) none _⟩

theorem removeLiterals_of_ipFree {text : List Char} (h : IpFree text) :
    removeLiterals text = text := by
  unfold removeLiterals
  have hfirst : ipv4Pattern.remove text = text := strike_of_clean h.1
  rw [hfirst]
  exact strike_of_clean h.2

/-- Taking the literals out twice is taking them out once. -/
theorem removeLiterals_idem (text : List Char) :
    removeLiterals (removeLiterals text) = removeLiterals text :=
  removeLiterals_of_ipFree (ipFree_removeLiterals text)

theorem removeIpLiterals_idem (value : String) :
    removeIpLiterals (removeIpLiterals value) = removeIpLiterals value := by
  unfold removeIpLiterals
  rw [String.toList_ofList, removeLiterals_idem]

example : removeIpLiterals "dial tcp 10.0.0.1:443, fe80::1 and 1.2.3.4.5" =
    "dial tcp :443,  and .5" := by decide +kernel

end LogRisk.Approval
