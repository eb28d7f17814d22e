import Mathlib.Data.List.Basic
import Mathlib.Tactic.Basic

/-!
# Texts with percent parameters

A pyformat driver reads `%%` as a percent sign and `%s` as a parameter, and refuses any other
percent sign.  `write` puts `%s` for the marked characters of a text and copies the others, so
a percent sign of the text itself is read back as something else.
-/

namespace LogRisk.Library.Pyformat

inductive Token where
  | char (c : Char)
  | param
deriving DecidableEq

/-- What a driver understands of a text. -/
def read : List Char → Option (List Token)
  | [] => some []
  | '%' :: '%' :: cs => (read cs).map (.char '%' :: ·)
  | '%' :: 's' :: cs => (read cs).map (.param :: ·)
  | '%' :: _ => none
  | c :: cs => (read cs).map (.char c :: ·)

/-- A text some of whose characters stand for parameters. -/
abbrev Marked := List (Char × Bool)

def text (m : Marked) : List Char := m.map Prod.fst

def tokens (m : Marked) : List Token := m.map fun x => if x.2 then .param else .char x.1

def write (m : Marked) : List Char := m.flatMap fun x => if x.2 then ['%', 's'] else [x.1]

theorem write_append (m n : Marked) : write (m ++ n) = write m ++ write n := by
  unfold write
  exact List.flatMap_append

theorem read_cons {c : Char} (hc : c ≠ '%') (cs : List Char) :
    read (c :: cs) = (read cs).map (.char c :: ·) := by
  rw [read]
  · exact fun _ h => absurd h hc
  · exact fun _ h => absurd h hc
  · exact hc

@[simp] theorem read_percent_percent (cs : List Char) :
    read ('%' :: '%' :: cs) = (read cs).map (.char '%' :: ·) := by rw [read]

@[simp] theorem read_percent_s (cs : List Char) :
    read ('%' :: 's' :: cs) = (read cs).map (.param :: ·) := by rw [read]

theorem read_percent {cs : List Char} {ts : List Token} (h : read ('%' :: cs) = some ts) :
    (∃ cs' ts', cs = '%' :: cs' ∧ read cs' = some ts' ∧ ts = .char '%' :: ts') ∨
      ∃ cs' ts', cs = 's' :: cs' ∧ read cs' = some ts' ∧ ts = .param :: ts' := by
  cases cs with
  | nil => simp [read] at h
  | cons c cs' =>
    by_cases hpercent : c = '%'
    · subst hpercent
      rw [read_percent_percent, Option.map_eq_some_iff] at h
      obtain ⟨ts', hread, hts⟩ := h
      exact .inl ⟨cs', ts', rfl, hread, hts.symm⟩
    · by_cases hs : c = 's'
      · subst hs
        rw [read_percent_s, Option.map_eq_some_iff] at h
        obtain ⟨ts', hread, hts⟩ := h
        exact .inr ⟨cs', ts', rfl, hread, hts.symm⟩
      · rw [read] at h
        · cases h
        · exact fun cs'' hcs => hpercent (List.cons.inj hcs).1
        · exact fun cs'' hcs => hs (List.cons.inj hcs).1

@[simp] theorem write_cons_true (c : Char) (m : Marked) :
    write ((c, true) :: m) = '%' :: 's' :: write m := rfl

@[simp] theorem write_cons_false (c : Char) (m : Marked) :
    write ((c, false) :: m) = c :: write m := rfl

@[simp] theorem tokens_cons_true (c : Char) (m : Marked) :
    tokens ((c, true) :: m) = .param :: tokens m := rfl

@[simp] theorem tokens_cons_false (c : Char) (m : Marked) :
    tokens ((c, false) :: m) = .char c :: tokens m := rfl

@[simp] theorem text_cons (x : Char × Bool) (m : Marked) : text (x :: m) = x.1 :: text m := rfl

theorem length_tokens (m : Marked) : (tokens m).length = (text m).length := by
  simp [tokens, text]

/-- Without a percent sign of its own a text is read back as it was marked. -/
theorem read_write {m : Marked} (h : '%' ∉ text m) : read (write m) = some (tokens m) := by
  induction m with
  | nil => rfl
  | cons x m ih =>
    obtain ⟨c, marked⟩ := x
    rw [text_cons, List.mem_cons, not_or] at h
    have hrest := ih h.2
    cases marked with
    | true => simp [hrest]
    | false => simp [read_cons (Ne.symm h.1), hrest]

/-- A driver never reads more tokens than the text has characters, also where a percent sign
stands in front of it: a parameter that loses its percent sign leaves its letter behind, but
the sign in front has then lost a character. -/
theorem length_read_write (m : Marked) :
    (∀ ts, read (write m) = some ts → ts.length ≤ m.length) ∧
      ∀ ts, read ('%' :: write m) = some ts → ts.length ≤ m.length + 1 := by
  induction m with
  | nil =>
    constructor
    · intro ts h
      cases h
      exact Nat.le_refl 0
    · intro ts h
      cases h
  | cons x m ih =>
    obtain ⟨hplain, hbehind⟩ := ih
    obtain ⟨c, marked⟩ := x
    cases marked with
    | true =>
      constructor
      · intro ts h
        rw [write_cons_true, read_percent_s, Option.map_eq_some_iff] at h
        obtain ⟨ts', hread, rfl⟩ := h
        exact Nat.succ_le_succ (hplain ts' hread)
      · intro ts h
        rw [write_cons_true, read_percent_percent, read_cons (by decide),
          Option.map_map, Option.map_eq_some_iff] at h
        obtain ⟨ts', hread, rfl⟩ := h
        exact Nat.succ_le_succ (Nat.succ_le_succ (hplain ts' hread))
    | false =>
      rw [write_cons_false]
      constructor
      · intro ts h
        by_cases hc : c = '%'
        · subst hc
          exact hbehind ts h
        · rw [read_cons hc, Option.map_eq_some_iff] at h
          obtain ⟨ts', hread, rfl⟩ := h
          exact Nat.succ_le_succ (hplain ts' hread)
      · intro ts h
        obtain ⟨cs', ts', hcs, hread, rfl⟩ | ⟨cs', ts', hcs, hread, rfl⟩ := read_percent h
        · obtain ⟨-, rfl⟩ := List.cons.inj hcs
          exact Nat.succ_le_succ (Nat.le_succ_of_le (hplain ts' hread))
        · obtain ⟨-, rfl⟩ := List.cons.inj hcs
          exact Nat.succ_le_succ (Nat.le_succ_of_le (hplain ts' hread))

/-- Only question marks are marked. -/
def Questions (m : Marked) : Prop := ∀ x ∈ m, x.2 = true → x.1 = '?'

theorem Questions.tail {x : Char × Bool} {m : Marked} (h : Questions (x :: m)) : Questions m :=
  fun y hy => h y (List.mem_cons_of_mem x hy)

/-- A percent sign in front of a text is not read as that sign and then the text, whatever the
text should mean. -/
theorem read_percent_ne {m m' : Marked} (hm : Questions m) (htext : text m = text m') :
    read ('%' :: write m) ≠ some (.char '%' :: tokens m') := by
  intro h
  obtain ⟨cs, ts, hcs, hread, hts⟩ | ⟨cs, ts, -, -, hts⟩ := read_percent h
  · obtain rfl := (List.cons.inj hts).2
    cases m with
    | nil => cases hcs
    | cons x m =>
      obtain ⟨c, marked⟩ := x
      cases m' with
      | nil => cases htext
      | cons x' m' =>
        obtain ⟨c', marked'⟩ := x'
        obtain ⟨rfl, htail⟩ := List.cons.inj htext
        cases marked with
        | true =>
          -- the sign takes the percent sign of a parameter, whose letter is left over
          obtain rfl : c = '?' := hm _ List.mem_cons_self rfl
          rw [← (List.cons.inj hcs).2] at hread
          change read ('s' :: write m) = _ at hread
          rw [read_cons (by decide), Option.map_eq_some_iff] at hread
          obtain ⟨_, -, hhead⟩ := hread
          cases marked' <;> simp at hhead
        | false =>
          -- the sign takes another sign of the text, and one token is missing
          rw [← (List.cons.inj hcs).2] at hread
          change read (write m) = _ at hread
          have hlength := (length_read_write m).1 _ hread
          have hsame : m.length = m'.length := by simpa using congrArg List.length htail
          rw [length_tokens, text_cons, List.length_cons] at hlength
          unfold text at hlength
          rw [List.length_map, ← hsame] at hlength
          omega
  · cases (List.cons.inj hts).1

/-- A driver reads a written text as it is meant exactly where what is meant is what was marked
and the text has no percent sign of its own. -/
theorem read_write_iff {m m' : Marked} (hm : Questions m) (hm' : Questions m')
    (htext : text m = text m') :
    read (write m) = some (tokens m') ↔ '%' ∉ text m ∧ m' = m := by
  constructor
  · intro h
    induction m generalizing m' with
    | nil =>
      cases m' with
      | nil => exact ⟨List.not_mem_nil, rfl⟩
      | cons x' m' => cases htext
    | cons x m ih =>
      cases m' with
      | nil => cases htext
      | cons x' m' =>
        obtain ⟨c, marked⟩ := x
        obtain ⟨c', marked'⟩ := x'
        obtain ⟨rfl, htail⟩ := List.cons.inj htext
        have hrest := fun h => ih hm.tail hm'.tail htail h
        rw [text_cons, List.mem_cons, not_or]
        cases marked with
        | true =>
          obtain rfl : c = '?' := hm _ List.mem_cons_self rfl
          rw [write_cons_true, read_percent_s, Option.map_eq_some_iff] at h
          obtain ⟨ts, hread, hts⟩ := h
          cases marked' with
          | true =>
            obtain rfl := (List.cons.inj hts).2
            obtain ⟨hpercent, rfl⟩ := hrest hread
            exact ⟨⟨by decide, hpercent⟩, rfl⟩
          | false => cases (List.cons.inj hts).1
        | false =>
          by_cases hc : c = '%'
          · subst hc
            cases marked' with
            | true => exact absurd (hm' _ List.mem_cons_self rfl) (by decide)
            | false => exact absurd h (read_percent_ne hm.tail htail)
          · rw [write_cons_false, read_cons hc, Option.map_eq_some_iff] at h
            obtain ⟨ts, hread, hts⟩ := h
            cases marked' with
            | true => cases (List.cons.inj hts).1
            | false =>
              obtain rfl := (List.cons.inj hts).2
              obtain ⟨hpercent, rfl⟩ := hrest hread
              exact ⟨⟨Ne.symm hc, hpercent⟩, rfl⟩
  · rintro ⟨hpercent, rfl⟩
    exact read_write hpercent

end LogRisk.Library.Pyformat
