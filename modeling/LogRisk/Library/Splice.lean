import LogRisk.Library.Paging
import Mathlib.Data.Prod.Lex
import Mathlib.Data.String.Basic

/-!
# Masks in a text

A text is masked from the right: each edit puts its mask in the place of a span, at the offsets
of the text it was found in.  `weave` says what is meant: a walk over the text that puts each
mask where its span starts and keeps the characters no span covers.  The two agree where the
spans keep apart, and only there if every mask can be told by a character of its own.
-/

namespace LogRisk.Library.Splice

open LogRisk.Library.Paging (ordered ordered_perm pairwise_ordered_le)

variable {α β : Type}

/-- A mask with its span; a span that is not in the text is from -1 to -1. -/
structure Edit (α : Type) where
  start : ℤ
  stop : ℤ
  label : String
  mask : List α

/-- Where a slice bound lies in a list of the length; a negative one counts from the end. -/
def position (length : ℕ) (i : ℤ) : ℕ := if 0 ≤ i then i.toNat else length - i.natAbs

/-- `t[:start] + mask + t[stop:]`. -/
def Edit.apply (a : Edit α) (t : List α) : List α :=
  t.take (position t.length a.start) ++ a.mask ++ t.drop (position t.length a.stop)

/-- Edits are compared by their spans and then by their labels. -/
def Edit.key (a : Edit α) : ℤ ×ₗ ℤ ×ₗ String := toLex (a.start, toLex (a.stop, a.label))

/-- `sorted(edits, reverse=True)`. -/
def descending (edits : List (Edit α)) : List (Edit α) :=
  ordered (fun a => OrderDual.toDual a.key) edits

def splice (text : List α) (edits : List (Edit α)) : List α :=
  (descending edits).foldl (fun t a => a.apply t) text

/-! ## What is meant -/

def ascending (edits : List (Edit α)) : List (Edit α) := (descending edits).reverse

def masksAt (edits : List (Edit α)) (p : ℕ) : List α :=
  (edits.filter fun a => a.start = (p : ℤ)).flatMap Edit.mask

def covered (edits : List (Edit α)) (p : ℕ) : Bool :=
  edits.any fun a => decide (a.start ≤ p ∧ p < a.stop)

def weaveFrom (edits : List (Edit α)) : ℕ → List α → List α
  | p, [] => masksAt edits p
  | p, c :: cs =>
      masksAt edits p ++ (if covered edits p then [] else [c]) ++ weaveFrom edits (p + 1) cs

def weave (text : List α) (edits : List (Edit α)) : List α := weaveFrom (ascending edits) 0 text

/-- The span is one of a text of the length. -/
def Edit.Inside (length : ℕ) (a : Edit α) : Prop := 0 ≤ a.start ∧ a.start ≤ a.stop ∧ a.stop ≤ length

/-- One span ends before the other starts. -/
def Apart (a b : Edit α) : Prop := a.stop ≤ b.start ∨ b.stop ≤ a.start

theorem apart_symm {a b : Edit α} (h : Apart a b) : Apart b a := h.symm

/-! ## The order of the edits -/

section Order

variable {edits : List (Edit α)}

theorem ascending_perm (edits : List (Edit α)) : (ascending edits).Perm edits :=
  (List.reverse_perm _).trans (ordered_perm _ _)

theorem mem_ascending {a : Edit α} : a ∈ ascending edits ↔ a ∈ edits :=
  (ascending_perm edits).mem_iff

theorem key_le_iff {a b : Edit α} :
    a.key ≤ b.key → a.start < b.start ∨ a.start = b.start ∧ a.stop ≤ b.stop := by
  intro h
  unfold Edit.key at h
  rw [Prod.Lex.toLex_le_toLex, Prod.Lex.toLex_le_toLex] at h
  rcases h with hlt | ⟨heq, hlt | ⟨hstop, -⟩⟩
  · exact .inl hlt
  · exact .inr ⟨heq, hlt.le⟩
  · exact .inr ⟨heq, hstop.le⟩

theorem pairwise_ascending (edits : List (Edit α)) :
    (ascending edits).Pairwise fun a b => a.key ≤ b.key := by
  unfold ascending
  rw [List.pairwise_reverse]
  exact pairwise_ordered_le (fun a : Edit α => OrderDual.toDual a.key) edits

theorem splice_eq_foldr (text : List α) (edits : List (Edit α)) :
    splice text edits = (ascending edits).foldr Edit.apply text := by
  unfold splice ascending
  rw [List.foldr_reverse]

/-- In order, spans that keep apart follow one another. -/
theorem pairwise_stop_le {n : ℕ} (hinside : ∀ a ∈ edits, a.Inside n)
    (hapart : edits.Pairwise Apart) :
    (ascending edits).Pairwise fun a b => a.stop ≤ b.start := by
  have hall : (ascending edits).Pairwise Apart :=
    ((ascending_perm edits).pairwise_iff fun h => apart_symm h).mpr hapart
  refine ((pairwise_ascending edits).and hall).imp_of_mem ?_
  rintro a b ha hb ⟨hkey, hspan⟩
  obtain ⟨-, ha, -⟩ := hinside a (mem_ascending.mp ha)
  obtain ⟨-, hb, -⟩ := hinside b (mem_ascending.mp hb)
  have horder := key_le_iff hkey
  unfold Apart at hspan
  omega

end Order

/-! ## Spans that keep apart -/

section Follow

variable {text : List α} {edits rest : List (Edit α)} {a : Edit α} {n p : ℕ}

theorem position_of_nonneg {i : ℤ} (h : 0 ≤ i) (length : ℕ) : position length i = i.toNat :=
  if_pos h

/-- The text from a position on, with its masks, for spans one behind the other. -/
def cut (text : List α) : ℕ → List (Edit α) → List α
  | p, [] => text.drop p
  | p, a :: rest => (text.take a.start.toNat).drop p ++ a.mask ++ cut text a.stop.toNat rest

theorem foldr_eq_cut (hinside : ∀ a ∈ edits, a.Inside text.length)
    (hfollow : edits.Pairwise fun a b => a.stop ≤ b.start) (hp : ∀ a ∈ edits, (p : ℤ) ≤ a.start)
    (hlength : p ≤ text.length) :
    edits.foldr Edit.apply text = text.take p ++ cut text p edits := by
  induction edits generalizing p with
  | nil => exact (List.take_append_drop p text).symm
  | cons a rest ih =>
    obtain ⟨hstart, hle, hstop⟩ := hinside a List.mem_cons_self
    have hpa := hp a List.mem_cons_self
    have hrest := ih (p := a.stop.toNat) (fun b hb => hinside b (List.mem_cons_of_mem a hb))
      (List.pairwise_cons.mp hfollow).2
      (fun b hb => by have := (List.pairwise_cons.mp hfollow).1 b hb; omega) (by omega)
    have htake : (text.take a.stop.toNat).length = a.stop.toNat := by
      rw [List.length_take]
      omega
    have hsplit : text.take a.start.toNat =
        text.take p ++ (text.take a.start.toNat).drop p := by
      conv_lhs => rw [← List.take_append_drop p (text.take a.start.toNat), List.take_take]
      rw [Nat.min_eq_left (by omega)]
    rw [List.foldr_cons, hrest]
    unfold Edit.apply
    rw [position_of_nonneg hstart, position_of_nonneg (by omega),
      List.take_append_of_le_length (by omega), List.take_take, List.drop_left' htake,
      Nat.min_eq_left (by omega)]
    calc text.take a.start.toNat ++ a.mask ++ cut text a.stop.toNat rest
        = (text.take p ++ (text.take a.start.toNat).drop p) ++ a.mask ++
            cut text a.stop.toNat rest := by rw [← hsplit]
      _ = text.take p ++ cut text p (a :: rest) := by simp only [cut, List.append_assoc]

theorem masksAt_cons : masksAt (a :: rest) p =
    (if a.start = p then a.mask else []) ++ masksAt rest p := by
  unfold masksAt
  by_cases h : a.start = p
  · rw [List.filter_cons_of_pos (by simpa using h), List.flatMap_cons, if_pos h]
  · rw [List.filter_cons_of_neg (by simpa using h), if_neg h, List.nil_append]

theorem covered_cons : covered (a :: rest) p =
    (decide (a.start ≤ p ∧ p < a.stop) || covered rest p) := rfl

theorem masksAt_eq_nil (h : ∀ a ∈ edits, (p : ℤ) < a.start) : masksAt edits p = [] := by
  unfold masksAt
  rw [List.filter_eq_nil_iff.mpr]
  · rfl
  · intro a ha heq
    have := h a ha
    have hstart : a.start = p := by simpa using heq
    omega

theorem covered_eq_false (h : ∀ a ∈ edits, (p : ℤ) < a.start) : covered edits p = false := by
  unfold covered
  rw [List.any_eq_false]
  intro a ha hcovers
  have := h a ha
  have hspan : a.start ≤ p ∧ (p : ℤ) < a.stop := by simpa using hcovers
  omega

/-- A span that lies behind does not matter. -/
theorem weaveFrom_cons_of_behind (hstart : a.start < p) (hstop : a.stop ≤ p) (cs : List α) :
    weaveFrom (a :: rest) p cs = weaveFrom rest p cs := by
  induction cs generalizing p with
  | nil =>
    unfold weaveFrom
    rw [masksAt_cons, if_neg (by omega), List.nil_append]
  | cons c cs ih =>
    unfold weaveFrom
    rw [masksAt_cons, if_neg (by omega), List.nil_append, covered_cons,
      decide_eq_false (by omega), Bool.false_or, ih (by omega) (by omega)]

/-- Up to the first span the text stays. -/
theorem weaveFrom_append (cs ds : List α) (h : ∀ a ∈ edits, (p + cs.length : ℤ) ≤ a.start) :
    weaveFrom edits p (cs ++ ds) = cs ++ weaveFrom edits (p + cs.length) ds := by
  induction cs generalizing p with
  | nil => rfl
  | cons c cs ih =>
    rw [List.length_cons] at h
    have hbefore : ∀ a ∈ edits, (p : ℤ) < a.start := fun a ha => by
      have := h a ha
      omega
    rw [List.cons_append, weaveFrom, masksAt_eq_nil hbefore, covered_eq_false hbefore,
      ih (p := p + 1) (fun a ha => by have := h a ha; omega), List.length_cons]
    show c :: (cs ++ _) = c :: (cs ++ _)
    rw [show p + 1 + cs.length = p + (cs.length + 1) by omega]

/-- Inside of a span the text goes. -/
theorem weaveFrom_covered (cs ds : List α) (hstart : a.start < p)
    (hstop : (p + cs.length : ℤ) ≤ a.stop) (hrest : ∀ b ∈ rest, a.stop ≤ b.start) :
    weaveFrom (a :: rest) p (cs ++ ds) = weaveFrom (a :: rest) (p + cs.length) ds := by
  induction cs generalizing p with
  | nil => rfl
  | cons c cs ih =>
    rw [List.length_cons] at hstop
    have hlater : ∀ b ∈ rest, (p : ℤ) < b.start := fun b hb => by
      have := hrest b hb
      omega
    rw [List.cons_append, weaveFrom, masksAt_cons, if_neg (by omega), masksAt_eq_nil hlater,
      covered_cons, decide_eq_true (by omega), Bool.true_or, if_pos rfl,
      ih (p := p + 1) (by omega) (by omega), List.length_cons]
    show weaveFrom _ _ _ = _
    rw [show p + 1 + cs.length = p + (cs.length + 1) by omega]

theorem weaveFrom_nil (p : ℕ) (cs : List α) : weaveFrom [] p cs = cs := by
  induction cs generalizing p with
  | nil => rfl
  | cons c cs ih =>
    unfold weaveFrom
    rw [ih]
    rfl

/-- A mask in the place of nothing. -/
theorem weaveFrom_empty (hstart : a.start = p) (hstop : a.stop = p) (cs : List α) :
    weaveFrom (a :: rest) p cs = a.mask ++ weaveFrom rest p cs := by
  cases cs with
  | nil =>
    unfold weaveFrom
    rw [masksAt_cons, if_pos hstart]
  | cons c cs =>
    unfold weaveFrom
    rw [masksAt_cons, if_pos hstart, covered_cons, decide_eq_false (by omega), Bool.false_or,
      weaveFrom_cons_of_behind (by omega) (by omega)]
    simp only [List.append_assoc]

/-- A mask in the place of a span. -/
theorem weaveFrom_span (hstart : a.start = p) {e : ℕ} (hstop : a.stop = e) (hlt : p < e)
    (hlength : e ≤ text.length) (hrest : ∀ b ∈ rest, a.stop ≤ b.start) :
    weaveFrom (a :: rest) p (text.drop p) = a.mask ++ weaveFrom rest e (text.drop e) := by
  have hlater : ∀ b ∈ rest, (p : ℤ) < b.start := fun b hb => by
    have := hrest b hb
    omega
  have hinner : ((text.take e).drop (p + 1)).length = e - (p + 1) := by
    rw [List.length_drop, List.length_take, Nat.min_eq_left hlength]
  have hsplit : text.drop (p + 1) = (text.take e).drop (p + 1) ++ text.drop e := by
    conv_lhs => rw [← List.take_append_drop e text]
    rw [List.drop_append_of_le_length (by rw [List.length_take]; omega)]
  have hreach : p + 1 + (e - (p + 1)) = e := by omega
  rw [List.drop_eq_getElem_cons (by omega), weaveFrom, masksAt_cons, if_pos hstart,
    masksAt_eq_nil hlater, covered_cons, decide_eq_true (by omega), Bool.true_or, if_pos rfl,
    hsplit, weaveFrom_covered _ _ (by omega) (by rw [hinner]; omega) hrest, hinner, hreach,
    weaveFrom_cons_of_behind (by omega) (by omega)]
  simp only [List.append_nil]

theorem weaveFrom_eq_cut (hinside : ∀ a ∈ edits, a.Inside text.length)
    (hfollow : edits.Pairwise fun a b => a.stop ≤ b.start) (hp : ∀ a ∈ edits, (p : ℤ) ≤ a.start)
    (hlength : p ≤ text.length) :
    weaveFrom edits p (text.drop p) = cut text p edits := by
  induction edits generalizing p with
  | nil => exact weaveFrom_nil p _
  | cons a rest ih =>
    obtain ⟨hstart, hle, hstop⟩ := hinside a List.mem_cons_self
    have hpa := hp a List.mem_cons_self
    obtain ⟨hnext, hrest⟩ := List.pairwise_cons.mp hfollow
    have hcut := ih (p := a.stop.toNat) (fun b hb => hinside b (List.mem_cons_of_mem a hb)) hrest
      (fun b hb => by have := hnext b hb; omega) (by omega)
    have hbefore : ((text.take a.start.toNat).drop p).length = a.start.toNat - p := by
      rw [List.length_drop, List.length_take, Nat.min_eq_left (by omega)]
    have hsplit : text.drop p =
        (text.take a.start.toNat).drop p ++ text.drop a.start.toNat := by
      conv_lhs => rw [← List.take_append_drop a.start.toNat text]
      rw [List.drop_append_of_le_length (by rw [List.length_take]; omega)]
    have hreach : p + (a.start.toNat - p) = a.start.toNat := by omega
    have hstarts : ∀ b ∈ a :: rest, (p + ((text.take a.start.toNat).drop p).length : ℤ) ≤
        b.start := by
      rw [hbefore]
      refine List.forall_mem_cons.mpr ⟨by omega, fun b hb => ?_⟩
      have := hnext b hb
      omega
    rw [hsplit, weaveFrom_append _ _ hstarts, hbefore, hreach, cut, ← hcut, List.append_assoc]
    congr 1
    by_cases hempty : a.start = a.stop
    · rw [weaveFrom_empty (by omega) (by omega), hempty]
    · exact weaveFrom_span (by omega) (by omega) (by omega) (by omega) hnext

/-- Spans that keep apart are masked as is meant. -/
theorem splice_eq_weave (hinside : ∀ a ∈ edits, a.Inside text.length)
    (hapart : edits.Pairwise Apart) : splice text edits = weave text edits := by
  have hinside' : ∀ a ∈ ascending edits, a.Inside text.length := fun a ha =>
    hinside a (mem_ascending.mp ha)
  have hfollow := pairwise_stop_le hinside hapart
  have hzero : ∀ a ∈ ascending edits, ((0 : ℕ) : ℤ) ≤ a.start := fun a ha => (hinside' a ha).1
  rw [splice_eq_foldr, foldr_eq_cut hinside' hfollow hzero (Nat.zero_le _)]
  exact (weaveFrom_eq_cut hinside' hfollow hzero (Nat.zero_le _)).symm

end Follow

/-! ## Spans that do not -/

section Marked

variable {text : List α} {edits rest : List (Edit α)} {a b : Edit α} {mark : Edit α → α}

/-- Every mask begins with a character that is nowhere else. -/
structure Marked (mark : Edit α → α) (text : List α) (edits : List (Edit α)) : Prop where
  own : ∀ a ∈ edits, ∃ others, a.mask = mark a :: others ∧ mark a ∉ others ∧ mark a ∉ text
  apart : edits.Pairwise fun a b => mark a ∉ b.mask ∧ mark b ∉ a.mask

theorem Marked.perm {edits' : List (Edit α)} (h : Marked mark text edits)
    (hperm : edits.Perm edits') : Marked mark text edits' where
  own := fun a ha => h.own a (hperm.mem_iff.mpr ha)
  apart := (hperm.pairwise_iff fun h => ⟨h.2, h.1⟩).mp h.apart

theorem Marked.tail (h : Marked mark text (a :: rest)) : Marked mark text rest where
  own := fun b hb => h.own b (List.mem_cons_of_mem a hb)
  apart := (List.pairwise_cons.mp h.apart).2

/-- Nothing comes in but the text and the masks. -/
theorem mem_foldr {x : α} (h : x ∈ edits.foldr Edit.apply text) :
    x ∈ text ∨ ∃ a ∈ edits, x ∈ a.mask := by
  induction edits with
  | nil => exact .inl h
  | cons a rest ih =>
    rw [List.foldr_cons, Edit.apply, List.append_assoc, List.mem_append, List.mem_append] at h
    have hold : x ∈ rest.foldr Edit.apply text → x ∈ text ∨ ∃ b ∈ a :: rest, x ∈ b.mask := by
      intro hx
      rcases ih hx with htext | ⟨b, hb, hmask⟩
      · exact .inl htext
      · exact .inr ⟨b, List.mem_cons_of_mem a hb, hmask⟩
    rcases h with htake | hmask | hdrop
    · exact hold (List.mem_of_mem_take htake)
    · exact .inr ⟨a, List.mem_cons_self, hmask⟩
    · exact hold (List.mem_of_mem_drop hdrop)

/-- Nothing before the first span goes. -/
theorem le_length_foldr {s : ℕ} (hs : s ≤ text.length) (hfirst : ∀ a ∈ edits, (s : ℤ) ≤ a.start) :
    s ≤ (edits.foldr Edit.apply text).length := by
  induction edits with
  | nil => exact hs
  | cons a rest ih =>
    have hrest := ih fun b hb => hfirst b (List.mem_cons_of_mem a hb)
    have ha := hfirst a List.mem_cons_self
    rw [List.foldr_cons, Edit.apply, position_of_nonneg (by omega), List.length_append, List.length_append, List.length_take]
    omega

/-- A mask at the place of the first of several spans is lost where another span before it
reaches over its start. -/
theorem stop_le_of_mem (hmarked : Marked mark text (b :: rest)) (hb : b.Inside text.length)
    (hrest : ∀ c ∈ rest, b.start ≤ c.start) (ha : 0 ≤ a.start) (hle : a.start ≤ b.start)
    (hstop : 0 ≤ a.stop) (hother : mark b ∉ a.mask)
    (hmem : mark b ∈ a.apply ((b :: rest).foldr Edit.apply text)) : a.stop ≤ b.start := by
  obtain ⟨others, hmask, hothers, htext⟩ := hmarked.own b List.mem_cons_self
  obtain ⟨hstart, hbstop, hblength⟩ := hb
  have hnew : mark b ∉ rest.foldr Edit.apply text := by
    intro h
    rcases mem_foldr h with h | ⟨c, hc, hmem⟩
    · exact htext h
    · exact ((List.pairwise_cons.mp hmarked.apart).1 c hc).1 hmem
  have hlength : b.start.toNat ≤ (rest.foldr Edit.apply text).length :=
    le_length_foldr (by omega) fun c hc => by
      have := hrest c hc
      omega
  by_contra hover
  rw [List.foldr_cons, Edit.apply, Edit.apply, position_of_nonneg ha, position_of_nonneg hstop, position_of_nonneg hstart,
    position_of_nonneg (by omega : 0 ≤ b.stop), hmask, List.append_assoc, List.append_assoc] at hmem
  have hbefore : ((rest.foldr Edit.apply text).take b.start.toNat).length = b.start.toNat := by
    rw [List.length_take, Nat.min_eq_left hlength]
  rw [List.take_append_of_le_length (by omega), List.take_take, List.mem_append,
    List.mem_append] at hmem
  rcases hmem with htake | hmask' | hdrop
  · exact hnew (List.mem_of_mem_take htake)
  · exact hother hmask'
  · obtain ⟨k, hk⟩ : ∃ k, a.stop.toNat = b.start.toNat + (k + 1) :=
      ⟨a.stop.toNat - b.start.toNat - 1, by omega⟩
    rw [hk, ← List.drop_drop, List.drop_left' hbefore, List.cons_append, List.drop_succ_cons]
      at hdrop
    rcases List.mem_append.mp (List.mem_of_mem_drop hdrop) with h | h
    · exact hothers h
    · exact hnew (List.mem_of_mem_drop h)

/-- Where every mask is there, each span ends before the next starts. -/
theorem follow_of_mem (hmarked : Marked mark text edits)
    (hinside : ∀ a ∈ edits, a.Inside text.length)
    (hsorted : edits.Pairwise fun a b => a.start ≤ b.start)
    (hmem : ∀ a ∈ edits, mark a ∈ edits.foldr Edit.apply text) :
    edits.Pairwise fun a b => a.stop ≤ b.start := by
  induction edits with
  | nil => exact .nil
  | cons a rest ih =>
    obtain ⟨hfirst, hrest⟩ := List.pairwise_cons.mp hsorted
    have hother : ∀ b ∈ rest, mark b ∉ a.mask := fun b hb =>
      ((List.pairwise_cons.mp hmarked.apart).1 b hb).2
    have hrestMem : ∀ b ∈ rest, mark b ∈ rest.foldr Edit.apply text := by
      intro b hb
      have h := hmem b (List.mem_cons_of_mem a hb)
      rw [List.foldr_cons, Edit.apply, List.append_assoc, List.mem_append, List.mem_append] at h
      rcases h with h | h | h
      · exact List.mem_of_mem_take h
      · exact absurd h (hother b hb)
      · exact List.mem_of_mem_drop h
    have hfollow := ih hmarked.tail (fun b hb => hinside b (List.mem_cons_of_mem a hb)) hrest
      hrestMem
    obtain ⟨hastart, hale, -⟩ := hinside a List.mem_cons_self
    refine List.pairwise_cons.mpr ⟨?_, hfollow⟩
    cases rest with
    | nil => exact fun b hb => absurd hb List.not_mem_nil
    | cons b rest =>
      obtain ⟨hbfollow, -⟩ := List.pairwise_cons.mp hfollow
      obtain ⟨hbstart, hble, hblength⟩ := hinside b (List.mem_cons_of_mem a List.mem_cons_self)
      have hab : a.stop ≤ b.start := by
        refine stop_le_of_mem hmarked.tail ⟨hbstart, hble, hblength⟩
          (List.pairwise_cons.mp hrest).1 hastart (hfirst b List.mem_cons_self) (by omega)
          (hother b List.mem_cons_self) ?_
        have h := hmem b (List.mem_cons_of_mem a List.mem_cons_self)
        rwa [List.foldr_cons] at h
      refine List.forall_mem_cons.mpr ⟨hab, fun c hc => ?_⟩
      have := hbfollow c hc
      omega

theorem mem_masksAt {x : α} {p : ℕ} (h : x ∈ masksAt edits p) :
    ∃ a ∈ edits, 0 ≤ a.start ∧ x ∈ a.mask := by
  obtain ⟨a, ha, hx⟩ := List.mem_flatMap.mp h
  obtain ⟨ha, hstart⟩ := List.mem_filter.mp ha
  have hstart := of_decide_eq_true hstart
  exact ⟨a, ha, by omega, hx⟩

/-- What is meant has the masks of spans that are in the text only. -/
theorem mem_weaveFrom {x : α} {p : ℕ} {cs : List α} (h : x ∈ weaveFrom edits p cs) :
    x ∈ cs ∨ ∃ a ∈ edits, 0 ≤ a.start ∧ x ∈ a.mask := by
  induction cs generalizing p with
  | nil => exact .inr (mem_masksAt h)
  | cons c cs ih =>
    unfold weaveFrom at h
    rw [List.append_assoc, List.mem_append, List.mem_append] at h
    rcases h with h | h | h
    · exact .inr (mem_masksAt h)
    · split at h
      · cases h
      · exact .inl (List.mem_singleton.mp h ▸ List.mem_cons_self)
    · exact (ih h).imp_left (List.mem_cons_of_mem c)

/-- What is meant has every mask of a span in the text. -/
theorem mask_mem_weaveFrom {x : α} {p : ℕ} {cs : List α} (ha : a ∈ edits) (hx : x ∈ a.mask)
    (hstart : (p : ℤ) ≤ a.start) (hlength : a.start ≤ p + cs.length) :
    x ∈ weaveFrom edits p cs := by
  have hat : ∀ q : ℕ, a.start = q → x ∈ masksAt edits q := fun q hq =>
    List.mem_flatMap.mpr ⟨a, List.mem_filter.mpr ⟨ha, decide_eq_true hq⟩, hx⟩
  induction cs generalizing p with
  | nil =>
    rw [List.length_nil] at hlength
    exact hat p (by omega)
  | cons c cs ih =>
    rw [List.length_cons] at hlength
    unfold weaveFrom
    by_cases hp : a.start = p
    · exact List.mem_append_left _ (List.mem_append_left _ (hat p hp))
    · exact List.mem_append_right _ (ih (by omega) (by omega))

/-- With masks that can be told apart, a text is masked as is meant just where all spans are in
the text and keep apart. -/
theorem splice_eq_weave_iff (hmarked : Marked mark text edits)
    (hplaced : ∀ a ∈ edits, a.Inside text.length ∨ a.start = -1) :
    splice text edits = weave text edits ↔
      (∀ a ∈ edits, a.Inside text.length) ∧ edits.Pairwise Apart := by
  constructor
  · intro h
    rw [splice_eq_foldr] at h
    have hmarked' := hmarked.perm (ascending_perm edits).symm
    have hsorted : (ascending edits).Pairwise fun a b => a.start ≤ b.start :=
      (pairwise_ascending edits).imp fun hkey => by
        have := key_le_iff hkey
        omega
    -- the first of the edits is a span that is not in the text, if one is
    have hinside : ∀ a ∈ ascending edits, a.Inside text.length := by
      by_contra hnot
      push Not at hnot
      obtain ⟨a, ha, houtside⟩ := hnot
      have hminus : a.start = -1 := (hplaced a (mem_ascending.mp ha)).resolve_left houtside
      cases hlist : ascending edits with
      | nil =>
        rw [hlist] at ha
        cases ha
      | cons first rest =>
        rw [hlist] at ha hmarked' hsorted
        have hfirst : first.start = -1 := by
          have hle : first.start ≤ a.start := by
            rcases List.mem_cons.mp ha with rfl | hrest
            · exact le_refl _
            · exact (List.pairwise_cons.mp hsorted).1 a hrest
          have hmem : first ∈ edits := mem_ascending.mp (hlist ▸ List.mem_cons_self)
          rcases hplaced first hmem with hin | hminus'
          · have := hin.1
            omega
          · exact hminus'
        obtain ⟨others, hmask, -, htext⟩ := hmarked'.own first List.mem_cons_self
        have hthere : mark first ∈ weave text edits := by
          rw [← h, hlist, List.foldr_cons, Edit.apply, hmask]
          simp
        rcases mem_weaveFrom hthere with hin | ⟨b, hb, hnonneg, hin⟩
        · exact htext hin
        · rw [hlist] at hb
          rcases List.mem_cons.mp hb with rfl | hb
          · omega
          · exact ((List.pairwise_cons.mp hmarked'.apart).1 b hb).1 hin
    have hthere : ∀ a ∈ ascending edits, mark a ∈ (ascending edits).foldr Edit.apply text := by
      intro a ha
      obtain ⟨others, hmask, -⟩ := hmarked'.own a ha
      obtain ⟨hstart, hle, hstop⟩ := hinside a ha
      rw [h]
      refine mask_mem_weaveFrom ha ?_ (by omega) (by omega)
      rw [hmask]
      exact List.mem_cons_self
    have hfollow := follow_of_mem hmarked' hinside hsorted hthere
    refine ⟨fun a ha => hinside a (mem_ascending.mpr ha), ?_⟩
    exact ((ascending_perm edits).pairwise_iff fun h => apart_symm h).mp
      (hfollow.imp fun h => .inl h)
  · rintro ⟨hinside, hapart⟩
    exact splice_eq_weave hinside hapart

end Marked

/-! ## Other characters -/

section Map

variable (f : α → β)

def Edit.map (a : Edit α) : Edit β := ⟨a.start, a.stop, a.label, a.mask.map f⟩

theorem descending_map (edits : List (Edit α)) :
    descending (edits.map (Edit.map f)) = (descending edits).map (Edit.map f) := by
  unfold descending ordered
  symm
  apply List.map_insertionSort
  intro a _ b _
  rfl

theorem apply_map (a : Edit α) (t : List α) : (a.map f).apply (t.map f) = (a.apply t).map f := by
  unfold Edit.apply Edit.map
  simp only [List.length_map, List.map_append, List.map_take, List.map_drop]

/-- Masking does not look at the characters. -/
theorem splice_map (text : List α) (edits : List (Edit α)) :
    splice (text.map f) (edits.map (Edit.map f)) = (splice text edits).map f := by
  unfold splice
  rw [descending_map]
  generalize descending edits = order
  induction order generalizing text with
  | nil => rfl
  | cons a order ih => rw [List.map_cons, List.foldl_cons, List.foldl_cons, apply_map, ih]

end Map

end LogRisk.Library.Splice
