import LogRisk.Library.Pyformat
import Mathlib.Data.List.TakeWhile

/-!
# Placeholders

`qmark_to_pyformat` copies a statement and puts `%s` for each question mark that is not in a
string, a quoted name, a comment or a dollar quote.  It looks ahead and takes several
characters at a time.  Where a character lies is said here character by character, from what
stands before it, and the two agree on every text.  A percent sign is copied as it is, which
the driver reads as something else.
-/

namespace LogRisk.Database

open LogRisk.Library.Pyformat

/-! ## The source -/

/-- The variables of the loop. -/
structure Lexer where
  quote : Option Char := none
  blockComment : Bool := false
  lineComment : Bool := false
  dollarQuote : Option (List Char) := none
deriving DecidableEq

def tagStart (c : Char) : Bool := c.isAlpha || c == '_'

def tagChar (c : Char) : Bool := c.isAlphanum || c == '_'

/-- The delimiter of a dollar quote. -/
def delimiter (name : List Char) : List Char := '$' :: (name ++ ['$'])

/-- `\$[A-Za-z_][A-Za-z0-9_]*\$|\$\$`, matched at the start of the text. -/
def dollarTag : List Char → Option (List Char)
  | '$' :: rest =>
      let name := rest.takeWhile tagChar
      if name.head?.all tagStart && (rest.dropWhile tagChar).head? == some '$' then
        some (delimiter name)
      else none
  | _ => none

/-- One turn of the loop: what is written, the variables after it and what is left. -/
def turn (s : Lexer) (current : Char) (rest : List Char) : List Char × Lexer × List Char :=
  let following := rest.head?
  match s.dollarQuote with
  | some tag =>
      if tag.isPrefixOf (current :: rest) then
        (tag, { s with dollarQuote := none }, (current :: rest).drop tag.length)
      else ([current], s, rest)
  | none =>
      if s.lineComment then ([current], { s with lineComment := current != '\n' }, rest)
      else if s.blockComment then
        if current = '*' ∧ following = some '/' then
          ([current, '/'], { s with blockComment := false }, rest.tail)
        else ([current], s, rest)
      else
        match s.quote with
        | some q =>
            if current = q then
              if following = some q then ([current, q], s, rest.tail)
              else ([current], { s with quote := none }, rest)
            else ([current], s, rest)
        | none =>
            if current = '-' ∧ following = some '-' then
              ([current, '-'], { s with lineComment := true }, rest.tail)
            else if current = '/' ∧ following = some '*' then
              ([current, '*'], { s with blockComment := true }, rest.tail)
            else if current = '\x27' ∨ current = '"' then
              ([current], { s with quote := some current }, rest)
            else
              match if current = '$' then dollarTag (current :: rest) else none with
              | some tag =>
                  (tag, { s with dollarQuote := some tag }, (current :: rest).drop tag.length)
              | none => (if current = '?' then ['%', 's'] else [current], s, rest)

/-- The loop; a turn takes at least one character, so their number is fuel enough. -/
def convert : ℕ → Lexer → List Char → List Char
  | 0, _, _ => []
  | _ + 1, _, [] => []
  | n + 1, s, current :: rest =>
      (turn s current rest).1 ++ convert n (turn s current rest).2.1 (turn s current rest).2.2

def qmarkToPyformat (sql : String) : String :=
  String.ofList (convert sql.length {} sql.toList)

/-! ## Where a character lies -/

/-- What the characters read so far leave a text in.  `outside` keeps the character before the
next, `tag` the name behind a dollar sign that may open a quote, `quoteEnd` a mark that ends
its quote unless it is doubled, `dollar` the name of its quote and what of the body was read. -/
inductive Region where
  | outside (prev : Option Char)
  | tag (name : List Char)
  | quoteEnd (mark : Char)
  | quoted (mark : Char)
  | lineComment
  | blockComment (depth : ℕ) (prev : Option Char)
  | dollar (name seen : List Char)
deriving DecidableEq

/-- A character outside opens a comment, a quote or what may become a dollar quote. -/
def Region.opened (prev : Option Char) (c : Char) : Region :=
  if prev = some '-' ∧ c = '-' then .lineComment
  else if prev = some '/' ∧ c = '*' then .blockComment 0 none
  else if c = '\x27' ∨ c = '"' then .quoted c
  else if c = '$' then .tag []
  else .outside (some c)

/-- Where the text goes on behind a character; with `nests` a block comment may hold others. -/
def Region.next (nests : Bool) : Region → Char → Region
  | .outside prev, c => .opened prev c
  | .tag name, c =>
      if c = '$' then .dollar name []
      else if tagStart c || (name != [] && tagChar c) then .tag (name ++ [c])
      else .opened none c
  | .quoteEnd mark, c => if c = mark then .quoted mark else .opened none c
  | .quoted mark, c => if c = mark then .quoteEnd mark else .quoted mark
  | .lineComment, c => if c = '\n' then .outside none else .lineComment
  | .blockComment depth prev, c =>
      if prev = some '*' ∧ c = '/' then
        match depth with
        | 0 => .outside none
        | depth + 1 => .blockComment depth none
      else if nests ∧ prev = some '/' ∧ c = '*' then .blockComment (depth + 1) none
      else .blockComment depth (some c)
  | .dollar name seen, c =>
      if delimiter name <:+ seen ++ [c] then .outside none else .dollar name (seen ++ [c])

theorem Region.next_outside (nests : Bool) (prev : Option Char) (c : Char) :
    (Region.outside prev).next nests c = .opened prev c := rfl

theorem Region.next_tag (nests : Bool) (name : List Char) (c : Char) :
    (Region.tag name).next nests c =
      if c = '$' then .dollar name []
      else if tagStart c || (name != [] && tagChar c) then .tag (name ++ [c])
      else .opened none c := rfl

theorem Region.next_quoteEnd (nests : Bool) (mark c : Char) :
    (Region.quoteEnd mark).next nests c = if c = mark then .quoted mark else .opened none c := rfl

theorem Region.next_dollar (nests : Bool) (name seen : List Char) (c : Char) :
    (Region.dollar name seen).next nests c =
      if delimiter name <:+ seen ++ [c] then .outside none else .dollar name (seen ++ [c]) := rfl

def Region.isOutside : Region → Bool
  | .outside _ | .tag _ | .quoteEnd _ => true
  | _ => false

/-- The question marks outside are the placeholders of a text. -/
def reading (nests : Bool) : Region → List Char → Marked
  | _, [] => []
  | r, c :: cs => (c, r.isOutside && c == '?') :: reading nests (r.next nests c) cs

/-- The statement a text is, with or without comments in comments. -/
def statement (nests : Bool) (sql : String) : Marked :=
  reading nests (.outside none) sql.toList

/-- The converted text replaces the placeholders and nothing else, and a driver reads it as the
statement: its parameters are the placeholders, in order, and every other character stands
for itself. -/
structure Exact (nests : Bool) (sql : String) : Prop where
  replaced : (qmarkToPyformat sql).toList = write (statement nests sql)
  denoted : read (qmarkToPyformat sql).toList = some (tokens (statement nests sql))

theorem text_reading (nests : Bool) (r : Region) (cs : List Char) :
    text (reading nests r cs) = cs := by
  induction cs generalizing r with
  | nil => rfl
  | cons c cs ih =>
    show c :: text (reading nests (r.next nests c) cs) = c :: cs
    rw [ih]

theorem length_reading (nests : Bool) (r : Region) (cs : List Char) :
    (reading nests r cs).length = cs.length := by
  have h := congrArg List.length (text_reading nests r cs)
  unfold text at h
  rwa [List.length_map] at h

theorem questions_reading (nests : Bool) (r : Region) (cs : List Char) :
    Questions (reading nests r cs) := by
  induction cs generalizing r with
  | nil => exact fun x hx => absurd hx List.not_mem_nil
  | cons c cs ih =>
    intro x hx hmarked
    rcases List.mem_cons.mp hx with rfl | hx
    · exact eq_of_beq (Bool.and_eq_true_iff.mp hmarked).2
    · exact ih _ x hx hmarked

theorem reading_cons (nests : Bool) (r : Region) (c : Char) (cs : List Char) :
    reading nests r (c :: cs) =
      (c, r.isOutside && c == '?') :: reading nests (r.next nests c) cs := rfl

/-! ### Regions that read alike -/

section Alike

variable {prev : Option Char} {cs : List Char}

theorem Region.opened_eq {c : Char} (hdash : ¬ (prev = some '-' ∧ c = '-'))
    (hslash : ¬ (prev = some '/' ∧ c = '*')) : Region.opened prev c = .opened none c := by
  simp [Region.opened, hdash, hslash]

theorem reading_outside (hdash : ¬ (prev = some '-' ∧ cs.head? = some '-'))
    (hslash : ¬ (prev = some '/' ∧ cs.head? = some '*')) :
    reading false (.outside prev) cs = reading false (.outside none) cs := by
  cases cs with
  | nil => rfl
  | cons c cs =>
    have hopened : Region.opened prev c = .opened none c :=
      Region.opened_eq (fun h => hdash ⟨h.1, congrArg some h.2⟩)
        fun h => hslash ⟨h.1, congrArg some h.2⟩
    rw [reading_cons, reading_cons, Region.next_outside, Region.next_outside, hopened]
    rfl

theorem reading_outside_some {c : Char} (hdash : c ≠ '-') (hslash : c ≠ '/') :
    reading false (.outside (some c)) cs = reading false (.outside none) cs :=
  reading_outside (fun h => hdash (Option.some.inj h.1)) fun h => hslash (Option.some.inj h.1)

theorem reading_quoteEnd {mark : Char} (h : cs.head? ≠ some mark) :
    reading false (.quoteEnd mark) cs = reading false (.outside none) cs := by
  cases cs with
  | nil => rfl
  | cons c cs =>
    have hc : c ≠ mark := fun heq => h (congrArg some heq)
    rw [reading_cons, reading_cons, Region.next_quoteEnd, if_neg hc]
    rfl

theorem reading_blockComment (h : ¬ (prev = some '*' ∧ cs.head? = some '/')) :
    reading false (.blockComment 0 prev) cs = reading false (.blockComment 0 none) cs := by
  cases cs with
  | nil => rfl
  | cons c cs =>
    have hc : ¬ (prev = some '*' ∧ c = '/') := fun hend => h ⟨hend.1, congrArg some hend.2⟩
    rw [reading_cons, reading_cons]
    simp [Region.next, Region.isOutside, hc]

end Alike

/-! ### Dollar quotes -/

theorem tagChar_of_tagStart {c : Char} (h : tagStart c = true) : tagChar c = true := by
  unfold tagStart at h
  unfold tagChar Char.isAlphanum
  rw [Bool.or_assoc, Bool.or_eq_true]
  rcases Bool.or_eq_true _ _ ▸ h with h | h
  · exact .inl h
  · exact .inr (by simp [h])

theorem tagChar_ne {c d : Char} (h : tagChar c = true) (hd : tagChar d = false) : c ≠ d := by
  rintro rfl
  rw [h] at hd
  cases hd

theorem opened_tagChar {c : Char} (h : tagChar c = true) :
    Region.opened none c = .outside (some c) := by
  have hquote : c ≠ '\x27' := tagChar_ne h (by decide)
  have hdouble : c ≠ '"' := tagChar_ne h (by decide)
  have hdollar : c ≠ '$' := tagChar_ne h (by decide)
  simp [Region.opened, hquote, hdouble, hdollar]

/-- A name that no dollar sign ends is read as what lies outside. -/
theorem reading_tag {name cs : List Char} (hname : name.head?.all tagStart = true)
    (h : ¬ ((name ++ cs.takeWhile tagChar).head?.all tagStart = true ∧
      (cs.dropWhile tagChar).head? = some '$')) :
    reading false (.tag name) cs = reading false (.outside none) cs := by
  induction cs generalizing name with
  | nil => rfl
  | cons c cs ih =>
    rw [reading_cons, reading_cons]
    by_cases hdollar : c = '$'
    · subst hdollar
      refine absurd ⟨?_, rfl⟩ h
      rw [List.takeWhile_cons_of_neg (by decide), List.append_nil]
      exact hname
    · by_cases htag : (tagStart c || (name != [] && tagChar c)) = true
      · have hchar : tagChar c = true := by
          rcases Bool.or_eq_true _ _ ▸ htag with hstart | hlater
          · exact tagChar_of_tagStart hstart
          · exact (Bool.and_eq_true_iff.mp hlater).2
        have hnext : Region.next false (.tag name) c = .tag (name ++ [c]) := by
          rw [Region.next_tag, if_neg hdollar, if_pos htag]
        have hname' : (name ++ [c]).head?.all tagStart = true := by
          cases name with
          | nil => simpa using htag
          | cons d name => exact hname
        rw [hnext, ih hname' (by simpa [List.takeWhile_cons, List.dropWhile_cons, hchar] using h)]
        show _ = _ :: reading false (Region.opened none c) cs
        rw [opened_tagChar hchar,
          reading_outside_some (tagChar_ne hchar (by decide)) (tagChar_ne hchar (by decide))]
        rfl
      · have hnext : Region.next false (.tag name) c = .opened none c := by
          rw [Region.next_tag, if_neg hdollar, if_neg htag]
        rw [hnext]
        rfl

/-- Characters none of which is a placeholder. -/
def plain (cs : List Char) : Marked := cs.map (·, false)

theorem write_plain (cs : List Char) : write (plain cs) = cs := by
  induction cs with
  | nil => rfl
  | cons c cs ih =>
    show c :: write (plain cs) = c :: cs
    rw [ih]

theorem reading_tag_closed {name w rest : List Char} (hw : ∀ c ∈ w, tagChar c = true)
    (hstart : (name ++ w).head?.all tagStart = true) :
    reading false (.tag name) (w ++ '$' :: rest) =
      plain (w ++ ['$']) ++ reading false (.dollar (name ++ w) []) rest := by
  induction w generalizing name with
  | nil =>
    rw [List.append_nil]
    rfl
  | cons c w ih =>
    have hchar := hw c List.mem_cons_self
    have htag : (tagStart c || (name != [] && tagChar c)) = true := by
      cases name with
      | nil => simpa using hstart
      | cons d name => simp [hchar]
    have hnext : Region.next false (.tag name) c = .tag (name ++ [c]) := by
      rw [Region.next_tag, if_neg (tagChar_ne hchar (by decide)), if_pos htag]
    have hquestion : (c == '?') = false := beq_eq_false_iff_ne.mpr (tagChar_ne hchar (by decide))
    rw [List.cons_append, reading_cons, hnext, hquestion, Bool.and_false,
      ih (fun d hd => hw d (List.mem_cons_of_mem c hd)) (by simpa using hstart),
      List.append_assoc]
    rfl

/-- The delimiter begins nowhere in what was read of the body. -/
def Unclosed (name seen rest : List Char) : Prop :=
  ∀ j < seen.length, ¬ delimiter name <+: (seen ++ rest).drop j

theorem unclosed_nil (name rest : List Char) : Unclosed name [] rest :=
  fun j hj => absurd hj (Nat.not_lt_zero j)

/-- Before its last character a delimiter is not seen to end. -/
theorem Unclosed.not_suffix {name seen a b : List Char} {c : Char}
    (h : Unclosed name seen (a ++ c :: b)) (hlength : a.length + 1 < (delimiter name).length) :
    ¬ delimiter name <:+ (seen ++ a) ++ [c] := by
  rintro ⟨before, hbefore⟩
  have hlengths := congrArg List.length hbefore
  simp only [List.length_append, List.length_singleton] at hlengths
  refine h before.length (by omega) ⟨b, ?_⟩
  have hsplit : seen ++ (a ++ c :: b) = before ++ (delimiter name ++ b) := by
    rw [← List.append_assoc before, hbefore]
    simp
  rw [hsplit, List.drop_left]

theorem length_delimiter (name : List Char) : (delimiter name).length = name.length + 2 := by
  simp [delimiter]

theorem isOutside_dollar (name seen : List Char) :
    (Region.dollar name seen).isOutside = false := rfl

theorem next_dollar {name seen rest : List Char} {c : Char}
    (h : Unclosed name seen (c :: rest)) :
    Region.next false (.dollar name seen) c = .dollar name (seen ++ [c]) := by
  have hno := h.not_suffix (a := []) (by rw [length_delimiter]; simp)
  rw [List.append_nil] at hno
  rw [Region.next_dollar, if_neg hno]

theorem Unclosed.snoc {name seen rest : List Char} {c : Char}
    (h : Unclosed name seen (c :: rest)) (hno : ¬ delimiter name <+: c :: rest) :
    Unclosed name (seen ++ [c]) rest := by
  intro j hj
  rw [List.append_assoc, List.singleton_append]
  rw [List.length_append, List.length_singleton] at hj
  by_cases hlt : j < seen.length
  · exact h j hlt
  · obtain rfl : j = seen.length := by omega
    rwa [List.drop_left]

/-- The delimiter ends the body, character by character. -/
theorem reading_delimiter {name seen a b rest : List Char} (hsplit : delimiter name = a ++ b)
    (hb : b ≠ []) (h : Unclosed name seen (delimiter name ++ rest)) :
    reading false (.dollar name (seen ++ a)) (b ++ rest) =
      plain b ++ reading false (.outside none) rest := by
  induction b generalizing a with
  | nil => exact absurd rfl hb
  | cons c b ih =>
    rw [List.cons_append, reading_cons, isOutside_dollar, Bool.false_and, Region.next_dollar]
    cases b with
    | nil =>
      have hend : delimiter name <:+ (seen ++ a) ++ [c] := by
        rw [hsplit, List.append_assoc]
        exact List.suffix_append seen _
      rw [if_pos hend]
      rfl
    | cons d b =>
      have hwhole := h
      rw [hsplit] at hwhole
      have hlength := congrArg List.length hsplit
      simp only [List.length_append, List.length_cons] at hlength
      have hno : ¬ delimiter name <:+ (seen ++ a) ++ [c] := by
        refine Unclosed.not_suffix (b := d :: b ++ rest) ?_ (by omega)
        simpa using hwhole
      rw [if_neg hno, List.append_assoc seen a [c], ih (a := a ++ [c]) (by simp [hsplit])
        (List.cons_ne_nil d b)]
      rfl

/-! ## The loop follows the regions -/

/-- The variables of the loop and the region of what is left. -/
inductive Agrees : Lexer → Region → List Char → Prop
  | outside (rest : List Char) : Agrees {} (.outside none) rest
  | lineComment (rest : List Char) : Agrees { lineComment := true } .lineComment rest
  | blockComment (rest : List Char) : Agrees { blockComment := true } (.blockComment 0 none) rest
  | quoted {mark : Char} (h : mark ≠ '?') (rest : List Char) :
      Agrees { quote := some mark } (.quoted mark) rest
  | dollar {name seen rest : List Char} (h : Unclosed name seen rest) :
      Agrees { dollarQuote := some (delimiter name) } (.dollar name seen) rest

/-- What a turn writes is what it took, as it is read; it leaves variables and a region that
agree again. -/
def Follows (r : Region) (cs : List Char) (result : List Char × Lexer × List Char) : Prop :=
  ∃ taken r', taken ≠ [] ∧ result.1 = write taken ∧
    reading false r cs = taken ++ reading false r' result.2.2 ∧
    Agrees result.2.1 r' result.2.2

theorem turn_lineComment (c : Char) (rest : List Char) :
    Follows .lineComment (c :: rest) (turn { lineComment := true } c rest) := by
  by_cases hline : c = '\n'
  · subst hline
    exact ⟨[('\n', false)], .outside none, List.cons_ne_nil _ _, rfl, rfl, .outside rest⟩
  · have hturn : turn { lineComment := true } c rest = ([c], { lineComment := true }, rest) := by
      simp [turn, hline]
    have hnext : Region.lineComment.next false c = .lineComment := if_neg hline
    refine ⟨[(c, false)], .lineComment, List.cons_ne_nil _ _, ?_, ?_, ?_⟩
    · rw [hturn]
      rfl
    · rw [hturn, reading_cons, hnext]
      rfl
    · rw [hturn]
      exact .lineComment rest

theorem turn_blockComment (c : Char) (rest : List Char) :
    Follows (.blockComment 0 none) (c :: rest) (turn { blockComment := true } c rest) := by
  by_cases hend : c = '*' ∧ rest.head? = some '/'
  · obtain ⟨rfl, hslash⟩ := hend
    cases rest with
    | nil => cases hslash
    | cons d rest =>
      obtain rfl := Option.some.inj hslash
      exact ⟨[('*', false), ('/', false)], .outside none, List.cons_ne_nil _ _, rfl, rfl,
        .outside rest⟩
  · have hturn : turn { blockComment := true } c rest =
        ([c], { blockComment := true }, rest) := by
      simp [turn, hend]
    have hprev : ¬ (some c = some '*' ∧ rest.head? = some '/') := fun h =>
      hend ⟨Option.some.inj h.1, h.2⟩
    refine ⟨[(c, false)], .blockComment 0 none, List.cons_ne_nil _ _, ?_, ?_, ?_⟩
    · rw [hturn]
      rfl
    · rw [hturn, reading_cons, ← reading_blockComment hprev]
      simp [Region.next, Region.isOutside]
    · rw [hturn]
      exact .blockComment rest

theorem turn_quoted {mark : Char} (hquestion : mark ≠ '?') (c : Char) (rest : List Char) :
    Follows (.quoted mark) (c :: rest) (turn { quote := some mark } c rest) := by
  by_cases hmark : c = mark
  · subst hmark
    have hnext : (Region.quoted c).next false c = .quoteEnd c := if_pos rfl
    by_cases hdoubled : rest.head? = some c
    · cases rest with
      | nil => cases hdoubled
      | cons d rest =>
        obtain rfl := Option.some.inj hdoubled
        have hturn : turn { quote := some d } d (d :: rest) =
            ([d, d], { quote := some d }, rest) := by
          simp [turn]
        refine ⟨[(d, false), (d, false)], .quoted d, List.cons_ne_nil _ _, ?_, ?_, ?_⟩
        · rw [hturn]
          rfl
        · rw [hturn, reading_cons, hnext, reading_cons, Region.next_quoteEnd, if_pos rfl,
            beq_eq_false_iff_ne.mpr hquestion]
          rfl
        · rw [hturn]
          exact .quoted hquestion rest
    · have hturn : turn { quote := some c } c rest = ([c], {}, rest) := by
        simp [turn, hdoubled]
      refine ⟨[(c, false)], .outside none, List.cons_ne_nil _ _, ?_, ?_, ?_⟩
      · rw [hturn]
        rfl
      · rw [hturn, reading_cons, hnext, reading_quoteEnd hdoubled]
        rfl
      · rw [hturn]
        exact .outside rest
  · have hturn : turn { quote := some mark } c rest = ([c], { quote := some mark }, rest) := by
      simp [turn, hmark]
    have hnext : (Region.quoted mark).next false c = .quoted mark := if_neg hmark
    refine ⟨[(c, false)], .quoted mark, List.cons_ne_nil _ _, ?_, ?_, ?_⟩
    · rw [hturn]
      rfl
    · rw [hturn, reading_cons, hnext]
      rfl
    · rw [hturn]
      exact .quoted hquestion rest

theorem turn_dollar {name seen rest : List Char} {c : Char}
    (h : Unclosed name seen (c :: rest)) :
    Follows (.dollar name seen) (c :: rest)
      (turn { dollarQuote := some (delimiter name) } c rest) := by
  by_cases hclosed : delimiter name <+: c :: rest
  · have hturn : turn { dollarQuote := some (delimiter name) } c rest =
        (delimiter name, {}, (c :: rest).drop (delimiter name).length) := by
      simp [turn, hclosed]
    obtain ⟨left, hleft⟩ := hclosed
    have hdrop : (c :: rest).drop (delimiter name).length = left := by
      rw [← hleft, List.drop_left]
    rw [hdrop] at hturn
    have hread : reading false (.dollar name (seen ++ [])) (delimiter name ++ left) =
        plain (delimiter name) ++ reading false (.outside none) left :=
      reading_delimiter rfl (List.cons_ne_nil _ _) (by rwa [hleft])
    rw [List.append_nil, hleft] at hread
    refine ⟨plain (delimiter name), .outside none, List.cons_ne_nil _ _, ?_, ?_, ?_⟩
    · rw [hturn, write_plain]
    · rw [hturn, hread]
    · rw [hturn]
      exact .outside left
  · have hturn : turn { dollarQuote := some (delimiter name) } c rest =
        ([c], { dollarQuote := some (delimiter name) }, rest) := by
      simp [turn, hclosed]
    refine ⟨[(c, false)], .dollar name (seen ++ [c]), List.cons_ne_nil _ _, ?_, ?_, ?_⟩
    · rw [hturn]
      rfl
    · rw [hturn, reading_cons, next_dollar h]
      rfl
    · rw [hturn]
      exact .dollar (h.snoc hclosed)

theorem dollarTag_dollar (rest : List Char) :
    dollarTag ('$' :: rest) =
      if (rest.takeWhile tagChar).head?.all tagStart &&
          (rest.dropWhile tagChar).head? == some '$' then
        some (delimiter (rest.takeWhile tagChar))
      else none := rfl

/-- What `dollarTag` finds at a dollar sign. -/
theorem dollarTag_eq_some {rest tag : List Char} (h : dollarTag ('$' :: rest) = some tag) :
    ∃ name left, tag = delimiter name ∧ rest = name ++ '$' :: left ∧
      (∀ c ∈ name, tagChar c = true) ∧ name.head?.all tagStart = true := by
  rw [dollarTag_dollar] at h
  split at h
  · rename_i hfound
    obtain ⟨hstart, hend⟩ := Bool.and_eq_true_iff.mp hfound
    have hsplit := List.takeWhile_append_dropWhile (p := tagChar) (l := rest)
    cases hdrop : rest.dropWhile tagChar with
    | nil =>
      rw [hdrop] at hend
      cases hend
    | cons d left =>
      rw [hdrop] at hend hsplit
      obtain rfl : d = '$' := by simpa using hend
      exact ⟨_, left, (Option.some.inj h).symm, hsplit.symm,
        fun c hc => List.mem_takeWhile_imp hc, hstart⟩
  · cases h

theorem dollarTag_eq_none {rest : List Char} (h : dollarTag ('$' :: rest) = none) :
    ¬ ((rest.takeWhile tagChar).head?.all tagStart = true ∧
      (rest.dropWhile tagChar).head? = some '$') := by
  rintro ⟨hstart, hend⟩
  rw [dollarTag_dollar, if_pos (by rw [hstart, hend]; rfl)] at h
  cases h

theorem turn_dollarSign (rest : List Char) :
    Follows (.outside none) ('$' :: rest) (turn {} '$' rest) := by
  have hnext : (Region.outside none).next false '$' = .tag [] := rfl
  cases htag : dollarTag ('$' :: rest) with
  | some tag =>
    obtain ⟨name, left, rfl, rfl, hname, hstart⟩ := dollarTag_eq_some htag
    have hturn : turn {} '$' (name ++ '$' :: left) =
        (delimiter name, { dollarQuote := some (delimiter name) }, left) := by
      simp [turn, htag, length_delimiter]
    refine ⟨plain (delimiter name), .dollar name [], List.cons_ne_nil _ _, ?_, ?_, ?_⟩
    · rw [hturn, write_plain]
    · have hclosed : reading false (.tag []) (name ++ '$' :: left) =
          plain (name ++ ['$']) ++ reading false (.dollar name []) left :=
        reading_tag_closed hname hstart
      rw [hturn, reading_cons, hnext, hclosed]
      rfl
    · rw [hturn]
      exact .dollar (unclosed_nil name left)
  | none =>
    have hturn : turn {} '$' rest = (['$'], {}, rest) := by
      simp [turn, htag]
    refine ⟨[('$', false)], .outside none, List.cons_ne_nil _ _, ?_, ?_, ?_⟩
    · rw [hturn]
      rfl
    · rw [hturn, reading_cons, hnext, reading_tag rfl (dollarTag_eq_none htag)]
      rfl
    · rw [hturn]
      exact .outside rest

theorem turn_outside (c : Char) (rest : List Char) :
    Follows (.outside none) (c :: rest) (turn {} c rest) := by
  by_cases hdash : c = '-' ∧ rest.head? = some '-'
  · obtain ⟨rfl, hhead⟩ := hdash
    cases rest with
    | nil => cases hhead
    | cons d rest =>
      obtain rfl := Option.some.inj hhead
      exact ⟨[('-', false), ('-', false)], .lineComment, List.cons_ne_nil _ _, rfl, rfl,
        .lineComment rest⟩
  by_cases hslash : c = '/' ∧ rest.head? = some '*'
  · obtain ⟨rfl, hhead⟩ := hslash
    cases rest with
    | nil => cases hhead
    | cons d rest =>
      obtain rfl := Option.some.inj hhead
      exact ⟨[('/', false), ('*', false)], .blockComment 0 none, List.cons_ne_nil _ _, rfl, rfl,
        .blockComment rest⟩
  by_cases hquote : c = '\x27' ∨ c = '"'
  · have hquestion : c ≠ '?' := by
      rintro rfl
      revert hquote
      decide
    have hturn : turn {} c rest = ([c], { quote := some c }, rest) := by
      simp [turn, hdash, hslash, hquote]
    have hnext : (Region.outside none).next false c = .quoted c := by
      simp [Region.next, Region.opened, hquote]
    refine ⟨[(c, false)], .quoted c, List.cons_ne_nil _ _, ?_, ?_, ?_⟩
    · rw [hturn]
      rfl
    · rw [hturn, reading_cons, hnext, beq_eq_false_iff_ne.mpr hquestion]
      rfl
    · rw [hturn]
      exact .quoted hquestion rest
  by_cases hdollar : c = '$'
  · subst hdollar
    exact turn_dollarSign rest
  · -- an ordinary character, replaced where it is a question mark
    have hturn : turn {} c rest = (if c = '?' then ['%', 's'] else [c], {}, rest) := by
      simp [turn, hdash, hslash, hquote, hdollar]
    have hnext : (Region.outside none).next false c = .outside (some c) := by
      simp [Region.next, Region.opened, hquote, hdollar]
    have hread : reading false (.outside (some c)) rest = reading false (.outside none) rest :=
      reading_outside (fun h => hdash ⟨Option.some.inj h.1, h.2⟩)
        fun h => hslash ⟨Option.some.inj h.1, h.2⟩
    refine ⟨[(c, c == '?')], .outside none, List.cons_ne_nil _ _, ?_, ?_, ?_⟩
    · rw [hturn]
      by_cases hquestion : c = '?'
      · subst hquestion
        rfl
      · rw [if_neg hquestion, beq_eq_false_iff_ne.mpr hquestion]
        rfl
    · rw [hturn, reading_cons, hnext, hread]
      rfl
    · rw [hturn]
      exact .outside rest

theorem follows_turn {s : Lexer} {r : Region} {c : Char} {rest : List Char}
    (h : Agrees s r (c :: rest)) : Follows r (c :: rest) (turn s c rest) := by
  cases h with
  | outside => exact turn_outside c rest
  | lineComment => exact turn_lineComment c rest
  | blockComment => exact turn_blockComment c rest
  | quoted hquestion => exact turn_quoted hquestion c rest
  | dollar hunclosed => exact turn_dollar hunclosed

/-- The whole loop writes the text as it is read. -/
theorem convert_eq {n : ℕ} {s : Lexer} {r : Region} {cs : List Char} (hfuel : cs.length ≤ n)
    (h : Agrees s r cs) : convert n s cs = write (reading false r cs) := by
  induction n generalizing s r cs with
  | zero =>
    obtain rfl := List.length_eq_zero_iff.mp (Nat.le_zero.mp hfuel)
    rfl
  | succ n ih =>
    cases cs with
    | nil => rfl
    | cons c rest =>
      obtain ⟨taken, r', htaken, hwritten, hread, hagrees⟩ := follows_turn h
      have hpos := List.length_pos_of_ne_nil htaken
      have hlength := congrArg List.length hread
      rw [List.length_append, length_reading, length_reading, List.length_cons] at hlength
      rw [List.length_cons] at hfuel
      show (turn s c rest).1 ++ convert n (turn s c rest).2.1 (turn s c rest).2.2 = _
      rw [ih (by omega) hagrees, hread, write_append, hwritten]

/-- The conversion replaces exactly the placeholders, comments ending at their first end. -/
theorem qmarkToPyformat_eq (sql : String) :
    (qmarkToPyformat sql).toList = write (statement false sql) := by
  unfold qmarkToPyformat statement
  rw [String.toList_ofList]
  exact convert_eq (Nat.le_of_eq (String.length_toList)) (.outside _)

example : qmarkToPyformat "SELECT \x27?\x27 FROM items WHERE id=? -- ?\nAND note=?" =
    "SELECT \x27?\x27 FROM items WHERE id=%s -- ?\nAND note=%s" := by decide +kernel

/-- However the question marks of a text are meant, the driver reads the converted text so just
where they are those outside and the text has no percent sign. -/
theorem denotes_iff {sql : String} {m : Marked} (hm : Questions m) (htext : text m = sql.toList) :
    read (qmarkToPyformat sql).toList = some (tokens m) ↔
      '%' ∉ sql.toList ∧ m = statement false sql := by
  have hsame : text (statement false sql) = sql.toList := text_reading false _ _
  have hquestions : Questions (statement false sql) := questions_reading false _ _
  rw [qmarkToPyformat_eq, read_write_iff hquestions hm (hsame.trans htext.symm), hsame]

end LogRisk.Database
