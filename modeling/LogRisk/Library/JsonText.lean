import Mathlib
import LogRisk.Library.Json

/-!
# JSON text determines the value

The text of a value can be read in one way only, whatever follows it, so long as
what follows does not start with a digit.  Compact text is therefore injective;
canonical text is injective up to the order of members.
-/

namespace LogRisk.Library.Json

/-- What follows does not continue a number. -/
def Stop (r : List Char) : Prop := ∀ c ∈ r.head?, c.isDigit = false

theorem stop_nil : Stop [] := fun c hc => by cases hc

theorem stop_cons {c : Char} {r : List Char} (h : c.isDigit = false) : Stop (c :: r) := by
  intro d hd
  obtain rfl := Option.some.inj hd
  exact h

/-! ## Numbers -/

theorem span_digits {ds r : List Char} (hds : ∀ c ∈ ds, c.isDigit = true) (hr : Stop r) :
    (ds ++ r).takeWhile Char.isDigit = ds ∧ (ds ++ r).dropWhile Char.isDigit = r := by
  induction ds with
  | nil =>
      cases r with
      | nil => exact ⟨rfl, rfl⟩
      | cons c r =>
          have hc : c.isDigit = false := hr c rfl
          simp [hc]
  | cons c ds ih =>
      have hc : c.isDigit = true := hds c (List.mem_cons_self ..)
      obtain ⟨htake, hdrop⟩ := ih fun d hd => hds d (List.mem_cons_of_mem _ hd)
      simp [hc, htake, hdrop]

theorem isDigit_of_mem_toString {n : ℕ} {c : Char} (hc : c ∈ (toString n).toList) :
    c.isDigit = true := by
  rw [Nat.toString_eq_repr, Nat.toList_repr] at hc
  exact Nat.isDigit_of_mem_toDigits (by decide) (by decide) hc

theorem natChars_append_inj {m n : ℕ} {r r' : List Char} (hr : Stop r) (hr' : Stop r')
    (h : (toString m).toList ++ r = (toString n).toList ++ r') : m = n ∧ r = r' := by
  obtain ⟨htake, hdrop⟩ := span_digits (fun _ => isDigit_of_mem_toString) hr
  obtain ⟨htake', hdrop'⟩ := span_digits (fun _ => isDigit_of_mem_toString) hr'
  have hdigits := htake.symm.trans (h ▸ htake')
  exact ⟨Nat.repr_inj.mp (String.toList_inj.mp hdigits), hdrop.symm.trans (h ▸ hdrop')⟩

theorem toString_ofNat (n : ℕ) : (toString (Int.ofNat n)).toList = (toString n).toList := rfl

theorem toString_negSucc (n : ℕ) :
    (toString (Int.negSucc n)).toList = '-' :: (toString (n + 1)).toList := by
  simp [toString, Int.repr]

theorem toString_ne_minus (n : ℕ) {r r' : List Char} : (toString n).toList ++ r ≠ '-' :: r' := by
  intro h
  cases hn : (toString n).toList with
  | nil =>
      rw [Nat.toString_eq_repr, Nat.toList_repr] at hn
      exact Nat.toDigits_ne_nil hn
  | cons c cs =>
      have hc : c.isDigit = true := isDigit_of_mem_toString (hn ▸ List.mem_cons_self ..)
      rw [hn, List.cons_append] at h
      obtain rfl := (List.cons.inj h).1
      exact absurd hc (by decide)

theorem numChars_append_inj {m n : ℤ} {r r' : List Char} (hr : Stop r) (hr' : Stop r')
    (h : (toString m).toList ++ r = (toString n).toList ++ r') : m = n ∧ r = r' := by
  match m, n with
  | .ofNat a, .ofNat b =>
      obtain ⟨rfl, hrest⟩ := natChars_append_inj hr hr' h
      exact ⟨rfl, hrest⟩
  | .negSucc a, .negSucc b =>
      rw [toString_negSucc, toString_negSucc] at h
      obtain ⟨hab, hrest⟩ := natChars_append_inj hr hr' (List.cons.inj h).2
      exact ⟨by rw [Nat.succ.inj hab], hrest⟩
  | .ofNat a, .negSucc b =>
      rw [toString_negSucc, toString_ofNat] at h
      exact absurd h (toString_ne_minus a)
  | .negSucc a, .ofNat b =>
      rw [toString_negSucc, toString_ofNat] at h
      exact absurd h.symm (toString_ne_minus b)

/-! ## Strings -/

def hexValue (c : Char) : ℕ := if c.toNat < 58 then c.toNat - 48 else c.toNat - 87

/-- Read one character back: `none` at the closing quote. -/
def unescape : List Char → Option (Char × List Char)
  | '\\' :: 'u' :: '0' :: '0' :: h :: l :: rest =>
      some (Char.ofNat (16 * hexValue h + hexValue l), rest)
  | '\\' :: 'n' :: rest => some ('\n', rest)
  | '\\' :: 'r' :: rest => some ('\r', rest)
  | '\\' :: 't' :: rest => some ('\t', rest)
  | '\\' :: 'b' :: rest => some (Char.ofNat 8, rest)
  | '\\' :: 'f' :: rest => some (Char.ofNat 12, rest)
  | '\\' :: c :: rest => some (c, rest)
  | '"' :: _ => none
  | c :: rest => some (c, rest)
  | [] => none

theorem hexValue_hexDigit : ∀ n < 16, hexValue (hexDigit n) = n := by decide

theorem unescape_escapeChar (c : Char) (rest : List Char) :
    unescape (escapeChar c ++ rest) = some (c, rest) := by
  unfold escapeChar
  split_ifs with hquote hslash hn hr ht hb hf hctl
  · subst hquote
    rfl
  · subst hslash
    rfl
  · subst hn
    rfl
  · subst hr
    rfl
  · subst ht
    rfl
  · rw [← Char.ofNat_toNat c, hb]
    rfl
  · rw [← Char.ofNat_toNat c, hf]
    rfl
  · have hhigh := hexValue_hexDigit (c.toNat / 16) (by omega)
    have hlow := hexValue_hexDigit (c.toNat % 16) (by omega)
    change some (Char.ofNat (16 * hexValue (hexDigit (c.toNat / 16)) +
      hexValue (hexDigit (c.toNat % 16))), rest) = _
    rw [hhigh, hlow, Nat.div_add_mod, Char.ofNat_toNat]
  · simp [unescape, hslash]

theorem escapeChars_append_inj {cs cs' r r' : List Char}
    (h : escapeChars cs ++ '"' :: r = escapeChars cs' ++ '"' :: r') : cs = cs' ∧ r = r' := by
  induction cs generalizing cs' with
  | nil =>
      cases cs' with
      | nil => exact ⟨rfl, (List.cons.inj h).2⟩
      | cons c' cs' =>
          rw [escapeChars, escapeChars, List.flatMap_cons, List.append_assoc] at h
          have hread := congrArg unescape h
          rw [unescape_escapeChar] at hread
          cases hread
  | cons c cs ih =>
      rw [escapeChars, List.flatMap_cons, List.append_assoc] at h
      have hread := congrArg unescape h
      rw [unescape_escapeChar] at hread
      cases cs' with
      | nil => cases hread
      | cons c' cs' =>
          rw [escapeChars, List.flatMap_cons, List.append_assoc, unescape_escapeChar] at hread
          obtain ⟨rfl, hrest⟩ := Prod.mk.inj (Option.some.inj hread)
          obtain ⟨rfl, hend⟩ := ih hrest
          exact ⟨rfl, hend⟩

theorem strChars_append_inj {s s' : String} {r r' : List Char}
    (h : strChars s ++ r = strChars s' ++ r') : s = s' ∧ r = r' := by
  simp only [strChars, List.cons_append, List.append_assoc, List.nil_append] at h
  obtain ⟨hs, hrest⟩ := escapeChars_append_inj (List.cons.inj h).2
  exact ⟨String.toList_inj.mp hs, hrest⟩

/-! ## Values -/

/-- What the first character of a text tells about the value. -/
def headTag (c : Char) : ℕ :=
  if c = 'n' then 0 else if c = 't' ∨ c = 'f' then 1 else if c = '"' then 2
  else if c = '[' then 3 else if c = '\x7b' then 4 else if c = ']' ∨ c = '\x7d' then 5 else 6

def tag : Json → ℕ
  | null => 0
  | bool _ => 1
  | str _ => 2
  | arr _ => 3
  | obj _ => 4
  | num _ => 6

theorem headTag_of_isDigit {c : Char} (h : c.isDigit = true) : headTag c = 6 := by
  have hne : ∀ d : Char, d.isDigit = false → c ≠ d := by
    rintro d hd rfl
    exact absurd (h.symm.trans hd) (by decide)
  rw [headTag, if_neg (hne _ (by decide)), if_neg, if_neg (hne _ (by decide)),
    if_neg (hne _ (by decide)), if_neg (hne _ (by decide)), if_neg]
  · exact not_or.mpr ⟨hne _ (by decide), hne _ (by decide)⟩
  · exact not_or.mpr ⟨hne _ (by decide), hne _ (by decide)⟩

theorem chars_head (j : Json) : ∃ c rest, chars j = c :: rest ∧ headTag c = tag j := by
  match j with
  | null => exact ⟨'n', _, rfl, rfl⟩
  | bool true => exact ⟨'t', _, rfl, rfl⟩
  | bool false => exact ⟨'f', _, rfl, rfl⟩
  | str s => exact ⟨'"', _, rfl, rfl⟩
  | arr items => exact ⟨'[', _, by rw [chars]; rfl, rfl⟩
  | obj fields => exact ⟨'\x7b', _, by rw [chars]; rfl, rfl⟩
  | num (.negSucc n) => exact ⟨'-', _, by rw [chars, toString_negSucc], rfl⟩
  | num (.ofNat n) =>
      cases hn : (toString n).toList with
      | nil =>
          rw [Nat.toString_eq_repr, Nat.toList_repr] at hn
          exact absurd hn Nat.toDigits_ne_nil
      | cons c cs =>
          refine ⟨c, cs, by rw [chars, toString_ofNat, hn], headTag_of_isDigit ?_⟩
          exact isDigit_of_mem_toString (hn ▸ List.mem_cons_self ..)

theorem tag_eq_of_chars {a b : Json} {r r' : List Char} (h : chars a ++ r = chars b ++ r') :
    tag a = tag b := by
  obtain ⟨c, rest, ha, hc⟩ := chars_head a
  obtain ⟨c', rest', hb, hc'⟩ := chars_head b
  rw [ha, hb, List.cons_append, List.cons_append] at h
  rw [← hc, ← hc', (List.cons.inj h).1]

theorem chars_ne_close {a : Json} {c : Char} {r r' : List Char} (hc : headTag c = 5) :
    chars a ++ r ≠ c :: r' := by
  intro h
  obtain ⟨d, rest, ha, hd⟩ := chars_head a
  rw [ha, List.cons_append] at h
  rw [(List.cons.inj h).1, hc] at hd
  cases a <;> cases hd

/-- The items behind the first one, each with the comma before it. -/
def restChars (items : List Json) : List Char := items.flatMap fun item => ',' :: chars item

theorem itemsChars_cons (item : Json) (rest : List Json) :
    itemsChars (item :: rest) = chars item ++ restChars rest := by
  induction rest generalizing item with
  | nil => simp [itemsChars, restChars]
  | cons next rest ih => rw [itemsChars, ih next, restChars, restChars, List.flatMap_cons]; rfl

def fieldChars (f : String × Json) : List Char := strChars f.1 ++ ':' :: chars f.2

def restFieldsChars (fields : List (String × Json)) : List Char :=
  fields.flatMap fun f => ',' :: fieldChars f

theorem fieldsChars_cons (f : String × Json) (rest : List (String × Json)) :
    fieldsChars (f :: rest) = fieldChars f ++ restFieldsChars rest := by
  induction rest generalizing f with
  | nil => simp [fieldsChars, fieldChars, restFieldsChars]
  | cons next rest ih =>
      rw [fieldsChars, ih next, restFieldsChars, restFieldsChars, List.flatMap_cons,
        List.cons_append]
      rfl

theorem stop_restChars (items : List Json) (r : List Char) : Stop (restChars items ++ ']' :: r) := by
  cases items with
  | nil => exact stop_cons (by decide)
  | cons item rest => exact stop_cons (by decide)

theorem stop_restFieldsChars (fields : List (String × Json)) (r : List Char) :
    Stop (restFieldsChars fields ++ '\x7d' :: r) := by
  cases fields with
  | nil => exact stop_cons (by decide)
  | cons f rest => exact stop_cons (by decide)

mutual

/-- One case per constructor; the other value has the same constructor, since the
first characters agree. -/
theorem chars_append_inj : ∀ (a b : Json) {r r' : List Char}, Stop r → Stop r' →
    chars a ++ r = chars b ++ r' → a = b ∧ r = r'
  | null, b, r, r', _, _, h => by
      have htag := tag_eq_of_chars h
      cases b with
      | null => exact ⟨rfl, by simpa [chars] using h⟩
      | _ => cases htag
  | bool x, b, r, r', _, _, h => by
      have htag := tag_eq_of_chars h
      cases b with
      | bool y => cases x <;> cases y <;> simp_all [chars]
      | _ => cases htag
  | num m, b, r, r', hr, hr', h => by
      have htag := tag_eq_of_chars h
      cases b with
      | num n =>
          obtain ⟨rfl, hend⟩ := numChars_append_inj hr hr' h
          exact ⟨rfl, hend⟩
      | _ => cases htag
  | str s, b, r, r', _, _, h => by
      have htag := tag_eq_of_chars h
      cases b with
      | str s' =>
          obtain ⟨rfl, hend⟩ := strChars_append_inj h
          exact ⟨rfl, hend⟩
      | _ => cases htag
  | arr items, b, r, r', _, _, h => by
      have htag := tag_eq_of_chars h
      cases b with
      | arr items' =>
          simp only [chars, List.cons_append, List.append_assoc, List.nil_append] at h
          obtain ⟨rfl, hend⟩ := itemsChars_append_inj items items' (List.cons.inj h).2
          exact ⟨rfl, hend⟩
      | _ => cases htag
  | obj fields, b, r, r', _, _, h => by
      have htag := tag_eq_of_chars h
      cases b with
      | obj fields' =>
          simp only [chars, List.cons_append, List.append_assoc, List.nil_append] at h
          obtain ⟨rfl, hend⟩ := fieldsChars_append_inj fields fields' (List.cons.inj h).2
          exact ⟨rfl, hend⟩
      | _ => cases htag

theorem itemsChars_append_inj : ∀ (xs ys : List Json) {r r' : List Char},
    itemsChars xs ++ ']' :: r = itemsChars ys ++ ']' :: r' → xs = ys ∧ r = r'
  | [], [], _, _, h => ⟨rfl, (List.cons.inj h).2⟩
  | [], y :: ys, _, _, h => by
      rw [itemsChars_cons, List.append_assoc] at h
      exact absurd h.symm (chars_ne_close rfl)
  | x :: xs, [], _, _, h => by
      rw [itemsChars_cons, List.append_assoc] at h
      exact absurd h (chars_ne_close rfl)
  | x :: xs, y :: ys, _, _, h => by
      rw [itemsChars_cons, itemsChars_cons, List.append_assoc, List.append_assoc] at h
      obtain ⟨rfl, hrest⟩ :=
        chars_append_inj x y (stop_restChars xs _) (stop_restChars ys _) h
      obtain ⟨rfl, hend⟩ := restChars_append_inj xs ys hrest
      exact ⟨rfl, hend⟩

theorem restChars_append_inj : ∀ (xs ys : List Json) {r r' : List Char},
    restChars xs ++ ']' :: r = restChars ys ++ ']' :: r' → xs = ys ∧ r = r'
  | [], [], _, _, h => ⟨rfl, (List.cons.inj h).2⟩
  | [], y :: ys, _, _, h => by cases h
  | x :: xs, [], _, _, h => by cases h
  | x :: xs, y :: ys, _, _, h => by
      simp only [restChars, List.flatMap_cons, List.cons_append, List.append_assoc] at h
      obtain ⟨rfl, hrest⟩ := chars_append_inj x y (stop_restChars xs _) (stop_restChars ys _)
        (List.cons.inj h).2
      obtain ⟨rfl, hend⟩ := restChars_append_inj xs ys hrest
      exact ⟨rfl, hend⟩

theorem fieldsChars_append_inj : ∀ (xs ys : List (String × Json)) {r r' : List Char},
    fieldsChars xs ++ '\x7d' :: r = fieldsChars ys ++ '\x7d' :: r' → xs = ys ∧ r = r'
  | [], [], _, _, h => ⟨rfl, (List.cons.inj h).2⟩
  | [], y :: ys, _, _, h => by
      rw [fieldsChars_cons] at h
      cases h
  | x :: xs, [], _, _, h => by
      rw [fieldsChars_cons] at h
      cases h
  | (k, v) :: xs, (k', v') :: ys, _, _, h => by
      simp only [fieldsChars_cons, fieldChars, List.cons_append, List.append_assoc] at h
      obtain ⟨rfl, hvalue⟩ := strChars_append_inj h
      obtain ⟨rfl, hrest⟩ := chars_append_inj v v' (stop_restFieldsChars xs _)
        (stop_restFieldsChars ys _) (List.cons.inj hvalue).2
      obtain ⟨rfl, hend⟩ := restFieldsChars_append_inj xs ys hrest
      exact ⟨rfl, hend⟩

theorem restFieldsChars_append_inj : ∀ (xs ys : List (String × Json)) {r r' : List Char},
    restFieldsChars xs ++ '\x7d' :: r = restFieldsChars ys ++ '\x7d' :: r' → xs = ys ∧ r = r'
  | [], [], _, _, h => ⟨rfl, (List.cons.inj h).2⟩
  | [], y :: ys, _, _, h => by cases h
  | x :: xs, [], _, _, h => by cases h
  | (k, v) :: xs, (k', v') :: ys, _, _, h => by
      simp only [restFieldsChars, List.flatMap_cons, fieldChars, List.cons_append,
        List.append_assoc] at h
      obtain ⟨rfl, hvalue⟩ := strChars_append_inj (List.cons.inj h).2
      obtain ⟨rfl, hrest⟩ := chars_append_inj v v' (stop_restFieldsChars xs _)
        (stop_restFieldsChars ys _) (List.cons.inj hvalue).2
      obtain ⟨rfl, hend⟩ := restFieldsChars_append_inj xs ys hrest
      exact ⟨rfl, hend⟩

end

theorem chars_injective : Function.Injective chars := fun a b h =>
  (chars_append_inj a b stop_nil stop_nil (by rw [h])).1

/-! ## Canonical text -/

theorem field_insertField (key : String) (f : String × Json) (fields : List (String × Json)) :
    field key (insertField f fields) = if f.1 = key then f.2 else field key fields := by
  induction fields with
  | nil => rfl
  | cons g rest ih =>
      rw [insertField]
      split
      · rfl
      · rename_i hlt
        rw [field, ih]
        by_cases hf : f.1 = key
        · have hg : g.1 ≠ key := fun hg => hlt (by rw [hf, hg])
          rw [if_neg hg, if_pos hf, if_pos hf]
        · rw [if_neg hf, if_neg hf]
          rfl

/-- Sorting the members keeps what every key holds. -/
theorem field_sortedFields (key : String) (fields : List (String × Json)) :
    field key (sortedFields fields) = sorted (field key fields) := by
  induction fields with
  | nil => rfl
  | cons f rest ih =>
      rw [sortedFields, field_insertField, ih, field]
      split <;> rfl

theorem sorted_eq_of_canonical {a b : Json} (h : canonical a = canonical b) :
    sorted a = sorted b :=
  chars_injective (String.ofList_injective h)

theorem field_eq_of_sorted {fields fields' : List (String × Json)}
    (h : sorted (obj fields) = sorted (obj fields')) (key : String) :
    sorted (field key fields) = sorted (field key fields') := by
  rw [sorted, sorted] at h
  rw [← field_sortedFields, ← field_sortedFields, obj.inj h]

end LogRisk.Library.Json
