import LogRisk.Library.JsonText
import LogRisk.Library.LineFiles

/-!
# JSON lines

Compact JSON text holds no line break, so values that are told apart by their JSON can
be written one a line.
-/

namespace LogRisk.Library.Json

open LineFiles

/-- No line break. -/
def Unbroken (c : Char) : Prop := c ≠ '\n' ∧ c ≠ '\r'

theorem unbroken_of_isDigit {c : Char} (h : c.isDigit = true) : Unbroken c := by
  constructor
  · rintro rfl
    exact absurd h (by decide)
  · rintro rfl
    exact absurd h (by decide)

theorem unbroken_word {cs : List Char} (h : cs.all fun c => decide (c ≠ '\n') && decide (c ≠ '\r')) :
    ∀ c ∈ cs, Unbroken c := by
  intro c hc
  have hall := List.all_eq_true.mp h c hc
  rw [Bool.and_eq_true, decide_eq_true_eq, decide_eq_true_eq] at hall
  exact hall

theorem unbroken_hexDigit : ∀ n < 16, Unbroken (hexDigit n) := by
  unfold Unbroken
  decide

theorem unbroken_escapeChar (c : Char) : ∀ d ∈ escapeChar c, Unbroken d := by
  intro d hd
  unfold escapeChar at hd
  split_ifs at hd with hquote hslash hn hr ht hb hf hctl
  · exact unbroken_word rfl d hd
  · exact unbroken_word rfl d hd
  · exact unbroken_word rfl d hd
  · exact unbroken_word rfl d hd
  · exact unbroken_word rfl d hd
  · exact unbroken_word rfl d hd
  · exact unbroken_word rfl d hd
  · have hhigh := unbroken_hexDigit (c.toNat / 16) (by omega)
    have hlow := unbroken_hexDigit (c.toNat % 16) (by omega)
    simp only [List.mem_cons, List.not_mem_nil, or_false] at hd
    rcases hd with rfl | rfl | rfl | rfl | rfl | rfl
    · exact ⟨by decide, by decide⟩
    · exact ⟨by decide, by decide⟩
    · exact ⟨by decide, by decide⟩
    · exact ⟨by decide, by decide⟩
    · exact hhigh
    · exact hlow
  · rw [List.mem_singleton.mp hd]
    exact ⟨hn, hr⟩

theorem unbroken_strChars (s : String) : ∀ c ∈ strChars s, Unbroken c := by
  have hquote : Unbroken '"' := ⟨by decide, by decide⟩
  intro c hc
  unfold strChars escapeChars at hc
  rcases List.mem_append.mp hc with hc | hc
  · rcases List.mem_cons.mp hc with rfl | hc
    · exact hquote
    · obtain ⟨d, -, hd⟩ := List.mem_flatMap.mp hc
      exact unbroken_escapeChar d c hd
  · rw [List.mem_singleton.mp hc]
    exact hquote

theorem unbroken_natChars (n : ℕ) : ∀ c ∈ (toString n).toList, Unbroken c :=
  fun _ hc => unbroken_of_isDigit (isDigit_of_mem_toString hc)

theorem unbroken_numChars (n : ℤ) : ∀ c ∈ (toString n).toList, Unbroken c := by
  cases n with
  | ofNat n => exact unbroken_natChars n
  | negSucc n =>
      rw [toString_negSucc]
      intro c hc
      rcases List.mem_cons.mp hc with rfl | hc
      · exact ⟨by decide, by decide⟩
      · exact unbroken_natChars (n + 1) c hc

theorem unbroken_append {a b : List Char} (ha : ∀ c ∈ a, Unbroken c) (hb : ∀ c ∈ b, Unbroken c) :
    ∀ c ∈ a ++ b, Unbroken c := fun c hc => (List.mem_append.mp hc).elim (ha c) (hb c)

theorem unbroken_cons {d : Char} {a : List Char} (hd : Unbroken d) (ha : ∀ c ∈ a, Unbroken c) :
    ∀ c ∈ d :: a, Unbroken c := List.forall_mem_cons.mpr ⟨hd, ha⟩

mutual

theorem unbroken_chars : ∀ j : Json, ∀ c ∈ chars j, Unbroken c
  | null => unbroken_word rfl
  | bool true => unbroken_word rfl
  | bool false => unbroken_word rfl
  | num n => unbroken_numChars n
  | str s => unbroken_strChars s
  | arr items => by
      rw [chars]
      exact unbroken_append (unbroken_cons ⟨by decide, by decide⟩ (unbroken_itemsChars items))
        (unbroken_word rfl)
  | obj fields => by
      rw [chars]
      exact unbroken_append (unbroken_cons ⟨by decide, by decide⟩ (unbroken_fieldsChars fields))
        (unbroken_word rfl)

theorem unbroken_itemsChars : ∀ items : List Json, ∀ c ∈ itemsChars items, Unbroken c
  | [] => fun _ h => by cases h
  | [item] => unbroken_chars item
  | item :: next :: rest => by
      rw [itemsChars]
      exact unbroken_append (unbroken_chars item)
        (unbroken_cons ⟨by decide, by decide⟩ (unbroken_itemsChars (next :: rest)))

theorem unbroken_fieldsChars : ∀ fields : List (String × Json), ∀ c ∈ fieldsChars fields, Unbroken c
  | [] => fun _ h => by cases h
  | [(key, value)] => by
      rw [fieldsChars]
      exact unbroken_append (unbroken_strChars key)
        (unbroken_cons ⟨by decide, by decide⟩ (unbroken_chars value))
  | (key, value) :: next :: rest => by
      rw [fieldsChars]
      exact unbroken_append (unbroken_append (unbroken_strChars key)
        (unbroken_cons ⟨by decide, by decide⟩ (unbroken_chars value)))
        (unbroken_cons ⟨by decide, by decide⟩ (unbroken_fieldsChars (next :: rest)))

end

open Classical in
/-- The lines of values that their JSON tells apart, read back as what was written. -/
noncomputable def lines {β : Type} (toJson : β → Json) (hinj : Function.Injective toJson) :
    Format β where
  dump b := chars (toJson b)
  load line := if h : ∃ b, chars (toJson b) ++ ['\n'] = line then some h.choose else none
  unbroken b c hc := unbroken_chars (toJson b) c hc
  load_dump b := by
    have hex : ∃ b', chars (toJson b') ++ ['\n'] = chars (toJson b) ++ ['\n'] := ⟨b, rfl⟩
    have hchosen := List.append_cancel_right hex.choose_spec
    rw [dif_pos hex, hinj (chars_injective hchosen)]

end LogRisk.Library.Json
