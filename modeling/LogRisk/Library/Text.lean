import Mathlib.Data.List.DropRight
import Mathlib.Data.List.SplitOn
import Mathlib.Data.List.TakeWhile
import Mathlib.Tactic.SplitIfs
import Mathlib.Data.String.Basic

/-!
# White space and letters

Characters that count as white space, texts without those at their ends, and texts
in capital or in small letters.
-/

namespace LogRisk.Library.Text

/-- The characters `str.isspace` accepts. -/
def isSpace (c : Char) : Bool :=
  let n := c.toNat
  (9 ≤ n && n ≤ 13) || (28 ≤ n && n ≤ 32) || n == 0x85 || n == 0xa0 || n == 0x1680 ||
    (0x2000 ≤ n && n ≤ 0x200a) || n == 0x2028 || n == 0x2029 || n == 0x202f || n == 0x205f ||
    n == 0x3000

/-- Drop the white space at both ends. -/
def stripChars (cs : List Char) : List Char := (cs.dropWhile isSpace).rdropWhile isSpace

def strip (s : String) : String := String.ofList (stripChars s.toList)

theorem stripChars_idem (cs : List Char) : stripChars (stripChars cs) = stripChars cs := by
  unfold stripChars
  have hhead : (List.rdropWhile isSpace (cs.dropWhile isSpace)).dropWhile isSpace =
      List.rdropWhile isSpace (cs.dropWhile isSpace) := by
    rw [List.dropWhile_eq_self_iff]
    intro hlength
    have hinitial := List.rdropWhile_prefix isSpace (l := cs.dropWhile isSpace)
    rw [hinitial.getElem hlength]
    exact List.dropWhile_get_zero_not _ _ (hlength.trans_le hinitial.length_le)
  rw [hhead, List.rdropWhile_idempotent]

@[simp] theorem strip_strip (s : String) : strip (strip s) = strip s := by
  unfold strip
  rw [String.toList_ofList, stripChars_idem]

theorem stripChars_sublist (cs : List Char) : (stripChars cs).Sublist cs :=
  (List.rdropWhile_prefix isSpace _).sublist.trans (List.dropWhile_suffix isSpace).sublist

/-- A text without white space at its ends is left alone. -/
theorem strip_eq_self {s : String} {a b : Char} {cs : List Char} (hs : s.toList = a :: (cs ++ [b]))
    (ha : isSpace a = false) (hb : isSpace b = false) : strip s = s := by
  unfold strip stripChars
  rw [hs, List.dropWhile_cons_of_neg (Bool.eq_false_iff.mp ha), ← List.cons_append,
    List.rdropWhile_concat_neg _ _ _ (Bool.eq_false_iff.mp hb), List.cons_append, ← hs,
    String.ofList_toList]

/-- A text with a character that is no white space is not blank. -/
theorem strip_ne_empty {s : String} {c : Char} (hc : c ∈ s.toList) (hspace : isSpace c = false) :
    strip s ≠ "" := by
  intro hempty
  have hnil : stripChars s.toList = [] := String.ofList_eq_empty_iff.mp hempty
  unfold stripChars at hnil
  rw [List.rdropWhile_eq_nil_iff] at hnil
  rw [← List.takeWhile_append_dropWhile (p := isSpace) (l := s.toList), List.mem_append] at hc
  have hall : isSpace c = true := hc.elim (fun h => List.mem_takeWhile_imp h) (hnil c)
  rw [hspace] at hall
  cases hall

theorem empty_le (s : String) : "" ≤ s := by
  refine not_lt.mp fun h => ?_
  rw [String.lt_iff_toList_lt] at h
  exact List.not_lt_nil _ h

/-! ## Capital and small letters -/

def upper (s : String) : String := String.ofList (s.toList.map Char.toUpper)

def lower (s : String) : String := String.ofList (s.toList.map Char.toLower)

def IsCapital (c : Char) : Prop := 65 ≤ c.toNat ∧ c.toNat ≤ 90

theorem toNat_toUpper (c : Char) :
    c.toUpper.toNat = if 97 ≤ c.toNat ∧ c.toNat ≤ 122 then c.toNat - 32 else c.toNat := by
  unfold Char.toUpper Char.toNat
  have hdiff : ('A'.val - 'a'.val).toNat = 4294967264 := by decide
  have ha : 'a'.val.toNat = 97 := by decide
  have hz : 'z'.val.toNat = 122 := by decide
  simp only [UInt32.le_iff_toNat_le, ha, hz]
  split
  · show (c.val + ('A'.val - 'a'.val)).toNat = _
    rw [UInt32.toNat_add, hdiff]
    omega
  · rfl

theorem toNat_toLower (c : Char) :
    c.toLower.toNat = if 65 ≤ c.toNat ∧ c.toNat ≤ 90 then c.toNat + 32 else c.toNat := by
  unfold Char.toLower Char.toNat
  have hdiff : ('a'.val - 'A'.val).toNat = 32 := by decide
  have hA : 'A'.val.toNat = 65 := by decide
  have hZ : 'Z'.val.toNat = 90 := by decide
  simp only [UInt32.le_iff_toNat_le, hA, hZ, ge_iff_le]
  split
  · show (c.val + ('a'.val - 'A'.val)).toNat = _
    rw [UInt32.toNat_add, hdiff]
    omega
  · rfl

theorem isSpace_toLower (c : Char) : isSpace c.toLower = isSpace c := by
  unfold isSpace
  rw [toNat_toLower]
  split
  · rename_i hcapital
    rw [Bool.eq_iff_iff]
    simp only [Bool.or_eq_true, Bool.and_eq_true, decide_eq_true_eq, beq_iff_eq]
    omega
  · rfl

theorem stripChars_map_toLower (cs : List Char) :
    stripChars (cs.map Char.toLower) = (stripChars cs).map Char.toLower := by
  have hspace : isSpace ∘ Char.toLower = isSpace := funext isSpace_toLower
  unfold stripChars List.rdropWhile
  rw [List.dropWhile_map, hspace, ← List.map_reverse, List.dropWhile_map, hspace, List.map_reverse]

theorem strip_lower (s : String) : strip (lower s) = lower (strip s) := by
  unfold strip lower
  rw [String.toList_ofList, String.toList_ofList, stripChars_map_toLower]

theorem toLower_toLower (c : Char) : c.toLower.toLower = c.toLower := by
  rw [← Char.toNat_inj, toNat_toLower c.toLower, toNat_toLower]
  split_ifs <;> omega

@[simp] theorem lower_lower (s : String) : lower (lower s) = lower s := by
  unfold lower
  rw [String.toList_ofList, List.map_map]
  exact congrArg String.ofList (List.map_congr_left fun c _ => toLower_toLower c)

theorem toUpper_eq_iff {c d : Char} (hd : IsCapital d) : c.toUpper = d ↔ c.toLower = d.toLower := by
  unfold IsCapital at hd
  rw [← Char.toNat_inj, ← Char.toNat_inj, toNat_toUpper, toNat_toLower, toNat_toLower, if_pos hd]
  split <;> split <;> omega

/-- A text of capitals is met in capitals just when it is met in small letters. -/
theorem upper_eq_iff {s t : String} (ht : ∀ c ∈ t.toList, IsCapital c) :
    upper s = t ↔ lower s = lower t := by
  have htext : t = String.ofList t.toList := String.ofList_toList.symm
  unfold upper lower
  conv_lhs => rw [htext]
  rw [String.ofList_inj, String.ofList_inj]
  generalize t.toList = cs at ht
  induction s.toList generalizing cs with
  | nil => cases cs <;> simp
  | cons c l ih =>
      cases cs with
      | nil => simp
      | cons d cs =>
          rw [List.map_cons, List.map_cons, List.map_cons, List.cons.injEq, List.cons.injEq,
            toUpper_eq_iff (ht d List.mem_cons_self),
            ih cs fun e he => ht e (List.mem_cons_of_mem _ he)]

/-! ## Words and separators -/

/-- A text with another one in place of every occurrence of a character. -/
def replaceChar (s : String) (c : Char) (text : String) : String :=
  String.ofList (s.toList.flatMap fun d => if d = c then text.toList else [d])

/-- Texts without the separator are determined by what they make up. -/
theorem intercalate_injective (separator : Char) {words words' : List String}
    (hwords : ∀ word ∈ words, separator ∉ word.toList)
    (hwords' : ∀ word ∈ words', separator ∉ word.toList) (hne : words ≠ []) (hne' : words' ≠ [])
    (h : (String.singleton separator).intercalate words =
      (String.singleton separator).intercalate words') : words = words' := by
  have hsplit : ∀ {l : List String}, (∀ word ∈ l, separator ∉ word.toList) → l ≠ [] →
      ((String.singleton separator).intercalate l).toList.splitOn separator =
        l.map String.toList := by
    intro l hl hne
    rw [String.toList_intercalate, String.toList_singleton]
    refine List.splitOn_intercalate separator (fun word hword => ?_)
      fun h => hne (List.map_eq_nil_iff.mp h)
    obtain ⟨text, htext, rfl⟩ := List.mem_map.mp hword
    exact hl text htext
  have hlists : words.map String.toList = words'.map String.toList := by
    rw [← hsplit hwords hne, ← hsplit hwords' hne', h]
  exact List.map_injective_iff.mpr (fun _ _ => String.toList_inj.mp) hlists

theorem toList_intercalate_cons (separator : Char) (word : String) {words : List String}
    (hne : words ≠ []) : ((String.singleton separator).intercalate (word :: words)).toList =
      word.toList ++ separator :: ((String.singleton separator).intercalate words).toList := by
  obtain ⟨next, words, rfl⟩ := List.exists_cons_of_ne_nil hne
  rw [String.toList_intercalate, String.toList_intercalate, String.toList_singleton, List.map_cons,
    List.map_cons, List.intercalate_cons_cons, List.append_assoc]
  rfl

/-- The first word, where it is free of the separator, and what the others make up. -/
theorem intercalate_cons_inj (separator : Char) {word word' : String} {words words' : List String}
    (hword : separator ∉ word.toList) (hword' : separator ∉ word'.toList) (hne : words ≠ [])
    (hne' : words' ≠ []) (h : (String.singleton separator).intercalate (word :: words) =
      (String.singleton separator).intercalate (word' :: words')) :
    word = word' ∧ (String.singleton separator).intercalate words =
      (String.singleton separator).intercalate words' := by
  have hlists := congrArg String.toList h
  rw [toList_intercalate_cons separator word hne, toList_intercalate_cons separator word' hne'] at hlists
  rcases List.append_eq_append_iff.mp hlists with ⟨rest, hfirst, hrest⟩ | ⟨rest, hfirst, hrest⟩
  · cases rest with
    | nil =>
        rw [List.append_nil] at hfirst
        exact ⟨(String.toList_inj.mp hfirst).symm, String.toList_inj.mp (List.cons.inj hrest).2⟩
    | cons c rest =>
        refine absurd ?_ hword'
        rw [hfirst, (List.cons.inj hrest).1]
        exact List.mem_append_right _ List.mem_cons_self
  · cases rest with
    | nil =>
        rw [List.append_nil] at hfirst
        exact ⟨String.toList_inj.mp hfirst, (String.toList_inj.mp (List.cons.inj hrest).2).symm⟩
    | cons c rest =>
        refine absurd ?_ hword
        rw [hfirst, (List.cons.inj hrest).1]
        exact List.mem_append_right _ List.mem_cons_self

theorem intercalate_cons_cancel (separator : Char) {word : String} {words words' : List String}
    (hne : words ≠ []) (hne' : words' ≠ [])
    (h : (String.singleton separator).intercalate (word :: words) =
      (String.singleton separator).intercalate (word :: words')) :
    (String.singleton separator).intercalate words =
      (String.singleton separator).intercalate words' := by
  have hlists := congrArg String.toList h
  rw [toList_intercalate_cons separator word hne, toList_intercalate_cons separator word hne',
    List.append_cancel_left_eq] at hlists
  exact String.toList_inj.mp (List.cons.inj hlists).2

/-- A list is told apart by its last unmarked item from the marked ones after it. -/
theorem append_cons_inj {α : Type} (marked : α → Prop) {before before' after after' : List α}
    {a a' : α} (ha : ¬ marked a) (ha' : ¬ marked a') (hafter : ∀ x ∈ after, marked x)
    (hafter' : ∀ x ∈ after', marked x) (h : before ++ a :: after = before' ++ a' :: after') :
    before = before' ∧ after = after' := by
  rcases List.append_eq_append_iff.mp h with ⟨rest, hbefore, hrest⟩ | ⟨rest, hbefore, hrest⟩
  · cases rest with
    | nil => exact ⟨by rw [hbefore, List.append_nil], (List.cons.inj hrest).2⟩
    | cons x rest =>
        refine absurd (hafter a' ?_) ha'
        rw [(List.cons.inj hrest).2]
        exact List.mem_append_right rest List.mem_cons_self
  · cases rest with
    | nil => exact ⟨by rw [hbefore, List.append_nil], (List.cons.inj hrest).2.symm⟩
    | cons x rest =>
        refine absurd (hafter' a ?_) ha
        rw [(List.cons.inj hrest).2]
        exact List.mem_append_right rest List.mem_cons_self

/-- Marked words without the separator, after one that is not marked, are determined with the
text before them by what they make up. -/
theorem intercalate_marked (separator : Char) {marked : String → Prop} {head head' middle middle' : String}
    {words words' : List String} (hmiddle : ¬ marked middle) (hmiddle' : ¬ marked middle')
    (hwords : ∀ word ∈ words, marked word) (hwords' : ∀ word ∈ words', marked word)
    (hfree : ∀ word ∈ middle :: words, separator ∉ word.toList)
    (hfree' : ∀ word ∈ middle' :: words', separator ∉ word.toList)
    (h : (String.singleton separator).intercalate (head :: middle :: words) =
      (String.singleton separator).intercalate (head' :: middle' :: words')) :
    head = head' ∧ words = words' := by
  have hsplit : ∀ {head middle : String} {words : List String},
      (∀ word ∈ middle :: words, separator ∉ word.toList) →
      ((String.singleton separator).intercalate (head :: middle :: words)).toList.splitOn separator =
        head.toList.splitOn separator ++ middle.toList :: words.map String.toList := by
    intro head middle words hfree
    rw [String.toList_intercalate, String.toList_singleton, List.map_cons, List.map_cons,
      List.intercalate_cons_cons, List.append_assoc, List.singleton_append,
      List.splitOn_append_cons_self, ← List.map_cons]
    refine congrArg _ (List.splitOn_intercalate separator (fun word hword => ?_) (by simp))
    obtain ⟨text, htext, rfl⟩ := List.mem_map.mp hword
    exact hfree text htext
  have hlists := congrArg (fun s => s.toList.splitOn separator) h
  rw [hsplit hfree, hsplit hfree'] at hlists
  obtain ⟨hhead, hwords⟩ := append_cons_inj (fun cs => marked (String.ofList cs))
    (by rwa [String.ofList_toList]) (by rwa [String.ofList_toList])
    (fun cs hcs => by
      obtain ⟨word, hword, rfl⟩ := List.mem_map.mp hcs
      rw [String.ofList_toList]
      exact hwords word hword)
    (fun cs hcs => by
      obtain ⟨word, hword, rfl⟩ := List.mem_map.mp hcs
      rw [String.ofList_toList]
      exact hwords' word hword) hlists
  refine ⟨?_, List.map_injective_iff.mpr (fun _ _ => String.toList_inj.mp) hwords⟩
  have hjoin : ∀ cs : List Char, [separator].intercalate (cs.splitOn separator) = cs := fun cs =>
    List.intercalate_splitOn separator
  rw [← String.toList_inj, ← hjoin head.toList, hhead, hjoin]

end LogRisk.Library.Text
