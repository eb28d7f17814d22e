import LogRisk.Library.Lines

/-!
# Files with one value a line

Values are written one a line in a format that needs no line break of its own, and
read back line by line; a reader takes all three line breaks for one.
-/

namespace LogRisk.Library.LineFiles

variable {β : Type}

/-- A value as a text without line breaks, which is read back with the break behind it. -/
structure Format (β : Type) where
  dump : β → List Char
  load : List Char → Option β
  unbroken : ∀ b, ∀ c ∈ dump b, c ≠ '\n' ∧ c ≠ '\r'
  load_dump : ∀ b, load (dump b ++ ['\n']) = some b

def Format.line (format : Format β) (b : β) : List Char := format.dump b ++ ['\n']

def Format.text (format : Format β) (bs : List β) : List Char := bs.flatMap format.line

/-- Every line break is read as `\n`. -/
def universalNewlines : List Char → List Char
  | [] => []
  | '\r' :: '\n' :: rest => '\n' :: universalNewlines rest
  | '\r' :: rest => '\n' :: universalNewlines rest
  | c :: rest => c :: universalNewlines rest

/-- The lines of a file that is open for reading. -/
def readLines (text : List Char) : List (List Char) :=
  Lines.split (fun c => c == '\n') (universalNewlines text)

theorem universalNewlines_of_notMem {text : List Char} (h : '\r' ∉ text) :
    universalNewlines text = text := by
  induction text with
  | nil => rfl
  | cons c rest ih =>
      have hc : c ≠ '\r' := fun heq => h (heq ▸ List.mem_cons_self)
      have hrest := ih fun hmem => h (List.mem_cons_of_mem _ hmem)
      rw [universalNewlines, hrest]
      · exact fun _ heq _ => hc heq
      · exact fun heq => hc heq

theorem notMem_text (format : Format β) (bs : List β) : '\r' ∉ format.text bs := by
  intro hmem
  obtain ⟨b, -, hb⟩ := List.mem_flatMap.mp hmem
  rcases List.mem_append.mp hb with hb | hb
  · exact (format.unbroken b _ hb).2 rfl
  · cases List.mem_singleton.mp hb

theorem split_line {cs : List Char} (h : ∀ c ∈ cs, c ≠ '\n') :
    Lines.split (fun c => c == '\n') (cs ++ ['\n']) = [cs ++ ['\n']] := by
  induction cs with
  | nil => rfl
  | cons c cs ih =>
      have hc : (c == '\n') = false := beq_false_of_ne (h c List.mem_cons_self)
      have hrest := ih fun d hd => h d (List.mem_cons_of_mem _ hd)
      rw [List.cons_append, Lines.split, hc, hrest]
      rfl

theorem closed_line (cs : List Char) : Lines.Closed (fun c => c == '\n') (cs ++ ['\n']) := by
  intro c hc
  rw [List.getLast?_append] at hc
  obtain rfl := Option.some.inj hc
  rfl

theorem split_text (format : Format β) (bs : List β) :
    Lines.split (fun c => c == '\n') (format.text bs) = bs.map format.line := by
  induction bs with
  | nil => rfl
  | cons b bs ih =>
      have hline := split_line fun c hc => (format.unbroken b c hc).1
      calc
        Lines.split (fun c => c == '\n') (format.text (b :: bs))
            = Lines.split (fun c => c == '\n') (format.line b ++ format.text bs) := rfl
        _ = Lines.split (fun c => c == '\n') (format.line b) ++
              Lines.split (fun c => c == '\n') (format.text bs) :=
            Lines.split_append (closed_line _) _
        _ = (b :: bs).map format.line := by
            rw [ih, List.map_cons]
            exact congrArg (· ++ bs.map format.line) hline

/-- What was written one a line is read back line by line. -/
theorem readLines_text (format : Format β) (bs : List β) :
    readLines (format.text bs) = bs.map format.line := by
  unfold readLines
  rw [universalNewlines_of_notMem (notMem_text format bs), split_text]

theorem load_line (format : Format β) (b : β) : format.load (format.line b) = some b :=
  format.load_dump b

end LogRisk.Library.LineFiles
