import LogRisk.FileSource.Reader

/-!
# Resuming behind a record

A resumed read is one pass from the cursor on.  Its lines are the remaining lines
of the file, unless the last line had no terminator when its record was emitted;
its line numbers are those of one pass, unless a record brings its own.
-/

namespace LogRisk.FileSource

open LogRisk.Library LogRisk.Streaming

variable {ν : Type}

/-! ## Where the line number of a record comes from -/

def numberField (options : FileOptions ν) (raw : List UInt8) : Option (Field ν) :=
  (lineRecord options 1 raw).bind fun record => getField "_line_no" (popOffset record)

/-- The record is numbered by the position of its line. -/
def Positional (options : FileOptions ν) (raw : List UInt8) : Prop :=
  numberField options raw = some (.int 1)

/-- The record brings a number that is replaced by the line its read began at. -/
def Fallback (options : FileOptions ν) (raw : List UInt8) : Prop :=
  ∃ v, numberField options raw = some (.value v) ∧ options.json.truthy v = false

theorem getField_append_of_notMem {key : String} {front : LogRecord ν}
    (h : key ∉ front.map Prod.fst) (back : LogRecord ν) :
    getField key (front ++ back) = getField key back := by
  induction front with
  | nil => rfl
  | cons f front ih =>
      obtain ⟨k, v⟩ := f
      rw [List.map_cons, List.mem_cons, not_or] at h
      rw [List.cons_append, getField, if_neg (Ne.symm h.1), ih h.2]

theorem getField_popOffset (record : LogRecord ν) :
    getField "_line_no" (popOffset record) = getField "_line_no" record := by
  induction record with
  | nil => rfl
  | cons f record ih =>
      obtain ⟨k, v⟩ := f
      by_cases hk : k = "_byte_offset_end"
      · subst hk
        rw [popOffset, List.filter_cons_of_neg (by simp), ← popOffset, ih, getField,
          if_neg (by decide)]
      · rw [popOffset, List.filter_cons_of_pos (by simpa using hk), ← popOffset, getField, getField, ih]

theorem getField_value {key : String} {fields : List (String × ν)}
    (h : key ∈ (fields.map fun f => (f.1, Field.value f.2)).map Prod.fst) :
    ∃ v, getField key (fields.map fun f => (f.1, Field.value f.2)) = some (.value v) := by
  induction fields with
  | nil => cases h
  | cons f fields ih =>
      rw [List.map_cons, getField]
      by_cases hk : f.1 = key
      · exact ⟨f.2, by rw [if_pos hk]⟩
      · rw [if_neg hk]
        refine ih ?_
        rw [List.map_cons, List.map_cons, List.mem_cons] at h
        exact h.resolve_left (Ne.symm hk)

/-- A blank line, a record numbered by position, or one that brings a number. -/
theorem lineRecord_cases (options : FileOptions ν) (raw : List UInt8) :
    (∀ n, lineRecord options n raw = none) ∨
    (∃ front back : LogRecord ν, "_line_no" ∉ front.map Prod.fst ∧
      ∀ n, lineRecord options n raw = some (front ++ ("_line_no", .int n) :: back)) ∨
    (∃ record v, getField "_line_no" record = some (.value v) ∧
      ∀ n, lineRecord options n raw = some record) := by
  simp only [lineRecord]
  by_cases hblank : Text.stripChars (lineText raw) = []
  · exact .inl fun n => if_pos hblank
  simp only [if_neg hblank]
  right
  cases options.format with
  | plain => exact .inl ⟨[("message", .str _)], [], by simp, fun n => rfl⟩
  | jsonl =>
      cases hload : options.json.loads (String.ofList (lineText raw)) with
      | none => exact .inl ⟨[("message", .str _)], [("_parse_error", .str _)], by simp, fun n => rfl⟩
      | some item =>
          cases item with
          | str s => exact .inl ⟨[("message", .str s)], [], by simp, fun n => rfl⟩
          | other v => exact .inl ⟨[("message", .str _)], [], by simp, fun n => rfl⟩
          | dict fields =>
              by_cases hkey : "_line_no" ∈
                  (fields.map fun f => (f.1, Field.value f.2)).map Prod.fst
              · obtain ⟨v, hv⟩ := getField_value hkey
                exact .inr ⟨_, v, hv, fun n => congrArg some (if_pos hkey)⟩
              · exact .inl ⟨_, [], hkey, fun n => congrArg some (if_neg hkey)⟩

/-- How what the source makes of a line depends on where reading started and on
the position of the line. -/
inductive LineCase (options : FileOptions ν) (raw : List UInt8) : Prop where
  | blank (hout : ∀ line n, lineOutput options line n raw = .ok none)
      (hpos : ¬Positional options raw) (hfall : ¬Fallback options raw)
  | positional (record : ℕ → LogRecord ν)
      (hout : ∀ line n, 1 ≤ n → lineOutput options line n raw = .ok (some (record n, (n : ℤ))))
      (hpos : Positional options raw) (hfall : ¬Fallback options raw)
  | fallback (record : LogRecord ν)
      (hout : ∀ line n, lineOutput options line n raw = .ok (some (record, (line : ℤ))))
      (hpos : ¬Positional options raw) (hfall : Fallback options raw)
  | own (record : LogRecord ν) (number : ℤ)
      (hout : ∀ line n, lineOutput options line n raw = .ok (some (record, number)))
      (hpos : ¬Positional options raw) (hfall : ¬Fallback options raw)
  | bad (e : FileError) (hout : ∀ line n, lineOutput options line n raw = .error e)
      (hpos : ¬Positional options raw) (hfall : ¬Fallback options raw)

theorem lineCase (options : FileOptions ν) (raw : List UInt8) : LineCase options raw := by
  obtain hnone | ⟨front, back, hfront, hrecord⟩ | ⟨record, v, hv, hrecord⟩ :=
    lineRecord_cases options raw
  · have hfield : numberField options raw = none := by rw [numberField, hnone]; rfl
    refine .blank (fun line n => by rw [lineOutput, hnone]) ?_ ?_
    · exact fun h => by cases hfield.symm.trans h
    · rintro ⟨v, hv, -⟩
      cases hfield.symm.trans hv
  · have hget : ∀ n : ℕ, getField "_line_no" (popOffset (front ++ ("_line_no", .int n) :: back)) =
        some (.int n) := fun n => by
      rw [getField_popOffset, getField_append_of_notMem hfront, getField, if_pos rfl]
    have hfield : numberField options raw = some (.int 1) := by
      rw [numberField, hrecord]
      exact hget 1
    refine .positional (fun n => popOffset (front ++ ("_line_no", .int n) :: back))
      (fun line n hn => ?_) hfield ?_
    · have hnumber : recordLine options.json line
          (popOffset (front ++ ("_line_no", .int n) :: back)) = .ok (n : ℤ) := by
        rw [recordLine, hget]
        exact congrArg _ (if_neg (by omega))
      rw [lineOutput, hrecord]
      simp only [hnumber]
      rfl
    · rintro ⟨v, hv, -⟩
      cases hfield.symm.trans hv
  · have hget : getField "_line_no" (popOffset record) = some (.value v) := by
      rw [getField_popOffset, hv]
    have hfield : numberField options raw = some (.value v) := by
      rw [numberField, hrecord]
      exact hget
    have hpos : ¬Positional options raw := fun h => by cases hfield.symm.trans h
    have hout : ∀ line n, lineOutput options line n raw =
        (recordLine options.json line (popOffset record)).bind fun number =>
          .ok (some (popOffset record, number)) := fun line n => by
      rw [lineOutput, hrecord]
      rfl
    cases htruthy : options.json.truthy v with
    | false =>
        refine .fallback (popOffset record) (fun line n => ?_) hpos ⟨v, hfield, htruthy⟩
        rw [hout, recordLine, hget]
        simp [htruthy, Except.bind]
    | true =>
        have hfall : ¬Fallback options raw := by
          rintro ⟨w, hw, hfalse⟩
          obtain rfl : v = w := by simpa [hfield] using hw
          exact Bool.noConfusion (htruthy.symm.trans hfalse)
        cases hint : options.json.toInt v with
        | some number =>
            refine .own (popOffset record) number (fun line n => ?_) hpos hfall
            rw [hout, recordLine, hget]
            simp [htruthy, hint, Except.bind]
        | none =>
            refine .bad .lineNumber (fun line n => ?_) hpos hfall
            rw [hout, recordLine, hget]
            simp [htruthy, hint, Except.bind]

/-! ## The contents of the records of some lines -/

def lineContent (options : FileOptions ν) (line lineNo : ℕ) (raw : List UInt8) :
    List (LogRecord ν × ℤ) :=
  match lineOutput options line lineNo raw with
  | .ok (some content) => [content]
  | _ => []

/-- What the records of these lines hold, the first line being number `lineNo`. -/
def outputs (options : FileOptions ν) (line : ℕ) : ℕ → List (List UInt8) → List (LogRecord ν × ℤ)
  | _, [] => []
  | lineNo, raw :: rest => lineContent options line lineNo raw ++ outputs options line (lineNo + 1) rest

/-- Neither the position of the line nor where reading began shows in its record,
unless the record is numbered by it. -/
def SameNumber (options : FileOptions ν) (line line' lineNo lineNo' : ℤ) (raw : List UInt8) : Prop :=
  (Positional options raw → lineNo = lineNo') ∧ (Fallback options raw → line = line')

theorem lineContent_length (options : FileOptions ν) {line line' lineNo lineNo' : ℕ}
    (h : 1 ≤ lineNo) (h' : 1 ≤ lineNo') (raw : List UInt8) :
    (lineContent options line lineNo raw).length = (lineContent options line' lineNo' raw).length := by
  cases lineCase options raw with
  | blank hout | own record number hout | bad e hout => simp only [lineContent, hout]
  | fallback record hout => simp only [lineContent, hout, List.length_singleton]
  | positional record hout => simp only [lineContent, hout _ _ h, hout _ _ h', List.length_singleton]

theorem lineContent_eq_iff (options : FileOptions ν) {line line' lineNo lineNo' : ℕ}
    (h : 1 ≤ lineNo) (h' : 1 ≤ lineNo') (raw : List UInt8) :
    lineContent options line lineNo raw = lineContent options line' lineNo' raw ↔
      SameNumber options line line' lineNo lineNo' raw := by
  cases lineCase options raw with
  | blank hout hpos hfall | own record number hout hpos hfall | bad e hout hpos hfall =>
      simp only [lineContent, hout, SameNumber, true_iff]
      exact ⟨fun hp => absurd hp hpos, fun hf => absurd hf hfall⟩
  | positional record hout hpos hfall =>
      simp only [lineContent, hout _ _ h, hout _ _ h', SameNumber]
      constructor
      · intro heq
        exact ⟨fun _ => (Prod.mk.inj (List.cons.inj heq).1).2, fun hf => absurd hf hfall⟩
      · intro hsame
        rw [Int.ofNat_inj.mp (hsame.1 hpos)]
  | fallback record hout hpos hfall =>
      simp only [lineContent, hout, SameNumber]
      constructor
      · intro heq
        exact ⟨fun hp => absurd hp hpos, fun _ => (Prod.mk.inj (List.cons.inj heq).1).2⟩
      · intro hsame
        rw [Int.ofNat_inj.mp (hsame.2 hfall)]

theorem outputs_append (options : FileOptions ν) (line lineNo : ℕ) (front back : List (List UInt8)) :
    outputs options line lineNo (front ++ back) =
      outputs options line lineNo front ++ outputs options line (lineNo + front.length) back := by
  induction front generalizing lineNo with
  | nil => rfl
  | cons raw front ih =>
      rw [List.cons_append, outputs, outputs, ih, List.append_assoc, List.length_cons,
        Nat.add_right_comm, Nat.add_assoc]

theorem outputs_length (options : FileOptions ν) {line line' lineNo lineNo' : ℕ}
    (h : 1 ≤ lineNo) (h' : 1 ≤ lineNo') (lines : List (List UInt8)) :
    (outputs options line lineNo lines).length = (outputs options line' lineNo' lines).length := by
  induction lines generalizing lineNo lineNo' with
  | nil => rfl
  | cons raw lines ih =>
      rw [outputs, outputs, List.length_append, List.length_append, lineContent_length options h h',
        ih (Nat.le_add_right_of_le h) (Nat.le_add_right_of_le h')]

theorem outputs_eq_iff (options : FileOptions ν) {line line' lineNo lineNo' : ℕ}
    (h : 1 ≤ lineNo) (h' : 1 ≤ lineNo') (lines : List (List UInt8)) :
    outputs options line lineNo lines = outputs options line' lineNo' lines ↔
      ∀ raw ∈ lines, SameNumber options line line' lineNo lineNo' raw := by
  induction lines generalizing lineNo lineNo' with
  | nil => simp [outputs]
  | cons raw lines ih =>
      have hstep : outputs options line (lineNo + 1) lines = outputs options line' (lineNo' + 1) lines ↔
          ∀ raw ∈ lines, SameNumber options line line' lineNo lineNo' raw := by
        rw [ih (Nat.le_add_right_of_le h) (Nat.le_add_right_of_le h')]
        refine forall₂_congr fun raw _ => and_congr_left' (imp_congr_right fun _ => ?_)
        omega
      rw [outputs, outputs, List.forall_mem_cons, ← lineContent_eq_iff options h h', ← hstep]
      constructor
      · exact fun heq => List.append_inj heq (lineContent_length options h h' raw)
      · rintro ⟨hraw, hlines⟩
        rw [hraw, hlines]

/-! ## A read that ends without an error -/

/-- The line is not too long and its record has a line number. -/
def Readable (options : FileOptions ν) (raw : List UInt8) : Prop :=
  (∀ limit ∈ options.maxLineBytes, raw.length ≤ limit) ∧
    ∃ out, lineOutput options 1 1 raw = .ok out

def WithinTotal (options : FileOptions ν) (bytes : ℕ) : Prop :=
  ∀ limit ∈ options.maxDecompressedBytes, bytes ≤ limit

theorem checkLimits_eq_ok {options : FileOptions ν} {lineNo bytesRead : ℕ} {raw : List UInt8} :
    checkLimits options lineNo bytesRead raw = .ok () ↔
      (∀ limit ∈ options.maxLineBytes, raw.length ≤ limit) ∧
        WithinTotal options (bytesRead + raw.length) := by
  simp only [checkLimits, WithinTotal]
  split_ifs with hline htotal
  · simp only [false_iff, not_and]
    obtain ⟨limit, hlimit, hlt⟩ := hline
    exact fun h => absurd (h limit hlimit) (by omega)
  · simp only [false_iff, not_and]
    obtain ⟨limit, hlimit, hlt⟩ := htotal
    exact fun _ h => absurd (h limit hlimit) (by omega)
  · simp only [true_iff]
    push Not at hline htotal
    exact ⟨hline, htotal⟩

theorem exists_lineOutput_eq_ok (options : FileOptions ν) {line lineNo : ℕ} (h : 1 ≤ lineNo)
    (raw : List UInt8) :
    (∃ out, lineOutput options line lineNo raw = .ok out) ↔
      ∃ out, lineOutput options 1 1 raw = .ok out := by
  cases lineCase options raw with
  | blank hout | own record number hout | bad e hout => simp only [hout]
  | fallback record hout => simp [hout]
  | positional record hout => simp [hout _ _ h, hout _ _ (le_refl 1)]

theorem Stream.error_cons (r : SourceRecord ν) (s : Stream ν) : (s.cons r).error = s.error := rfl

theorem readLines_cons_error {options : FileOptions ν} {line lineNo bytesRead offset : ℕ}
    (h : 1 ≤ lineNo) {raw : List UInt8} {rest : List (List UInt8)} :
    (readLines options line lineNo bytesRead offset (raw :: rest)).error = none ↔
      (Readable options raw ∧ WithinTotal options (bytesRead + raw.length)) ∧
        (readLines options line (lineNo + 1) (bytesRead + raw.length) (offset + raw.length)
          rest).error = none := by
  have hfits : Readable options raw ∧ WithinTotal options (bytesRead + raw.length) ↔
      checkLimits options lineNo bytesRead raw = .ok () ∧
        ∃ out, lineOutput options line lineNo raw = .ok out := by
    rw [Readable, and_right_comm, checkLimits_eq_ok, exists_lineOutput_eq_ok options h]
  rw [hfits, readLines]
  cases hlimits : checkLimits options lineNo bytesRead raw with
  | error e => simp [Stream.fail]
  | ok u =>
      cases hout : lineOutput options line lineNo raw with
      | error e => simp [Stream.fail]
      | ok out =>
          cases out with
          | none => simp
          | some content => simp [Stream.error_cons]

/-- Whether a read succeeds is a matter of its lines and of their total length. -/
theorem readLines_error {options : FileOptions ν} {line lineNo bytesRead offset : ℕ}
    (h : 1 ≤ lineNo) (lines : List (List UInt8)) :
    (readLines options line lineNo bytesRead offset lines).error = none ↔
      (∀ raw ∈ lines, Readable options raw) ∧
        (lines ≠ [] → WithinTotal options (bytesRead + lines.flatten.length)) := by
  induction lines generalizing lineNo bytesRead offset with
  | nil => simp [readLines]
  | cons raw rest ih =>
      rw [readLines_cons_error h, ih (Nat.le_add_right_of_le h), List.forall_mem_cons,
        List.flatten_cons, List.length_append, ← Nat.add_assoc]
      constructor
      · rintro ⟨⟨hraw, htotal⟩, hrest, hmore⟩
        refine ⟨⟨hraw, hrest⟩, fun _ => ?_⟩
        by_cases hnil : rest = []
        · rw [hnil]
          exact htotal
        · exact hmore hnil
      · rintro ⟨⟨hraw, hrest⟩, hmore⟩
        have htotal := hmore (List.cons_ne_nil raw rest)
        refine ⟨⟨hraw, fun limit hlimit => ?_⟩, hrest, fun _ => htotal⟩
        exact (Nat.le_add_right _ _).trans (htotal limit hlimit)

theorem readLines_contents {options : FileOptions ν} {line lineNo bytesRead offset : ℕ}
    {lines : List (List UInt8)}
    (h : (readLines options line lineNo bytesRead offset lines).error = none) :
    (readLines options line lineNo bytesRead offset lines).records.map SourceRecord.content =
      outputs options line lineNo lines := by
  induction lines generalizing lineNo bytesRead offset with
  | nil => rfl
  | cons raw rest ih =>
      rw [readLines] at h ⊢
      rw [outputs, lineContent]
      cases hlimits : checkLimits options lineNo bytesRead raw with
      | error e => simp [hlimits, Stream.fail] at h
      | ok u =>
          cases hout : lineOutput options line lineNo raw with
          | error e => simp [hlimits, hout, Stream.fail] at h
          | ok out =>
              simp only [hlimits, hout] at h ⊢
              cases out with
              | none => exact ih h
              | some content => exact congrArg (_ :: ·) (ih h)

/-! ## The record a cursor stands behind -/

/-- The line has a record. -/
def emits (options : FileOptions ν) (raw : List UInt8) : Bool := (lineRecord options 1 raw).isSome

theorem emits_of_content {options : FileOptions ν} {line lineNo : ℕ}
    {raw : List UInt8} {content : LogRecord ν × ℤ}
    (hout : lineOutput options line lineNo raw = .ok (some content)) : emits options raw = true := by
  obtain hnone | ⟨front, back, -, hrecord⟩ | ⟨record, v, -, hrecord⟩ := lineRecord_cases options raw
  · rw [lineOutput, hnone] at hout
    cases hout
  · rw [emits, hrecord]
    rfl
  · rw [emits, hrecord]
    rfl

theorem emits_of_blank {options : FileOptions ν} {line lineNo : ℕ} {raw : List UInt8}
    (hout : lineOutput options line lineNo raw = .ok none) : emits options raw = false := by
  obtain hnone | ⟨front, back, -, hrecord⟩ | ⟨record, v, -, hrecord⟩ := lineRecord_cases options raw
  · rw [emits, hnone]
    rfl
  · rw [lineOutput, hrecord] at hout
    cases hnumber : recordLine options.json line (popOffset (front ++ ("_line_no", .int lineNo) :: back))
      <;> simp [hnumber, bind, Except.bind] at hout
  · rw [lineOutput, hrecord] at hout
    cases hnumber : recordLine options.json line (popOffset record)
      <;> simp [hnumber, bind, Except.bind] at hout

/-- Where in the lines a record was read, what was read before it, and the cursor
behind it. -/
theorem readLines_getElem {options : FileOptions ν} {line lineNo bytesRead offset : ℕ}
    (h : 1 ≤ lineNo) {lines : List (List UInt8)} {i : ℕ} {r : SourceRecord ν}
    (hr : (readLines options line lineNo bytesRead offset lines).records[i]? = some r) :
    ∃ front raw back, lines = front ++ raw :: back ∧ front.countP (emits options) = i ∧
      lineOutput options line (lineNo + front.length) raw = .ok (some r.content) ∧
      ((readLines options line lineNo bytesRead offset lines).records.take i).map
        SourceRecord.content = outputs options line lineNo front ∧
      r.nextCursor = fileCursor (offset + (front ++ [raw]).flatten.length : ℕ) (r.lineNo + 1) := by
  induction lines generalizing lineNo bytesRead offset i with
  | nil => simp [readLines] at hr
  | cons raw rest ih =>
      rw [readLines] at hr ⊢
      cases hlimits : checkLimits options lineNo bytesRead raw with
      | error e => simp [hlimits, Stream.fail] at hr
      | ok u =>
          cases hout : lineOutput options line lineNo raw with
          | error e => simp [hlimits, hout, Stream.fail] at hr
          | ok out =>
              simp only [hlimits, hout] at hr ⊢
              cases out with
              | none =>
                  obtain ⟨front, raw', back, rfl, hcount, hout', htake, hcursor⟩ :=
                    ih (Nat.le_add_right_of_le h) hr
                  refine ⟨raw :: front, raw', back, rfl, ?_, ?_, ?_, ?_⟩
                  · rw [List.countP_cons_of_neg (by rw [emits_of_blank hout]; decide), hcount]
                  · rw [List.length_cons, ← hout', Nat.add_right_comm, Nat.add_assoc]
                  · rw [outputs, lineContent, hout]
                    exact htake
                  · rw [hcursor, List.cons_append, List.flatten_cons, List.length_append,
                      Nat.add_assoc]
              | some content =>
                  cases i with
                  | zero =>
                      obtain rfl := Option.some.inj hr
                      exact ⟨[], raw, rest, rfl, rfl, hout, rfl, by simp⟩
                  | succ i =>
                      obtain ⟨front, raw', back, rfl, hcount, hout', htake, hcursor⟩ :=
                        ih (Nat.le_add_right_of_le h) hr
                      refine ⟨raw :: front, raw', back, rfl, ?_, ?_, ?_, ?_⟩
                      · rw [List.countP_cons_of_pos (emits_of_content hout), hcount]
                      · rw [List.length_cons, ← hout', Nat.add_right_comm, Nat.add_assoc]
                      · rw [outputs, lineContent, hout]
                        exact congrArg (_ :: ·) htake
                      · rw [hcursor, List.cons_append, List.flatten_cons, List.length_append,
                          Nat.add_assoc]

/-- The line of a record is determined by the number of records before it. -/
theorem record_line_unique {α : Type} {p : α → Bool} {front front' back back' : List α} {x x' : α}
    (heq : front ++ x :: back = front' ++ x' :: back') (hx : p x = true) (hx' : p x' = true)
    (hcount : front.countP p = front'.countP p) : front = front' ∧ x = x' ∧ back = back' := by
  induction front generalizing front' with
  | nil =>
      cases front' with
      | nil =>
          obtain ⟨rfl, rfl⟩ := List.cons.inj heq
          exact ⟨rfl, rfl, rfl⟩
      | cons y front' =>
          obtain ⟨rfl, -⟩ := List.cons.inj heq
          rw [List.countP_cons_of_pos hx] at hcount
          exact absurd hcount (by simp)
  | cons y front ih =>
      cases front' with
      | nil =>
          obtain ⟨rfl, -⟩ := List.cons.inj heq
          rw [List.countP_cons_of_pos hx'] at hcount
          exact absurd hcount (by simp)
      | cons y' front' =>
          obtain ⟨rfl, htail⟩ := List.cons.inj heq
          rw [List.countP_cons, List.countP_cons] at hcount
          obtain ⟨rfl, rfl, rfl⟩ := ih htail (Nat.add_right_cancel hcount)
          exact ⟨rfl, rfl, rfl⟩

/-! ## The lines of a file that has grown -/

theorem splitLines_terminated {A B raw : List UInt8} {front back : List (List UInt8)}
    (hA : splitLines A = front ++ raw :: back) (h : Lines.Closed isNewline raw ∨ B = []) :
    splitLines (A ++ B) = front ++ raw :: splitLines (back.flatten ++ B) := by
  have hA' : splitLines A = (front ++ [raw]) ++ back := by rw [hA, List.append_assoc]; rfl
  obtain ⟨hjoin, hfirst, hclosed⟩ := Lines.split_eq_append hA'
  by_cases hend : back = [] ∧ B = []
  · obtain ⟨rfl, rfl⟩ := hend
    rw [List.append_nil, hA]
    rfl
  · have hinitial : Lines.Closed isNewline (front ++ [raw]).flatten := by
      rcases h with hraw | hB
      · have hfront := (Lines.split_eq_append hA).2.2 (List.cons_ne_nil raw back)
        rw [List.flatten_append, List.flatten_singleton]
        exact hfront.append hraw
      · exact hclosed fun hback => hend ⟨hback, hB⟩
    rw [splitLines, hjoin, List.append_assoc, Lines.split_append hinitial, hfirst, List.append_assoc]
    rfl

theorem splitLines_growing {A B raw first : List UInt8} {front back rest : List (List UInt8)}
    (hA : splitLines A = front ++ raw :: back) (hopen : ¬Lines.Closed isNewline raw)
    (hB : splitLines B = first :: rest) :
    back = [] ∧ splitLines (A ++ B) = front ++ (raw ++ first) :: rest := by
  obtain ⟨hjoin, hfront, hclosed⟩ := Lines.split_eq_append hA
  obtain ⟨-, hraw, -, hterminated⟩ := Lines.split_eq_cons (Lines.split_flatten_back hA)
  have hback : back = [] := by
    by_contra hne
    exact hopen (hterminated hne)
  subst hback
  refine ⟨rfl, ?_⟩
  rw [splitLines, hjoin, List.append_assoc, Lines.split_append (hclosed (List.cons_ne_nil raw [])),
    hfront, List.flatten_singleton, Lines.split_append_line hraw hopen hB]

theorem drop_behind {A raw : List UInt8} {front back : List (List UInt8)}
    (hA : splitLines A = front ++ raw :: back) (B : List UInt8) :
    (A ++ B).drop (front ++ [raw]).flatten.length = back.flatten ++ B := by
  have hjoin : A = (front ++ [raw]).flatten ++ back.flatten := by
    rw [← List.flatten_append, List.append_assoc, List.singleton_append, ← hA]
    exact (Lines.flatten_split A).symm
  rw [hjoin, List.append_assoc, List.drop_left]

/-! ## Resuming -/

/-- Where a read starts whose cursor stands behind a record of this number. -/
def resumeLine (number : ℤ) : ℤ := startLine (fileCursor 0 (number + 1))

/-- The records up to this one and those of the resumed read are the records of one
pass over the file that has grown. -/
def ResumesBehind (options : FileOptions ν) (A B : List UInt8) (i : ℕ) (r : SourceRecord ν) : Prop :=
  (read options (A ++ B) r.nextCursor).error = none ∧
    ((read options A .empty).records.take (i + 1) ++
      (read options (A ++ B) r.nextCursor).records).map SourceRecord.content =
        (read options (A ++ B) .empty).records.map SourceRecord.content

/-- What has to hold of a line, of the number of its record and of what follows. -/
structure SafeBehind (options : FileOptions ν) (front : List (List UInt8)) (raw : List UInt8)
    (content : LogRecord ν × ℤ) (back : List (List UInt8)) (B : List UInt8) : Prop where
  starts : 1 ≤ resumeLine content.2
  terminated : Lines.Closed isNewline raw ∨ B = [] → ∀ line ∈ splitLines (back.flatten ++ B),
    SameNumber options (resumeLine content.2) 1 (resumeLine content.2) (front.length + 2 : ℕ) line
  /-- The line had no terminator: what completes it shows in no record. -/
  growing : ¬Lines.Closed isNewline raw → ∀ first rest, splitLines B = first :: rest →
    emits options first = false ∧
    lineOutput options 1 (front.length + 1) (raw ++ first) = .ok (some content) ∧
    ∀ line ∈ rest, SameNumber options (resumeLine content.2) 1 (resumeLine content.2 + 1)
      (front.length + 2 : ℕ) line

theorem read_empty (options : FileOptions ν) (content : List UInt8) :
    read options content .empty = readLines options 1 1 0 0 (splitLines content) := rfl

theorem read_behind (options : FileOptions ν) (content : List UInt8) (offset : ℕ) (number : ℤ) :
    read options content (fileCursor offset (number + 1)) =
      if resumeLine number < 1 then .fail (.source "起始行号必须大于 0")
      else readLines options (resumeLine number).toNat (resumeLine number).toNat 0 offset
        (splitLines (content.drop offset)) := by
  have hkind : ¬((fileCursor (offset : ℤ) (number + 1)).kind ≠ "" ∧
      (fileCursor (offset : ℤ) (number + 1)).kind ≠ "file") := by
    simp [fileCursor]
  rw [read, if_neg hkind, if_neg (by simp [SourceCursor.offset, fileCursor])]
  rfl

theorem emits_eq_false {options : FileOptions ν} {line lineNo : ℕ} {raw : List UInt8} :
    emits options raw = false ↔ lineOutput options line lineNo raw = .ok none := by
  refine ⟨fun h => ?_, emits_of_blank⟩
  obtain hnone | ⟨front, back, -, hrecord⟩ | ⟨record, v, -, hrecord⟩ := lineRecord_cases options raw
  · rw [lineOutput, hnone]
  · rw [emits, hrecord] at h
    cases h
  · rw [emits, hrecord] at h
    cases h

theorem lineContent_eq_singleton {options : FileOptions ν} {line lineNo : ℕ} {raw : List UInt8}
    {content : LogRecord ν × ℤ} :
    lineContent options line lineNo raw = [content] ↔
      lineOutput options line lineNo raw = .ok (some content) := by
  rw [lineContent]
  split
  · rename_i c hout
    rw [hout]
    simp
  · rename_i hout
    exact ⟨(by intro h; cases h), fun h => absurd h (hout content)⟩

theorem lineContent_length_le (options : FileOptions ν) (line lineNo : ℕ) (raw : List UInt8) :
    (lineContent options line lineNo raw).length ≤ 1 := by
  rw [lineContent]
  split
  · exact le_refl 1
  · exact Nat.zero_le 1

section Behind

variable {options : FileOptions ν} {A B raw : List UInt8} {front back : List (List UInt8)}
  {content : LogRecord ν × ℤ} {line : ℕ}

/-- The lines that follow are read again as they are. -/
theorem terminated_agrees (hline : 1 ≤ line)
    (hlines : splitLines (A ++ B) = front ++ raw :: splitLines (back.flatten ++ B))
    (hpass : (read options (A ++ B) .empty).error = none)
    (hout : lineOutput options 1 (1 + front.length) raw = .ok (some content)) (offset : ℕ) :
    let resumed := readLines options line line 0 offset (splitLines (back.flatten ++ B))
    resumed.error = none ∧
      (outputs options 1 1 front ++ [content] ++ resumed.records.map SourceRecord.content =
          (read options (A ++ B) .empty).records.map SourceRecord.content ↔
        ∀ l ∈ splitLines (back.flatten ++ B),
          SameNumber options line 1 line (front.length + 2 : ℕ) l) := by
  intro resumed
  have hcontents := readLines_contents (read_empty options (A ++ B) ▸ hpass)
  rw [read_empty, hlines] at hpass
  rw [hlines] at hcontents
  obtain ⟨hreadable, htotal⟩ := (readLines_error (le_refl 1) _).mp hpass
  have hok : resumed.error = none := by
    refine (readLines_error hline _).mpr ⟨fun l hl => hreadable l ?_, fun _ limit hlimit => ?_⟩
    · exact List.mem_append_right _ (List.mem_cons_of_mem _ hl)
    · refine le_trans ?_ (htotal (by simp) limit hlimit)
      rw [List.flatten_append, List.flatten_cons]
      simp only [List.length_append]
      omega
  refine ⟨hok, ?_⟩
  rw [read_empty, hlines, hcontents, readLines_contents hok, outputs_append, outputs,
    lineContent_eq_singleton.mpr hout, List.append_assoc, List.append_right_inj,
    List.append_right_inj, outputs_eq_iff options hline (by omega)]
  rw [show 1 + front.length + 1 = front.length + 2 by omega]
  rfl

/-- The rest of the line is read as a line of its own. -/
theorem growing_agrees {first : List UInt8} {rest : List (List UInt8)} (hline : 1 ≤ line)
    (hlines : splitLines (A ++ B) = front ++ (raw ++ first) :: rest)
    (hpass : (read options (A ++ B) .empty).error = none) (offset : ℕ) :
    let resumed := readLines options line line 0 offset (first :: rest)
    resumed.error = none ∧
        outputs options 1 1 front ++ [content] ++ resumed.records.map SourceRecord.content =
          (read options (A ++ B) .empty).records.map SourceRecord.content ↔
      emits options first = false ∧
        lineOutput options 1 (1 + front.length) (raw ++ first) = .ok (some content) ∧
        ∀ l ∈ rest, SameNumber options line 1 (line + 1 : ℕ) (front.length + 2 : ℕ) l := by
  intro resumed
  have hcontents := readLines_contents (read_empty options (A ++ B) ▸ hpass)
  rw [read_empty, hlines] at hpass
  rw [hlines] at hcontents
  obtain ⟨hreadable, htotal⟩ := (readLines_error (le_refl 1) _).mp hpass
  have hrest : outputs options line (line + 1) rest = outputs options 1 (1 + front.length + 1) rest ↔
      ∀ l ∈ rest, SameNumber options line 1 (line + 1 : ℕ) (front.length + 2 : ℕ) l := by
    rw [outputs_eq_iff options (by omega) (by omega),
      show 1 + front.length + 1 = front.length + 2 by omega]
    rfl
  rw [read_empty, hlines, hcontents, outputs_append, outputs, ← hrest]
  have hlength : (outputs options line (line + 1) rest).length =
      (outputs options 1 (1 + front.length + 1) rest).length :=
    outputs_length options (by omega) (by omega) rest
  constructor
  · rintro ⟨hok, heq⟩
    have hreadableFirst := ((readLines_error hline _).mp hok).1 first List.mem_cons_self
    obtain ⟨out, hfirst⟩ : ∃ out, lineOutput options line line first = .ok out :=
      (exists_lineOutput_eq_ok options hline first).mpr hreadableFirst.2
    rw [readLines_contents hok, outputs, List.append_assoc, List.append_right_inj] at heq
    have hone := lineContent_length_le options 1 (1 + front.length) (raw ++ first)
    have hcount := congrArg List.length heq
    simp only [List.length_append, List.length_singleton] at hcount
    have hempty : lineContent options line line first = [] :=
      List.eq_nil_of_length_eq_zero (by omega)
    rw [hempty, List.nil_append] at heq
    obtain ⟨hraw, hsame⟩ := List.append_inj heq (by rw [List.length_singleton]; omega)
    have hblank : lineOutput options line line first = .ok none := by
      cases out with
      | none => exact hfirst
      | some c =>
          rw [lineContent_eq_singleton.mpr hfirst] at hempty
          cases hempty
    exact ⟨emits_of_blank hblank, lineContent_eq_singleton.mp hraw.symm, hsame⟩
  · rintro ⟨hblank, hraw, hsame⟩
    have hok : resumed.error = none := by
      refine (readLines_error hline _).mpr ⟨?_, fun _ limit hlimit => ?_⟩
      · rw [List.forall_mem_cons]
        refine ⟨⟨fun limit hlimit => ?_, none, emits_eq_false.mp hblank⟩, fun l hl => hreadable l ?_⟩
        · refine le_trans ?_ ((hreadable (raw ++ first) (by simp)).1 limit hlimit)
          rw [List.length_append]
          exact Nat.le_add_left _ _
        · exact List.mem_append_right _ (List.mem_cons_of_mem _ hl)
      · refine le_trans ?_ (htotal (by simp) limit hlimit)
        rw [List.flatten_append, List.flatten_cons, List.flatten_cons]
        simp only [List.length_append]
        omega
    refine ⟨hok, ?_⟩
    have hfirst : lineContent options line line first = [] := by
      rw [lineContent, emits_eq_false.mp hblank]
    rw [readLines_contents hok, outputs, hfirst, lineContent_eq_singleton.mpr hraw, hsame,
      List.append_assoc, List.nil_append]

end Behind

/-- Resuming behind a record agrees with one pass exactly where the line number in
the cursor is the position of the next line, no record that follows is numbered by
the line its read began at, and a line without a terminator is completed by
nothing that shows. -/
theorem resumes_behind_iff {options : FileOptions ν} {A B : List UInt8} {i : ℕ} {r : SourceRecord ν}
    (hr : (read options A .empty).records[i]? = some r)
    (hpass : (read options (A ++ B) .empty).error = none) :
    ResumesBehind options A B i r ↔
      ∀ front raw back content, splitLines A = front ++ raw :: back →
        front.countP (emits options) = i →
        lineOutput options 1 (front.length + 1) raw = .ok (some content) →
        SafeBehind options front raw content back B := by
  obtain ⟨front, raw, back, hA, hcount, hout, htake, hcursor⟩ :=
    readLines_getElem (le_refl 1) (read_empty options A ▸ hr)
  have hunique : (∀ front raw back content, splitLines A = front ++ raw :: back →
      front.countP (emits options) = i →
      lineOutput options 1 (front.length + 1) raw = .ok (some content) →
      SafeBehind options front raw content back B) ↔
        SafeBehind options front raw r.content back B := by
    constructor
    · exact fun h => h _ _ _ _ hA hcount (by rw [Nat.add_comm]; exact hout)
    · intro hsafe front' raw' back' content' hA' hcount' hout'
      obtain ⟨rfl, rfl, rfl⟩ := record_line_unique (hA.symm.trans hA') (emits_of_content hout)
        (emits_of_content hout') (hcount.trans hcount'.symm)
      rw [Nat.add_comm, hout] at hout'
      cases hout'
      exact hsafe
  rw [hunique]
  have hinitial : ((read options A .empty).records.take (i + 1)).map SourceRecord.content =
      outputs options 1 1 front ++ [r.content] := by
    rw [List.take_add_one, hr, List.map_append, read_empty, htake]
    rfl
  have hresumed : read options (A ++ B) r.nextCursor =
      if resumeLine r.lineNo < 1 then .fail (.source "起始行号必须大于 0")
      else readLines options (resumeLine r.lineNo).toNat (resumeLine r.lineNo).toNat 0
        (front ++ [raw]).flatten.length (splitLines (back.flatten ++ B)) := by
    rw [hcursor, Nat.zero_add, read_behind, drop_behind hA]
  rw [ResumesBehind, List.map_append, hinitial, hresumed]
  by_cases hstart : resumeLine r.lineNo < 1
  · rw [if_pos hstart]
    exact ⟨fun h => (by cases h.1), fun h => absurd h.starts (not_le.mpr hstart)⟩
  rw [if_neg hstart]
  have hstarts : 1 ≤ resumeLine r.lineNo := not_lt.mp hstart
  obtain ⟨line, hline⟩ := Int.eq_ofNat_of_zero_le (by omega : 0 ≤ resumeLine r.lineNo)
  have hpos : 1 ≤ line := by omega
  rw [hline, Int.toNat_natCast]
  have hnumber : resumeLine r.content.2 = line := hline
  by_cases hclosed : Lines.Closed isNewline raw ∨ B = []
  · obtain ⟨hok, hagrees⟩ := terminated_agrees hpos (splitLines_terminated hA hclosed) hpass hout
      (front ++ [raw]).flatten.length
    rw [and_iff_right hok, hagrees]
    constructor
    · intro hsame
      refine ⟨hnumber ▸ hline ▸ hstarts, fun _ => hnumber ▸ hsame, fun hopen first rest hB => ?_⟩
      rw [hclosed.resolve_left hopen] at hB
      cases hB
    · exact fun hsafe => hnumber ▸ hsafe.terminated hclosed
  · rw [not_or] at hclosed
    obtain ⟨hopen, hne⟩ := hclosed
    have hlinesB : Lines.split isNewline B ≠ [] := Lines.split_ne_nil hne
    obtain ⟨first, rest, hB⟩ := List.exists_cons_of_ne_nil hlinesB
    obtain ⟨rfl, hlines⟩ := splitLines_growing hA hopen hB
    have hbehind : splitLines (([] : List (List UInt8)).flatten ++ B) = first :: rest := hB
    have hagrees := @growing_agrees _ options _ _ _ _ r.content _ _ _ hpos hlines hpass
      (front ++ [raw]).flatten.length
    rw [Nat.add_comm 1 front.length] at hagrees
    rw [hbehind]
    refine hagrees.trans ?_
    constructor
    · rintro ⟨hblank, hraw, hsame⟩
      refine ⟨hnumber ▸ hline ▸ hstarts, fun h => absurd h (not_or.mpr ⟨hopen, hne⟩), ?_⟩
      intro _ first' rest' hB'
      obtain ⟨rfl, rfl⟩ := List.cons.inj (hB.symm.trans hB')
      exact ⟨hblank, hraw, hnumber ▸ hsame⟩
    · intro hsafe
      obtain ⟨hblank, hraw, hsame⟩ := hsafe.growing hopen first rest hB
      rw [hnumber] at hsame
      exact ⟨hblank, hraw, hsame⟩

/-! ## A line that grows -/

/-- Plain text without limits; no value of a JSON text is looked at. -/
def plainText : FileOptions Unit where
  json := { loads := fun _ => none, dumps := fun _ => "", truthy := fun _ => false, toInt := fun _ => none }
  format := .plain

/-- `ab` is read and emitted; then `c` and a newline are appended. -/
theorem growing_line_split : ¬∀ (A B : List UInt8) (i : ℕ) (r : SourceRecord Unit),
    (read plainText A .empty).records[i]? = some r →
    (read plainText (A ++ B) .empty).error = none → ResumesBehind plainText A B i r := by
  intro h
  have hlength := congrArg List.length (h [0x61, 0x62] [0x63, 0x0a] 0 _ rfl rfl).2
  exact absurd hlength (by decide)

theorem appended_line_resumes :
    (read plainText [0x61, 0x0a] .empty).records[0]? =
      some ⟨[("message", .str "a"), ("_line_no", .int 1)], fileCursor 2 2, 1⟩ ∧
    (ResumesBehind plainText [0x61, 0x0a] [0x62, 0x0a] 0
        ⟨[("message", .str "a"), ("_line_no", .int 1)], fileCursor 2 2, 1⟩ ↔
      ∀ front raw back content, splitLines [0x61, 0x0a] = front ++ raw :: back →
        front.countP (emits plainText) = 0 →
        lineOutput plainText 1 (front.length + 1) raw = .ok (some content) →
        SafeBehind plainText front raw content back [0x62, 0x0a]) :=
  ⟨rfl, resumes_behind_iff rfl rfl⟩

end LogRisk.FileSource
