import LogRisk.FileSource.Batches

/-!
# One record for each line

A line is accounted for under the number of its record: the one its JSON object brings, or its
place in the file, shifted where reading was resumed behind a record that brought another one.  All
runs of the pipeline commit every line once, under increasing numbers, exactly if the numbers
increase under each of these shifts.
-/

namespace LogRisk.FileSource

open LogRisk.Library LogRisk.Streaming

variable {ν : Type} {options : FileOptions ν}

/-! ## The numbers of the lines -/

/-- The line number that the object of a line brings: one where its value is falsy. -/
def ownNumber (options : FileOptions ν) (raw : List UInt8) : Option ℤ :=
  match numberField options raw with
  | some (.value v) => if options.json.truthy v then options.json.toInt v else some 1
  | _ => none

/-- The lines that are not blank, with their places from `p` on and the numbers they bring. -/
def labels (options : FileOptions ν) : ℕ → List (List UInt8) → List (ℕ × Option ℤ)
  | _, [] => []
  | p, raw :: rest =>
      if emits options raw then (p, ownNumber options raw) :: labels options (p + 1) rest
      else labels options (p + 1) rest

/-- The number of a line when places are shifted. -/
def numberAt (shift : ℤ) (label : ℕ × Option ℤ) : ℤ := label.2.getD (label.1 + shift)

theorem labels_append (p : ℕ) (front back : List (List UInt8)) :
    labels options p (front ++ back) =
      labels options p front ++ labels options (p + front.length) back := by
  induction front generalizing p with
  | nil => rfl
  | cons raw front ih =>
      rw [List.cons_append, labels, labels, ih, List.length_cons, Nat.add_right_comm, Nat.add_assoc]
      split
      · rfl
      · rfl

theorem labels_bounds {p : ℕ} {lines : List (List UInt8)} {label : ℕ × Option ℤ}
    (h : label ∈ labels options p lines) : p ≤ label.1 ∧ label.1 < p + lines.length := by
  induction lines generalizing p with
  | nil => cases h
  | cons raw rest ih =>
      unfold labels at h
      rw [List.length_cons]
      split at h
      · rcases List.mem_cons.mp h with rfl | h
        · dsimp only
          omega
        · have hrest := ih h
          omega
      · have hrest := ih h
        omega

theorem length_labels (p : ℕ) (lines : List (List UInt8)) :
    (labels options p lines).length = (lines.filter (emits options)).length := by
  induction lines generalizing p with
  | nil => rfl
  | cons raw rest ih =>
      unfold labels
      rw [List.filter_cons]
      split
      · rw [List.length_cons, List.length_cons, ih]
      · exact ih _

theorem emits_of_fallback {raw : List UInt8} (h : Fallback options raw) : emits options raw = true := by
  obtain ⟨v, hv, _⟩ := h
  obtain ⟨record, hrecord, _⟩ := Option.bind_eq_some_iff.mp hv
  unfold emits
  rw [hrecord]
  rfl

theorem ownNumber_of_fallback {raw : List UInt8} (h : Fallback options raw) :
    ownNumber options raw = some 1 := by
  obtain ⟨v, hv, hfalsy⟩ := h
  unfold ownNumber
  rw [hv]
  dsimp only
  rw [if_neg (by rw [hfalsy]; decide)]

theorem fallback_label {p : ℕ} {lines : List (List UInt8)} {raw : List UInt8} (hmem : raw ∈ lines)
    (h : Fallback options raw) : ∃ q, (q, some 1) ∈ labels options p lines := by
  obtain ⟨front, back, rfl⟩ := List.append_of_mem hmem
  refine ⟨p + front.length, ?_⟩
  rw [labels_append, labels, if_pos (emits_of_fallback h), ownNumber_of_fallback h]
  exact List.mem_append_right _ List.mem_cons_self

/-- A number that does not follow the place of the line is the one that it brings. -/
theorem ownNumber_of_output {raw : List UInt8} {record : LogRecord ν} {number : ℤ}
    (hpos : ¬Positional options raw)
    (hout : lineOutput options 1 1 raw = .ok (some (record, number))) :
    ownNumber options raw = some number := by
  obtain hnone | ⟨front, back, hfront, hrecord⟩ | ⟨whole, v, hv, hrecord⟩ :=
    lineRecord_cases options raw
  · rw [lineOutput, hnone] at hout
    cases hout
  · refine absurd ?_ hpos
    have hget : getField "_line_no" (popOffset (front ++ ("_line_no", .int (1 : ℕ)) :: back)) =
        some (.int 1) := by
      rw [getField_popOffset, getField_append_of_notMem hfront, getField, if_pos rfl]
      rfl
    show numberField options raw = some (.int 1)
    rw [numberField, hrecord]
    exact hget
  · have hget : getField "_line_no" (popOffset whole) = some (.value v) := by
      rw [getField_popOffset, hv]
    have hfield : numberField options raw = some (.value v) := by
      rw [numberField, hrecord]
      exact hget
    rw [lineOutput, hrecord] at hout
    dsimp only at hout
    unfold recordLine at hout
    rw [hget] at hout
    unfold ownNumber
    rw [hfield]
    dsimp only at hout ⊢
    cases htruthy : options.json.truthy v with
    | false =>
        rw [htruthy] at hout
        cases hout
        rfl
    | true =>
        rw [htruthy] at hout
        cases hint : options.json.toInt v with
        | none =>
            rw [hint] at hout
            cases hout
        | some n =>
            rw [hint] at hout
            cases hout
            rfl

/-- The record of a line stands under the number that the line brings, or under its place. -/
theorem lineOutput_number {raw : List UInt8} {line lineNo : ℕ} (hlineNo : 1 ≤ lineNo)
    (hread : Readable options raw) (hemits : emits options raw = true)
    (hfall : Fallback options raw → line = 1) :
    ∃ record, lineOutput options line lineNo raw =
      .ok (some (record, (ownNumber options raw).getD lineNo)) := by
  obtain ⟨out, hok⟩ := hread.2
  cases lineCase options raw with
  | blank hout =>
      rw [emits_of_blank (hout 1 1)] at hemits
      cases hemits
  | positional record hout hpos =>
      have hnone : ownNumber options raw = none := by
        unfold ownNumber
        rw [hpos]
      exact ⟨record lineNo, by rw [hout _ _ hlineNo, hnone]; rfl⟩
  | fallback record hout hpos hfall' =>
      refine ⟨record, ?_⟩
      rw [hout, ownNumber_of_fallback hfall', hfall hfall']
      rfl
  | own record number hout hpos =>
      exact ⟨record, by rw [hout, ownNumber_of_output hpos (hout 1 1)]; rfl⟩
  | bad e hout =>
      rw [hout] at hok
      cases hok

theorem outputs_numbers {lines : List (List UInt8)} {line lineNo p : ℕ} (hlineNo : 1 ≤ lineNo)
    (hread : ∀ raw ∈ lines, Readable options raw)
    (hfall : ∀ raw ∈ lines, Fallback options raw → line = 1) :
    (outputs options line lineNo lines).map Prod.snd =
      (labels options p lines).map (numberAt (lineNo - p)) := by
  induction lines generalizing lineNo p with
  | nil => rfl
  | cons raw rest ih =>
      rw [List.forall_mem_cons] at hread hfall
      have hrest := ih (p := p + 1) (Nat.le_add_right_of_le hlineNo : 1 ≤ lineNo + 1) hread.2 hfall.2
      have hshift : ((lineNo + 1 : ℕ) : ℤ) - (p + 1 : ℕ) = lineNo - p := by omega
      rw [hshift] at hrest
      rw [outputs, List.map_append, hrest, labels]
      cases hemits : emits options raw with
      | false =>
          rw [lineContent, emits_eq_false.mp hemits]
          rfl
      | true =>
          obtain ⟨record, hout⟩ := lineOutput_number hlineNo hread.1 hemits hfall.1
          rw [lineContent_eq_singleton.mpr hout, if_pos rfl, List.map_singleton, List.map_cons,
            List.singleton_append]
          refine congrArg (· :: _) ?_
          unfold numberAt
          dsimp only
          congr 1
          omega

/-- A record of the line, wherever reading began. -/
def RecordOf (options : FileOptions ν) (raw : List UInt8) (content : LogRecord ν × ℤ) : Prop :=
  ∃ line lineNo, lineOutput options line lineNo raw = .ok (some content)

theorem outputs_records {lines : List (List UInt8)} {line lineNo : ℕ} (hlineNo : 1 ≤ lineNo)
    (hread : ∀ raw ∈ lines, Readable options raw) :
    List.Forall₂ (RecordOf options) (lines.filter (emits options)) (outputs options line lineNo lines) := by
  induction lines generalizing lineNo with
  | nil => exact .nil
  | cons raw rest ih =>
      rw [List.forall_mem_cons] at hread
      have hrest := ih (Nat.le_add_right_of_le hlineNo : 1 ≤ lineNo + 1) hread.2
      rw [outputs, List.filter_cons]
      cases hemits : emits options raw with
      | false =>
          rw [lineContent, emits_eq_false.mp hemits]
          exact hrest
      | true =>
          obtain ⟨out, hout⟩ : ∃ out, lineOutput options line lineNo raw = .ok out :=
            (exists_lineOutput_eq_ok options hlineNo raw).mpr hread.1.2
          cases out with
          | none =>
              rw [emits_of_blank hout] at hemits
              cases hemits
          | some content =>
              rw [lineContent_eq_singleton.mpr hout, if_pos rfl, List.singleton_append]
              exact .cons ⟨line, lineNo, hout⟩ hrest

/-! ## When the numbers increase -/

/-- By how much places are shifted in a read that was resumed behind one of these lines. -/
def Shift (passed : List (ℕ × Option ℤ)) (shift : ℤ) : Prop :=
  shift = 0 ∨ ∃ label ∈ passed, ∃ n, label.2 = some n ∧ shift = n - label.1

/-- Under every shift up to a line, the next line has a greater number. -/
def Ordered (all : List (ℕ × Option ℤ)) : Prop :=
  ∀ before a b after, all = before ++ a :: b :: after →
    ∀ shift, Shift (before ++ [a]) shift → numberAt shift a < numberAt shift b

/-- The file is within the limits, the numbers that lines bring can be read and are not negative,
and they fit the places of the other lines. -/
structure Numbered (options : FileOptions ν) (content : List UInt8) : Prop where
  readable : ∀ raw ∈ splitLines content, Readable options raw
  total : splitLines content ≠ [] → WithinTotal options content.length
  nonneg : ∀ label ∈ labels options 1 (splitLines content), ∀ n, label.2 = some n → 0 ≤ n
  ordered : Ordered (labels options 1 (splitLines content))

theorem Shift.mono {passed passed' : List (ℕ × Option ℤ)} {shift : ℤ} (h : Shift passed shift)
    (hsub : ∀ label ∈ passed, label ∈ passed') : Shift passed' shift := by
  rcases h with rfl | ⟨label, hlabel, n, hn, rfl⟩
  · exact .inl rfl
  · exact .inr ⟨label, hsub label hlabel, n, hn, rfl⟩

/-- Behind a line that has its number under a shift, all numbers increase under that shift. -/
theorem Ordered.pairwise {before rest : List (ℕ × Option ℤ)} {a : ℕ × Option ℤ} {shift : ℤ}
    (h : Ordered (before ++ a :: rest)) (hshift : Shift (before ++ [a]) shift) :
    ((a :: rest).map (numberAt shift)).Pairwise (· < ·) := by
  rw [← List.isChain_iff_pairwise, List.isChain_map,
    List.isChain_iff_forall_rel_of_append_cons_cons]
  intro x y front back hsplit
  refine h (before ++ front) x y back ?_ shift (hshift.mono fun label hlabel => ?_)
  · rw [hsplit, List.append_assoc]
  · rcases List.mem_append.mp hlabel with hlabel | hlabel
    · exact List.mem_append_left _ (List.mem_append_left _ hlabel)
    · obtain rfl := List.mem_singleton.mp hlabel
      cases front with
      | nil =>
          obtain ⟨rfl, _⟩ := List.cons.inj hsplit
          exact List.mem_append_right _ List.mem_cons_self
      | cons c front =>
          obtain ⟨rfl, _⟩ := List.cons.inj hsplit
          exact List.mem_append_left _ (List.mem_append_right _ List.mem_cons_self)

/-! ## A read from a checkpoint -/

/-- A cursor from which these lines are read, the first one as number `line`. -/
structure ReadsOn (options : FileOptions ν) (content : List UInt8) (cursor : SourceCursor)
    (done back : List (List UInt8)) (line : ℕ) : Prop where
  lines : splitLines content = done ++ back
  read : read options content cursor = readLines options line line 0 done.flatten.length back
  positive : 1 ≤ line
  fallback : ∀ raw ∈ back, Fallback options raw → line = 1
  behind : cursor.kind = "" ∨ (cursor.kind = "file" ∧ cursor.offset ≤ done.flatten.length)

/-- The shift under which such a read numbers its lines. -/
def readShift (done : List (List UInt8)) (line : ℕ) : ℤ := line - (1 + done.length : ℕ)

section Reads

variable {content : List UInt8} {cursor : SourceCursor} {done back : List (List UInt8)} {line : ℕ}

theorem readsOn_start (options : FileOptions ν) (content : List UInt8) :
    ReadsOn options content .empty [] (splitLines content) 1 :=
  ⟨rfl, read_empty options content, le_refl 1, fun _ _ _ => rfl, .inl rfl⟩

theorem ReadsOn.error (h : ReadsOn options content cursor done back line)
    (hreadable : ∀ raw ∈ splitLines content, Readable options raw)
    (htotal : splitLines content ≠ [] → WithinTotal options content.length) :
    (FileSource.read options content cursor).error = none := by
  rw [h.read]
  refine (readLines_error h.positive back).mpr ⟨fun raw hraw => hreadable raw ?_, fun hne => ?_⟩
  · rw [h.lines]
    exact List.mem_append_right _ hraw
  · intro limit hlimit
    refine le_trans ?_ (htotal (by rw [h.lines]; simp [hne]) limit hlimit)
    have hjoin : content = done.flatten ++ back.flatten := by
      rw [← List.flatten_append, ← h.lines]
      exact (Lines.flatten_split content).symm
    rw [hjoin, List.length_append]
    omega

theorem ReadsOn.numbers (h : ReadsOn options content cursor done back line)
    (hreadable : ∀ raw ∈ splitLines content, Readable options raw)
    (herror : (FileSource.read options content cursor).error = none) :
    (FileSource.read options content cursor).records.map SourceRecord.lineNo =
      (labels options (1 + done.length) back).map (numberAt (readShift done line)) := by
  have hback : ∀ raw ∈ back, Readable options raw := fun raw hraw => hreadable raw (by
    rw [h.lines]
    exact List.mem_append_right _ hraw)
  have hnumbers : (outputs options line line back).map Prod.snd =
      (labels options (1 + done.length) back).map (numberAt (readShift done line)) :=
    outputs_numbers h.positive hback h.fallback
  rw [h.read] at herror ⊢
  rw [← hnumbers, ← readLines_contents herror, List.map_map]
  rfl

theorem ReadsOn.records (h : ReadsOn options content cursor done back line)
    (hreadable : ∀ raw ∈ splitLines content, Readable options raw)
    (herror : (FileSource.read options content cursor).error = none) :
    List.Forall₂ (RecordOf options) (back.filter (emits options))
      ((FileSource.read options content cursor).records.map SourceRecord.content) := by
  have hback : ∀ raw ∈ back, Readable options raw := fun raw hraw => hreadable raw (by
    rw [h.lines]
    exact List.mem_append_right _ hraw)
  rw [h.read] at herror ⊢
  rw [readLines_contents herror]
  exact outputs_records h.positive hback

theorem advance_file {offset number : ℤ} {cursor : SourceCursor}
    (h : cursor.kind = "" ∨ (cursor.kind = "file" ∧ cursor.offset < offset)) :
    advance (fileCursor offset number) cursor = fileCursor offset number := by
  unfold advance cursorAtLeast
  rcases h with h | ⟨hkind, hlt⟩
  · rw [if_pos h]
    rfl
  · rw [if_neg (by rw [hkind]; decide), if_neg (by rw [hkind]; simp [fileCursor]),
      if_pos (by rfl), if_pos]
    · rfl
    · rw [Prod.Lex.toLex_le_toLex]
      exact .inl hlt

theorem length_pos_of_emits {raw : List UInt8} (h : emits options raw = true) : 0 < raw.length := by
  refine List.length_pos_iff.mpr fun hnil => ?_
  rw [hnil] at h
  cases h

theorem onward_readLines {options : FileOptions ν} {line lineNo bytesRead offset : ℕ}
    {lines : List (List UInt8)} {cursor : SourceCursor}
    (h : cursor.kind = "" ∨ (cursor.kind = "file" ∧ cursor.offset ≤ offset)) :
    Onward cursor (readLines options line lineNo bytesRead offset lines).records := by
  induction lines generalizing lineNo bytesRead offset cursor with
  | nil => trivial
  | cons raw rest ih =>
      have hlater : ∀ n : ℕ, cursor.kind = "" ∨
          (cursor.kind = "file" ∧ cursor.offset ≤ (offset + n : ℕ)) :=
        fun n => h.imp_right fun hfile => ⟨hfile.1, by have := hfile.2; omega⟩
      rw [readLines]
      split
      · trivial
      · dsimp only
        split
        · trivial
        · exact ih (hlater _)
        · rename_i record number hout
          have hpos := length_pos_of_emits (emits_of_content hout)
          refine ⟨advance_file (h.imp_right fun hfile => ⟨hfile.1, ?_⟩), ih (.inr ⟨rfl, ?_⟩)⟩
          · have := hfile.2
            omega
          · exact le_refl _

theorem ReadsOn.onward (h : ReadsOn options content cursor done back line) :
    Onward cursor (FileSource.read options content cursor).records := by
  rw [h.read]
  exact onward_readLines h.behind

/-- Behind a record of such a read the lines that follow are read under its number and one, as
long as no later line brings a number up to it. -/
theorem ReadsOn.next (h : ReadsOn options content cursor done back line) {i : ℕ} {r : SourceRecord ν}
    (hr : (FileSource.read options content cursor).records[i]? = some r) (hnonneg : 0 ≤ r.lineNo)
    (hlater : ∀ front raw later, back = front ++ raw :: later →
      lineOutput options line (line + front.length) raw = .ok (some r.content) →
      ∀ label ∈ labels options (1 + done.length + front.length + 1) later,
        ∀ n, label.2 = some n → r.lineNo < n) :
    ∃ front raw later, back = front ++ raw :: later ∧ front.countP (emits options) = i ∧
      lineOutput options line (line + front.length) raw = .ok (some r.content) ∧
      ReadsOn options content r.nextCursor (done ++ front ++ [raw]) later (r.lineNo + 1).toNat := by
  rw [h.read] at hr
  obtain ⟨front, raw, later, hback, hcount, hout, _, hcursor⟩ := readLines_getElem h.positive hr
  have hlines : splitLines content = (done ++ front) ++ raw :: later := by
    rw [h.lines, hback, List.append_assoc]
  have hresume : resumeLine r.lineNo = r.lineNo + 1 := by
    unfold resumeLine startLine SourceCursor.line fileCursor
    dsimp only [Option.getD]
    rw [if_neg (by omega)]
  have hoffset : done.flatten.length + (front ++ [raw]).flatten.length =
      ((done ++ front) ++ [raw]).flatten.length := by
    simp only [List.flatten_append, List.length_append]
    omega
  refine ⟨front, raw, later, hback, hcount, hout, ⟨?_, ?_, by omega, ?_, ?_⟩⟩
  · rw [hlines, List.append_assoc (done ++ front)]
    rfl
  · have hdrop := drop_behind hlines []
    rw [List.append_nil, List.append_nil] at hdrop
    rw [hcursor, hoffset, read_behind, hresume, if_neg (by omega), hdrop]
    congr 1
    have hsplit : splitLines content = ((done ++ front) ++ [raw]) ++ later := by
      rw [hlines, List.append_assoc (done ++ front)]
      rfl
    exact Lines.split_flatten_back hsplit
  · intro raw' hraw' hfall
    obtain ⟨q, hq⟩ := fallback_label (p := 1 + done.length + front.length + 1) hraw' hfall
    have hlt := hlater front raw later hback hout _ hq 1 rfl
    omega
  · rw [hcursor, hoffset]
    exact .inr ⟨rfl, le_refl _⟩

theorem ReadsOn.number_of_output (h : ReadsOn options content cursor done back line)
    {front later : List (List UInt8)} {raw : List UInt8} {r : SourceRecord ν}
    (hback : back = front ++ raw :: later) (hread : Readable options raw)
    (hout : lineOutput options line (line + front.length) raw = .ok (some r.content)) :
    r.lineNo = numberAt (readShift done line) (1 + done.length + front.length, ownNumber options raw) := by
  have hfall : Fallback options raw → line = 1 := h.fallback raw (by rw [hback]; simp)
  have hpos := h.positive
  obtain ⟨record, hout'⟩ := lineOutput_number (by omega : 1 ≤ line + front.length) hread
    (emits_of_content hout) hfall
  rw [hout] at hout'
  have hnumber : r.content.2 = (ownNumber options raw).getD (line + front.length : ℕ) :=
    congrArg Prod.snd (Option.some.inj (Except.ok.inj hout'))
  unfold numberAt readShift
  refine hnumber.trans ?_
  congr 1
  dsimp only
  omega

theorem labels_split {p : ℕ} {front later : List (List UInt8)} {raw : List UInt8}
    (hemits : emits options raw = true) :
    labels options p (front ++ raw :: later) =
      labels options p front ++ (p + front.length, ownNumber options raw) ::
        labels options (p + front.length + 1) later := by
  rw [labels_append, labels, if_pos hemits]

end Reads

/-! ## Ordered numbers are enough -/

section Enough

variable {L : BatchLimits ν} {content : List UInt8}

/-- What a run commits of these lines: one record each, under increasing numbers above `m`. -/
structure Commits (options : FileOptions ν) (back : List (List UInt8)) (m : ℤ)
    (result : List (Batch ν) × Option FileError) : Prop where
  ends : result.2 = none
  each : List.Forall₂ (RecordOf options) (back.filter (emits options))
    ((result.1.flatMap Batch.records).map SourceRecord.content)
  increasing : ((result.1.flatMap Batch.records).map SourceRecord.lineNo).Pairwise (· < ·)
  above : ∀ n ∈ (result.1.flatMap Batch.records).map SourceRecord.lineNo, m < n

theorem Numbered.pairwise (hN : Numbered options content) {done back : List (List UInt8)} {shift : ℤ}
    (hlines : splitLines content = done ++ back) (hshift : Shift (labels options 1 done) shift) :
    ((labels options (1 + done.length) back).map (numberAt shift)).Pairwise (· < ·) := by
  have hall := hN.ordered
  rw [hlines, labels_append] at hall
  cases hrest : labels options (1 + done.length) back with
  | nil => exact .nil
  | cons a rest =>
      rw [hrest] at hall
      exact hall.pairwise (hshift.mono fun label hlabel => List.mem_append_left _ hlabel)

/-- The records of a read from a checkpoint have increasing positions. -/
theorem Numbered.increasing (hN : Numbered options content) {cursor : SourceCursor}
    {done back : List (List UInt8)} {line : ℕ} (h : ReadsOn options content cursor done back line)
    (hshift : Shift (labels options 1 done) (readShift done line)) :
    Increasing (read options content cursor).records := by
  have hnumbers := h.numbers hN.readable (h.error hN.readable hN.total)
  have hpairs := hN.pairwise h.lines hshift
  rw [← hnumbers, List.pairwise_map] at hpairs
  refine ⟨fun item hitem => ?_, hpairs⟩
  have hmem := List.mem_map_of_mem (f := SourceRecord.lineNo) hitem
  rw [hnumbers] at hmem
  obtain ⟨label, hlabel, heq⟩ := List.mem_map.mp hmem
  rw [← heq]
  unfold numberAt
  cases hown : label.2 with
  | none =>
      have hbound := labels_bounds hlabel
      have hpos := h.positive
      unfold readShift
      dsimp only [Option.getD]
      omega
  | some n =>
      refine hN.nonneg label ?_ n hown
      rw [h.lines, labels_append]
      exact List.mem_append_right _ hlabel

/-- The shift behind a line is one that the lines up to it can bring. -/
theorem shift_next {done front : List (List UInt8)} {raw : List UInt8} {line : ℕ} {number : ℤ}
    (hemits : emits options raw = true) (hnonneg : 0 ≤ number)
    (hshift : Shift (labels options 1 done) (readShift done line))
    (hnumber : number = numberAt (readShift done line)
      (1 + done.length + front.length, ownNumber options raw)) :
    Shift (labels options 1 (done ++ front ++ [raw]))
        (readShift (done ++ front ++ [raw]) (number + 1).toNat) ∧
      numberAt (readShift (done ++ front ++ [raw]) (number + 1).toNat)
        (1 + done.length + front.length, ownNumber options raw) = number := by
  have hplace : readShift (done ++ front ++ [raw]) (number + 1).toNat =
      number - (1 + done.length + front.length : ℕ) := by
    unfold readShift
    rw [List.length_append, List.length_append, List.length_singleton]
    omega
  have hlabels : labels options 1 (done ++ front ++ [raw]) = labels options 1 done ++
      (labels options (1 + done.length) front ++
        [(1 + done.length + front.length, ownNumber options raw)]) := by
    rw [List.append_assoc, labels_append, labels_split hemits]
    rfl
  rw [hplace, hlabels]
  cases hown : ownNumber options raw with
  | none =>
      rw [hown] at hnumber
      have hsame : number - (1 + done.length + front.length : ℕ) = readShift done line := by
        unfold numberAt at hnumber
        dsimp only [Option.getD] at hnumber
        omega
      refine ⟨?_, ?_⟩
      · rw [hsame]
        exact hshift.mono fun label hlabel => List.mem_append_left _ hlabel
      · unfold numberAt
        dsimp only [Option.getD]
        omega
  | some n =>
      rw [hown] at hnumber
      obtain rfl : number = n := hnumber
      refine ⟨.inr ⟨(1 + done.length + front.length, some number), ?_, number, rfl, rfl⟩, rfl⟩
      exact List.mem_append_right _ (List.mem_append_right _ List.mem_cons_self)

theorem Commits.prefix {back front : List (List UInt8)} {m : ℤ} {batches : List (Batch ν)}
    {result : List (Batch ν) × Option FileError} (h : Commits options back m result)
    (hbatches : batches.flatMap Batch.records <+: result.1.flatMap Batch.records) (hfront : front <+: back)
    (hlength : (front.filter (emits options)).length = (batches.flatMap Batch.records).length) :
    Commits options front m (batches, none) := by
  obtain ⟨rest, hrest⟩ := hbatches
  obtain ⟨later, rfl⟩ := hfront
  have heach := h.each
  have hincreasing := h.increasing
  have habove := h.above
  rw [← hrest, List.map_append] at heach hincreasing habove
  rw [List.filter_append] at heach
  rw [List.pairwise_append] at hincreasing
  refine ⟨rfl, ?_, hincreasing.1, fun n hn => habove n (List.mem_append_left _ hn)⟩
  have htake := List.forall₂_take (front.filter (emits options)).length heach
  rwa [List.take_left' rfl, List.take_left' ((List.length_map _).trans hlength.symm)] at htake

theorem Commits.append {front later : List (List UInt8)} {m : ℤ} {batches : List (Batch ν)}
    {r : SourceRecord ν} {result : List (Batch ν) × Option FileError}
    (h : Commits options front m (batches, none))
    (hlast : (batches.flatMap Batch.records).getLast? = some r)
    (hlater : Commits options later r.lineNo result) :
    Commits options (front ++ later) m (batches ++ result.1, result.2) := by
  have hr : r.lineNo ∈ (batches.flatMap Batch.records).map SourceRecord.lineNo :=
    List.mem_map_of_mem (List.mem_of_getLast? hlast)
  -- the last number is the greatest of those before
  have hle : ∀ n ∈ (batches.flatMap Batch.records).map SourceRecord.lineNo, n ≤ r.lineNo := by
    obtain ⟨before, hbefore⟩ := List.getLast?_eq_some_iff.mp hlast
    have hpairs := h.increasing
    dsimp only at hpairs
    rw [hbefore, List.map_append, List.pairwise_append] at hpairs
    intro n hn
    rw [hbefore, List.map_append] at hn
    rcases List.mem_append.mp hn with hn | hn
    · exact (hpairs.2.2 n hn _ (List.mem_map_of_mem List.mem_cons_self)).le
    · rw [List.map_singleton, List.mem_singleton] at hn
      exact hn.le
  refine ⟨hlater.ends, ?_, ?_, ?_⟩
  · rw [List.filter_append, List.flatMap_append, List.map_append]
    exact List.rel_append h.each hlater.each
  · rw [List.flatMap_append, List.map_append, List.pairwise_append]
    exact ⟨h.increasing, hlater.increasing, fun x hx y hy => (hle x hx).trans_lt (hlater.above y hy)⟩
  · rw [List.flatMap_append, List.map_append]
    intro n hn
    rcases List.mem_append.mp hn with hn | hn
    · exact h.above n hn
    · exact (h.above _ hr).trans (hlater.above n hn)

/-- The numbers behind a line are above its own. -/
theorem Numbered.above_next (hN : Numbered options content) {done front later : List (List UInt8)}
    {raw : List UInt8} {shift : ℤ} (hlines : splitLines content = done ++ front ++ raw :: later)
    (hemits : emits options raw = true)
    (hshift : Shift (labels options 1 (done ++ front ++ [raw])) shift) :
    ∀ label ∈ labels options (1 + (done ++ front ++ [raw]).length) later,
      numberAt shift (1 + done.length + front.length, ownNumber options raw) < numberAt shift label := by
  have hplace : 1 + (done ++ front).length = 1 + done.length + front.length := by
    rw [List.length_append, Nat.add_assoc]
  have hend : 1 + (done ++ front ++ [raw]).length = 1 + (done ++ front).length + 1 := by
    simp only [List.length_append, List.length_singleton]
    omega
  have hall := hN.ordered
  rw [hlines, labels_split hemits] at hall
  rw [labels_split hemits] at hshift
  have hpairs := hall.pairwise hshift
  rw [List.map_cons, List.pairwise_cons] at hpairs
  rw [hend, ← hplace]
  exact fun label hlabel => hpairs.1 _ (List.mem_map_of_mem hlabel)

theorem commits_all (hN : Numbered options content) {cursor : SourceCursor}
    {done back : List (List UInt8)} {line : ℕ} (h : ReadsOn options content cursor done back line)
    (hshift : Shift (labels options 1 done) (readShift done line)) {m : ℤ}
    (hm : ∀ label ∈ labels options (1 + done.length) back, m < numberAt (readShift done line) label) :
    Commits options back m (invoke L options content cursor) := by
  have herror := h.error hN.readable hN.total
  have hincreasing := hN.increasing h hshift
  obtain ⟨hends, hrecords, _⟩ := invoke_increasing L herror hincreasing h.onward
  refine ⟨hends, ?_, ?_, ?_⟩
  · rw [hrecords]
    exact h.records hN.readable herror
  · rw [hrecords, List.pairwise_map]
    exact hincreasing.2
  · rw [hrecords, h.numbers hN.readable herror]
    intro n hn
    obtain ⟨label, hlabel, rfl⟩ := List.mem_map.mp hn
    exact hm label hlabel

theorem runInvocations_commits (hN : Numbered options content) {stops : List ℕ} {cursor : SourceCursor}
    {done back : List (List UInt8)} {line : ℕ} (h : ReadsOn options content cursor done back line)
    (hshift : Shift (labels options 1 done) (readShift done line)) {m : ℤ}
    (hm : ∀ label ∈ labels options (1 + done.length) back, m < numberAt (readShift done line) label) :
    Commits options back m (runInvocations L options content cursor stops) := by
  induction stops generalizing cursor done back line m with
  | nil => exact commits_all hN h hshift hm
  | cons stop stops ih =>
      have herror := h.error hN.readable hN.total
      have hincreasing := hN.increasing h hshift
      obtain ⟨_, hrecords, hchecked⟩ := invoke_increasing L herror hincreasing h.onward
      have hinitial := flatMap_take_prefix (invoke L options content cursor).1 stop
      rw [hrecords] at hinitial
      have hcheckpoint := lastCheckpoint_eq (hchecked.take stop) cursor
      have htaken := List.prefix_iff_eq_take.mp hinitial
      unfold runInvocations
      dsimp only
      generalize hdone : (invoke L options content cursor).1.take stop = batches at *
      rw [show ((batches.getLast?.map Batch.checkpoint).getD cursor) = lastCheckpoint cursor batches
        from rfl, hcheckpoint]
      rcases List.eq_nil_or_concat (batches.flatMap Batch.records) with hnil | ⟨before, r, hlast⟩
      · rw [hnil]
        have hsame := ih h hshift hm
        refine ⟨hsame.ends, ?_, ?_, ?_⟩
        · rw [List.flatMap_append, hnil]
          exact hsame.each
        · rw [List.flatMap_append, hnil]
          exact hsame.increasing
        · rw [List.flatMap_append, hnil]
          exact hsame.above
      rw [List.concat_eq_append] at hlast
      -- the records that were committed, the last one in `raw`
      obtain ⟨rest, hrest⟩ := hinitial
      have hr : (FileSource.read options content cursor).records[before.length]? = some r := by
        rw [← hrest, hlast, List.append_assoc, List.getElem?_append_right (le_refl _), Nat.sub_self]
        rfl
      have hpairs := hN.pairwise h.lines hshift
      have hreadable : ∀ {front raw later}, back = front ++ raw :: later → Readable options raw :=
        fun hback => hN.readable _ (by rw [h.lines, hback]; simp)
      obtain ⟨front, raw, later, hback, hcount, hout, hnext⟩ := h.next hr
        (hincreasing.1 r (List.mem_of_getElem? hr)) fun front raw later hback hout label hlabel n hn => by
          rw [hback, labels_split (emits_of_content hout), List.map_append, List.map_cons,
            List.pairwise_append, List.pairwise_cons] at hpairs
          rw [h.number_of_output hback (hreadable hback) hout]
          refine (hpairs.2.1.1 _ (List.mem_map_of_mem hlabel)).trans_eq ?_
          unfold numberAt
          rw [hn]
          rfl
      have hemits := emits_of_content hout
      have hnumber := h.number_of_output hback (hreadable hback) hout
      obtain ⟨hshift', hsame⟩ :=
        shift_next hemits (hincreasing.1 r (List.mem_of_getElem? hr)) hshift hnumber
      have hlines : splitLines content = done ++ front ++ raw :: later := by
        rw [h.lines, hback, List.append_assoc]
      have habove := hN.above_next hlines hemits hshift'
      rw [hsame] at habove
      have hlater := ih hnext hshift' habove
      rw [hlast, List.getLast?_concat, Option.map_some, Option.getD_some]
      have hfirst : Commits options (front ++ [raw]) m (batches, none) := by
        have hcommitted := commits_all (L := L) hN h hshift hm
        refine hcommitted.prefix ⟨rest, hrest.trans hrecords.symm⟩ ⟨later, ?_⟩ ?_
        · rw [hback, List.append_assoc]
          rfl
        · show ((front ++ [raw]).filter (emits options)).length = (batches.flatMap Batch.records).length
          rw [hlast, List.filter_append, List.length_append, List.length_append,
            ← List.countP_eq_length_filter, hcount, List.filter_cons, if_pos hemits]
          rfl
      have hjoined := hfirst.append (r := r) (by rw [hlast, List.getLast?_concat]) hlater
      rwa [List.append_assoc, List.singleton_append, ← hback] at hjoined

end Enough

/-! ## Every line once -/

/-- The run ends, its batches hold one record for each line that is not blank, in file order, and
the positions of the records increase. -/
structure OncePerLine (options : FileOptions ν) (content : List UInt8)
    (result : List (Batch ν) × Option FileError) : Prop where
  ends : result.2 = none
  each : List.Forall₂ (RecordOf options) ((splitLines content).filter (emits options))
    ((result.1.flatMap Batch.records).map SourceRecord.content)
  increasing : ((result.1.flatMap Batch.records).map SourceRecord.lineNo).Pairwise (· < ·)

section Once

variable {content : List UInt8}

theorem Numbered.once (hN : Numbered options content) (L : BatchLimits ν) (stops : List ℕ) :
    OncePerLine options content (runInvocations L options content .empty stops) := by
  have habove : ∀ label ∈ labels options (1 + ([] : List (List UInt8)).length) (splitLines content),
      -1 < numberAt (readShift [] 1) label := by
    intro label hlabel
    unfold numberAt
    cases hown : label.2 with
    | none =>
        unfold readShift
        dsimp only [Option.getD, List.length_nil]
        omega
    | some n =>
        have hn := hN.nonneg label hlabel n hown
        dsimp only [Option.getD]
        omega
  have hcommits : Commits options (splitLines content) (-1)
      (runInvocations L options content .empty stops) :=
    runInvocations_commits hN (readsOn_start options content) (.inl rfl) habove
  exact ⟨hcommits.ends, hcommits.each, hcommits.increasing⟩

/-- Flushing after every record. -/
def oneRecord (ν : Type) : BatchLimits ν := ⟨1, fun _ => 0, by decide⟩

theorem length_records {cursor : SourceCursor} {done back : List (List UInt8)} {line : ℕ}
    (h : ReadsOn options content cursor done back line)
    (hreadable : ∀ raw ∈ splitLines content, Readable options raw)
    (herror : (read options content cursor).error = none) :
    (read options content cursor).records.length = (back.filter (emits options)).length := by
  have hlength := (h.records hreadable herror).length_eq
  rw [List.length_map] at hlength
  exact hlength.symm

theorem readable_of_ends (herror : (read options content .empty).error = none) :
    (∀ raw ∈ splitLines content, Readable options raw) ∧
      (splitLines content ≠ [] → WithinTotal options content.length) := by
  rw [read_empty, readLines_error (le_refl 1), Nat.zero_add] at herror
  have hjoin : (splitLines content).flatten = content := Lines.flatten_split content
  rwa [hjoin] at herror

/-- A read in one go commits its records with the numbers of the lines. -/
theorem OncePerLine.first {L : BatchLimits ν}
    (h : OncePerLine options content (runInvocations L options content .empty [])) :
    (read options content .empty).error = none ∧
      Increasing (read options content .empty).records ∧
      (read options content .empty).records.map SourceRecord.lineNo =
        (labels options 1 (splitLines content)).map (numberAt 0) := by
  obtain ⟨herror, hnonneg, hsublist⟩ := invoke_ends h.ends
  obtain ⟨hreadable, _⟩ := readable_of_ends herror
  have hstart := readsOn_start options content
  have hlength := h.each.length_eq
  rw [List.length_map] at hlength
  have hall := hsublist.eq_of_length (hlength.symm.trans (length_records hstart hreadable herror).symm)
  refine ⟨herror, ⟨hnonneg, ?_⟩, hstart.numbers hreadable herror⟩
  have hincreasing := h.increasing
  rw [List.pairwise_map] at hincreasing
  exact hall ▸ hincreasing

theorem take_succ_of_getElem? {records : List (SourceRecord ν)} {i : ℕ} {r : SourceRecord ν}
    (h : records[i]? = some r) : records.take (i + 1) = records.take i ++ [r] := by
  rw [List.take_add_one, h]
  rfl

/-- What a run commits that is interrupted once behind a record. -/
theorem committed_once {i : ℕ} {r : SourceRecord ν}
    (herror : (read options content .empty).error = none)
    (hincreasing : Increasing (read options content .empty).records)
    (hr : (read options content .empty).records[i]? = some r) :
    (runInvocations (oneRecord ν) options content .empty [i + 1]).2 =
        (invoke (oneRecord ν) options content r.nextCursor).2 ∧
      (runInvocations (oneRecord ν) options content .empty [i + 1]).1.flatMap Batch.records =
        (read options content .empty).records.take i ++
          r :: (invoke (oneRecord ν) options content r.nextCursor).1.flatMap Batch.records := by
  have honward := (readsOn_start options content).onward
  obtain ⟨_, hrecords, hchecked⟩ := invoke_increasing (oneRecord ν) herror hincreasing honward
  have hsingle := invoke_single (L := oneRecord ν) rfl herror hincreasing honward
  have hdone := flatMap_take_single hsingle (i + 1)
  rw [hrecords, take_succ_of_getElem? hr] at hdone
  have hcheckpoint := lastCheckpoint_eq (hchecked.take (i + 1)) .empty
  rw [hdone, List.getLast?_concat, Option.map_some, Option.getD_some] at hcheckpoint
  have hrun : runInvocations (oneRecord ν) options content .empty [i + 1] =
      ((invoke (oneRecord ν) options content .empty).1.take (i + 1) ++
          (invoke (oneRecord ν) options content r.nextCursor).1,
        (invoke (oneRecord ν) options content r.nextCursor).2) := by
    rw [← hcheckpoint]
    rfl
  rw [hrun]
  refine ⟨rfl, ?_⟩
  rw [List.flatMap_append, hdone, List.append_assoc]
  rfl

/-- The run that is interrupted once, behind the record of a line. -/
theorem second_numbers {before later : List (ℕ × Option ℤ)} {label : ℕ × Option ℤ} {n : ℤ}
    (hfirst : OncePerLine options content
      (runInvocations (oneRecord ν) options content .empty []))
    (hsecond : OncePerLine options content
      (runInvocations (oneRecord ν) options content .empty [before.length + 1]))
    (hlabels : labels options 1 (splitLines content) = before ++ label :: later)
    (hn : label.2 = some n) :
    ((label :: later).map (numberAt (n - label.1))).Pairwise (· < ·) := by
  obtain ⟨herror, hincreasing, hnumbers⟩ := hfirst.first
  obtain ⟨hreadable, htotal⟩ := readable_of_ends herror
  have hstart := readsOn_start options content
  have hpairs := hincreasing.2
  rw [← List.pairwise_map, hnumbers] at hpairs
  obtain ⟨r, hr, hrn⟩ : ∃ r, (read options content .empty).records[before.length]? = some r ∧
      r.lineNo = n := by
    have hget : ((read options content .empty).records.map SourceRecord.lineNo)[before.length]? =
        some n := by
      rw [hnumbers, hlabels, List.map_append, List.getElem?_append_right (by rw [List.length_map]),
        List.length_map, Nat.sub_self]
      show some (numberAt 0 label) = some n
      unfold numberAt
      rw [hn]
      rfl
    rw [List.getElem?_map] at hget
    exact Option.map_eq_some_iff.mp hget
  obtain ⟨front, raw, later', hback, hcount, hout, hnext⟩ := hstart.next hr
    (hincreasing.1 r (List.mem_of_getElem? hr)) fun front raw later' hback hout other hother k hk => by
      have hraw : Readable options raw := hreadable raw (by rw [hback]; simp)
      rw [hback, labels_split (emits_of_content hout), List.map_append, List.map_cons,
        List.pairwise_append, List.pairwise_cons] at hpairs
      rw [hstart.number_of_output hback hraw hout]
      refine (hpairs.2.1.1 _ (List.mem_map_of_mem hother)).trans_eq ?_
      unfold numberAt
      rw [hk]
      rfl
  -- the line of the record is the one of the label
  have hsplit := hlabels
  rw [hback, labels_split (emits_of_content hout)] at hsplit
  have hlength : (labels options 1 front).length = before.length := by
    rw [length_labels, ← List.countP_eq_length_filter, hcount]
  obtain ⟨_, htail⟩ := List.append_inj hsplit hlength
  obtain ⟨rfl, hlater⟩ := List.cons.inj htail
  obtain ⟨hends, hcommitted⟩ := committed_once herror hincreasing hr
  have hinvoke := invoke_ends (hends.symm.trans hsecond.ends)
  have hnumbers' := hnext.numbers hreadable hinvoke.1
  have hplace : 1 + ([] ++ front ++ [raw]).length = 1 + front.length + 1 := by
    simp only [List.nil_append, List.length_append, List.length_singleton]
    omega
  have hshift : readShift ([] ++ front ++ [raw]) (r.lineNo + 1).toNat =
      n - ((1 + front.length : ℕ) : ℤ) := by
    have hnonneg := hincreasing.1 r (List.mem_of_getElem? hr)
    unfold readShift
    rw [hplace]
    omega
  rw [hplace, hlater, hshift] at hnumbers'
  -- nothing is passed over: the counts agree
  have hall : (invoke (oneRecord ν) options content r.nextCursor).1.flatMap Batch.records =
      (read options content r.nextCursor).records := by
    refine hinvoke.2.2.eq_of_length ?_
    have htotal' := hsecond.each.length_eq
    rw [List.length_map, hcommitted, List.length_append, List.length_cons, List.length_take_of_le,
      hback, List.filter_append, List.length_append, List.filter_cons, if_pos (emits_of_content hout),
      List.length_cons, ← List.countP_eq_length_filter, hcount] at htotal'
    · have hrest := length_records hnext hreadable hinvoke.1
      omega
    · exact (List.getElem?_eq_some_iff.mp hr).1.le
  have hincreasing' := hsecond.increasing
  rw [hcommitted, hall, List.map_append, List.map_cons, hnumbers', List.pairwise_append] at hincreasing'
  have hself : numberAt (n - ((1 + front.length : ℕ) : ℤ)) (1 + front.length, ownNumber options raw) =
      r.lineNo := by
    unfold numberAt
    rw [hn, hrn]
    rfl
  rw [List.map_cons, hself]
  exact hincreasing'.2.1

theorem numbered_of_once (h : ∀ (L : BatchLimits ν) (stops : List ℕ),
    OncePerLine options content (runInvocations L options content .empty stops)) :
    Numbered options content := by
  have hfirst := h (oneRecord ν) []
  obtain ⟨herror, hincreasing, hnumbers⟩ := hfirst.first
  obtain ⟨hreadable, htotal⟩ := readable_of_ends herror
  refine ⟨hreadable, htotal, fun label hlabel n hn => ?_, ?_⟩
  · have hmem : n ∈ (read options content .empty).records.map SourceRecord.lineNo := by
      rw [hnumbers]
      refine List.mem_map.mpr ⟨label, hlabel, ?_⟩
      unfold numberAt
      rw [hn]
      rfl
    obtain ⟨item, hitem, rfl⟩ := List.mem_map.mp hmem
    exact hincreasing.1 item hitem
  · intro before a b after hall shift hshift
    rcases hshift with rfl | ⟨label, hmem, n, hn, rfl⟩
    · have hpairs := hincreasing.2
      rw [← List.pairwise_map, hnumbers, hall, List.map_append, List.map_cons, List.map_cons,
        List.pairwise_append, List.pairwise_cons] at hpairs
      exact hpairs.2.1.1 _ List.mem_cons_self
    · obtain ⟨front, mid, hfront⟩ := List.append_of_mem hmem
      have hsplit : labels options 1 (splitLines content) = front ++ label :: (mid ++ b :: after) := by
        rw [hall, List.append_cons, hfront, List.append_assoc]
        rfl
      have hpairs := second_numbers hfirst (h (oneRecord ν) [front.length + 1]) hsplit hn
      rw [← List.cons_append, List.map_append, List.pairwise_append] at hpairs
      have hlast : a ∈ label :: mid := by
        have hend := congrArg List.getLast? hfront
        rw [List.getLast?_concat, List.getLast?_append_cons] at hend
        exact List.mem_of_getLast? hend.symm
      exact hpairs.2.2 _ (List.mem_map_of_mem hlast) _ (List.mem_map_of_mem List.mem_cons_self)

/-- All runs over a file, whatever the batches and wherever they are interrupted, commit every line
once and in order, exactly if the numbers of its lines increase under every shift. -/
theorem lines_once_iff (options : FileOptions ν) (content : List UInt8) :
    (∀ (L : BatchLimits ν) (stops : List ℕ),
      OncePerLine options content (runInvocations L options content .empty stops)) ↔
      Numbered options content :=
  ⟨numbered_of_once, Numbered.once⟩

end Once

/-! ## Two lines of one number -/

/-- A JSON module that knows one text. -/
def numberedJson : FileOptions ℤ where
  json :=
    { loads := fun s => if s = "\x7b\"_line_no\":1\x7d" then some (.dict [("_line_no", 1)]) else none
      dumps := fun _ => ""
      truthy := fun n => n ≠ 0
      toInt := some }
  format := .jsonl

/-- The line `_line_no: 1` as an object. -/
def numberedLine : List UInt8 :=
  [0x7b, 0x22, 0x5f, 0x6c, 0x69, 0x6e, 0x65, 0x5f, 0x6e, 0x6f, 0x22, 0x3a, 0x31, 0x7d, 0x0a]

/-- The second of two equal lines is passed over. -/
theorem second_line_dropped : ¬∀ (L : BatchLimits ℤ) (stops : List ℕ),
    OncePerLine numberedJson (numberedLine ++ numberedLine)
      (runInvocations L numberedJson (numberedLine ++ numberedLine) .empty stops) := by
  intro h
  have hlength := (h (oneRecord ℤ) []).each.length_eq
  have hlines : ((splitLines (numberedLine ++ numberedLine)).filter (emits numberedJson)).length = 2 := by
    decide +kernel
  have hcommitted : ((runInvocations (oneRecord ℤ) numberedJson (numberedLine ++ numberedLine)
      .empty []).1.flatMap Batch.records).length = 1 := by
    decide +kernel
  rw [hlines, List.length_map, hcommitted] at hlength
  cases hlength

end LogRisk.FileSource
