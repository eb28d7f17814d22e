import Mathlib.Data.List.Nodup
import Mathlib.Data.List.Perm.Subperm
import Mathlib.Logic.Relation
import LogRisk.Events.Stream

/-!
# Saving copies of one job

Several copies of a job append events of their own and are saved one after the other.  `save`
merges the events of a copy with the rows by content and gives an event a new number where its
own is taken; for a paged job it inserts what is pending and leaves a row that has the number.
Every event bears here, beside what the code sees of it, the number of the append that made it.
-/

namespace LogRisk.Events

variable {β : Type} [DecidableEq β]

/-! ## The merge of a save -/

/-- A loop whose numbers are all used and all different. -/
structure Merge.Numbered (m : Merge β) : Prop where
  nodup : (m.merged.map (·.sequence)).Nodup
  used : ∀ k, k ∈ m.used ↔ k ∈ m.merged.map (·.sequence)

theorem firstFree_mem {used : List ℕ} {fuel sequence : ℕ}
    (h : firstFree used fuel sequence ∈ used) : ∀ i ≤ fuel, sequence + i ∈ used := by
  induction fuel generalizing sequence with
  | zero =>
      intro i hi
      obtain rfl := Nat.le_zero.mp hi
      exact h
  | succ fuel ih =>
      unfold firstFree at h
      split at h
      · rename_i hused
        intro i hi
        cases i with
        | zero => exact hused
        | succ i =>
            have hnext := ih h i (by omega)
            rwa [Nat.add_assoc, Nat.add_comm 1 i] at hnext
      · rename_i hfree
        exact absurd h hfree

/-- The loop finds a number that is not used. -/
theorem firstFree_free (used : List ℕ) (sequence : ℕ) :
    firstFree used used.length sequence ∉ used := by
  intro h
  have hall : (List.range (used.length + 1)).map (sequence + ·) ⊆ used := by
    intro k hk
    obtain ⟨i, hi, rfl⟩ := List.mem_map.mp hk
    exact firstFree_mem h i (Nat.lt_succ_iff.mp (List.mem_range.mp hi))
  have hnodup : ((List.range (used.length + 1)).map (sequence + ·)).Nodup :=
    List.nodup_range.map fun _ _ => Nat.add_left_cancel
  have hle := (hnodup.subperm hall).length_le
  rw [List.length_map, List.length_range] at hle
  omega

theorem mem_ordered {table : List (Event β)} {e : Event β} : e ∈ ordered table ↔ e ∈ table :=
  List.mem_insertionSort _

theorem ordered_perm (table : List (Event β)) : (ordered table).Perm table :=
  List.perm_insertionSort _ _

namespace Merge

variable {m : Merge β}

theorem numbered_start {table : List (Event β)} (h : (table.map (·.sequence)).Nodup) :
    Numbered (.start table) where
  nodup := ((ordered_perm table).map _).nodup_iff.mpr h
  used _ := Iff.rfl

theorem Numbered.add (h : m.Numbered) (incoming : Event β) : (m.add incoming).Numbered := by
  unfold Merge.add
  split
  · exact h
  · have hfree := firstFree_free m.used
      (if incoming.sequence ∈ m.used then m.next else incoming.sequence)
    refine ⟨?_, fun k => ?_⟩
    · dsimp only
      rw [List.map_append, List.map_singleton, List.nodup_append]
      refine ⟨h.nodup, List.nodup_singleton _, ?_⟩
      intro k hk k' hk'
      rw [List.mem_singleton] at hk'
      rintro rfl
      rw [hk', ← h.used] at hk
      exact hfree hk
    · dsimp only
      rw [List.mem_cons, List.map_append, List.mem_append, List.map_singleton, List.mem_singleton]
      exact or_comm.trans (or_congr (h.used k) Iff.rfl)

theorem Numbered.foldl (h : m.Numbered) (incoming : List (Event β)) :
    (incoming.foldl Merge.add m).Numbered := by
  induction incoming generalizing m with
  | nil => exact h
  | cons e rest ih => exact ih (h.add e)

end Merge

/-! ## Events and who made them -/

/-- The events of a copy that `save` does not take for stored ones. -/
def accepted : List (Event β) → List (Event β × ℕ) → List (Event β × ℕ)
  | _, [] => []
  | seen, e :: rest =>
      if e.1 ∈ seen then accepted seen rest else e :: accepted (e.1 :: seen) rest

theorem merged_foldl (m : Merge β) (incoming : List (Event β × ℕ)) :
    ∃ new, ((incoming.map Prod.fst).foldl Merge.add m).merged = m.merged ++ new ∧
      new.map Event.body = (accepted m.fingerprints incoming).map (·.1.body) := by
  induction incoming generalizing m with
  | nil => exact ⟨[], (List.append_nil _).symm, rfl⟩
  | cons e rest ih =>
      rw [List.map_cons, List.foldl_cons]
      obtain ⟨new, hmerged, hbodies⟩ := ih (m.add e.1)
      unfold accepted
      by_cases hseen : e.1 ∈ m.fingerprints
      · have hadd : m.add e.1 = m := if_pos hseen
        rw [hadd] at hmerged hbodies
        rw [if_pos hseen, hadd]
        exact ⟨new, hmerged, hbodies⟩
      · rw [if_neg hseen, hmerged]
        unfold Merge.add at hbodies ⊢
        rw [if_neg hseen] at hbodies ⊢
        refine ⟨_ :: new, List.append_assoc _ _ _, ?_⟩
        rw [List.map_cons, List.map_cons, hbodies]

theorem accepted_eq_nil {seen : List (Event β)} {incoming : List (Event β × ℕ)}
    (h : ∀ e ∈ incoming, e.1 ∈ seen) : accepted seen incoming = [] := by
  induction incoming with
  | nil => rfl
  | cons e rest ih =>
      unfold accepted
      rw [if_pos (h e List.mem_cons_self)]
      exact ih fun x hx => h x (List.mem_cons_of_mem _ hx)

theorem accepted_eq_filter {seen : List (Event β)} {incoming : List (Event β × ℕ)}
    (h : (incoming.map Prod.fst).Nodup) :
    accepted seen incoming = incoming.filter fun e => e.1 ∉ seen := by
  induction incoming generalizing seen with
  | nil => rfl
  | cons e rest ih =>
      rw [List.map_cons, List.nodup_cons] at h
      unfold accepted
      rw [List.filter_cons]
      by_cases hseen : e.1 ∈ seen
      · rw [if_pos hseen, if_neg (by simpa using hseen)]
        exact ih h.2
      · rw [if_neg hseen, if_pos (by simpa using hseen), ih h.2]
        refine congrArg _ (List.filter_congr fun x hx => ?_)
        have hne : x.1 ≠ e.1 := fun heq => h.1 (heq ▸ List.mem_map_of_mem hx)
        simp only [List.mem_cons, hne, false_or]

/-- The rows that `save` adds for a copy. -/
def newRows (rows incoming : List (Event β × ℕ)) : List (Event β × ℕ) :=
  ((mergedEvents (rows.map Prod.fst) (incoming.map Prod.fst)).drop rows.length).zip
    ((accepted (ordered (rows.map Prod.fst)) incoming).map Prod.snd)

section NewRows

variable {rows incoming : List (Event β × ℕ)}

/-- What the merge adds to the rows: one event for each that is accepted, in order. -/
theorem mergedEvents_eq (rows incoming : List (Event β × ℕ)) :
    mergedEvents (rows.map Prod.fst) (incoming.map Prod.fst) =
        ordered (rows.map Prod.fst) ++ (newRows rows incoming).map Prod.fst ∧
      (newRows rows incoming).map (fun r => (r.1.body, r.2)) =
        (accepted (ordered (rows.map Prod.fst)) incoming).map fun e => (e.1.body, e.2) := by
  obtain ⟨new, hmerged, hbodies⟩ := merged_foldl (.start (rows.map Prod.fst)) incoming
  change new.map Event.body =
    (accepted (ordered (rows.map Prod.fst)) incoming).map (·.1.body) at hbodies
  have hlength : new.length = (accepted (ordered (rows.map Prod.fst)) incoming).length := by
    have h := congrArg List.length hbodies
    rwa [List.length_map, List.length_map] at h
  have hordered : (ordered (rows.map Prod.fst)).length = rows.length := by
    rw [(ordered_perm _).length_eq, List.length_map]
  have hdrop : (mergedEvents (rows.map Prod.fst) (incoming.map Prod.fst)).drop rows.length = new := by
    unfold mergedEvents
    rw [hmerged]
    exact List.drop_left' hordered
  unfold newRows
  rw [hdrop]
  constructor
  · rw [List.map_fst_zip (by rw [List.length_map]; exact hlength.le)]
    exact hmerged
  · generalize accepted (ordered (rows.map Prod.fst)) incoming = taken at hbodies hlength
    clear hdrop hmerged
    induction new generalizing taken with
    | nil =>
        obtain rfl := List.eq_nil_of_length_eq_zero hlength.symm
        rfl
    | cons r new ih =>
        cases taken with
        | nil => cases hlength
        | cons e taken =>
            rw [List.map_cons, List.map_cons, List.cons.injEq] at hbodies
            rw [List.map_cons, List.zip_cons_cons, List.map_cons, List.map_cons,
              ih taken hbodies.2 (Nat.succ.inj hlength), hbodies.1]

theorem newRows_ids (rows incoming : List (Event β × ℕ)) :
    (newRows rows incoming).map Prod.snd =
      (accepted (ordered (rows.map Prod.fst)) incoming).map Prod.snd := by
  have h := congrArg (List.map Prod.snd) (mergedEvents_eq rows incoming).2
  rwa [List.map_map, List.map_map] at h

theorem newRows_numbers (h : ((rows.map Prod.fst).map Event.sequence).Nodup) :
    (((rows ++ newRows rows incoming).map Prod.fst).map Event.sequence).Nodup := by
  have hnumbered := (Merge.numbered_start h).foldl (incoming.map Prod.fst)
  have hmerged := (mergedEvents_eq rows incoming).1
  have hnodup := hnumbered.nodup
  unfold mergedEvents at hmerged
  rw [hmerged] at hnodup
  rw [List.map_append]
  exact (((ordered_perm _).append_right _).map _).nodup_iff.mp hnodup

end NewRows

/-! ## A job and its copies -/

structure Log (β : Type) where
  rows : List (Event β × ℕ) := []
  /-- The events of a copy; of a copy of a paged job, those that are pending. -/
  copies : ℕ → List (Event β × ℕ) := fun _ => []
  made : List β := []
  /-- The appends whose event was in a copy that was saved. -/
  saved : List ℕ := []

namespace Log

variable (s : Log β)

/-- What is stored. -/
def table : List (Event β) := s.rows.map Prod.fst

def setCopy (p : ℕ) (events : List (Event β × ℕ)) : Log β :=
  { s with copies := Function.update s.copies p events }

/-- `load_job`: the rows by their numbers; nothing is pending for a paged job. -/
def load (paged : Bool) (p : ℕ) : Log β :=
  s.setCopy p (if paged then [] else s.rows.insertionSort fun r r' => r.1.sequence ≤ r'.1.sequence)

/-- An event with a number of its own is added to a copy. -/
def append (p sequence : ℕ) (body : β) : Log β :=
  { s.setCopy p (s.copies p ++ [(⟨sequence, body⟩, s.made.length)]) with made := s.made ++ [body] }

/-- A row whose number is not taken. -/
def insertMade (rows : List (Event β × ℕ)) (r : Event β × ℕ) : List (Event β × ℕ) :=
  if r.1.sequence ∈ rows.map (·.1.sequence) then rows else rows ++ [r]

/-- `SQLiteFeatureJobStore.save`. -/
def save (paged : Bool) (p : ℕ) : Log β :=
  { s with
    rows :=
      if paged then (s.copies p).foldl insertMade s.rows else s.rows ++ newRows s.rows (s.copies p)
    copies := Function.update s.copies p
      (if paged then []
      else (s.rows.insertionSort fun r r' => r.1.sequence ≤ r'.1.sequence) ++
        newRows s.rows (s.copies p))
    saved := s.saved ++ (s.copies p).map Prod.snd }

end Log

inductive LogAction (β : Type) where
  | load (p : ℕ)
  | append (p sequence : ℕ) (body : β)
  | copy (p q : ℕ)
  | save (p : ℕ)

def stepLog (paged : Bool) (s : Log β) : LogAction β → Log β
  | .load p => s.load paged p
  | .append p sequence body => s.append p sequence body
  | .copy p q => s.setCopy q (s.copies p)
  | .save p => s.save paged p

/-! ## What is stored is what the code stores -/

theorem table_insertMade (rows : List (Event β × ℕ)) (r : Event β × ℕ) :
    (Log.insertMade rows r).map Prod.fst = insertRow (rows.map Prod.fst) r.1 := by
  unfold Log.insertMade insertRow
  rw [List.map_map]
  by_cases hused : r.1.sequence ∈ rows.map (·.1.sequence)
  · rw [if_pos hused]
    exact (if_pos hused).symm
  · rw [if_neg hused, List.map_append, List.map_singleton]
    exact (if_neg hused).symm

/-- `_save_paged` inserts the pending events. -/
theorem table_savePaged (s : Log β) (p : ℕ) :
    (s.save true p).table = ((s.copies p).map Prod.fst).foldl insertRow s.table := by
  have hfoldl : ∀ (pending rows : List (Event β × ℕ)), (pending.foldl Log.insertMade rows).map Prod.fst =
      (pending.map Prod.fst).foldl insertRow (rows.map Prod.fst) := by
    intro pending
    induction pending with
    | nil => exact fun _ => rfl
    | cons r pending ih =>
        intro rows
        rw [List.foldl_cons, ih, table_insertMade, List.map_cons, List.foldl_cons]
  exact hfoldl _ _

theorem foldl_insertRow_append {table new : List (Event β)}
    (h : ((table ++ new).map Event.sequence).Nodup) {rest : List (Event β)} (hrest : rest ⊆ table) :
    (rest ++ new).foldl insertRow table = table ++ new := by
  have hold : rest.foldl insertRow table = table := by
    induction rest with
    | nil => rfl
    | cons e rest ih =>
        have he : e.sequence ∈ table.map (·.sequence) :=
          List.mem_map_of_mem (hrest List.mem_cons_self)
        rw [List.foldl_cons, insertRow, if_pos he]
        exact ih fun x hx => hrest (List.mem_cons_of_mem _ hx)
  rw [List.foldl_append, hold]
  clear hold hrest rest
  induction new generalizing table with
  | nil => exact (List.append_nil _).symm
  | cons e new ih =>
      have he : e.sequence ∉ table.map (·.sequence) := by
        rw [List.map_append, List.nodup_append] at h
        exact fun hmem => h.2.2 _ hmem _ (List.mem_map_of_mem List.mem_cons_self) rfl
      rw [List.foldl_cons, insertRow, if_neg he]
      rw [List.append_cons table e new] at h ⊢
      exact ih h

/-- `save` of a job whose events are in memory merges them and inserts what it merged. -/
theorem table_save {s : Log β} (h : (s.table.map Event.sequence).Nodup) (p : ℕ) :
    (s.save false p).table =
      (mergedEvents s.table ((s.copies p).map Prod.fst)).foldl insertRow s.table := by
  have hnumbers : (((s.rows ++ newRows s.rows (s.copies p)).map Prod.fst).map
      Event.sequence).Nodup := newRows_numbers h
  rw [List.map_append] at hnumbers
  unfold Log.table
  rw [(mergedEvents_eq s.rows (s.copies p)).1,
    foldl_insertRow_append hnumbers fun _ he => mem_ordered.mp he]
  exact List.map_append

/-! ## What holds of every log -/

/-- Rows have numbers of their own and each append has one row at most; whatever was saved has a
row; and an event keeps what was appended. -/
structure LogInv (s : Log β) : Prop where
  numbers : (s.table.map Event.sequence).Nodup
  ids : (s.rows.map Prod.snd).Nodup
  kept : ∀ id ∈ s.saved, id ∈ s.rows.map Prod.snd
  rowMade : ∀ r ∈ s.rows, s.made[r.2]? = some r.1.body
  copyIds : ∀ p, ((s.copies p).map Prod.snd).Nodup
  copyMade : ∀ p, ∀ e ∈ s.copies p, s.made[e.2]? = some e.1.body

/-- A copy whose events can be told apart: no two have the same content and number, and one has
those of a row exactly where it is stored there.  Of a paged job the number alone counts. -/
def Distinguished (paged : Bool) (s : Log β) (p : ℕ) : Prop :=
  if paged then
    ((s.copies p).map (·.1.sequence)).Nodup ∧
      ∀ e ∈ s.copies p, ∀ r ∈ s.rows, r.1.sequence = e.1.sequence ↔ r.2 = e.2
  else ((s.copies p).map Prod.fst).Nodup ∧ ∀ e ∈ s.copies p, ∀ r ∈ s.rows, r.1 = e.1 ↔ r.2 = e.2

namespace LogInv

variable {s : Log β}

theorem setCopy (h : LogInv s) (p : ℕ) {events : List (Event β × ℕ)}
    (hids : (events.map Prod.snd).Nodup)
    (hmade : ∀ e ∈ events, s.made[e.2]? = some e.1.body) : LogInv (s.setCopy p events) where
  numbers := h.numbers
  ids := h.ids
  kept := h.kept
  rowMade := h.rowMade
  copyIds q := by
    unfold Log.setCopy
    dsimp only
    rw [Function.update_apply]
    split
    · exact hids
    · exact h.copyIds q
  copyMade q := by
    unfold Log.setCopy
    dsimp only
    rw [Function.update_apply]
    split
    · exact hmade
    · exact h.copyMade q

theorem load (h : LogInv s) (paged : Bool) (p : ℕ) : LogInv (s.load paged p) := by
  unfold Log.load
  cases paged with
  | true => exact h.setCopy p List.nodup_nil fun _ he => absurd he List.not_mem_nil
  | false =>
      refine h.setCopy p ?_ fun e he => h.rowMade e ((List.mem_insertionSort _).mp he)
      exact ((List.perm_insertionSort _ _).map _).nodup_iff.mpr h.ids

theorem append (h : LogInv s) (p sequence : ℕ) (body : β) : LogInv (s.append p sequence body) := by
  have hbound : ∀ {e : Event β × ℕ}, s.made[e.2]? = some e.1.body → e.2 < s.made.length :=
    fun hget => (List.getElem?_eq_some_iff.mp hget).1
  have hmade : ∀ {e : Event β × ℕ}, s.made[e.2]? = some e.1.body →
      (s.made ++ [body])[e.2]? = some e.1.body := fun hget => by
    rw [List.getElem?_append_left (hbound hget)]
    exact hget
  refine ⟨h.numbers, h.ids, h.kept, fun r hr => hmade (h.rowMade r hr), fun q => ?_, fun q => ?_⟩
  · unfold Log.append Log.setCopy
    dsimp only
    rw [Function.update_apply]
    split
    · rw [List.map_append, List.map_singleton, List.nodup_append]
      refine ⟨h.copyIds p, List.nodup_singleton _, ?_⟩
      intro id hid id' hid'
      rw [List.mem_singleton] at hid'
      obtain ⟨e, he, rfl⟩ := List.mem_map.mp hid
      have hlt := hbound (h.copyMade p e he)
      omega
    · exact h.copyIds q
  · unfold Log.append Log.setCopy
    dsimp only
    rw [Function.update_apply]
    split
    · intro e he
      rcases List.mem_append.mp he with he | he
      · exact hmade (h.copyMade p e he)
      · obtain rfl := List.mem_singleton.mp he
        exact List.getElem?_concat_length
    · exact fun e he => hmade (h.copyMade q e he)

/-- New rows for the events of a copy that have none. -/
theorem extend (h : LogInv s) {p : ℕ} {new events : List (Event β × ℕ)}
    (hnumbers : (((s.rows ++ new).map Prod.fst).map Event.sequence).Nodup)
    (hnew : new.map Prod.snd =
      ((s.copies p).filter fun e => e.2 ∉ s.rows.map Prod.snd).map Prod.snd)
    (hmade : ∀ r ∈ new, s.made[r.2]? = some r.1.body)
    (hids : (events.map Prod.snd).Nodup) (hevents : ∀ e ∈ events, s.made[e.2]? = some e.1.body) :
    LogInv { s with
      rows := s.rows ++ new
      copies := Function.update s.copies p events
      saved := s.saved ++ (s.copies p).map Prod.snd } where
  numbers := hnumbers
  ids := by
    dsimp only
    rw [List.map_append, hnew, List.nodup_append]
    refine ⟨h.ids, (h.copyIds p).sublist (List.filter_sublist.map _), ?_⟩
    intro id hid id' hid'
    obtain ⟨e, he, rfl⟩ := List.mem_map.mp hid'
    rintro rfl
    exact of_decide_eq_true (List.mem_filter.mp he).2 hid
  kept := by
    intro id hid
    dsimp only at hid ⊢
    rw [List.map_append, List.mem_append, hnew]
    rcases List.mem_append.mp hid with hid | hid
    · exact .inl (h.kept id hid)
    · obtain ⟨e, he, rfl⟩ := List.mem_map.mp hid
      by_cases hstored : e.2 ∈ s.rows.map Prod.snd
      · exact .inl hstored
      · exact .inr (List.mem_map_of_mem (List.mem_filter.mpr ⟨he, decide_eq_true hstored⟩))
  rowMade := by
    intro r hr
    rcases List.mem_append.mp hr with hr | hr
    · exact h.rowMade r hr
    · exact hmade r hr
  copyIds := (h.setCopy p hids hevents).copyIds
  copyMade := (h.setCopy p hids hevents).copyMade

theorem foldl_insertMade {rows pending : List (Event β × ℕ)}
    (h : (pending.map (·.1.sequence)).Nodup) : pending.foldl Log.insertMade rows =
      rows ++ pending.filter fun e => e.1.sequence ∉ rows.map (·.1.sequence) := by
  induction pending generalizing rows with
  | nil => exact (List.append_nil _).symm
  | cons e pending ih =>
      rw [List.map_cons, List.nodup_cons] at h
      rw [List.foldl_cons, ih h.2, List.filter_cons]
      unfold Log.insertMade
      by_cases hused : e.1.sequence ∈ rows.map (·.1.sequence)
      · rw [if_pos hused, if_neg (by simpa using hused)]
      · rw [if_neg hused, if_pos (decide_eq_true hused), ← List.append_cons]
        refine congrArg _ (congrArg _ (List.filter_congr fun x hx => ?_))
        have hne : x.1.sequence ≠ e.1.sequence := fun heq => h.1 (heq ▸ List.mem_map_of_mem hx)
        simp only [List.map_append, List.map_singleton, List.mem_append, List.mem_singleton, hne,
          or_false]

theorem savePaged (h : LogInv s) {p : ℕ} (hp : Distinguished true s p) : LogInv (s.save true p) := by
  obtain ⟨hnumbers, hrows⟩ := hp
  have hfresh : ∀ e ∈ s.copies p, (e.1.sequence ∉ s.rows.map (·.1.sequence)) ↔
      e.2 ∉ s.rows.map Prod.snd := by
    intro e he
    rw [List.mem_map, List.mem_map, not_iff_not]
    exact exists_congr fun r => and_congr_right fun hr => hrows e he r hr
  unfold Log.save
  rw [if_pos rfl, if_pos rfl, foldl_insertMade hnumbers]
  refine h.extend ?_ ?_ (fun r hr => h.copyMade p r (List.mem_of_mem_filter hr)) List.nodup_nil
    fun e he => absurd he List.not_mem_nil
  · rw [List.map_append, List.map_append, List.nodup_append]
    refine ⟨h.numbers, ?_, ?_⟩
    · rw [List.map_map]
      exact hnumbers.sublist (List.filter_sublist.map _)
    · intro k hk k' hk'
      rw [List.map_map] at hk hk'
      obtain ⟨e, he, rfl⟩ := List.mem_map.mp hk'
      rintro rfl
      exact of_decide_eq_true (List.mem_filter.mp he).2 hk
  · refine congrArg _ (List.filter_congr fun e he => ?_)
    rw [decide_eq_decide]
    exact hfresh e he

theorem saveMerged (h : LogInv s) {p : ℕ} (hp : Distinguished false s p) :
    LogInv (s.save false p) := by
  obtain ⟨hdistinct, hrows⟩ := hp
  have hfresh : ∀ e ∈ s.copies p, (e.1 ∉ ordered (s.rows.map Prod.fst)) ↔
      e.2 ∉ s.rows.map Prod.snd := by
    intro e he
    rw [mem_ordered, List.mem_map, List.mem_map, not_iff_not]
    exact exists_congr fun r => and_congr_right fun hr => hrows e he r hr
  have haccepted : accepted (ordered (s.rows.map Prod.fst)) (s.copies p) =
      (s.copies p).filter fun e => e.1 ∉ ordered (s.rows.map Prod.fst) :=
    accepted_eq_filter hdistinct
  have hids : (newRows s.rows (s.copies p)).map Prod.snd =
      ((s.copies p).filter fun e => e.2 ∉ s.rows.map Prod.snd).map Prod.snd := by
    rw [newRows_ids, haccepted]
    refine congrArg _ (List.filter_congr fun e he => ?_)
    rw [decide_eq_decide]
    exact hfresh e he
  have hmade : ∀ r ∈ newRows s.rows (s.copies p), s.made[r.2]? = some r.1.body := by
    intro r hr
    have hpair : (r.1.body, r.2) ∈ (newRows s.rows (s.copies p)).map fun r => (r.1.body, r.2) :=
      List.mem_map_of_mem hr
    rw [(mergedEvents_eq s.rows (s.copies p)).2, haccepted] at hpair
    obtain ⟨e, he, heq⟩ := List.mem_map.mp hpair
    obtain ⟨hbody, hid⟩ := Prod.mk.injEq _ _ _ _ ▸ heq
    rw [← hbody, ← hid]
    exact h.copyMade p e (List.mem_of_mem_filter he)
  have hperm : ((s.rows.insertionSort fun r r' => r.1.sequence ≤ r'.1.sequence) ++
      newRows s.rows (s.copies p)).Perm (s.rows ++ newRows s.rows (s.copies p)) :=
    (List.perm_insertionSort _ _).append_right _
  have hnone : ((([] : List (Event β × ℕ))).map Prod.snd).Nodup := List.nodup_nil
  have hend := h.extend (newRows_numbers h.numbers) hids hmade hnone
    fun e he => absurd he List.not_mem_nil
  unfold Log.save
  refine h.extend (newRows_numbers h.numbers) hids hmade ((hperm.map _).nodup_iff.mpr hend.ids) ?_
  exact fun e he => hend.rowMade e (hperm.mem_iff.mp he)

theorem step (h : LogInv s) {paged : Bool} {a : LogAction β}
    (ha : ∀ p, a = .save p → Distinguished paged s p) : LogInv (stepLog paged s a) := by
  cases a with
  | load p => exact h.load paged p
  | append p sequence body => exact h.append p sequence body
  | copy p q => exact h.setCopy q (h.copyIds p) (h.copyMade p)
  | save p =>
      cases paged with
      | true => exact h.savePaged (ha p rfl)
      | false => exact h.saveMerged (ha p rfl)

end LogInv

/-- A copy that was just saved adds no row when it is saved once more. -/
theorem save_save (paged : Bool) (s : Log β) (p : ℕ) :
    ((s.save paged p).save paged p).rows = (s.save paged p).rows := by
  cases paged with
  | true =>
      have hnone : (s.save true p).copies p = [] := by
        unfold Log.save
        dsimp only
        rw [Function.update_self, if_pos rfl]
      unfold Log.save at hnone ⊢
      dsimp only at hnone ⊢
      rw [if_pos rfl, hnone, List.foldl_nil]
  | false =>
      have hcopy : ∀ e ∈ (s.save false p).copies p, e.1 ∈ ordered ((s.save false p).rows.map Prod.fst) := by
        unfold Log.save
        dsimp only
        rw [Function.update_self, if_neg Bool.false_ne_true, if_neg Bool.false_ne_true]
        intro e he
        rw [mem_ordered]
        refine List.mem_map_of_mem (List.mem_append.mpr ?_)
        exact (List.mem_append.mp he).imp_left (List.mem_insertionSort _).mp
      have hnone : newRows (s.save false p).rows ((s.save false p).copies p) = [] := by
        unfold newRows
        rw [accepted_eq_nil hcopy]
        exact List.zip_nil_right
      show (s.save false p).rows ++ newRows (s.save false p).rows ((s.save false p).copies p) = _
      rw [hnone, List.append_nil]

/-! ## Histories of saves -/

/-- The steps of the copies of one job. -/
def LogStep (permits : Log β → ℕ → Prop) (paged : Bool) (s s' : Log β) : Prop :=
  ∃ a, (∀ p, a = .save p → permits s p) ∧ s' = stepLog paged s a

/-- The states that the copies of a new job come to. -/
abbrev Saved (β : Type) [DecidableEq β] (permits : Log β → ℕ → Prop) (paged : Bool) : Type :=
  { s : Log β // Relation.ReflTransGen (LogStep permits paged) {} s }

/-- The numbers of the rows are distinct, and the event of every append whose copy was saved has
one row, which holds what was appended. -/
structure Recorded (s : Log β) : Prop where
  numbers : (s.table.map Event.sequence).Nodup
  once : ∀ id ∈ s.saved, (s.rows.map Prod.snd).count id = 1
  content : ∀ r ∈ s.rows, s.made[r.2]? = some r.1.body

theorem saved_inv {paged : Bool} (s : Saved β (Distinguished paged) paged) : LogInv s.val := by
  obtain ⟨s, hs⟩ := s
  induction hs with
  | refl => exact ⟨List.nodup_nil, List.nodup_nil, fun _ h => absurd h List.not_mem_nil,
      fun _ h => absurd h List.not_mem_nil, fun _ => List.nodup_nil,
      fun _ _ h => absurd h List.not_mem_nil⟩
  | tail _ hstep ih =>
      obtain ⟨a, ha, rfl⟩ := hstep
      exact ih.step ha

/-- Where the events of every copy that is saved can be told apart, each is recorded once, and
saving the same copy twice adds nothing. -/
theorem saved_events_recorded (paged : Bool) (s : Saved β (Distinguished paged) paged) :
    Recorded s.val ∧
      ∀ p, ((s.val.save paged p).save paged p).rows = (s.val.save paged p).rows := by
  have hinv := saved_inv s
  refine ⟨⟨hinv.numbers, fun id hid => ?_, hinv.rowMade⟩, save_save paged s.val⟩
  exact List.count_eq_one_of_mem hinv.ids (hinv.kept id hid)

/-! ## An event that is dropped -/

/-- Two copies of a paged job give one number to an event each, and both are saved. -/
def sameNumber : List (LogAction String) :=
  [.append 0 0 "entity_completed", .append 1 0 "entity_failed", .save 0, .save 1]

theorem steps_log (paged : Bool) (s : Log β) (actions : List (LogAction β)) :
    Relation.ReflTransGen (LogStep (fun _ _ => True) paged) s (actions.foldl (stepLog paged) s) := by
  induction actions generalizing s with
  | nil => exact .refl
  | cons a actions ih => exact .head ⟨a, fun _ _ => trivial, rfl⟩ (ih (stepLog paged s a))

theorem pending_event_dropped : ∃ s : Saved String (fun _ _ => True) true, ¬ Recorded s.val := by
  refine ⟨⟨_, steps_log true {} sameNumber⟩, fun h => ?_⟩
  have hlost := h.once 1 (by decide)
  exact absurd hlost (by decide)

end LogRisk.Events
