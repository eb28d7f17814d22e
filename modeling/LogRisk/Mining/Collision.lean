import LogRisk.Mining.Isolation

/-!
# Partitions that meet in one file

A miner that counts its messages tells two partitions of one state file apart from
partitions mined alone, so isolation holds of every miner only where the names of
the files differ.
-/

namespace LogRisk.Mining

open LogRisk.Library LogRisk.Library.Transaction

/-! ## A miner that counts -/

/-- A template of so many letters. -/
def marks (n : ℕ) : String := String.ofList (List.replicate n 'x')

theorem marks_injective : Function.Injective marks := by
  intro m n h
  have hlist := String.ofList_inj.mp h
  simpa using congrArg List.length hlist

/-- The template of a message shows how many were mined before it; every message is
followed by a snapshot. -/
def counting : Drain ℕ ℕ where
  load content := some (content.getD 0)
  addLogMessage n _ := some (⟨marks n, "none"⟩, n + 1, some (n + 1))
  extractParameters _ _ _ _ := none

def plainTools : Tools Unit where
  sha1 _ := ""
  templateFingerprint _ _ _ := ""
  templateInstanceHash _ _ _ _ _ := ""
  routeEntities _ := ()

/-- How many messages the state file has seen. -/
def level (files : Files ℕ) (file : String) : ℕ := (files file).getD 0

/-- The records have a message each. -/
def Spoken (records : List (ℕ × Record)) : Prop := ∀ item ∈ records, item.2.messageCore ≠ none

/-- The count the miner of the key goes on from. -/
def countOf (manager : Manager ℕ) (files : Files ℕ) (key : Key) : ℕ :=
  (manager key).getD (level files (stateFile key))

theorem counting_event (scope : Option String) (manager : Manager ℕ) (files : Files ℕ)
    (record : Record) (h : record.messageCore ≠ none) :
    ∃ event, event.template = marks (countOf manager files (minerKey scope record)) ∧
      mineTemplateEvent counting plainTools .off scope manager files record =
        (Function.update files (stateFile (minerKey scope record))
            (some (countOf manager files (minerKey scope record) + 1)),
          .ok (event, Function.update manager (minerKey scope record)
            (some (countOf manager files (minerKey scope record) + 1)))) := by
  obtain ⟨message, hmessage⟩ := Option.ne_none_iff_exists'.mp h
  have hminer : getMiner counting manager files (minerKey scope record) =
      some (countOf manager files (minerKey scope record)) := by
    unfold getMiner countOf
    cases manager (minerKey scope record) <;> rfl
  unfold mineTemplateEvent
  rw [hmessage]
  dsimp only
  rw [hminer]
  exact ⟨_, rfl, rfl⟩

/-- A partition raises its own level, and its first event shows where it began. -/
theorem counting_records {scope : Option String} {key : Key} {records : List (ℕ × Record)}
    (hkey : Belongs scope key records) (hspoken : Spoken records) (manager : Manager ℕ)
    (files : Files ℕ) :
    ∃ files' events, mineRecords counting plainTools .off scope records manager files =
        (files', .ok events) ∧
      (records ≠ [] → level files' (stateFile key) = countOf manager files key + records.length) ∧
        (events.head?.map fun p => p.2.template) =
          records.head?.map fun _ => marks (countOf manager files key) := by
  induction records generalizing manager files with
  | nil => exact ⟨files, [], rfl, fun h => absurd rfl h, rfl⟩
  | cons item rest ih =>
      obtain ⟨index, record⟩ := item
      obtain ⟨event, htemplate, hevent⟩ := counting_event scope manager files record
        (hspoken _ List.mem_cons_self)
      have hhead : minerKey scope record = key := hkey _ List.mem_cons_self
      rw [hhead] at htemplate hevent
      generalize hc : countOf manager files key = c at htemplate hevent
      obtain ⟨files', events, hrest, hlevel, -⟩ := ih hkey.tail
        (fun other hother => hspoken other (List.mem_cons_of_mem _ hother))
        (Function.update manager key (some (c + 1)))
        (Function.update files (stateFile key) (some (c + 1)))
      refine ⟨files', (index, event) :: events, ?_, fun _ => ?_, ?_⟩
      · rw [mineRecords_cons, hevent]
        dsimp only
        rw [hrest]
      · cases rest with
        | nil =>
            cases hrest
            unfold level
            rw [Function.update_self]
            rfl
        | cons other rest =>
            rw [hlevel (List.cons_ne_nil _ _)]
            unfold countOf
            rw [Function.update_self]
            simp only [Option.getD_some, List.length_cons]
            omega
      · simp [htemplate]

theorem level_le {part : Part} (hspoken : Spoken part.records) {files files' : Files ℕ}
    {events : List (ℕ × Event Unit)}
    (h : mineIndexedPartition counting plainTools .off part.scope part.records files =
      (files', .ok events)) (file : String) :
    level files file ≤ level files' file := by
  unfold mineIndexedPartition at h
  by_cases hfile : file = stateFile part.key
  · subst hfile
    obtain ⟨last, own, hrun, hlevel, -⟩ := counting_records part.belongs hspoken (fun _ => none) files
    obtain ⟨rfl, -⟩ := Prod.mk.inj (h.symm.trans hrun)
    by_cases hne : part.records = []
    · rw [hne] at h
      cases h
      exact le_rfl
    · rw [hlevel hne]
      exact Nat.le_add_right _ _
  · have hoff := mineRecords_files counting plainTools .off (fun _ => none) files part.belongs
    rw [h] at hoff
    have hsame : files' file = files file := hoff file hfile
    unfold level
    rw [hsame]

/-- One after the other, a partition begins no lower than its file stood, and higher
where one before it has the same file. -/
theorem counting_serial {parts : List Part} (hspoken : ∀ part ∈ parts, Spoken part.records)
    (hne : ∀ part ∈ parts, part.records ≠ []) (files : Files ℕ) :
    ∃ collected, mineSerial counting plainTools .off (parts.map Part.work) files = .ok collected ∧
      List.Forall₂ (fun part own => own.map Prod.fst = part.records.map Prod.fst) parts collected ∧
        ∀ (j : ℕ) (hj : j < parts.length), ∃ own n, collected[j]? = some own ∧
          (own.head?.map fun p => p.2.template) = some (marks n) ∧
            level files (stateFile parts[j].key) ≤ n ∧
              ∀ (i : ℕ) (hi : i < j), stateFile parts[i].key = stateFile parts[j].key →
                level files (stateFile parts[j].key) < n := by
  induction parts generalizing files with
  | nil => exact ⟨[], rfl, .nil, fun j hj => absurd hj (Nat.not_lt_zero j)⟩
  | cons part rest ih =>
      obtain ⟨next, events, hrun, hlevel, hhead⟩ := counting_records part.belongs
        (hspoken part List.mem_cons_self) (fun _ => none) files
      have hpart : part.records ≠ [] := hne part List.mem_cons_self
      have hstep : mineIndexedPartition counting plainTools .off part.scope part.records files =
          (next, .ok events) := hrun
      obtain ⟨others, hothers, hpositions, hlater⟩ := ih
        (fun other h => hspoken other (List.mem_cons_of_mem _ h))
        (fun other h => hne other (List.mem_cons_of_mem _ h)) next
      have hmono := level_le (hspoken part List.mem_cons_self) hstep
      refine ⟨events :: others, ?_, .cons (mineRecords_fst (by rw [hrun])) hpositions, ?_⟩
      · rw [List.map_cons]
        unfold Part.work mineSerial
        rw [hstep]
        exact congrArg (· >>= fun others => pure (events :: others)) hothers
      · intro j hj
        cases j with
        | zero =>
            refine ⟨events, level files (stateFile part.key), rfl, ?_, le_rfl,
              fun i hi => absurd hi (Nat.not_lt_zero i)⟩
            rw [hhead]
            obtain ⟨item, records, hrecords⟩ := List.exists_cons_of_ne_nil hpart
            rw [hrecords]
            rfl
        | succ j =>
            have hj' : j < rest.length := Nat.lt_of_succ_lt_succ hj
            obtain ⟨own, n, hown, htemplate, hle, hlt⟩ := hlater j hj'
            refine ⟨own, n, hown, htemplate, (hmono _).trans hle, fun i hi hfile => ?_⟩
            cases i with
            | zero =>
                have hfile' : stateFile part.key = stateFile rest[j].key := hfile
                have hraised : level files (stateFile part.key) < level next (stateFile part.key) := by
                  rw [hlevel hpart]
                  have hlength := List.length_pos_of_ne_nil hpart
                  unfold countOf
                  simp only [Option.getD_none]
                  omega
                rw [hfile'] at hraised
                exact hraised.trans_le hle
            | succ i => exact (hmono _).trans_lt (hlt i (Nat.lt_of_succ_lt_succ hi) hfile)

/-! ## Isolation of every miner -/

/-- What a call returns for the records of a partition, at their positions, is what any
call on these records alone returns from the same files: with another number of workers,
and in another order of their steps. -/
def EventsIsolated (records : List Record) (byNode : Bool) : Prop :=
  ∀ (σ φ ρ : Type) (drain : Drain σ φ) (tools : Tools ρ) (options options' : MiningOptions)
    (machine machine' : Machine) (files : Files φ) (events : List (Event ρ)) (metadata : Metadata),
    options.partitionByNode = byNode → options'.partitionByNode = byNode →
      options'.parameterExtractionMode = options.parameterExtractionMode →
        mineTemplateEvents drain tools options machine files records = .ok (events, metadata) →
          ∀ record ∈ records, ∃ metadata',
            mineTemplateEvents drain tools options' machine' files
                (partition records byNode record) =
              .ok (eventsOf records byNode record events, metadata')

/-- The partitions keep to themselves: in their files and in their events. -/
structure Isolates (records : List Record) (byNode : Bool) : Prop where
  files : ∀ a ∈ records, ∀ b ∈ records, miningPartitionKey a byNode ≠ miningPartitionKey b byNode →
    stateFile (miningPartitionKey a byNode) ≠ stateFile (miningPartitionKey b byNode)
  events : EventsIsolated records byNode

theorem eventsIsolated_of_apart {records : List Record} {byNode : Bool}
    (h : NamesApart records byNode) : EventsIsolated records byNode := by
  intro σ φ ρ drain tools options options' machine machine' files events metadata hnode hnode' hmode
    hcall record hrecord
  subst hnode
  exact isolated_of_apart h hcall hrecord hnode' hmode

/-- A call that counts with one worker. -/
def countingOptions (byNode : Bool) : MiningOptions := { partitionByNode := byNode }

def countingCall (byNode : Bool) (records : List Record) :
    Except MiningError (List (Event Unit) × Metadata) :=
  mineTemplateEvents counting plainTools (countingOptions byNode) ⟨some 1, []⟩ (fun _ => none)
    records

theorem countingCall_eq (byNode : Bool) (records : List Record)
    {collected : List (List (ℕ × Event Unit))}
    (h : mineSerial counting plainTools .off ((partsOf records byNode).map Part.work)
      (fun _ => none) = .ok collected) :
    ∃ metadata, countingCall byNode records =
      .ok ((scatter records.length collected.flatten).reduceOption, metadata) := by
  have hworkers : ∀ n, effectiveWorkers (countingOptions byNode) ⟨some 1, []⟩ n ≤ 1 := by
    intro n
    unfold effectiveWorkers
    split
    · exact Int.zero_le_ofNat 1
    · exact (min_le_left _ _).trans (min_le_left _ _)
  unfold countingCall mineTemplateEvents
  have hwork : (partsOf records byNode).map Part.work = _ := partsOf_work records byNode
  dsimp only [countingOptions] at hworkers ⊢
  rw [← hwork, if_neg (not_lt.mpr (hworkers _)), h]
  exact ⟨_, rfl⟩

theorem spoken_partsOf {records : List Record} {byNode : Bool}
    (h : ∀ record ∈ records, record.messageCore ≠ none) {part : Part}
    (hpart : part ∈ partsOf records byNode) : Spoken part.records ∧ part.records ≠ [] := by
  obtain ⟨⟨record, hrecord, hkey⟩, -, hrecords⟩ := of_mem_partsOf hpart
  have hsnd : part.records.map Prod.snd =
      records.filter fun other => decide (miningPartitionKey other byNode = part.key) := by
    rw [hrecords]
    exact map_snd_filter records fun other => decide (miningPartitionKey other byNode = part.key)
  constructor
  · intro item hitem
    have hmem := List.mem_map_of_mem (f := Prod.snd) hitem
    rw [hsnd] at hmem
    exact h _ (List.mem_of_mem_filter hmem)
  · intro hnil
    rw [hnil, List.map_nil] at hsnd
    have hmem : record ∈ ([] : List Record) :=
      hsnd ▸ List.mem_filter.mpr ⟨hrecord, decide_eq_true hkey⟩
    cases hmem

/-- A partition alone begins at the first message. -/
theorem countingCall_partition {records : List Record} {byNode : Bool} {record : Record}
    (hspoken : ∀ record ∈ records, record.messageCore ≠ none) (hrecord : record ∈ records) :
    ∃ metadata events, (events.head?.map Event.template) = some (marks 0) ∧
      countingCall byNode (partition records byNode record) = .ok (events, metadata) := by
  have hmem : record ∈ partition records byNode record :=
    List.mem_filter.mpr ⟨hrecord, decide_eq_true rfl⟩
  obtain ⟨single, hsingle, -, hrecords⟩ := partsOf_of_key (List.ne_nil_of_mem hmem)
    fun other hother => of_decide_eq_true (List.mem_filter.mp hother).2
  obtain ⟨hspoken, hne⟩ := spoken_partsOf
    (fun other hother => hspoken other (List.mem_of_mem_filter hother))
    (hsingle ▸ List.mem_singleton_self single)
  obtain ⟨files', own, hrun, -, hhead⟩ := counting_records single.belongs hspoken (fun _ => none)
    fun _ => none
  have hserial : mineSerial counting plainTools .off
      ((partsOf (partition records byNode record) byNode).map Part.work) (fun _ => none) =
        .ok [own] := by
    rw [hsingle]
    unfold Part.work
    simp only [List.map_cons, List.map_nil, mineSerial, mineIndexedPartition, hrun]
    rfl
  obtain ⟨metadata, hcall⟩ := countingCall_eq byNode _ hserial
  rw [assembled_single ((mineRecords_fst (by rw [hrun])).trans (by rw [hrecords]))] at hcall
  refine ⟨metadata, _, ?_, hcall⟩
  obtain ⟨item, rest, hitems⟩ := List.exists_cons_of_ne_nil hne
  rw [List.head?_map, Option.map_map]
  refine hhead.trans ?_
  rw [hitems]
  rfl

/-- A partition mined behind another one of its file shows it in its first event. -/
theorem not_isolated_of_before {records : List Record} {byNode : Bool}
    (hspoken : ∀ record ∈ records, record.messageCore ≠ none) {i j : ℕ} (hij : i < j)
    (hj : j < (partsOf records byNode).length)
    (hfile : stateFile (partsOf records byNode)[i].key = stateFile (partsOf records byNode)[j].key) :
    ¬EventsIsolated records byNode := by
  intro hisolated
  obtain ⟨collected, hserial, hpositions, hlater⟩ := counting_serial
    (fun part hpart => (spoken_partsOf hspoken hpart).1)
    (fun part hpart => (spoken_partsOf hspoken hpart).2) fun _ => none
  obtain ⟨metadata, hcall⟩ := countingCall_eq byNode records hserial
  obtain ⟨events, hevents, -, hall⟩ := assembled (perm_positions records byNode) hpositions
  rw [hevents] at hcall
  obtain ⟨own, n, hown, htemplate, -, hlt⟩ := hlater j hj
  have hn : 0 < n := (Nat.zero_le _).trans_lt (hlt i hij hfile)
  -- the same partition, mined alone from the same files
  obtain ⟨⟨record, hrecord, hkey⟩, -, hrecords⟩ := of_mem_partsOf (List.getElem_mem hj)
  obtain ⟨metadata', halone⟩ := hisolated ℕ ℕ Unit counting plainTools (countingOptions byNode)
    (countingOptions byNode) _ ⟨some 1, []⟩ _ events metadata rfl rfl rfl hcall record hrecord
  obtain ⟨metadata'', first, hfirst, hcall'⟩ := countingCall_partition hspoken hrecord
  have hsame : eventsOf records byNode record events = first :=
    congrArg Prod.fst (Except.ok.inj (halone.symm.trans hcall'))
  have hof : eventsOf records byNode record events = own.map Prod.snd := by
    rw [List.forall₂_iff_get] at hall
    obtain ⟨hjc, rfl⟩ := List.getElem?_eq_some_iff.mp hown
    have hpart := hall.2 j hj hjc
    unfold eventsOf
    rw [hkey, ← hrecords]
    exact hpart
  have hmarks : some (marks n) = some (marks 0) := by
    calc
      some (marks n) = own.head?.map fun p => p.2.template := htemplate.symm
      _ = ((own.map Prod.snd).head?).map Event.template := by rw [List.head?_map, Option.map_map]; rfl
      _ = first.head?.map Event.template := by rw [← hof, hsame]
      _ = some (marks 0) := hfirst
  exact absurd (marks_injective (Option.some.inj hmarks)) hn.ne'

/-- Isolation of every miner needs names that are apart. -/
theorem namesApart_of_eventsIsolated {records : List Record} {byNode : Bool}
    (hspoken : ∀ record ∈ records, record.messageCore ≠ none)
    (h : EventsIsolated records byNode) : NamesApart records byNode := by
  intro a ha b hb hne hsafe
  obtain ⟨pa, hpa, hka⟩ := exists_part ha byNode
  obtain ⟨pb, hpb, hkb⟩ := exists_part hb byNode
  obtain ⟨i, hi, rfl⟩ := List.getElem_of_mem hpa
  obtain ⟨j, hj, rfl⟩ := List.getElem_of_mem hpb
  rw [← hka, ← hkb] at hne hsafe
  have hfile := stateFile_eq_iff.mpr hsafe
  have hij : i ≠ j := by
    rintro rfl
    exact hne rfl
  rcases lt_or_gt_of_ne hij with hlt | hgt
  · exact not_isolated_of_before hspoken hlt hj hfile h
  · exact not_isolated_of_before hspoken hgt hi hfile.symm h

/-- The partitions keep to themselves just when the names of their files differ; where every
record has a message, this is so of the events alone. -/
theorem isolates_iff (records : List Record) (byNode : Bool) :
    (Isolates records byNode ↔ NamesApart records byNode) ∧
      ((∀ record ∈ records, record.messageCore ≠ none) →
        (EventsIsolated records byNode ↔ NamesApart records byNode)) := by
  refine ⟨⟨fun h a ha b hb hne hsafe => h.files a ha b hb hne (stateFile_eq_iff.mpr hsafe),
    fun h => ⟨fun a ha b hb hne hfile => h a ha b hb hne (stateFile_eq_iff.mp hfile),
      eventsIsolated_of_apart h⟩⟩, fun hspoken => ⟨namesApart_of_eventsIsolated hspoken,
        eventsIsolated_of_apart⟩⟩

/-- Two clusters, one of which is named like the file of the other. -/
def collidingRecords : List Record :=
  [{ cluster := some "a/b", messageCore := some "m" },
    { cluster := some "a_b", messageCore := some "m" }]

theorem collidingRecords_not_isolated :
    ¬Isolates collidingRecords false ∧ ¬EventsIsolated collidingRecords false := by
  have hspoken : ∀ record ∈ collidingRecords, record.messageCore ≠ none := by
    decide
  have hmeet : ¬NamesApart collidingRecords false := by
    intro h
    exact h _ List.mem_cons_self _ (List.mem_cons_of_mem _ List.mem_cons_self) (by decide)
      (by decide)
  have hevents : ¬EventsIsolated collidingRecords false :=
    fun h => hmeet (namesApart_of_eventsIsolated hspoken h)
  exact ⟨fun h => hevents h.events, hevents⟩

end LogRisk.Mining
