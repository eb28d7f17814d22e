import LogRisk.Mining.Partitions
import LogRisk.Library.Transaction
import Mathlib.Data.List.Nodup

/-!
# Partitions that do not meet

What a partition is mined to depends on the content of its state file alone.
Partitions whose state files differ are mined as if each were alone, in whatever
order the workers take their steps; two that share a file are not.
-/

namespace LogRisk.Mining

open LogRisk.Library LogRisk.Library.Transaction

variable {σ φ ρ : Type} {drain : Drain σ φ} {tools : Tools ρ} {mode : ParameterMode}
  {scope : Option String}

/-- A worker's miner is the one of its partition. -/
theorem minerKey_stateScope {byNode : Bool} {key : Key} {record : Record}
    (h : miningPartitionKey record byNode = key) :
    minerKey (stateScope byNode key) record = key := by
  subst h
  cases byNode <;> rfl

/-! ## One file -/

/-- Files that agree on one of them. -/
def SameAt (key : Key) (files files' : Files φ) : Prop :=
  files (stateFile key) = files' (stateFile key)

/-- Files that agree on all others. -/
def SameOff (key : Key) (files files' : Files φ) : Prop :=
  ∀ file, file ≠ stateFile key → files file = files' file

theorem SameOff.trans {key : Key} {a b c : Files φ} (hab : SameOff key a b)
    (hbc : SameOff key b c) : SameOff key a c :=
  fun file h => (hab file h).trans (hbc file h)

variable (drain tools mode scope) in
theorem observe_files (manager : Manager σ) (files : Files φ) (record : Record) (message : String)
    (miner : σ) :
    SameOff (minerKey scope record)
      (observe drain tools mode scope manager files record message miner).1 files := by
  intro file hfile
  unfold observe
  split
  · rfl
  · rename_i snapshot _
    cases snapshot <;> cases mode <;> simp [Function.update_of_ne hfile]

theorem observe_congr {manager : Manager σ} {files files' : Files φ} {record : Record}
    {message : String} {miner : σ} (h : SameAt (minerKey scope record) files files') :
    (observe drain tools mode scope manager files record message miner).2 =
        (observe drain tools mode scope manager files' record message miner).2 ∧
      SameAt (minerKey scope record)
        (observe drain tools mode scope manager files record message miner).1
        (observe drain tools mode scope manager files' record message miner).1 := by
  unfold SameAt at h ⊢
  unfold observe
  split
  · exact ⟨rfl, h⟩
  · rename_i snapshot _
    cases snapshot <;> cases mode <;> simp [h]

variable (drain tools mode scope) in
theorem mineTemplateEvent_files (manager : Manager σ) (files : Files φ) (record : Record) :
    SameOff (minerKey scope record)
      (mineTemplateEvent drain tools mode scope manager files record).1 files := by
  unfold mineTemplateEvent
  split
  · exact fun _ _ => rfl
  · split
    · exact fun _ _ => rfl
    · exact observe_files drain tools mode scope manager files record _ _

theorem getMiner_congr {manager : Manager σ} {files files' : Files φ} {key : Key}
    (h : SameAt key files files') :
    getMiner drain manager files key = getMiner drain manager files' key := by
  unfold getMiner
  rw [h]

variable (drain tools mode) in
theorem mineTemplateEvent_congr (manager : Manager σ) {files files' : Files φ} {record : Record}
    (h : SameAt (minerKey scope record) files files') :
    (mineTemplateEvent drain tools mode scope manager files record).2 =
        (mineTemplateEvent drain tools mode scope manager files' record).2 ∧
      SameAt (minerKey scope record)
        (mineTemplateEvent drain tools mode scope manager files record).1
        (mineTemplateEvent drain tools mode scope manager files' record).1 := by
  unfold mineTemplateEvent
  rw [getMiner_congr h]
  split
  · exact ⟨rfl, h⟩
  · split
    · exact ⟨rfl, h⟩
    · exact observe_congr h

/-- The records belong to the partition of the key. -/
def Belongs (scope : Option String) (key : Key) (records : List (ℕ × Record)) : Prop :=
  ∀ item ∈ records, minerKey scope item.2 = key

theorem Belongs.tail {key : Key} {item : ℕ × Record} {rest : List (ℕ × Record)}
    (h : Belongs scope key (item :: rest)) : Belongs scope key rest :=
  fun other hother => h other (List.mem_cons_of_mem _ hother)

variable (drain tools mode) in
/-- The loop over a partition leaves the files of the others alone. -/
theorem mineRecords_files {key : Key} {records : List (ℕ × Record)} (manager : Manager σ)
    (files : Files φ) (hkey : Belongs scope key records) :
    SameOff key (mineRecords drain tools mode scope records manager files).1 files := by
  induction records generalizing manager files with
  | nil => exact fun _ _ => rfl
  | cons item rest ih =>
      obtain ⟨index, record⟩ := item
      have hfirst := mineTemplateEvent_files drain tools mode scope manager files record
      rw [hkey _ List.mem_cons_self] at hfirst
      unfold mineRecords
      split
      · rename_i heq
        rwa [heq] at hfirst
      · rename_i next event after heq
        rw [heq] at hfirst
        have hrest := (ih after next hkey.tail).trans hfirst
        split
        · rename_i heq
          rwa [heq] at hrest
        · rename_i heq
          rwa [heq] at hrest

/-- What a partition is mined to depends on its own file alone. -/
theorem mineRecords_congr {key : Key} {records : List (ℕ × Record)} {manager : Manager σ}
    {files files' : Files φ} (hkey : Belongs scope key records) (h : SameAt key files files') :
    (mineRecords drain tools mode scope records manager files).2 =
      (mineRecords drain tools mode scope records manager files').2 := by
  induction records generalizing manager files files' with
  | nil => rfl
  | cons item rest ih =>
      obtain ⟨index, record⟩ := item
      have hhead : minerKey scope record = key := hkey _ List.mem_cons_self
      have hsame : SameAt (minerKey scope record) files files' := by rwa [hhead]
      obtain ⟨hresult, hfiles⟩ := mineTemplateEvent_congr drain tools mode manager hsame
      rw [hhead] at hfiles
      unfold mineRecords
      generalize mineTemplateEvent drain tools mode scope manager files record = a at hresult hfiles
      generalize mineTemplateEvent drain tools mode scope manager files' record = b
        at hresult hfiles
      obtain ⟨next, result⟩ := a
      obtain ⟨next', result'⟩ := b
      obtain rfl : result = result' := hresult
      cases result with
      | error e => rfl
      | ok value =>
          obtain ⟨event, after⟩ := value
          have hrest := @ih after _ _ hkey.tail hfiles
          dsimp only
          generalize mineRecords drain tools mode scope rest after next = c at hrest
          generalize mineRecords drain tools mode scope rest after next' = d at hrest
          obtain ⟨last, outcome⟩ := c
          obtain ⟨last', outcome'⟩ := d
          obtain rfl : outcome = outcome' := hrest
          cases outcome <;> rfl

/-- The events do not depend on the positions, which they carry along. -/
theorem mineRecords_positions {records records' : List (ℕ × Record)} {manager : Manager σ}
    {files : Files φ} {events : List (ℕ × Event ρ)}
    (hrecords : records.map Prod.snd = records'.map Prod.snd)
    (h : (mineRecords drain tools mode scope records manager files).2 = .ok events) :
    ∃ events', (mineRecords drain tools mode scope records' manager files).2 = .ok events' ∧
      events'.map Prod.snd = events.map Prod.snd ∧
        events'.map Prod.fst = records'.map Prod.fst := by
  induction records generalizing records' manager files events with
  | nil =>
      obtain rfl := List.map_eq_nil_iff.mp hrecords.symm
      cases h
      exact ⟨[], rfl, rfl, rfl⟩
  | cons item rest ih =>
      obtain ⟨index, record⟩ := item
      cases records' with
      | nil => cases hrecords
      | cons item' rest' =>
          obtain ⟨index', record'⟩ := item'
          obtain ⟨rfl, hrest⟩ := List.cons.inj hrecords
          unfold mineRecords at h ⊢
          split at h
          · cases h
          · rename_i next event after heq
            dsimp only at heq ⊢
            rw [heq]
            dsimp only
            split at h
            · cases h
            · rename_i last others hothers
              have hothers : (mineRecords drain tools mode scope rest after next).2 =
                  .ok others := by rw [hothers]
              obtain ⟨others', hothers', hsnd, hfst⟩ := ih hrest hothers
              cases h
              refine ⟨(index', event) :: others', ?_, ?_, ?_⟩
              · generalize mineRecords drain tools mode scope rest' after next = c at hothers'
                obtain ⟨last', outcome⟩ := c
                obtain rfl : outcome = .ok others' := hothers'
                rfl
              · rw [List.map_cons, List.map_cons, hsnd]
              · rw [List.map_cons, List.map_cons, hfst]

/-! ## Partitions with files of their own -/

/-- A partition: its key, the scope its worker gets and its records. -/
structure Part where
  key : Key
  scope : Option String
  records : List (ℕ × Record)
  belongs : Belongs scope key records

def Part.work (part : Part) : Option String × List (ℕ × Record) := (part.scope, part.records)

/-- The state files of the partitions differ. -/
def Apart (parts : List Part) : Prop :=
  parts.Pairwise fun a b => stateFile a.key ≠ stateFile b.key

/-- What the partition is mined to alone. -/
def alone (drain : Drain σ φ) (tools : Tools ρ) (mode : ParameterMode) (files : Files φ)
    (part : Part) : Except MiningError (List (ℕ × Event ρ)) :=
  (mineIndexedPartition drain tools mode part.scope part.records files).2

variable (drain tools mode) in
theorem alone_congr {part : Part} {files files' : Files φ} (h : SameAt part.key files files') :
    alone drain tools mode files part = alone drain tools mode files' part :=
  mineRecords_congr part.belongs h

/-- One after the other, partitions with files of their own are mined as if alone. -/
theorem mineSerial_eq {parts : List Part} (hapart : Apart parts) {start files : Files φ}
    (hfiles : ∀ part ∈ parts, SameAt part.key files start) :
    mineSerial drain tools mode (parts.map Part.work) files =
      parts.mapM (alone drain tools mode start) := by
  induction parts generalizing files with
  | nil => rfl
  | cons part rest ih =>
      obtain ⟨hpart, hrest⟩ := List.pairwise_cons.mp hapart
      have halone := alone_congr drain tools mode (hfiles part List.mem_cons_self)
      have hoff := mineRecords_files drain tools mode (fun _ => none) files part.belongs
      rw [List.map_cons, List.mapM_cons, ← halone]
      unfold alone Part.work mineSerial
      unfold mineIndexedPartition
      generalize mineRecords drain tools mode part.scope part.records (fun _ => none) files = a
        at hoff
      obtain ⟨next, result⟩ := a
      cases result with
      | error e => rfl
      | ok events =>
          have hnext : ∀ other ∈ rest, SameAt other.key next start := fun other hother =>
            (hoff _ (hpart other hother).symm).trans (hfiles other (List.mem_cons_of_mem _ hother))
          exact congrArg (· >>= fun others => pure (events :: others)) (ih hrest hnext)

/-! ## Workers -/

/-- What the worker will have collected if no other step intervenes. -/
def Worker.outcome (drain : Drain σ φ) (tools : Tools ρ) (mode : ParameterMode)
    (worker : Worker σ ρ) (files : Files φ) : Except MiningError (List (ℕ × Event ρ)) :=
  match worker.failed with
  | some e => .error e
  | none =>
      (mineRecords drain tools mode worker.scope worker.pending worker.manager files).2.map
        (worker.collected ++ ·)

theorem outcome_congr {worker : Worker σ ρ} {key : Key} {files files' : Files φ}
    (hkey : Belongs worker.scope key worker.pending) (h : SameAt key files files') :
    worker.outcome drain tools mode files = worker.outcome drain tools mode files' := by
  unfold Worker.outcome
  rw [mineRecords_congr hkey h]

theorem mineRecords_cons (index : ℕ) (record : Record) (rest : List (ℕ × Record))
    (manager : Manager σ) (files : Files φ) :
    mineRecords drain tools mode scope ((index, record) :: rest) manager files =
      match mineTemplateEvent drain tools mode scope manager files record with
      | (files, .error e) => (files, .error e)
      | (files, .ok (event, manager)) =>
          match mineRecords drain tools mode scope rest manager files with
          | (files, .error e) => (files, .error e)
          | (files, .ok events) => (files, .ok ((index, event) :: events)) := rfl

/-- A miner at hand is the one that is loaded. -/
theorem mineTemplateEvent_update {manager : Manager σ} {files : Files φ} {record : Record}
    {miner : σ} (hmanager : manager (minerKey scope record) = none)
    (hload : drain.load (files (stateFile (minerKey scope record))) = some miner) :
    mineTemplateEvent drain tools mode scope
        (Function.update manager (minerKey scope record) (some miner)) files record =
      mineTemplateEvent drain tools mode scope manager files record := by
  unfold mineTemplateEvent getMiner observe
  simp only [Function.update_self, hmanager, hload, Function.update_idem]

/-- A worker's own step leads where the rest of its loop leads. -/
theorem workerStep_outcome (worker : Worker σ ρ) (files : Files φ) :
    (workerStep drain tools mode worker files).1.outcome drain tools mode
        (workerStep drain tools mode worker files).2 =
      worker.outcome drain tools mode files := by
  obtain ⟨scope, pending, manager, collected, failed⟩ := worker
  cases failed with
  | some e => rfl
  | none =>
  cases pending with
  | nil => rfl
  | cons item rest =>
  obtain ⟨index, record⟩ := item
  cases hmessage : record.messageCore with
  | none =>
      simp only [workerStep, Worker.outcome, hmessage, mineRecords_cons, mineTemplateEvent]
      rfl
  | some message =>
  cases hmanager : manager (minerKey scope record) with
  | none =>
      cases hload : drain.load (files (stateFile (minerKey scope record))) with
      | none =>
          simp only [workerStep, Worker.outcome, hmessage, hmanager, hload, mineRecords_cons,
            mineTemplateEvent, getMiner]
          rfl
      | some miner =>
          simp only [workerStep, Worker.outcome, hmessage, hmanager, hload, mineRecords_cons,
            mineTemplateEvent_update hmanager hload]
  | some miner =>
      simp only [workerStep, Worker.outcome, hmessage, hmanager, mineRecords_cons,
        mineTemplateEvent, getMiner]
      generalize observe drain tools mode scope manager files record message miner = a
      obtain ⟨next, result⟩ := a
      cases result with
      | error e => rfl
      | ok value =>
          obtain ⟨event, after⟩ := value
          dsimp only
          generalize mineRecords drain tools mode scope rest after next = b
          obtain ⟨last, outcome⟩ := b
          cases outcome with
          | error e => rfl
          | ok events => simp [Except.map]

variable (drain tools mode) in
/-- A step stays within the partition and writes its file alone. -/
theorem workerStep_within {worker : Worker σ ρ} {key : Key} (files : Files φ)
    (hkey : Belongs worker.scope key worker.pending) :
    (workerStep drain tools mode worker files).1.scope = worker.scope ∧
      Belongs worker.scope key (workerStep drain tools mode worker files).1.pending ∧
        SameOff key (workerStep drain tools mode worker files).2 files := by
  obtain ⟨scope, pending, manager, collected, failed⟩ := worker
  cases failed with
  | some e => exact ⟨rfl, hkey, fun _ _ => rfl⟩
  | none =>
  cases pending with
  | nil => exact ⟨rfl, hkey, fun _ _ => rfl⟩
  | cons item rest =>
  obtain ⟨index, record⟩ := item
  have hhead : minerKey scope record = key := hkey _ List.mem_cons_self
  unfold workerStep
  dsimp only at hkey ⊢
  split
  · exact ⟨rfl, hkey, fun _ _ => rfl⟩
  · rename_i message _
    split
    · split
      · exact ⟨rfl, hkey, fun _ _ => rfl⟩
      · exact ⟨rfl, hkey, fun _ _ => rfl⟩
    · rename_i miner _
      have hoff := observe_files drain tools mode scope manager files record message miner
      rw [hhead] at hoff
      split
      · rename_i heq
        rw [heq] at hoff
        exact ⟨rfl, hkey, hoff⟩
      · rename_i heq
        rw [heq] at hoff
        exact ⟨rfl, hkey.tail, hoff⟩

/-- The worker is on its way to what its partition is mined to alone. -/
structure Tracks (drain : Drain σ φ) (tools : Tools ρ) (mode : ParameterMode)
    (start files : Files φ) (part : Part) (worker : Worker σ ρ) : Prop where
  belongs : Belongs worker.scope part.key worker.pending
  outcome : worker.outcome drain tools mode files = alone drain tools mode start part

theorem Tracks.congr {start files files' : Files φ} {part : Part} {worker : Worker σ ρ}
    (h : Tracks drain tools mode start files part worker) (hsame : SameAt part.key files' files) :
    Tracks drain tools mode start files' part worker :=
  ⟨h.belongs, (outcome_congr h.belongs hsame).trans h.outcome⟩

theorem Tracks.step {start files : Files φ} {part : Part} {worker : Worker σ ρ}
    (h : Tracks drain tools mode start files part worker) :
    Tracks drain tools mode start (workerStep drain tools mode worker files).2 part
      (workerStep drain tools mode worker files).1 := by
  obtain ⟨hscope, hbelongs, -⟩ := workerStep_within drain tools mode files h.belongs
  exact ⟨by rwa [hscope], (workerStep_outcome worker files).trans h.outcome⟩

theorem tracks_start (start : Files φ) (part : Part) :
    Tracks drain tools mode start start part
      { scope := part.scope, pending := part.records } := by
  refine ⟨part.belongs, ?_⟩
  unfold Worker.outcome alone mineIndexedPartition
  dsimp only
  cases (mineRecords drain tools mode part.scope part.records (fun _ => none) start).2 with
  | error e => rfl
  | ok events => rfl

/-- Every worker of the pool is on its way. -/
def PoolTracks (drain : Drain σ φ) (tools : Tools ρ) (mode : ParameterMode) (start : Files φ)
    (parts : List Part) (pool : Pool σ φ ρ) : Prop :=
  List.Forall₂ (Tracks drain tools mode start pool.files) parts pool.workers

variable (drain tools mode) in
/-- Whoever takes a step, every worker stays on its way. -/
theorem poolStep_tracks {start : Files φ} {parts : List Part} (hapart : Apart parts)
    {pool : Pool σ φ ρ} (h : PoolTracks drain tools mode start parts pool) (i : ℕ) :
    PoolTracks drain tools mode start parts (poolStep drain tools mode pool i) := by
  unfold poolStep
  cases hworker : pool.workers[i]? with
  | none => exact h
  | some worker =>
  dsimp only
  unfold PoolTracks at h ⊢
  dsimp only
  rw [List.forall₂_iff_get] at h ⊢
  obtain ⟨hlength, h⟩ := h
  obtain ⟨hi, rfl⟩ := List.getElem?_eq_some_iff.mp hworker
  have hpi : i < parts.length := hlength ▸ hi
  refine ⟨by rw [List.length_set, hlength], fun j hj hj' => ?_⟩
  have hj'' : j < pool.workers.length := by rwa [List.length_set] at hj'
  have hmoved : Tracks drain tools mode start pool.files parts[i] pool.workers[i] := h i hpi hi
  by_cases hij : i = j
  · subst hij
    have hself : (pool.workers.set i (workerStep drain tools mode pool.workers[i] pool.files).1).get
        ⟨i, hj'⟩ = (workerStep drain tools mode pool.workers[i] pool.files).1 :=
      List.getElem_set_self ..
    rw [hself]
    exact hmoved.step
  · have hother : (pool.workers.set i (workerStep drain tools mode pool.workers[i] pool.files).1).get
        ⟨j, hj'⟩ = pool.workers[j] := List.getElem_set_ne hij ..
    rw [hother]
    refine (h j hj hj'').congr ?_
    have hdiff : stateFile parts[j].key ≠ stateFile parts[i].key := by
      rcases lt_or_gt_of_ne hij with hlt | hgt
      · exact (List.pairwise_iff_getElem.mp hapart i j hpi hj hlt).symm
      · exact List.pairwise_iff_getElem.mp hapart j i hj hpi hgt
    exact (workerStep_within drain tools mode pool.files hmoved.belongs).2.2 _ hdiff

/-- In the pool too, whatever the schedule. -/
theorem minePool_eq_ok {parts : List Part} (hapart : Apart parts) {schedule : List ℕ}
    {start : Files φ} {results : List (List (ℕ × Event ρ))}
    (h : minePool drain tools mode (parts.map Part.work) schedule start = .ok results) :
    parts.mapM (alone drain tools mode start) = .ok results := by
  have hstart : PoolTracks drain tools mode start parts
      ⟨(parts.map Part.work).map fun part => { scope := part.1, pending := part.2 }, start⟩ := by
    unfold PoolTracks
    rw [List.map_map, List.forall₂_map_right_iff, List.forall₂_same]
    exact fun part _ => tracks_start start part
  have hstep : ∀ (pool : Pool σ φ ρ) (i : ℕ), PoolTracks drain tools mode start parts pool →
      PoolTracks drain tools mode start parts (poolStep drain tools mode pool i) :=
    fun pool i hpool => poolStep_tracks drain tools mode hapart hpool i
  have hrun := exec_invariant' hstep hstart schedule
  unfold minePool at h
  dsimp only at h
  unfold exec at hrun
  generalize schedule.foldl (poolStep drain tools mode) _ = pool at h hrun
  rw [mapM_eq_ok] at h ⊢
  unfold PoolTracks at hrun
  rw [List.forall₂_iff_get] at h hrun ⊢
  refine ⟨hrun.1.trans h.1, fun i hi hi' => ?_⟩
  have hiw : i < pool.workers.length := hrun.1 ▸ hi
  have htracks := hrun.2 i hi hiw
  have hresult := h.2 i hiw hi'
  rw [← htracks.outcome]
  generalize pool.workers.get ⟨i, hiw⟩ = worker at hresult
  unfold Worker.result at hresult
  unfold Worker.outcome
  split at hresult
  · cases hresult
  · rename_i hfailed hpending
    rw [hfailed, hpending]
    obtain hcollected := Except.ok.inj hresult
    unfold mineRecords
    simp [Except.map, hcollected]
  · cases hresult

/-! ## The partitions of a call -/

@[simp] theorem map_snd_enumerate (records : List Record) :
    (enumerate records).map Prod.snd = records := by
  unfold enumerate
  rw [List.map_map]
  exact List.zipIdx_map_fst 0 records

@[simp] theorem map_fst_enumerate (records : List Record) :
    (enumerate records).map Prod.fst = List.range records.length := by
  unfold enumerate
  rw [List.map_map, List.range_eq_range']
  exact List.zipIdx_map_snd 0 records

theorem belongs_of_mem {records : List Record} {byNode : Bool} {item : Key × List (ℕ × Record)}
    (h : item ∈ (partitionsOf records byNode).entries) :
    Belongs (stateScope byNode item.1) item.1 item.2 := by
  intro record hrecord
  rw [Dict.get?_groupBy (Dict.get?_eq_some.mpr h)] at hrecord
  exact minerKey_stateScope (of_decide_eq_true (List.mem_filter.mp hrecord).2)

/-- The partitions of the records. -/
def partsOf (records : List Record) (byNode : Bool) : List Part :=
  (partitionsOf records byNode).entries.pmap
    (fun item h => ⟨item.1, stateScope byNode item.1, item.2, belongs_of_mem h⟩) fun _ h => h

theorem partsOf_work (records : List Record) (byNode : Bool) :
    (partsOf records byNode).map Part.work = (partitionsOf records byNode).entries.map
      fun item => (stateScope byNode item.1, item.2) := by
  unfold partsOf Part.work
  rw [List.map_pmap]
  dsimp only
  exact List.pmap_eq_map ..

theorem partsOf_key (records : List Record) (byNode : Bool) :
    (partsOf records byNode).map Part.key = (partitionsOf records byNode).keys := by
  unfold partsOf
  rw [List.map_pmap]
  exact List.pmap_eq_map ..

theorem partsOf_records (records : List Record) (byNode : Bool) :
    (partsOf records byNode).map Part.records = (partitionsOf records byNode).values := by
  unfold partsOf
  rw [List.map_pmap]
  exact List.pmap_eq_map ..

theorem mem_keys_partitionsOf {records : List Record} {byNode : Bool} {key : Key} :
    key ∈ (partitionsOf records byNode).keys ↔
      ∃ record ∈ records, miningPartitionKey record byNode = key := by
  unfold partitionsOf
  rw [Dict.mem_keys_groupBy]
  constructor
  · rintro ⟨item, hitem, hkey⟩
    refine ⟨item.2, ?_, hkey⟩
    have hmem := List.mem_map_of_mem (f := Prod.snd) hitem
    rwa [map_snd_enumerate] at hmem
  · rintro ⟨record, hrecord, hkey⟩
    rw [← map_snd_enumerate records] at hrecord
    obtain ⟨item, hitem, rfl⟩ := List.mem_map.mp hrecord
    exact ⟨item, hitem, hkey⟩

/-- A partition has the key of a record, and holds the records of this key. -/
theorem of_mem_partsOf {records : List Record} {byNode : Bool} {part : Part}
    (h : part ∈ partsOf records byNode) :
    (∃ record ∈ records, miningPartitionKey record byNode = part.key) ∧
      part.scope = stateScope byNode part.key ∧
        part.records = (enumerate records).filter fun item =>
          decide (miningPartitionKey item.2 byNode = part.key) := by
  obtain ⟨item, hitem, rfl⟩ := List.mem_pmap.mp h
  have hget := Dict.get?_eq_some.mpr hitem
  exact ⟨mem_keys_partitionsOf.mp (Dict.mem_keys_of_get? hget), rfl, Dict.get?_groupBy hget⟩

/-- The partition of a record's key. -/
theorem exists_part {records : List Record} {record : Record} (h : record ∈ records)
    (byNode : Bool) :
    ∃ part ∈ partsOf records byNode, part.key = miningPartitionKey record byNode := by
  have hkey : miningPartitionKey record byNode ∈ (partsOf records byNode).map Part.key := by
    rw [partsOf_key]
    exact mem_keys_partitionsOf.mpr ⟨record, h, rfl⟩
  exact List.mem_map.mp hkey

theorem perm_positions (records : List Record) (byNode : Bool) :
    ((((partsOf records byNode).map Part.records).flatten).map Prod.fst).Perm
      (List.range records.length) := by
  rw [partsOf_records, ← map_fst_enumerate]
  exact (Dict.flatten_values_groupBy _ _).map _

/-! ## The events of a call -/

/-- The events of a partition carry the positions of its records. -/
theorem mineRecords_fst {records : List (ℕ × Record)} {manager : Manager σ} {files : Files φ}
    {events : List (ℕ × Event ρ)}
    (h : (mineRecords drain tools mode scope records manager files).2 = .ok events) :
    events.map Prod.fst = records.map Prod.fst := by
  obtain ⟨events', h', -, hfst⟩ := mineRecords_positions rfl h
  obtain rfl : events = events' := Except.ok.inj (h.symm.trans h')
  exact hfst

/-- Every event lies at the position of its record. -/
theorem assembled {parts : List Part} {n : ℕ} {collected : List (List (ℕ × Event ρ))}
    (hpositions : (((parts.map Part.records).flatten).map Prod.fst).Perm (List.range n))
    (h : List.Forall₂ (fun part own => own.map Prod.fst = part.records.map Prod.fst) parts
      collected) :
    ∃ events, (scatter n collected.flatten).reduceOption = events ∧ events.length = n ∧
      List.Forall₂ (fun part own =>
        part.records.filterMap (fun item => events[item.1]?) = own.map Prod.snd) parts collected := by
  have hfst : (collected.flatten).map Prod.fst = ((parts.map Part.records).flatten).map Prod.fst := by
    clear hpositions
    induction h with
    | nil => rfl
    | cons hpart _ ih =>
        rw [List.map_cons, List.flatten_cons, List.flatten_cons, List.map_append, List.map_append,
          ih, hpart]
  obtain ⟨events, hlength, hscatter, hget⟩ := exists_of_scatter (hfst ▸ hpositions)
  refine ⟨events, ?_, hlength, ?_⟩
  · rw [hscatter]
    unfold List.reduceOption
    rw [List.filterMap_map]
    exact List.filterMap_some
  · rw [List.forall₂_iff_get] at h ⊢
    refine ⟨h.1, fun i hi hi' => ?_⟩
    have hmem : ∀ p ∈ collected.get ⟨i, hi'⟩, events[p.1]? = some p.2 := fun p hp =>
      hget _ _ (List.mem_flatten.mpr ⟨_, List.get_mem _ _, hp⟩)
    have hown := h.2 i hi hi'
    generalize parts.get ⟨i, hi⟩ = part at hown
    generalize collected.get ⟨i, hi'⟩ = own at hmem hown
    calc
      part.records.filterMap (fun item => events[item.1]?)
          = (part.records.map Prod.fst).filterMap (fun n => events[n]?) :=
            List.filterMap_map.symm
      _ = (own.map Prod.fst).filterMap (fun n => events[n]?) := by rw [hown]
      _ = own.filterMap fun p => events[p.1]? := List.filterMap_map
      _ = own.filterMap (some ∘ Prod.snd) := List.filterMap_congr hmem
      _ = own.map Prod.snd := by rw [List.filterMap_eq_map]

/-- The same for partitions that are mined as if alone. -/
theorem assembled_alone {parts : List Part} {files : Files φ} {n : ℕ}
    {collected : List (List (ℕ × Event ρ))}
    (hpositions : (((parts.map Part.records).flatten).map Prod.fst).Perm (List.range n))
    (h : List.Forall₂ (fun part own => alone drain tools mode files part = .ok own) parts
      collected) :
    ∃ events, (scatter n collected.flatten).reduceOption = events ∧ events.length = n ∧
      ∀ part ∈ parts, ∃ own, alone drain tools mode files part = .ok own ∧
        part.records.filterMap (fun item => events[item.1]?) = own.map Prod.snd := by
  obtain ⟨events, hevents, hlength, hall⟩ :=
    assembled hpositions (h.imp fun _ _ hown => mineRecords_fst hown)
  refine ⟨events, hevents, hlength, fun part hpart => ?_⟩
  obtain ⟨i, hi, rfl⟩ := List.getElem_of_mem hpart
  rw [List.forall₂_iff_get] at h hall
  exact ⟨_, h.2 i hi (h.1 ▸ hi), hall.2 i hi (h.1 ▸ hi)⟩

theorem stateFile_eq_iff {a b : Key} : stateFile a = stateFile b ↔ safe a = safe b := by
  unfold stateFile
  exact ⟨String.append_left_inj .. |>.mp, fun h => by rw [h]⟩

/-- Distinct partition keys of the records stay distinct when `/` and the blank become `_`
in their parts and the parts are joined by `__`. -/
def NamesApart (records : List Record) (byNode : Bool) : Prop :=
  ∀ a ∈ records, ∀ b ∈ records, miningPartitionKey a byNode ≠ miningPartitionKey b byNode →
    safe (miningPartitionKey a byNode) ≠ safe (miningPartitionKey b byNode)

theorem apart_of_namesApart {records : List Record} {byNode : Bool}
    (h : NamesApart records byNode) : Apart (partsOf records byNode) := by
  have hnodup : ((partsOf records byNode).map Part.key).Nodup := by
    rw [partsOf_key]
    exact (partitionsOf records byNode).nodup
  refine (List.pairwise_map.mp hnodup).imp_of_mem fun {a b} ha hb hne hfile => ?_
  obtain ⟨⟨ra, hra, hka⟩, -⟩ := of_mem_partsOf ha
  obtain ⟨⟨rb, hrb, hkb⟩, -⟩ := of_mem_partsOf hb
  rw [← hka, ← hkb] at hne hfile
  exact h ra hra rb hrb hne (stateFile_eq_iff.mp hfile)

/-- A call that returns has mined every partition as if it were alone. -/
theorem mineTemplateEvents_eq_ok {options : MiningOptions} {machine : Machine} {files : Files φ}
    {records : List Record} {events : List (Event ρ)} {metadata : Metadata}
    (hapart : Apart (partsOf records options.partitionByNode))
    (h : mineTemplateEvents drain tools options machine files records = .ok (events, metadata)) :
    ∃ collected, List.Forall₂ (fun part own =>
        alone drain tools options.parameterExtractionMode files part = .ok own)
      (partsOf records options.partitionByNode) collected ∧
        (scatter records.length collected.flatten).reduceOption = events := by
  unfold mineTemplateEvents at h
  rw [← partsOf_work] at h
  dsimp only at h
  split at h
  · obtain ⟨collected, hcollected, h⟩ := bind_eq_ok.mp h
    exact ⟨collected, mapM_eq_ok.mp (minePool_eq_ok hapart hcollected),
      congrArg Prod.fst (pure_eq_ok.mp h)⟩
  · obtain ⟨collected, hcollected, h⟩ := bind_eq_ok.mp h
    rw [mineSerial_eq hapart fun _ _ => rfl] at hcollected
    exact ⟨collected, mapM_eq_ok.mp hcollected, congrArg Prod.fst (pure_eq_ok.mp h)⟩

/-- A call with one worker at most returns when every partition does. -/
theorem mineTemplateEvents_serial {options : MiningOptions} {machine : Machine} {files : Files φ}
    {records : List Record} {collected : List (List (ℕ × Event ρ))}
    (hapart : Apart (partsOf records options.partitionByNode))
    (hworkers : effectiveWorkers options machine
      (partsOf records options.partitionByNode).length ≤ 1)
    (h : (partsOf records options.partitionByNode).mapM
      (alone drain tools options.parameterExtractionMode files) = .ok collected) :
    ∃ metadata, mineTemplateEvents drain tools options machine files records =
      .ok ((scatter records.length collected.flatten).reduceOption, metadata) := by
  unfold mineTemplateEvents
  rw [← partsOf_work]
  dsimp only
  rw [List.length_map, if_neg (not_lt.mpr hworkers), mineSerial_eq hapart fun _ _ => rfl, h]
  exact ⟨_, rfl⟩

theorem effectiveWorkers_one (options : MiningOptions) (machine : Machine) :
    effectiveWorkers options machine 1 ≤ 1 := by
  unfold effectiveWorkers
  rw [if_neg Nat.one_ne_zero]
  exact (min_le_right _ _).trans (min_le_right _ _)

/-- Records of one key make one partition. -/
theorem partsOf_of_key {records : List Record} {byNode : Bool} {key : Key} (hne : records ≠ [])
    (hkey : ∀ record ∈ records, miningPartitionKey record byNode = key) :
    ∃ part, partsOf records byNode = [part] ∧ part.scope = stateScope byNode key ∧
      part.records = enumerate records := by
  have hkeys : (partitionsOf records byNode).keys = [key] := by
    obtain ⟨record, hrecord⟩ := List.exists_mem_of_ne_nil records hne
    have hall : ∀ k ∈ (partitionsOf records byNode).keys, k = key := by
      intro k hk
      obtain ⟨r, hr, rfl⟩ := mem_keys_partitionsOf.mp hk
      exact hkey r hr
    have hmem : key ∈ (partitionsOf records byNode).keys :=
      mem_keys_partitionsOf.mpr ⟨record, hrecord, hkey record hrecord⟩
    have hnodup : (partitionsOf records byNode).keys.Nodup := (partitionsOf records byNode).nodup
    generalize (partitionsOf records byNode).keys = keys at hall hmem hnodup
    match keys with
    | [k] => rw [hall k List.mem_cons_self]
    | a :: b :: rest =>
        have hab : a = b := (hall a List.mem_cons_self).trans
          (hall b (List.mem_cons_of_mem _ List.mem_cons_self)).symm
        exact absurd (hab ▸ List.mem_cons_self) (List.nodup_cons.mp hnodup).1
  obtain ⟨group, hgroup⟩ : ∃ group, (partitionsOf records byNode).entries = [(key, group)] := by
    unfold Dict.keys at hkeys
    obtain ⟨item, hitem, hfst⟩ := List.map_eq_singleton_iff.mp hkeys
    exact ⟨item.2, by rw [hitem, ← hfst]⟩
  have hrecords : group = enumerate records := by
    have hget : (partitionsOf records byNode).get? key = some group :=
      Dict.get?_eq_some.mpr (hgroup ▸ List.mem_singleton_self _)
    rw [Dict.get?_groupBy hget, List.filter_eq_self]
    intro item hitem
    have hmem := List.mem_map_of_mem (f := Prod.snd) hitem
    rw [map_snd_enumerate] at hmem
    exact decide_eq_true (hkey _ hmem)
  refine ⟨⟨key, stateScope byNode key, group, ?_⟩, ?_, rfl, hrecords⟩
  · exact @belongs_of_mem _ _ (key, group) (hgroup ▸ List.mem_singleton_self _)
  · unfold partsOf
    simp only [hgroup, List.pmap_cons, List.pmap_nil]

theorem map_snd_filter (records : List Record) (p : Record → Bool) :
    ((enumerate records).filter fun item => p item.2).map Prod.snd = records.filter p := by
  have hmap := List.filter_map (f := Prod.snd) (p := p) (l := enumerate records)
  rw [map_snd_enumerate] at hmap
  exact hmap.symm

/-- The records of the partition that the record belongs to. -/
def partition (records : List Record) (byNode : Bool) (record : Record) : List Record :=
  records.filter fun other =>
    decide (miningPartitionKey other byNode = miningPartitionKey record byNode)

/-- The events at the input positions of these records. -/
def eventsOf (records : List Record) (byNode : Bool) (record : Record)
    (events : List (Event ρ)) : List (Event ρ) :=
  ((enumerate records).filter fun item =>
    decide (miningPartitionKey item.2 byNode = miningPartitionKey record byNode)).filterMap
      fun item => events[item.1]?

theorem filterMap_getElem? {α : Type} (l : List α) :
    (List.range l.length).filterMap (fun i => l[i]?) = l := by
  induction l with
  | nil => rfl
  | cons a l ih =>
      have hhead : (a :: l)[0]? = some a := rfl
      rw [List.length_cons, List.range_succ_eq_map, List.filterMap_cons, hhead, List.filterMap_map]
      exact congrArg (a :: ·) ih

/-- A single partition is put back as it was mined. -/
theorem assembled_single {records : List Record} {own : List (ℕ × Event ρ)}
    (h : own.map Prod.fst = (enumerate records).map Prod.fst) :
    (scatter records.length [own].flatten).reduceOption = own.map Prod.snd := by
  have hpositions : (own.map Prod.fst).Perm (List.range records.length) := by
    rw [h, map_fst_enumerate]
  obtain ⟨events, hlength, hscatter, hget⟩ := exists_of_scatter hpositions
  have hevents : (scatter records.length [own].flatten).reduceOption = events := by
    rw [List.flatten_singleton, hscatter]
    unfold List.reduceOption
    rw [List.filterMap_map]
    exact List.filterMap_some
  rw [hevents]
  calc
    events = (List.range events.length).filterMap (fun i => events[i]?) :=
      (filterMap_getElem? events).symm
    _ = (own.map Prod.fst).filterMap fun i => events[i]? := by rw [hlength, h, map_fst_enumerate]
    _ = own.filterMap fun p => events[p.1]? := List.filterMap_map
    _ = own.filterMap (some ∘ Prod.snd) := List.filterMap_congr fun p hp => hget _ _ hp
    _ = own.map Prod.snd := by rw [List.filterMap_eq_map]

/-- Where the names are apart, a call returns for each partition what a call on its
records alone returns, whatever the machines do and the worker counts are. -/
theorem isolated_of_apart {options options' : MiningOptions} {machine machine' : Machine}
    {files : Files φ} {records : List Record} {events : List (Event ρ)} {metadata : Metadata}
    {record : Record} (hapart : NamesApart records options.partitionByNode)
    (h : mineTemplateEvents drain tools options machine files records = .ok (events, metadata))
    (hrecord : record ∈ records)
    (hnode : options'.partitionByNode = options.partitionByNode)
    (hmode : options'.parameterExtractionMode = options.parameterExtractionMode) :
    ∃ metadata', mineTemplateEvents drain tools options' machine' files
        (partition records options.partitionByNode record) =
      .ok (eventsOf records options.partitionByNode record events, metadata') := by
  obtain ⟨collected, hcollected, rfl⟩ :=
    mineTemplateEvents_eq_ok (apart_of_namesApart hapart) h
  obtain ⟨events, hevents, -, hown⟩ := assembled_alone (perm_positions _ _) hcollected
  obtain ⟨part, hpart, hkey⟩ := exists_part hrecord options.partitionByNode
  obtain ⟨-, hscope, hrecords⟩ := of_mem_partsOf hpart
  rw [hkey] at hrecords
  obtain ⟨own, halone, hmap⟩ := hown part hpart
  rw [hevents]
  have hof : eventsOf records options.partitionByNode record events = own.map Prod.snd := by
    unfold eventsOf
    rw [← hrecords, hmap]
  have hne : partition records options.partitionByNode record ≠ [] :=
    List.ne_nil_of_mem (List.mem_filter.mpr ⟨hrecord, decide_eq_true rfl⟩)
  have hkeys : ∀ other ∈ partition records options.partitionByNode record,
      miningPartitionKey other options'.partitionByNode =
        miningPartitionKey record options.partitionByNode := by
    intro other hother
    rw [hnode]
    exact of_decide_eq_true (List.mem_filter.mp hother).2
  obtain ⟨single, hsingle, hscope', hrecords'⟩ := partsOf_of_key hne hkeys
  -- the records of the partition, wherever they are counted from
  have hsame : part.records.map Prod.snd = single.records.map Prod.snd := by
    rw [hrecords, hrecords', map_snd_enumerate]
    exact (map_snd_filter records fun other => decide (miningPartitionKey other
      options.partitionByNode = miningPartitionKey record options.partitionByNode))
  obtain ⟨own', halone', hsnd, hfst⟩ := mineRecords_positions hsame halone
  have hsingleAlone : alone drain tools options'.parameterExtractionMode files single = .ok own' := by
    unfold alone mineIndexedPartition
    rwa [hscope', hnode, ← hkey, ← hscope, hmode]
  have hmapM : (partsOf (partition records options.partitionByNode record)
      options'.partitionByNode).mapM (alone drain tools options'.parameterExtractionMode files) =
        .ok [own'] := by
    rw [hsingle, mapM_eq_ok]
    exact .cons hsingleAlone .nil
  have hworkers : effectiveWorkers options' machine' (partsOf (partition records
      options.partitionByNode record) options'.partitionByNode).length ≤ 1 := by
    rw [hsingle]
    exact effectiveWorkers_one options' machine'
  have hone : Apart (partsOf (partition records options.partitionByNode record)
      options'.partitionByNode) := by
    rw [hsingle]
    exact List.pairwise_singleton ..
  obtain ⟨metadata', hcall⟩ := mineTemplateEvents_serial hone hworkers hmapM
  refine ⟨metadata', ?_⟩
  rw [hcall, hof, ← hsnd, assembled_single (hfst.trans (by rw [hrecords']))]

end LogRisk.Mining
