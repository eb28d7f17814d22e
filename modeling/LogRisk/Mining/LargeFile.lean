import LogRisk.Library.Checks
import LogRisk.Mining.SpooledWindows
import LogRisk.Windows.Split

/-!
# A large input agrees with its records in memory

Spooling, the bounded pool of processes and the order of the partitions leave no trace
in the windows: they are those of the same records mined and aggregated in memory.
-/

namespace LogRisk.Mining

open LogRisk.Library LogRisk.Library.LineFiles LogRisk.Library.Transaction LogRisk.Windows

variable {ν ρ σ φ α ε : Type} {sha256 : String → String} {recordFormat : Format Record}
  {eventFormat : Format (Event ρ)} {spoolOptions : SpoolOptions} {handed : ℕ → ℕ}
  {prepare : α → Except ε Record} {drain : Drain σ φ} {snapshot : σ → φ} {tools : Tools ρ}
  {mode : ParameterMode} {read : EventReader ν ρ} {settings : Settings} {records : List Record}
  {spool : Folder}

/-! ## The partitions of the manifest -/

/-- The records of a partition. -/
def groupOf (options : SpoolOptions) (records : List Record) (key : Key) : List Record :=
  records.filter fun r => decide (keyOf options r = key)

/-- Every partition's file holds the lines of its records. -/
def Spooled (sha256 : String → String) (recordFormat : Format Record) (options : SpoolOptions)
    (records : List Record) (spool : Folder) : Prop :=
  ∀ key, (∃ r ∈ records, keyOf options r = key) →
    spool (partitionFile sha256 key) = some (recordFormat.text (groupOf options records key))

theorem scopeOf_keyOf (options : SpoolOptions) (record : Record) :
    scopeOf (keyOf options record) = stateScope options.partitionByNode (keyOf options record) := by
  unfold scopeOf stateScope keyOf miningPartitionKey
  cases options.partitionByNode <;> rfl

def filePart (hspool : Spooled sha256 recordFormat spoolOptions records spool) (key : Key)
    (hkey : ∃ r ∈ records, keyOf spoolOptions r = key) : FilePart recordFormat spool where
  key := key
  scope := stateScope spoolOptions.partitionByNode key
  records := enumerate (groupOf spoolOptions records key)
  belongs := by
    intro item hitem
    have hmem := List.mem_map_of_mem (f := Prod.snd) hitem
    rw [map_snd_enumerate] at hmem
    exact minerKey_stateScope (of_decide_eq_true (List.mem_filter.mp hmem).2)
  task := taskOf (entryWith sha256 key (groupOf spoolOptions records key).length)
  scope_eq := by
    obtain ⟨r, -, rfl⟩ := hkey
    exact scopeOf_keyOf spoolOptions r
  counted := by
    rw [map_fst_enumerate]
    unfold enumerate
    rw [List.length_map, List.length_zipIdx]
  spooled := by
    rw [map_snd_enumerate]
    exact hspool key hkey

/-- The files of the manifest, in its order. -/
def fileParts (hspool : Spooled sha256 recordFormat spoolOptions records spool) :
    List (FilePart recordFormat spool) :=
  (sortedKeys spoolOptions records).pmap (filePart hspool) fun _ h => mem_sortedKeys.mp h

section Parts

variable (hspool : Spooled sha256 recordFormat spoolOptions records spool)

theorem fileParts_key : (fileParts hspool).map (fun part => part.key) =
    sortedKeys spoolOptions records := by
  unfold fileParts
  rw [List.map_pmap]
  exact (List.pmap_eq_map ..).trans (List.map_id _)

theorem fileParts_task : (fileParts hspool).map FilePart.task =
    (manifestFor sha256 spoolOptions records).partitions.map taskOf := by
  unfold fileParts manifestFor
  rw [List.map_pmap, List.map_map]
  exact List.pmap_eq_map ..

theorem of_mem_fileParts {part : FilePart recordFormat spool} (h : part ∈ fileParts hspool) :
    (∃ r ∈ records, keyOf spoolOptions r = part.key) ∧
      part.scope = stateScope spoolOptions.partitionByNode part.key ∧
        part.records = enumerate (groupOf spoolOptions records part.key) ∧
          part.task.outputPath = partitionFile sha256 part.key := by
  obtain ⟨key, hkey, rfl⟩ := List.mem_pmap.mp h
  exact ⟨mem_sortedKeys.mp hkey, rfl, rfl, rfl⟩

theorem fileParts_differ (hnames : NamesApart records spoolOptions.partitionByNode)
    (hfiles : FilesApart sha256 spoolOptions records) : FilesDiffer (fileParts hspool) := by
  have hnodup : ((fileParts hspool).map fun part => part.key).Nodup := by
    rw [fileParts_key]
    exact nodup_sortedKeys records
  refine (List.pairwise_map.mp hnodup).imp_of_mem fun {a b} ha hb hne => ?_
  obtain ⟨⟨ra, hra, hka⟩, -, -, houta⟩ := of_mem_fileParts hspool ha
  obtain ⟨⟨rb, hrb, hkb⟩, -, -, houtb⟩ := of_mem_fileParts hspool hb
  rw [houta, houtb]
  rw [← hka, ← hkb] at hne ⊢
  exact ⟨fun h => hnames ra hra rb hrb hne (stateFile_eq_iff.mp h),
    fun h => hne (hfiles ra hra rb hrb (partitionFile_eq_iff.mp h))⟩

/-- Where the records of two partitions are the same, so are their events. -/
theorem alone_same {files : Files φ} {a b : Part} (hscope : a.scope = b.scope)
    (hrecords : a.records.map Prod.snd = b.records.map Prod.snd) {own : List (ℕ × Event ρ)}
    (h : alone drain tools mode files a = .ok own) :
    ∃ own', alone drain tools mode files b = .ok own' ∧ own'.map Prod.snd = own.map Prod.snd := by
  unfold alone mineIndexedPartition at h ⊢
  rw [hscope] at h
  obtain ⟨own', hown', hsnd, -⟩ := mineRecords_positions hrecords h
  exact ⟨own', hown', hsnd⟩

/-- A partition's file holds the records it has in memory. -/
theorem filePart_same {part : Part} {file : FilePart recordFormat spool}
    (hpart : part ∈ partsOf records spoolOptions.partitionByNode) (hfile : file ∈ fileParts hspool)
    (hkey : file.key = part.key) :
    part.scope = file.scope ∧ part.records.map Prod.snd = file.records.map Prod.snd := by
  obtain ⟨-, hscope, hrecords⟩ := of_mem_partsOf hpart
  obtain ⟨-, hscope', hrecords', -⟩ := of_mem_fileParts hspool hfile
  rw [hscope, hscope', hrecords, hrecords', map_snd_enumerate, hkey]
  exact ⟨rfl, map_snd_filter records fun r =>
    decide (miningPartitionKey r spoolOptions.partitionByNode = part.key)⟩

/-- The file of a partition in memory. -/
theorem exists_filePart {part : Part} (h : part ∈ partsOf records spoolOptions.partitionByNode) :
    ∃ file ∈ fileParts hspool, file.key = part.key := by
  obtain ⟨hkey, -, -⟩ := of_mem_partsOf h
  have hmem : part.key ∈ (fileParts hspool).map fun file => file.key := by
    rw [fileParts_key]
    exact mem_sortedKeys.mpr hkey
  exact List.mem_map.mp hmem

theorem exists_partOf {file : FilePart recordFormat spool} (h : file ∈ fileParts hspool) :
    ∃ part ∈ partsOf records spoolOptions.partitionByNode, file.key = part.key := by
  obtain ⟨⟨r, hr, hkey⟩, -, -, -⟩ := of_mem_fileParts hspool h
  obtain ⟨part, hpart, hsame⟩ := exists_part hr spoolOptions.partitionByNode
  exact ⟨part, hpart, hkey.symm.trans hsame.symm⟩

end Parts

/-! ## A call on the files -/

section Call

variable {eventFormat : Format (Event ρ)} {options : MiningOptions}

/-- What a call on the spooled files returns: the events of each partition mined alone, in the
order of the manifest. -/
theorem mineSpooledPartitions_eq_ok
    (hspool : Spooled sha256 recordFormat spoolOptions records spool)
    (hdiffer : FilesDiffer (fileParts hspool)) {machine : FileMachine} {disk : Disk φ}
    {events : List (Event ρ)} {metadata : Metadata} {count : ℕ}
    (h : mineSpooledPartitions drain snapshot tools mode recordFormat eventFormat spool options
      machine (manifestFor sha256 spoolOptions records) disk = .ok (events, metadata, count)) :
    ∃ collected, List.Forall₂ (fun part own => alone drain tools mode disk.states part = .ok own)
        ((fileParts hspool).map FilePart.toPart) collected ∧
      events = (collected.map (List.map Prod.snd)).flatten ∧
        count = (collected.map List.length).sum ∧
          metadata.partitionCount = (fileParts hspool).length := by
  unfold mineSpooledPartitions at h
  rw [← fileParts_task hspool] at h
  dsimp only at h
  generalize hmined : (if 1 < effectiveWorkers options ⟨machine.cpuCount, []⟩
      ((fileParts hspool).map FilePart.task).length then _ else _ :
        Disk φ × Except SpoolError (List FileResult)) = mined at h
  obtain ⟨after, outcome⟩ := mined
  obtain ⟨results, hresults, h⟩ := bind_eq_ok.mp h
  obtain rfl : outcome = .ok results := hresults
  obtain ⟨events', hread, h⟩ := bind_eq_ok.mp h
  have hlanded : List.Forall₂ (Landed drain tools mode eventFormat disk.states after.events)
      (fileParts hspool) results := by
    split at hmined
    · exact poolFiles_landed hdiffer hmined
    · exact (mineFiles_landed hdiffer (fun _ _ => rfl) hmined).1
  obtain ⟨collected, hcollected, hevents, hcount⟩ := readEvents_landed hlanded
  obtain ⟨rfl, hrest⟩ := Prod.mk.inj (pure_eq_ok.mp h)
  obtain ⟨rfl, rfl⟩ := Prod.mk.inj hrest
  refine ⟨collected, hcollected, ?_, hcount, List.length_map _⟩
  rw [readEvents, hevents] at hread
  exact (Except.ok.inj hread).symm

theorem effectiveWorkers_le (options : MiningOptions) (machine : Machine) (n : ℕ) :
    effectiveWorkers options machine n ≤ max 1 options.workerCount := by
  unfold effectiveWorkers
  split
  · exact zero_le_one.trans (le_max_left _ _)
  · exact (min_le_left _ _).trans (min_le_left _ _)

/-- With one process a call returns when every partition can be mined. -/
theorem mineSpooledPartitions_returns
    (hspool : Spooled sha256 recordFormat spoolOptions records spool)
    (hdiffer : FilesDiffer (fileParts hspool)) {machine : FileMachine} {disk : Disk φ}
    (hworkers : options.workerCount ≤ 1)
    (halone : ∀ part ∈ fileParts hspool, ∃ own, alone drain tools mode disk.states part.toPart = .ok own) :
    ∃ result, mineSpooledPartitions drain snapshot tools mode recordFormat eventFormat spool options
      machine (manifestFor sha256 spoolOptions records) disk = .ok result := by
  obtain ⟨after, results, hmined⟩ : ∃ after results, mineFiles drain snapshot tools mode recordFormat
      eventFormat spool ((fileParts hspool).map FilePart.task) disk = (after, .ok results) :=
    mineFiles_returns hdiffer (fun _ _ => rfl) halone
  obtain ⟨hlanded, -⟩ := mineFiles_landed hdiffer (fun _ _ => rfl) hmined
  obtain ⟨collected, -, hevents, -⟩ := readEvents_landed hlanded
  unfold mineSpooledPartitions
  rw [← fileParts_task hspool]
  dsimp only
  rw [if_neg (not_lt.mpr ((effectiveWorkers_le options _ _).trans (max_le le_rfl hworkers))), hmined]
  dsimp only
  unfold readEvents
  simp only [hevents, bind, Except.bind]
  exact ⟨_, rfl⟩

end Call

/-! ## Both ways agree -/

/-- The events of a call on the files are those in memory, partition by partition. -/
theorem events_agree (hspool : Spooled sha256 recordFormat spoolOptions records spool)
    {files : Files φ} {collected : List (List (ℕ × Event ρ))}
    (hfiles : List.Forall₂ (fun part own => alone drain tools mode files part = .ok own)
      ((fileParts hspool).map FilePart.toPart) collected)
    {events : List (Event ρ)}
    (hevents : ∀ part ∈ partsOf records spoolOptions.partitionByNode,
      ∃ own, alone drain tools mode files part = .ok own ∧
        (events.filter fun e => decide (miningPartitionKey e.record spoolOptions.partitionByNode =
          part.key)) = own.map Prod.snd) :
    collected.map (List.map Prod.snd) = (sortedKeys spoolOptions records).map fun key =>
      events.filter fun e =>
        decide (miningPartitionKey e.record spoolOptions.partitionByNode = key) := by
  rw [← fileParts_key hspool, List.map_map]
  have hall : ∀ file ∈ fileParts hspool, ∀ own',
      alone drain tools mode files file.toPart = .ok own' → own'.map Prod.snd =
        events.filter fun e =>
          decide (miningPartitionKey e.record spoolOptions.partitionByNode = file.key) := by
    intro file hfile own' hown'
    obtain ⟨part, hpart, hkey⟩ := exists_partOf hspool hfile
    obtain ⟨own, hown, hfilter⟩ := hevents part hpart
    obtain ⟨hscope, hrecords⟩ := filePart_same hspool hpart hfile hkey
    obtain ⟨own'', hown'', hsnd⟩ := alone_same hscope hrecords hown
    obtain rfl : own'' = own' := Except.ok.inj (hown''.symm.trans hown')
    rw [hsnd, hkey, hfilter]
  revert hfiles hall
  generalize fileParts hspool = parts
  intro hfiles hall
  rw [List.forall₂_map_left_iff] at hfiles
  induction hfiles with
  | nil => rfl
  | cons hfirst _ ih =>
      rw [List.map_cons, List.map_cons, hall _ List.mem_cons_self _ hfirst,
        ih fun file hfile => hall file (List.mem_cons_of_mem _ hfile)]
      rfl

/-- Aggregated in the order of the partitions, events make the windows they make in the
order they came. -/
theorem aggregate_parts [DecidableEq ν] {events : List (Event ρ)} {byNode : Bool} {keys : List Key}
    (hnodup : keys.Nodup) (hkeys : ∀ e ∈ events, miningPartitionKey e.record byNode ∈ keys)
    (hnames : ∀ e ∈ events, Names e) :
    (settings.aggregate ((keys.flatMap fun key => events.filter fun e =>
        decide (miningPartitionKey e.record byNode = key)).map (templateEvent read))).Perm
      (settings.aggregate (events.map (templateEvent read))) := by
  unfold Settings.aggregate Settings.windows
  refine ((Paging.ordered_perm _ _).trans ?_).trans (Paging.ordered_perm _ _).symm
  refine List.Perm.map _ (perm_groupFold _ _ _ fun k => ?_)
  rw [List.filter_map, List.filter_map]
  exact congrArg (List.map _) (filter_flatMap_parts (fun e => settings.keyOf (templateEvent read e))
    hnodup hkeys fun x hx y hy hxk hyk =>
      miningPartitionKey_of_keyOf (hnames x hx) (hnames y hy) byNode (hxk.trans hyk.symm))

theorem length_parts {events : List (Event ρ)} {byNode : Bool} {keys : List Key}
    (hnodup : keys.Nodup) (hkeys : ∀ e ∈ events, miningPartitionKey e.record byNode ∈ keys) :
    (keys.flatMap fun key => events.filter fun e =>
      decide (miningPartitionKey e.record byNode = key)).length = events.length := by
  refine (perm_flatMap_filter ?_ ?_).length_eq
  · refine hnodup.imp fun {k k'} hne e _ htakes => hne ?_
    exact (of_decide_eq_true htakes.1).symm.trans (of_decide_eq_true htakes.2)
  · exact fun e he => ⟨_, hkeys e he, decide_eq_true rfl⟩

theorem partitionCount_eq {options : MiningOptions} {machine : Machine} {files : Files φ}
    {events : List (Event ρ)} {metadata : Metadata}
    (h : mineTemplateEvents drain tools options machine files records = .ok (events, metadata)) :
    metadata.partitionCount = (partsOf records options.partitionByNode).length := by
  unfold mineTemplateEvents at h
  rw [← partsOf_work] at h
  dsimp only at h
  split at h
  all_goals
    obtain ⟨collected, -, h⟩ := bind_eq_ok.mp h
    have hcount := congrArg (fun result => result.2.partitionCount) (pure_eq_ok.mp h)
    exact hcount.symm.trans (List.length_map _)

theorem length_fileParts (hspool : Spooled sha256 recordFormat spoolOptions records spool) :
    (fileParts hspool).length = (partsOf records spoolOptions.partitionByNode).length := by
  have hfile := congrArg List.length (fileParts_key hspool)
  have hpart := congrArg List.length (partsOf_key records spoolOptions.partitionByNode)
  rw [List.length_map] at hfile hpart
  have hkeys : (partitionsOf records spoolOptions.partitionByNode).keys.Nodup := Dict.nodup _
  rw [hfile, hpart]
  refine ((List.perm_ext_iff_of_nodup (nodup_sortedKeys records) hkeys).mpr fun key => ?_).length_eq
  rw [mem_sortedKeys, mem_keys_partitionsOf]

/-- Two results with the same windows, from as many partitions and events. -/
structure Agree (a b : List (Window ν) × Metadata × ℕ) : Prop where
  windows : a.1.Perm b.1
  partitions : a.2.1.partitionCount = b.2.1.partitionCount
  events : a.2.2 = b.2.2

/-- The calls mine the same partitions in the same way. -/
def SameMining (spoolOptions : SpoolOptions) (options options' : MiningOptions) : Prop :=
  options'.partitionByNode = spoolOptions.partitionByNode ∧
    options'.parameterExtractionMode = options.parameterExtractionMode

section Agreement

variable [DecidableEq ν] {folder : Folder} {disk : Disk φ} {raws : List α}
  {options options' : MiningOptions}

theorem largeFileWindows_eq_ok {machine : FileMachine} {result : List (Window ν) × Metadata × ℕ}
    (hnames : NamesApart (accepted prepare raws) spoolOptions.partitionByNode)
    (hfiles : FilesApart sha256 spoolOptions (accepted prepare raws))
    (h : largeFileWindows sha256 recordFormat eventFormat spoolOptions handed prepare drain snapshot
      tools read settings options machine folder disk raws = .ok result) :
    ∃ records, raws.mapM prepare = .ok records ∧ ∃ (spool : Folder)
      (hspool : Spooled sha256 recordFormat spoolOptions records spool) (collected : _),
      List.Forall₂ (fun part own => alone drain tools options.parameterExtractionMode disk.states part =
          .ok own) ((fileParts hspool).map FilePart.toPart) collected ∧
        result.1 = settings.aggregate (((collected.map (List.map Prod.snd)).flatten).map
          (templateEvent read)) ∧
          result.2.1.partitionCount = (fileParts hspool).length ∧
            result.2.2 = ((collected.map (List.map Prod.snd)).flatten).length := by
  unfold largeFileWindows at h
  rw [spoolNormalizedRecords_eq] at h
  dsimp only at h
  cases hraws : raws.mapM prepare with
  | error e =>
      rw [hraws] at h
      cases h
  | ok records =>
      rw [accepted_of_mapM hraws] at hnames hfiles h
      rw [hraws] at h
      have hspool := (files_spoolAll recordFormat handed hfiles folder).1
      dsimp only [Except.map] at h
      split at h
      · cases h
      · rename_i events metadata count hmined
        obtain rfl := Except.ok.inj h
        obtain ⟨collected, hcollected, hevents, hcount, hparts⟩ :=
          mineSpooledPartitions_eq_ok hspool (fileParts_differ hspool hnames hfiles) hmined
        refine ⟨records, rfl, _, hspool, collected, hcollected, by rw [hevents], hparts, ?_⟩
        rw [hcount, List.length_flatten, List.map_map]
        exact congrArg List.sum (List.map_congr_left fun own _ => (List.length_map _).symm)

theorem inMemoryWindows_eq_ok {machine : Machine} {result : List (Window ν) × Metadata × ℕ}
    (h : inMemoryWindows prepare drain tools read settings options machine disk.states raws =
      .ok result) :
    ∃ records events metadata, raws.mapM prepare = .ok records ∧
      mineTemplateEvents drain tools options machine disk.states records = .ok (events, metadata) ∧
        result = (settings.aggregate (events.map (templateEvent read)), metadata, events.length) := by
  unfold inMemoryWindows at h
  split at h
  · cases h
  · split at h
    · cases h
    · rename_i records hraws _ events metadata hmined
      exact ⟨records, events, metadata, hraws, hmined, (Except.ok.inj h).symm⟩

variable (sha256 recordFormat eventFormat spoolOptions handed prepare drain snapshot tools read settings
  folder disk raws options options') in
/-- However few files are open, however much text they hold back, and whoever of the
processes takes the next step: a large input that is analysed has the windows of its
records in memory, and it can be analysed in one way when it can be in the other. -/
theorem largeFile_agrees
    (hnames : NamesApart (accepted prepare raws) spoolOptions.partitionByNode)
    (hfiles : FilesApart sha256 spoolOptions (accepted prepare raws))
    (hsame : SameMining spoolOptions options options') :
    (∀ machine result, largeFileWindows sha256 recordFormat eventFormat spoolOptions handed prepare
        drain snapshot tools read settings options machine folder disk raws = .ok result →
      (∀ machine' result', inMemoryWindows prepare drain tools read settings options' machine'
          disk.states raws = .ok result' → Agree result result') ∧
        ∀ machine', options'.workerCount ≤ 1 → ∃ result', inMemoryWindows prepare drain tools read
          settings options' machine' disk.states raws = .ok result') ∧
      ∀ machine' result', inMemoryWindows prepare drain tools read settings options' machine'
          disk.states raws = .ok result' → ∀ machine, options.workerCount ≤ 1 →
        ∃ result, largeFileWindows sha256 recordFormat eventFormat spoolOptions handed prepare drain
          snapshot tools read settings options machine folder disk raws = .ok result := by
  obtain ⟨hnode, hmode⟩ := hsame
  constructor
  · intro machine result h
    obtain ⟨records, hraws, spool, hspool, collected, hcollected, hwindows, hparts, hcount⟩ :=
      largeFileWindows_eq_ok hnames hfiles h
    rw [accepted_of_mapM hraws] at hnames hfiles
    have hapart : Apart (partsOf records options'.partitionByNode) :=
      hnode ▸ apart_of_namesApart hnames
    constructor
    · intro machine' result' h'
      obtain ⟨records', events, metadata, hraws', hmined, rfl⟩ := inMemoryWindows_eq_ok h'
      obtain rfl : records = records' := Except.ok.inj (hraws.symm.trans hraws')
      obtain ⟨own, hown, hscatter⟩ := mineTemplateEvents_eq_ok hapart hmined
      obtain ⟨events', hscatter', hrecords, hmentions, hall⟩ := events_of_alone hown
      obtain rfl : events' = events := hscatter'.symm.trans hscatter
      rw [hnode, hmode] at hall
      have hagree := events_agree hspool hcollected hall
      rw [hagree, ← List.flatMap_def] at hwindows hcount
      have hkeys : ∀ e ∈ events', miningPartitionKey e.record spoolOptions.partitionByNode ∈
          sortedKeys spoolOptions records := fun e he =>
        mem_sortedKeys.mpr ⟨e.record, hrecords ▸ List.mem_map_of_mem he, rfl⟩
      refine ⟨?_, ?_, ?_⟩
      · rw [hwindows]
        exact aggregate_parts (nodup_sortedKeys records) hkeys hmentions
      · rw [hparts, length_fileParts, partitionCount_eq hmined, hnode]
      · rw [hcount, length_parts (nodup_sortedKeys records) hkeys]
    · intro machine' hworkers
      have halone : ∀ part ∈ partsOf records options'.partitionByNode,
          ∃ own, alone drain tools options'.parameterExtractionMode disk.states part = .ok own := by
        intro part hpart
        rw [hnode] at hpart
        rw [hmode]
        obtain ⟨file, hfile, hkey⟩ := exists_filePart hspool hpart
        obtain ⟨hscope, hrecords⟩ := filePart_same hspool hpart hfile hkey
        obtain ⟨own', hown'⟩ := mapM_isOk_iff.mp ⟨_, mapM_eq_ok.mpr hcollected⟩ _
          (List.mem_map_of_mem hfile)
        obtain ⟨own, hown, -⟩ := alone_same hscope.symm hrecords.symm hown'
        exact ⟨own, hown⟩
      obtain ⟨own, hown⟩ := mapM_isOk_iff.mpr halone
      obtain ⟨metadata, hmined⟩ := mineTemplateEvents_serial hapart
        ((effectiveWorkers_le options' machine' _).trans (max_le le_rfl hworkers)) hown
      unfold inMemoryWindows
      rw [hraws]
      dsimp only
      rw [hmined]
      exact ⟨_, rfl⟩
  · intro machine' result' h' machine hworkers
    obtain ⟨records, events, metadata, hraws, hmined, -⟩ := inMemoryWindows_eq_ok h'
    rw [accepted_of_mapM hraws] at hnames hfiles
    have hapart : Apart (partsOf records options'.partitionByNode) :=
      hnode ▸ apart_of_namesApart hnames
    obtain ⟨own, hown, -⟩ := mineTemplateEvents_eq_ok hapart hmined
    have hspool := (files_spoolAll recordFormat handed hfiles folder).1
    have halone : ∀ file ∈ fileParts hspool, ∃ own', alone drain tools
        options.parameterExtractionMode disk.states file.toPart = .ok own' := by
      intro file hfile
      obtain ⟨part, hpart, hkey⟩ := exists_partOf hspool hfile
      rw [hnode, hmode] at hown
      obtain ⟨hscope, hrecords⟩ := filePart_same hspool hpart hfile hkey
      obtain ⟨own', hown'⟩ := mapM_isOk_iff.mp ⟨_, mapM_eq_ok.mpr hown⟩ part hpart
      obtain ⟨own'', hown'', -⟩ := alone_same hscope hrecords hown'
      exact ⟨own'', hown''⟩
    obtain ⟨⟨events', metadata', count⟩, hspooled⟩ : ∃ result, mineSpooledPartitions drain snapshot
        tools options.parameterExtractionMode recordFormat eventFormat _ options machine
        (manifestFor sha256 spoolOptions records) disk = .ok result :=
      mineSpooledPartitions_returns hspool (fileParts_differ hspool hnames hfiles) hworkers halone
    unfold largeFileWindows
    rw [spoolNormalizedRecords_eq, hraws, accepted_of_mapM hraws]
    dsimp only [Except.map]
    rw [hspooled]
    exact ⟨_, rfl⟩

end Agreement

/-! ## Two nodes in a large input -/

/-- An event as JSON; there is nothing to tell of its route. -/
def eventJson (e : Event Unit) : Json :=
  .obj [("record", recordJson e.record), ("cluster", .str e.cluster),
    ("source_type", .str e.sourceType), ("component", .str e.component),
    ("template_hash", .str e.templateHash), ("template_fingerprint", .str e.templateFingerprint),
    ("template_instance_hash", .str e.templateInstanceHash), ("template", .str e.template),
    ("parameters", .arr (e.parameters.map fun p =>
      .obj [("type", .str p.maskName), ("value", .str p.value)])),
    ("semantic_fields", pairsJson e.semanticFields), ("schema_version", .str e.schemaVersion),
    ("change_type", .str e.changeType)]

theorem parameterJson_injective : Function.Injective fun p : Parameter =>
    Json.obj [("type", .str p.maskName), ("value", .str p.value)] := by
  rintro ⟨a, b⟩ ⟨c, d⟩ h
  cases h
  rfl

theorem eventJson_injective : Function.Injective eventJson := by
  rintro ⟨aRecord, aCluster, aSource, aComponent, aHash, aPrint, aInstance, aTemplate, aParameters,
    aFields, aSchema, aRoute, aChange⟩ ⟨bRecord, bCluster, bSource, bComponent, bHash, bPrint,
    bInstance, bTemplate, bParameters, bFields, bSchema, bRoute, bChange⟩ h
  have hfields := Json.obj.inj h
  simp only [List.cons.injEq, Prod.mk.injEq, true_and, and_true, Json.str.injEq,
    Json.arr.injEq] at hfields
  obtain ⟨hrecord, rfl, rfl, rfl, rfl, rfl, rfl, rfl, hparameters, hsemantic, rfl, rfl⟩ := hfields
  rw [recordJson_injective hrecord, pairsJson_injective hsemantic,
    List.map_injective_iff.mpr parameterJson_injective hparameters]

noncomputable def eventLines : Format (Event Unit) := Json.lines eventJson eventJson_injective

/-- A miner that takes every message for its own template. -/
def verbatim : Drain Unit Unit where
  load _ := some ()
  addLogMessage _ message := some (⟨message, "cluster_created"⟩, (), none)
  extractParameters _ _ _ _ := some []

def plainHashes : Tools Unit where
  sha1 _ := ""
  templateFingerprint _ _ _ := ""
  templateInstanceHash _ _ _ _ _ := ""
  routeEntities _ := ()

/-- The times of records are not kept here. -/
def plainReader : EventReader String Unit where
  timestamp _ := none
  «namespace» _ := none
  pod _ := none
  severity _ := none
  rawLog r := r.messageCore
  semanticTags _ := []
  typedParameters _ := []
  semanticExtractorVersion _ := none
  semanticDictionaryVersions _ := []
  riskSemantic _ := none
  fields _ := ∅
  entityKeys _ := []
  relations _ := []

def byNodeOptions : MiningOptions where
  partitionByNode := true

theorem twoNodes_inMemory :
    ∃ result, inMemoryWindows (Except.ok : Record → Except Unit Record) verbatim plainHashes
      plainReader minutes byNodeOptions ⟨some 4, []⟩ (fun _ => none) twoNodes = .ok result :=
  ⟨_, rfl⟩

theorem twoNodes_namesApart :
    NamesApart (accepted (Except.ok : Record → Except Unit Record) twoNodes) true := by
  unfold NamesApart
  decide

/-- The three records of two nodes, spooled with one file open at a time and mined in memory. -/
theorem twoNodes_agree : ∃ result result',
    largeFileWindows nodeDigest recordLines eventLines oneFile (fun _ => 0)
        (Except.ok : Record → Except Unit Record) verbatim id plainHashes plainReader minutes
        byNodeOptions ⟨some 4, []⟩ (fun _ => none) ⟨fun _ => none, fun _ => none⟩ twoNodes =
          .ok result ∧
      inMemoryWindows (Except.ok : Record → Except Unit Record) verbatim plainHashes plainReader
        minutes byNodeOptions ⟨some 4, []⟩ (fun _ => none) twoNodes = .ok result' ∧
        Agree result result' := by
  obtain ⟨result', hmemory⟩ := twoNodes_inMemory
  have hagrees := largeFile_agrees nodeDigest recordLines eventLines oneFile (fun _ => 0)
    (Except.ok : Record → Except Unit Record) verbatim id plainHashes plainReader minutes
    (fun _ => none) ⟨fun _ => none, fun _ => none⟩ twoNodes byNodeOptions byNodeOptions
    twoNodes_namesApart twoNodes_filesApart ⟨rfl, rfl⟩
  obtain ⟨result, hlarge⟩ := hagrees.2 ⟨some 4, []⟩ result' hmemory ⟨some 4, []⟩ le_rfl
  exact ⟨result, result', hlarge, hmemory, (hagrees.1 _ _ hlarge).1 _ _ hmemory⟩

end LogRisk.Mining
