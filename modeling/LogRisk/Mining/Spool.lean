import LogRisk.Library.JsonLines
import LogRisk.Library.Paging
import LogRisk.Library.Transaction
import LogRisk.Library.Writers
import LogRisk.Mining.Partitions

/-!
# Spooling records to a file for every partition

The records of a large input are normalized one by one and written to the file of
their partition.  Only so many of the files are open at a time.  The manifest names
the partitions in the order of their keys.
-/

namespace LogRisk.Mining

open LogRisk.Library LogRisk.Library.LineFiles LogRisk.Library.Transaction

/-- The files of a directory. -/
abbrev Folder := String → Option (List Char)

structure SpoolOptions where
  partitionByNode : Bool := true
  maxOpenFiles : ℤ := 64
  /-- The limit of the process on open files, where it can be read. -/
  softLimit : Option ℤ

def writerBudget (options : SpoolOptions) : ℕ :=
  (max 1 (min options.maxOpenFiles (max 1 (options.softLimit.getD 256 - 32)))).toNat

section Names

variable (sha256 : String → String)

/-- `"\x1f".join(key)`. -/
def joined (key : Key) : String :=
  String.ofList (List.intercalate [Char.ofNat 31] (key.map String.toList))

def partitionId (key : Key) : String :=
  "partition-" ++ String.ofList ((sha256 (joined key)).toList.take 16)

def partitionFile (key : Key) : String := partitionId sha256 key ++ ".jsonl"

end Names

structure SpoolEntry where
  partitionId : String
  partitionKey : Key
  path : String
  recordCount : ℕ := 0
deriving DecidableEq

structure Manifest where
  schemaVersion : String := "1.0"
  status : String := "SPOOLING"
  totalRecords : ℕ
  maxOpenFiles : ℕ
  partitions : List SpoolEntry
deriving DecidableEq

structure Spooling where
  desk : Writers.Desk Key String Char
  entries : Dict Key SpoolEntry := ∅
  total : ℕ := 0

section Spool

variable (sha256 : String → String) (format : Format Record) (options : SpoolOptions)
  (handed : ℕ → ℕ)

def entryOf (key : Key) : SpoolEntry where
  partitionId := partitionId sha256 key
  partitionKey := key
  path := partitionFile sha256 key

/-- One more record of the partition. -/
def countedEntry (key : Key) (entry : Option SpoolEntry) : SpoolEntry :=
  let entry := entry.getD (entryOf sha256 key)
  { entry with recordCount := entry.recordCount + 1 }

/-- The record is written to its partition; `handed` says how much of the text that
waits in the file's buffer is handed over with it. -/
def spoolRecord (s : Spooling) (record : Record) : Spooling :=
  let key := miningPartitionKey record options.partitionByNode
  { desk := s.desk.write (partitionFile sha256) (writerBudget options)
      { key, text := format.line record, handed := handed s.total }
    entries := s.entries.alter key (countedEntry sha256 key)
    total := s.total + 1 }

variable {α ε : Type} (prepare : α → Except ε Record)

/-- The loop over the records, each of which is normalized when its turn comes. -/
def spoolLoop : List α → Spooling → Spooling × Except ε Unit
  | [], s => (s, .ok ())
  | raw :: rest, s =>
      match prepare raw with
      | .error e => (s, .error e)
      | .ok record => spoolLoop rest (spoolRecord sha256 format options handed s record)

def manifestOf (s : Spooling) : Manifest where
  totalRecords := s.total
  maxOpenFiles := writerBudget options
  partitions := (Paging.ordered id s.entries.keys).filterMap s.entries.get?

/-- The files are closed however the loop ends. -/
def spoolNormalizedRecords (raws : List α) (folder : Folder) : Folder × Except ε Manifest :=
  let (s, outcome) := spoolLoop sha256 format options handed prepare raws
    { desk := { files := folder } }
  ((s.desk.closeAll (partitionFile sha256)).files, outcome.map fun _ => manifestOf options s)

end Spool

/-! ## What is spooled -/

section Spooled

variable {sha256 : String → String} {format : Format Record} {options : SpoolOptions}
  {handed : ℕ → ℕ} {α ε : Type} {prepare : α → Except ε Record}

variable (sha256 format options handed) in
/-- The records of a run, all prepared. -/
def spoolAll (s : Spooling) (records : List Record) : Spooling :=
  records.foldl (spoolRecord sha256 format options handed) s

/-- The records that are normalized before the first refusal. -/
def accepted (prepare : α → Except ε Record) : List α → List Record
  | [] => []
  | raw :: rest =>
      match prepare raw with
      | .error _ => []
      | .ok record => record :: accepted prepare rest

/-- What the loop leaves comes of the records before the first refusal. -/
theorem spoolLoop_eq (raws : List α) (s : Spooling) :
    spoolLoop sha256 format options handed prepare raws s =
      (spoolAll sha256 format options handed s (accepted prepare raws),
        (raws.mapM prepare).map fun _ => ()) := by
  induction raws generalizing s with
  | nil => rfl
  | cons raw rest ih =>
      unfold spoolLoop accepted
      rw [List.mapM_cons]
      cases prepare raw with
      | error e => rfl
      | ok record =>
          dsimp only
          rw [ih (spoolRecord sha256 format options handed s record)]
          cases rest.mapM prepare with
          | error e => rfl
          | ok records => rfl

theorem accepted_of_mapM {raws : List α} {records : List Record}
    (h : raws.mapM prepare = .ok records) : accepted prepare raws = records := by
  induction raws generalizing records with
  | nil =>
      cases h
      rfl
  | cons raw rest ih =>
      obtain ⟨record, hrecord, h⟩ := bind_eq_ok.mp (List.mapM_cons.symm.trans h)
      obtain ⟨others, hothers, h⟩ := bind_eq_ok.mp h
      obtain rfl := pure_eq_ok.mp h
      unfold accepted
      rw [hrecord]
      exact congrArg (record :: ·) (ih hothers)

/-! ### Texts -/

/-- The key of a record's partition. -/
abbrev keyOf (options : SpoolOptions) (record : Record) : Key :=
  miningPartitionKey record options.partitionByNode

variable (format options handed) in
/-- The records as they are written, the first one with its number. -/
def writingsOf (n : ℕ) (records : List Record) : List (Writers.Writing Key Char) :=
  (records.zipIdx n).map fun p =>
    { key := keyOf options p.1, text := format.line p.1, handed := handed p.2 }

theorem key_writingsOf (n : ℕ) (records : List Record) :
    (writingsOf format options handed n records).map Writers.Writing.key =
      records.map (keyOf options) := by
  unfold writingsOf
  rw [List.map_map]
  conv_rhs => rw [← List.zipIdx_map_fst n records, List.map_map]
  rfl

theorem textOf_writingsOf (n : ℕ) (records : List Record) (key : Key) :
    Writers.textOf (writingsOf format options handed n records) key =
      format.text (records.filter fun r => decide (keyOf options r = key)) := by
  induction records generalizing n with
  | nil => rfl
  | cons record rest ih =>
      have hrest := ih (n + 1)
      unfold Writers.textOf writingsOf at hrest ⊢
      rw [List.zipIdx_cons, List.map_cons, List.filter_cons, List.filter_cons]
      dsimp only
      split
      · rw [List.flatMap_cons, hrest]
        rfl
      · exact hrest

theorem desk_spoolAll (s : Spooling) (records : List Record) :
    (spoolAll sha256 format options handed s records).desk =
      (writingsOf format options handed s.total records).foldl
        (Writers.Desk.write (partitionFile sha256) (writerBudget options)) s.desk := by
  induction records generalizing s with
  | nil => rfl
  | cons record rest ih => exact ih (spoolRecord sha256 format options handed s record)

theorem total_spoolAll (s : Spooling) (records : List Record) :
    (spoolAll sha256 format options handed s records).total = s.total + records.length := by
  induction records generalizing s with
  | nil => rfl
  | cons record rest ih =>
      have hrest := ih (spoolRecord sha256 format options handed s record)
      change (spoolAll _ _ _ _ (spoolRecord sha256 format options handed s record) rest).total = _
      rw [hrest, List.length_cons]
      change s.total + 1 + rest.length = _
      omega

theorem entries_spoolAll (s : Spooling) (records : List Record) :
    (spoolAll sha256 format options handed s records).entries =
      Dict.groupFold (keyOf options) (fun entry r => countedEntry sha256 (keyOf options r) entry)
        s.entries records := by
  induction records generalizing s with
  | nil => rfl
  | cons record rest ih => exact ih (spoolRecord sha256 format options handed s record)

theorem foldSome_counted (key : Key) (records : List Record) (n : ℕ)
    (hkey : ∀ r ∈ records, keyOf options r = key) :
    Dict.foldSome (fun entry r => countedEntry sha256 (keyOf options r) entry)
        (some { entryOf sha256 key with recordCount := n }) records =
      some { entryOf sha256 key with recordCount := n + records.length } := by
  induction records generalizing n with
  | nil => rfl
  | cons record rest ih =>
      have hrest := ih (n + 1) fun r hr => hkey r (List.mem_cons_of_mem _ hr)
      rw [Dict.foldSome_cons]
      change Dict.foldSome _ (some { entryOf sha256 key with recordCount := n + 1 }) rest = _
      rw [hrest, List.length_cons, Nat.add_assoc, Nat.add_comm 1]

variable (sha256) in
/-- The entry of a partition of so many records. -/
def entryWith (key : Key) (count : ℕ) : SpoolEntry := { entryOf sha256 key with recordCount := count }

/-- The entry of a partition counts its records. -/
theorem get?_entries {records : List Record} {key : Key} (hkey : ∃ r ∈ records, keyOf options r = key)
    (folder : Folder) :
    (spoolAll sha256 format options handed { desk := { files := folder } } records).entries.get? key =
      some (entryWith sha256 key (records.filter fun r => decide (keyOf options r = key)).length) := by
  rw [entries_spoolAll, Dict.get?_groupFold, Dict.get?_empty]
  have hall : ∀ r ∈ records.filter (fun r => decide (keyOf options r = key)), keyOf options r = key :=
    fun r hr => of_decide_eq_true (List.mem_filter.mp hr).2
  cases hgroup : records.filter fun r => decide (keyOf options r = key) with
  | nil =>
      obtain ⟨r, hr, hrkey⟩ := hkey
      exact absurd (decide_eq_true hrkey) (List.filter_eq_nil_iff.mp hgroup r hr)
  | cons first rest =>
      rw [hgroup] at hall
      have hfirst : countedEntry sha256 (keyOf options first) none =
          { entryOf sha256 key with recordCount := 1 } := by
        rw [hall first List.mem_cons_self]
        rfl
      rw [Dict.foldSome_cons, hfirst,
        foldSome_counted key rest 1 fun r hr => hall r (List.mem_cons_of_mem _ hr),
        List.length_cons, Nat.add_comm 1]
      rfl

/-! ### The files and the manifest -/

/-- No two partitions of the records share a file. -/
def FilesApart (sha256 : String → String) (options : SpoolOptions) (records : List Record) : Prop :=
  ∀ a ∈ records, ∀ b ∈ records,
    partitionId sha256 (keyOf options a) = partitionId sha256 (keyOf options b) →
      keyOf options a = keyOf options b

theorem partitionFile_eq_iff {a b : Key} :
    partitionFile sha256 a = partitionFile sha256 b ↔ partitionId sha256 a = partitionId sha256 b := by
  unfold partitionFile
  exact ⟨(String.append_left_inj _).mp, fun h => by rw [h]⟩

theorem FilesApart.injOn {records : List Record} (h : FilesApart sha256 options records) :
    Set.InjOn (partitionFile sha256) {key | ∃ r ∈ records, keyOf options r = key} := by
  rintro _ ⟨a, ha, rfl⟩ _ ⟨b, hb, rfl⟩ heq
  exact h a ha b hb (partitionFile_eq_iff.mp heq)

/-- The keys of the records in order. -/
def sortedKeys (options : SpoolOptions) (records : List Record) : List Key :=
  Paging.ordered id (Dict.groupBy (keyOf options) records).keys

theorem mem_sortedKeys {records : List Record} {key : Key} :
    key ∈ sortedKeys options records ↔ ∃ r ∈ records, keyOf options r = key := by
  unfold sortedKeys
  rw [Paging.mem_ordered, Dict.mem_keys_groupBy]

theorem nodup_sortedKeys (records : List Record) : (sortedKeys options records).Nodup :=
  (Paging.ordered_perm id _).nodup_iff.mpr (Dict.groupBy (keyOf options) records).nodup

/-- The keys of a grouping fold do not depend on what is folded. -/
theorem keys_entries (records : List Record) (folder : Folder) :
    (Paging.ordered id (spoolAll sha256 format options handed
      { desk := { files := folder } } records).entries.keys) = sortedKeys options records := by
  have hnodup : (spoolAll sha256 format options handed
      { desk := { files := folder } } records).entries.keys.Nodup := Dict.nodup _
  have hnodup' : (Dict.groupBy (keyOf options) records).keys.Nodup := Dict.nodup _
  refine Paging.ordered_eq_of_perm ((List.perm_ext_iff_of_nodup hnodup hnodup').mpr fun key => ?_) ?_
  · rw [entries_spoolAll, Dict.mem_keys_groupFold, Dict.mem_keys_groupBy]
    simp
  · rw [List.map_id]
    exact hnodup

variable (sha256 options) in
/-- The partitions of the records with their numbers of records, in the order of their keys. -/
def manifestFor (records : List Record) : Manifest where
  totalRecords := records.length
  maxOpenFiles := writerBudget options
  partitions := (sortedKeys options records).map fun key =>
    entryWith sha256 key (records.filter fun r => decide (keyOf options r = key)).length

theorem manifestOf_spoolAll (records : List Record) (folder : Folder) :
    manifestOf options (spoolAll sha256 format options handed { desk := { files := folder } } records) =
      manifestFor sha256 options records := by
  unfold manifestFor
  unfold manifestOf
  rw [total_spoolAll, keys_entries, Nat.zero_add]
  congr 1
  rw [← List.filterMap_eq_map]
  exact List.filterMap_congr fun key hkey => get?_entries (mem_sortedKeys.mp hkey) folder

variable (format handed) in
/-- However few files may be open and however their text is held back, every partition's
file holds the lines of its records in the order they came, whatever it held before, and
no other file is touched. -/
theorem files_spoolAll {records : List Record} (hfiles : FilesApart sha256 options records)
    (folder : Folder) :
    let after := ((spoolAll sha256 format options handed { desk := { files := folder } }
      records).desk.closeAll (partitionFile sha256)).files
    (∀ key, (∃ r ∈ records, keyOf options r = key) → after (partitionFile sha256 key) =
        some (format.text (records.filter fun r => decide (keyOf options r = key)))) ∧
      ∀ file, (∀ r ∈ records, partitionFile sha256 (keyOf options r) ≠ file) →
        after file = folder file := by
  have hkeys : ∀ w ∈ writingsOf format options handed 0 records,
      w.key ∈ {key | ∃ r ∈ records, keyOf options r = key} := by
    intro w hw
    have hmem := List.mem_map_of_mem (f := Writers.Writing.key) hw
    rw [key_writingsOf] at hmem
    exact List.mem_map.mp hmem
  obtain ⟨hown, hothers⟩ := Writers.files_closeAll folder (writerBudget options) hfiles.injOn hkeys
  simp only [key_writingsOf, textOf_writingsOf, List.mem_map] at hown hothers
  dsimp only
  rw [desk_spoolAll]
  refine ⟨hown, fun file hfile => hothers file ?_⟩
  rintro _ ⟨r, hr, rfl⟩
  exact hfile r hr

/-! ### A run of the spooler -/

theorem writerBudget_pos (options : SpoolOptions) : 0 < writerBudget options := by
  unfold writerBudget
  omega

theorem spoolNormalizedRecords_eq (raws : List α) (folder : Folder) :
    spoolNormalizedRecords sha256 format options handed prepare raws folder =
      (((spoolAll sha256 format options handed { desk := { files := folder } }
          (accepted prepare raws)).desk.closeAll (partitionFile sha256)).files,
        (raws.mapM prepare).map (manifestFor sha256 options)) := by
  unfold spoolNormalizedRecords
  rw [spoolLoop_eq]
  dsimp only
  cases h : raws.mapM prepare with
  | error e => rfl
  | ok records =>
      rw [accepted_of_mapM h]
      exact congrArg (Prod.mk _) (congrArg Except.ok (manifestOf_spoolAll records folder))

variable (format handed) in
/-- However a run ends and however the text is held back, every partition's file holds the
lines of its records in the order they came, no other file is touched, the manifest of a
run that ends well counts them, and no more files than the budget were open at any time. -/
theorem spooled_partitions {raws : List α}
    (hfiles : FilesApart sha256 options (accepted prepare raws)) (folder : Folder) :
    let result := spoolNormalizedRecords sha256 format options handed prepare raws folder
    let records := accepted prepare raws
    (∀ r ∈ records, result.1 (partitionFile sha256 (keyOf options r)) =
        some (format.text (records.filter fun other => decide (keyOf options other = keyOf options r)))) ∧
      (∀ file, (∀ r ∈ records, partitionFile sha256 (keyOf options r) ≠ file) →
        result.1 file = folder file) ∧
      result.2 = (raws.mapM prepare).map (manifestFor sha256 options) ∧
      ∀ front, front <+: records → (spoolAll sha256 format options handed
        { desk := { files := folder } } front).desk.handles.length ≤ writerBudget options := by
  dsimp only
  rw [spoolNormalizedRecords_eq]
  obtain ⟨hown, hothers⟩ := files_spoolAll format handed hfiles folder
  refine ⟨fun r hr => hown _ ⟨r, hr, rfl⟩, hothers, rfl, fun front _ => ?_⟩
  rw [desk_spoolAll]
  exact Writers.length_handles (writerBudget_pos options)

end Spooled

/-! ## Records as JSON -/

def textJson : Option String → Json
  | none => .null
  | some text => .str text

def pairsJson (pairs : List (String × String)) : Json := .obj (pairs.map fun p => (p.1, .str p.2))

def fieldsJson : Option (List (String × String)) → Json
  | none => .null
  | some fields => pairsJson fields

def recordJson (r : Record) : Json :=
  .obj ([("cluster", textJson r.cluster), ("node", textJson r.node),
    ("source_type", textJson r.sourceType), ("component", textJson r.component),
    ("message_core", textJson r.messageCore), ("semantic_fields", fieldsJson r.semanticFields)] ++
      r.copied.map fun p => (p.1, .str p.2))

theorem textJson_injective : Function.Injective textJson := by
  intro a b h
  cases a <;> cases b <;> cases h <;> rfl

theorem strPair_injective :
    Function.Injective fun p : String × String => (p.1, Json.str p.2) := by
  rintro ⟨a, b⟩ ⟨c, d⟩ h
  obtain ⟨rfl, hstr⟩ := Prod.mk.inj h
  cases hstr
  rfl

theorem pairsJson_injective : Function.Injective pairsJson := by
  intro a b h
  exact List.map_injective_iff.mpr strPair_injective (Json.obj.inj h)

theorem fieldsJson_injective : Function.Injective fieldsJson := by
  intro a b h
  cases a with
  | none =>
      cases b with
      | none => rfl
      | some fields => cases h
  | some fields =>
      cases b with
      | none => cases h
      | some fields' => rw [pairsJson_injective h]

theorem recordJson_injective : Function.Injective recordJson := by
  intro a b h
  obtain ⟨acluster, anode, asource, acomponent, amessage, afields, acopied⟩ := a
  obtain ⟨bcluster, bnode, bsource, bcomponent, bmessage, bfields, bcopied⟩ := b
  have hfields := Json.obj.inj h
  simp only [List.cons_append, List.nil_append, List.cons.injEq, Prod.mk.injEq, true_and] at hfields
  obtain ⟨hcluster, hnode, hsource, hcomponent, hmessage, hsemantic, hcopied⟩ := hfields
  rw [textJson_injective hcluster, textJson_injective hnode, textJson_injective hsource,
    textJson_injective hcomponent, textJson_injective hmessage, fieldsJson_injective hsemantic,
    List.map_injective_iff.mpr strPair_injective hcopied]

noncomputable def recordLines : Format Record := Json.lines recordJson recordJson_injective

/-! ## Two nodes -/

/-- Three records of two nodes. -/
def twoNodes : List Record :=
  [{ cluster := some "prod", node := some "n1", sourceType := some "syslog", component := some "sshd"
     messageCore := some "session opened" },
    { cluster := some "prod", node := some "n2", sourceType := some "syslog", component := some "sshd"
      messageCore := some "session opened" },
    { cluster := some "prod", node := some "n1", sourceType := some "syslog", component := some "sshd"
      messageCore := some "session closed" }]

/-- The digests of their keys. -/
def nodeDigest (text : String) : String :=
  if text = joined ["prod", "n1", "syslog", "sshd"] then
    "91c09c2d7de357d791e8ab6bab0a5bdcf86ad5b38877b72e3500f5db91323e54"
  else if text = joined ["prod", "n2", "syslog", "sshd"] then
    "c8e28fa4448781b2249e5189dc4549b7f45e5bd549243c8e0ea46791d1b32ff1"
  else ""

/-- One file may be open at a time. -/
def oneFile : SpoolOptions where
  softLimit := some 33

theorem twoNodes_filesApart :
    FilesApart nodeDigest oneFile (accepted (Except.ok : Record → Except Unit Record) twoNodes) := by
  unfold FilesApart
  decide

/-- Nothing is handed over before a file is closed, and the file of the first node, which is
opened twice, held something else before. -/
theorem twoNodes_spooled :
    (spoolNormalizedRecords nodeDigest recordLines oneFile (fun _ => 0)
        (Except.ok : Record → Except Unit Record) twoNodes (fun _ => some "stale".toList)).1
      "partition-91c09c2d7de357d7.jsonl" =
      some (recordLines.text (twoNodes.filter fun r => decide (r.node = some "n1"))) := by
  have hown := (spooled_partitions recordLines (fun _ => 0) twoNodes_filesApart
    fun _ => some "stale".toList).1 _ (List.mem_cons_self : twoNodes.head (by decide) ∈ _)
  have hfile : partitionFile nodeDigest (keyOf oneFile (twoNodes.head (by decide))) =
      "partition-91c09c2d7de357d7.jsonl" := by decide
  have hgroup : (twoNodes.filter fun r => decide (keyOf oneFile r = keyOf oneFile (twoNodes.head (by decide)))) =
      twoNodes.filter fun r => decide (r.node = some "n1") := by decide
  rw [← hfile, ← hgroup]
  exact hown

end LogRisk.Mining
