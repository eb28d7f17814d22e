import LogRisk.Library.Partition
import LogRisk.Mining.SpooledPool
import LogRisk.Windows.Aggregator

/-!
# The windows of a large input

A large input is spooled, mined file by file and aggregated in the order of the
partitions.  Its windows are those of the records mined in memory and aggregated in
the order they came.
-/

namespace LogRisk.Mining

open LogRisk.Library LogRisk.Library.LineFiles LogRisk.Library.Transaction LogRisk.Windows

/-! ## Events as the aggregator reads them -/

/-- The fields of a record that its event carries along, and what is read of routes and of
semantic fields. -/
structure EventReader (ν ρ : Type) where
  timestamp : Record → Option String
  «namespace» : Record → Option String
  pod : Record → Option String
  severity : Record → Option String
  rawLog : Record → Option String
  semanticTags : Record → List String
  typedParameters : Record → List (String × String)
  semanticExtractorVersion : Record → Option String
  semanticDictionaryVersions : Record → List (String × String)
  riskSemantic : Record → Option RiskSemantic
  fields : List (String × String) → Dict String ν
  entityKeys : ρ → List String
  relations : ρ → List Relation

variable {ν ρ : Type}

/-- The event of the miner as an event of the aggregator. -/
def templateEvent (read : EventReader ν ρ) (e : Event ρ) : TemplateEvent ν where
  timestamp := read.timestamp e.record
  cluster := some e.cluster
  node := e.record.node
  «namespace» := read.namespace e.record
  pod := read.pod e.record
  sourceType := some e.sourceType
  component := some e.component
  severity := read.severity e.record
  templateHash := some e.templateHash
  template := some e.template
  rawSample := read.rawLog e.record
  entityKeys := read.entityKeys e.entityRoute
  relations := read.relations e.entityRoute
  semanticFields := read.fields e.semanticFields
  semanticTags := read.semanticTags e.record
  typedParameters := read.typedParameters e.record
  semanticExtractorVersion := read.semanticExtractorVersion e.record
  semanticDictionaryVersions := read.semanticDictionaryVersions e.record
  riskSemantic := read.riskSemantic e.record

/-! ## The two ways -/

inductive PipelineError (ε : Type) where
  | normalize (e : ε)
  | spool (e : SpoolError)
  | mining (e : MiningError)

section Pipeline

variable {σ φ α ε : Type} [DecidableEq ν] (sha256 : String → String) (recordFormat : Format Record)
  (eventFormat : Format (Event ρ)) (spoolOptions : SpoolOptions) (handed : ℕ → ℕ)
  (prepare : α → Except ε Record) (drain : Drain σ φ) (snapshot : σ → φ) (tools : Tools ρ)
  (read : EventReader ν ρ) (settings : Settings) (options : MiningOptions)

/-- A large input: the records are spooled in `folder`, mined from there, and their events
aggregated in the order of the partitions. -/
def largeFileWindows (machine : FileMachine) (folder : Folder) (disk : Disk φ) (raws : List α) :
    Except (PipelineError ε) (List (Window ν) × Metadata × ℕ) :=
  let (spool, outcome) :=
    spoolNormalizedRecords sha256 recordFormat spoolOptions handed prepare raws folder
  match outcome with
  | .error e => .error (.normalize e)
  | .ok manifest =>
      match mineSpooledPartitions drain snapshot tools options.parameterExtractionMode recordFormat
        eventFormat spool options machine manifest disk with
      | .error e => .error (.spool e)
      | .ok (events, metadata, count) =>
          .ok (settings.aggregate (events.map (templateEvent read)), metadata, count)

/-- The records mined in memory, and their events aggregated in the order they came. -/
def inMemoryWindows (machine : Machine) (files : Files φ) (raws : List α) :
    Except (PipelineError ε) (List (Window ν) × Metadata × ℕ) :=
  match raws.mapM prepare with
  | .error e => .error (.normalize e)
  | .ok records =>
      match mineTemplateEvents drain tools options machine files records with
      | .error e => .error (.mining e)
      | .ok (events, metadata) =>
          .ok (settings.aggregate (events.map (templateEvent read)), metadata, events.length)

end Pipeline

/-! ## What a mined event says of its record -/

section Mined

variable {σ φ : Type} {drain : Drain σ φ} {tools : Tools ρ} {mode : ParameterMode}

theorem textOr_eq_given (text : Option String) (default : String) :
    textOr text default = (given text).getD default := by
  cases text with
  | none => rfl
  | some text =>
      unfold textOr given
      rw [Option.filter_some]
      by_cases htext : text = ""
      · simp [htext]
      · simp [htext]

/-- The node of the record's partition, read off the entity of its window. -/
theorem textOr_node {settings : Settings} {read : EventReader ν ρ} {a b : Event ρ}
    (h : settings.keyOf (templateEvent read a) = settings.keyOf (templateEvent read b)) :
    textOr a.record.node "unknown" = textOr b.record.node "unknown" := by
  have htype := congrArg AggregatorKey.entityType h
  have hid := congrArg AggregatorKey.entityId h
  change (if (given a.record.node).isSome then EntityType.node
    else if (given (read.pod a.record)).isSome then .pod else .unknown) =
      (if (given b.record.node).isSome then EntityType.node
        else if (given (read.pod b.record)).isSome then .pod else .unknown) at htype
  change ((given a.record.node).or (given (read.pod a.record))).getD "unknown" =
    ((given b.record.node).or (given (read.pod b.record))).getD "unknown" at hid
  rw [textOr_eq_given, textOr_eq_given]
  cases ha : given a.record.node with
  | none =>
      cases hb : given b.record.node with
      | none => rfl
      | some nodeB =>
          rw [ha, hb, if_neg (by simp), if_pos Option.isSome_some] at htype
          split at htype <;> cases htype
  | some nodeA =>
      cases hb : given b.record.node with
      | none =>
          rw [ha, hb, if_pos Option.isSome_some, if_neg (by simp)] at htype
          split at htype <;> cases htype
      | some nodeB =>
          rw [ha, hb] at hid
          exact hid

/-- Events of one window come from one partition. -/
theorem miningPartitionKey_of_keyOf {settings : Settings} {read : EventReader ν ρ} {a b : Event ρ}
    (ha : Names a) (hb : Names b) (byNode : Bool)
    (h : settings.keyOf (templateEvent read a) = settings.keyOf (templateEvent read b)) :
    miningPartitionKey a.record byNode = miningPartitionKey b.record byNode := by
  have hcluster := Option.some.inj (congrArg AggregatorKey.cluster h)
  have hsource := Option.some.inj (congrArg AggregatorKey.sourceType h)
  have hcomponent := Option.some.inj (congrArg AggregatorKey.component h)
  change a.cluster = b.cluster at hcluster
  change a.sourceType = b.sourceType at hsource
  change a.component = b.component at hcomponent
  rw [ha.1, hb.1] at hcluster
  rw [ha.2.1, hb.2.1] at hsource
  rw [ha.2.2, hb.2.2] at hcomponent
  unfold miningPartitionKey
  rw [hcluster, hsource, hcomponent, textOr_node h]

end Mined

/-! ## Events in memory -/

section InMemory

variable {σ φ : Type} {drain : Drain σ φ} {tools : Tools ρ} {mode : ParameterMode}

theorem map_fst_filter_enumerate (events : List (Event ρ)) (p : Record → Bool) :
    ((enumerate (events.map Event.record)).filter fun item => p item.2).filterMap
        (fun item => events[item.1]?) = events.filter fun e => p e.record := by
  have henumerate : enumerate (events.map Event.record) =
      events.zipIdx.map fun q => (q.2, q.1.record) := by
    unfold enumerate
    rw [List.zipIdx_map, List.map_map]
    rfl
  calc
    ((enumerate (events.map Event.record)).filter fun item => p item.2).filterMap
        (fun item => events[item.1]?)
        = (events.zipIdx.filter fun q => p q.1.record).filterMap fun q => events[q.2]? := by
          rw [henumerate, List.filter_map, List.filterMap_map]
          rfl
    _ = (events.zipIdx.filter fun q => p q.1.record).filterMap (some ∘ Prod.fst) := by
          refine List.filterMap_congr fun q hq => ?_
          have hmem := (List.mem_filter.mp hq).1
          obtain ⟨hlt, hget⟩ := List.mem_zipIdx' hmem
          rw [List.getElem?_eq_getElem hlt, ← hget]
          rfl
    _ = (events.zipIdx.filter fun q => p q.1.record).map Prod.fst := by rw [List.filterMap_eq_map]
    _ = events.filter fun e => p e.record := by
          conv_rhs => rw [← List.zipIdx_map_fst 0 events, List.filter_map]
          rfl

/-- What a call in memory returns: an event for every record, in their order, and the
events of a partition are those it is mined to alone. -/
theorem events_of_alone {files : Files φ} {records : List Record} {byNode : Bool}
    {collected : List (List (ℕ × Event ρ))}
    (h : List.Forall₂ (fun part own => alone drain tools mode files part = .ok own)
      (partsOf records byNode) collected) :
    ∃ events, (scatter records.length collected.flatten).reduceOption = events ∧
      events.map Event.record = records ∧ (∀ e ∈ events, Names e) ∧
        ∀ part ∈ partsOf records byNode, ∃ own, alone drain tools mode files part = .ok own ∧
          (events.filter fun e => decide (miningPartitionKey e.record byNode = part.key)) =
            own.map Prod.snd := by
  have hitems : (collected.flatten).map (fun p => (p.1, p.2.record)) =
      ((partsOf records byNode).map Part.records).flatten := by
    generalize partsOf records byNode = parts at h
    induction h with
    | nil => rfl
    | cons hfirst _ ih =>
        rw [List.map_cons, List.flatten_cons, List.flatten_cons, List.map_append, ih,
          (mineRecords_names hfirst).1]
  have hperm := perm_positions records byNode
  have hfst : (collected.flatten).map Prod.fst =
      (((partsOf records byNode).map Part.records).flatten).map Prod.fst := by
    rw [← hitems, List.map_map]
    rfl
  have hnames : ∀ p ∈ collected.flatten, Names p.2 := by
    intro p hp
    obtain ⟨own, hown, hmem⟩ := List.mem_flatten.mp hp
    obtain ⟨part, -, halone⟩ := exists_of_mem_results h hown
    exact (mineRecords_names halone).2 p hmem
  obtain ⟨events, hevents, hlength, hown⟩ := assembled_alone hperm h
  obtain ⟨events', hlength', hscatter, hget⟩ := exists_of_scatter (hfst ▸ hperm)
  have hsame : events' = events := by
    rw [← hevents, hscatter]
    unfold List.reduceOption
    rw [List.filterMap_map]
    exact List.filterMap_some.symm
  subst hsame
  have hfrom : ∀ i (hi : i < records.length), ∃ e, (i, e) ∈ collected.flatten ∧
      e.record = records[i] ∧ events'[i]? = some e := by
    intro i hi
    have hmem : i ∈ (collected.flatten).map Prod.fst := by
      rw [hfst]
      exact hperm.mem_iff.mpr (List.mem_range.mpr hi)
    obtain ⟨⟨n, e⟩, he, hn⟩ := List.mem_map.mp hmem
    obtain rfl : n = i := hn
    have hitem := List.mem_map_of_mem (f := fun p : ℕ × Event ρ => (p.1, p.2.record)) he
    rw [hitems] at hitem
    obtain ⟨items, hitems', hin⟩ := List.mem_flatten.mp hitem
    obtain ⟨part, hpart, rfl⟩ := List.mem_map.mp hitems'
    obtain ⟨-, -, hrecords⟩ := of_mem_partsOf hpart
    rw [hrecords] at hin
    have hpair := (List.mem_filter.mp hin).1
    unfold enumerate at hpair
    obtain ⟨⟨r, k⟩, hq, hswap⟩ := List.mem_map.mp hpair
    obtain ⟨hk, hr⟩ := Prod.mk.inj hswap
    obtain ⟨-, hrecord⟩ := List.mem_zipIdx' hq
    dsimp only at hk hr hrecord
    subst hk
    exact ⟨e, he, hr.symm.trans hrecord, hget _ _ he⟩
  have hrecords : events'.map Event.record = records := by
    refine List.ext_getElem (by rw [List.length_map, hlength]) fun i hi hi' => ?_
    obtain ⟨e, -, hrecord, hat⟩ := hfrom i hi'
    rw [List.getElem_map, ← hrecord]
    obtain ⟨_, heq⟩ := List.getElem?_eq_some_iff.mp hat
    rw [heq]
  refine ⟨events', hevents, hrecords, fun e he => ?_, fun part hpart => ?_⟩
  · obtain ⟨i, hi, rfl⟩ := List.getElem_of_mem he
    obtain ⟨e, hmem, -, hat⟩ := hfrom i (hlength ▸ hi)
    obtain ⟨_, heq⟩ := List.getElem?_eq_some_iff.mp hat
    rw [heq]
    exact hnames _ hmem
  · obtain ⟨own, halone, hmap⟩ := hown part hpart
    refine ⟨own, halone, ?_⟩
    obtain ⟨-, -, hpartRecords⟩ := of_mem_partsOf hpart
    rw [← hmap, hpartRecords, ← hrecords]
    exact (map_fst_filter_enumerate events' fun r =>
      decide (miningPartitionKey r byNode = part.key)).symm

end InMemory

end LogRisk.Mining
