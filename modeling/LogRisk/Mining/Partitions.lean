import LogRisk.Library.Dict
import LogRisk.Library.Scatter
import LogRisk.Library.Text

/-!
# Mining templates in partitions

Records are partitioned by cluster, node if asked for, source type and component.
Each partition is mined by one worker with a miner of its own, which is loaded from
a state file when its first record arrives and writes it when it takes a snapshot.
The partitions run one after the other or in a pool of processes; the events are
put back in the order of the records.
-/

namespace LogRisk.Mining

open LogRisk.Library

/-! ## Records and events -/

structure Record where
  cluster : Option String := none
  node : Option String := none
  sourceType : Option String := none
  component : Option String := none
  messageCore : Option String
  semanticFields : Option (List (String × String)) := none
  /-- The fields copied into the event unread. -/
  copied : List (String × String) := []
deriving DecidableEq

/-- `str(value or default)`. -/
def textOr (value : Option String) (default : String) : String :=
  match value with
  | some text => if text = "" then default else text
  | none => default

structure Parameter where
  maskName : String
  value : String
deriving DecidableEq

/-- What `add_log_message` reports. -/
structure Mined where
  templateMined : String
  changeType : String
deriving DecidableEq

/-- A template miner with its memory `σ`, and what its snapshots `φ` hold.  `none`
stands for an exception. -/
structure Drain (σ φ : Type) where
  load : Option φ → Option σ
  /-- The report, the memory behind the message and the snapshot where one is taken. -/
  addLogMessage : σ → String → Option (Mined × σ × Option φ)
  extractParameters : σ → String → String → Bool → Option (List Parameter)

/-- The hashes of templates and the routing of records. -/
structure Tools (ρ : Type) where
  sha1 : String → String
  templateFingerprint : String → String → String → String
  templateInstanceHash : String → String → String → String → String → String
  routeEntities : Record → ρ

structure Event (ρ : Type) where
  record : Record
  cluster : String
  sourceType : String
  component : String
  templateHash : String
  templateFingerprint : String
  templateInstanceHash : String
  template : String
  parameters : List Parameter
  semanticFields : List (String × String)
  schemaVersion : String
  entityRoute : ρ
  changeType : String
deriving DecidableEq

inductive ParameterMode where
  | off
  | all
  /-- Any other text. -/
  | unknown
deriving DecidableEq

inductive MiningError where
  | messageCore
  | miner
  | parameterExtractionMode
  /-- The schedule ends before the workers do. -/
  | unfinished
deriving DecidableEq

/-! ## State files -/

abbrev Key := List String

def miningPartitionKey (record : Record) (partitionByNode : Bool) : Key :=
  [textOr record.cluster "default"] ++
    (if partitionByNode then [textOr record.node "unknown"] else []) ++
      [textOr record.sourceType "unknown", textOr record.component "unknown"]

def safeChar (c : Char) : Char := if c = '/' ∨ c = ' ' then '_' else c

/-- `"__".join(x.replace("/", "_").replace(" ", "_") for x in key)`. -/
def safe (key : Key) : String :=
  String.ofList (List.intercalate ['_', '_'] (key.map fun x => x.toList.map safeChar))

/-- The file of a miner in the state directory. -/
def stateFile (key : Key) : String := safe key ++ ".bin"

abbrev Files (φ : Type) := String → Option φ

/-- The miners a worker has at hand. -/
abbrev Manager (σ : Type) := Key → Option σ

section Worker

variable {σ φ ρ : Type} (drain : Drain σ φ) (tools : Tools ρ) (mode : ParameterMode)
  (scope : Option String)

def minerKey (record : Record) : Key :=
  let cluster := textOr record.cluster "default"
  let sourceType := textOr record.sourceType "unknown"
  let component := textOr record.component "unknown"
  match scope with
  | none => [cluster, sourceType, component]
  | some scope => [cluster, scope, sourceType, component]

def stableTemplateHash (cluster sourceType component template : String) : String :=
  String.ofList ((tools.sha1
    (cluster ++ "|" ++ sourceType ++ "|" ++ component ++ "|" ++ template)).toList.take 16)

def extracted (miner : σ) (template message : String) : List Parameter :=
  match mode with
  | .all =>
      match drain.extractParameters miner template message true with
      | some parameters => parameters
      | none => (drain.extractParameters miner template message false).getD []
  | _ => []

/-- `fields["unit"] = unit`. -/
def withUnit (fields : List (String × String)) (unit : String) : List (String × String) :=
  if fields.any fun f => f.1 = "unit" then
    fields.map fun f => if f.1 = "unit" then ("unit", unit) else f
  else fields ++ [("unit", unit)]

def unitMark : List Char := "<SYSTEMD_UNIT>".toList

/-- The unit of a message of systemd whose template names one. -/
def systemdUnit (miner : σ) (component template message : String) : Option String :=
  if component = "systemd" ∧ (template.toList.tails.countP fun t => unitMark.isPrefixOf t) = 1 then
    let parameters := (drain.extractParameters miner template message true).getD []
    match parameters.filter fun p => p.maskName = "SYSTEMD_UNIT" with
    | [p] => some p.value
    | _ => none
  else none

def semanticFieldsOf (miner : σ) (record : Record) (component template message : String) :
    List (String × String) :=
  let fields := record.semanticFields.getD []
  match systemdUnit drain miner component template message with
  | some unit => withUnit fields unit
  | none => fields

def eventOf (miner : σ) (record : Record) (message : String) (mined : Mined) : Event ρ :=
  let cluster := textOr record.cluster "default"
  let sourceType := textOr record.sourceType "unknown"
  let component := textOr record.component "unknown"
  let template := mined.templateMined
  let fields := semanticFieldsOf drain miner record component template message
  { record, cluster, sourceType, component, template
    templateHash := stableTemplateHash tools cluster sourceType component template
    templateFingerprint := tools.templateFingerprint sourceType component template
    templateInstanceHash := tools.templateInstanceHash cluster
      (textOr record.node (textOr scope "unknown")) sourceType component template
    parameters := extracted drain mode miner template message
    semanticFields := fields
    schemaVersion :=
      if record.semanticFields.isSome ∨ (fields.any fun f => f.1 = "unit") then "template_event_v2"
      else "template_event_v1"
    entityRoute := tools.routeEntities record
    changeType := mined.changeType }

/-- The miner is given the message, and the event is made of what it reports. -/
def observe (manager : Manager σ) (files : Files φ) (record : Record) (message : String)
    (miner : σ) : Files φ × Except MiningError (Event ρ × Manager σ) :=
  match drain.addLogMessage miner message with
  | none => (files, .error .miner)
  | some (mined, miner, snapshot) =>
      let key := minerKey scope record
      let files := match snapshot with
        | some content => Function.update files (stateFile key) (some content)
        | none => files
      match mode with
      | .unknown => (files, .error .parameterExtractionMode)
      | _ =>
          (files, .ok (eventOf drain tools mode scope miner record message mined,
            Function.update manager key (some miner)))

/-- The miner of the key, loaded where it is not at hand. -/
def getMiner (manager : Manager σ) (files : Files φ) (key : Key) : Option σ :=
  match manager key with
  | some miner => some miner
  | none => drain.load (files (stateFile key))

def mineTemplateEvent (manager : Manager σ) (files : Files φ) (record : Record) :
    Files φ × Except MiningError (Event ρ × Manager σ) :=
  match record.messageCore with
  | none => (files, .error .messageCore)
  | some message =>
      match getMiner drain manager files (minerKey scope record) with
      | none => (files, .error .miner)
      | some miner => observe drain tools mode scope manager files record message miner

/-- The loop over the records of a partition, from the miners at hand. -/
def mineRecords : List (ℕ × Record) → Manager σ → Files φ →
    Files φ × Except MiningError (List (ℕ × Event ρ))
  | [], _, files => (files, .ok [])
  | (index, record) :: rest, manager, files =>
      match mineTemplateEvent drain tools mode scope manager files record with
      | (files, .error e) => (files, .error e)
      | (files, .ok (event, manager)) =>
          match mineRecords rest manager files with
          | (files, .error e) => (files, .error e)
          | (files, .ok events) => (files, .ok ((index, event) :: events))

def mineIndexedPartition (records : List (ℕ × Record)) (files : Files φ) :
    Files φ × Except MiningError (List (ℕ × Event ρ)) :=
  mineRecords drain tools mode scope records (fun _ => none) files

end Worker

/-! ## The pool -/

/-- A process of the pool on the partition it was given. -/
structure Worker (σ ρ : Type) where
  scope : Option String
  pending : List (ℕ × Record)
  manager : Manager σ := fun _ => none
  collected : List (ℕ × Event ρ) := []
  failed : Option MiningError := none

structure Pool (σ φ ρ : Type) where
  workers : List (Worker σ ρ)
  files : Files φ

section Pool

variable {σ φ ρ : Type} (drain : Drain σ φ) (tools : Tools ρ) (mode : ParameterMode)

/-- A worker goes on up to its next access to a state file: it loads a miner, or gives
its miner the next message and writes the snapshot. -/
def workerStep (worker : Worker σ ρ) (files : Files φ) : Worker σ ρ × Files φ :=
  match worker.failed, worker.pending with
  | none, (index, record) :: rest =>
      match record.messageCore with
      | none => ({ worker with failed := some .messageCore }, files)
      | some message =>
          let key := minerKey worker.scope record
          match worker.manager key with
          | none =>
              match drain.load (files (stateFile key)) with
              | none => ({ worker with failed := some .miner }, files)
              | some miner =>
                  ({ worker with manager := Function.update worker.manager key (some miner) }, files)
          | some miner =>
              match observe drain tools mode worker.scope worker.manager files record message
                miner with
              | (files, .error e) => ({ worker with failed := some e }, files)
              | (files, .ok (event, manager)) =>
                  ({ worker with
                      pending := rest, manager
                      collected := worker.collected ++ [(index, event)] }, files)
  | _, _ => (worker, files)

/-- The worker at the position takes its next step. -/
def poolStep (pool : Pool σ φ ρ) (i : ℕ) : Pool σ φ ρ :=
  match pool.workers[i]? with
  | none => pool
  | some worker =>
      let (worker, files) := workerStep drain tools mode worker pool.files
      { workers := pool.workers.set i worker, files }

/-- `future.result()`. -/
def Worker.result (worker : Worker σ ρ) : Except MiningError (List (ℕ × Event ρ)) :=
  match worker.failed, worker.pending with
  | some e, _ => .error e
  | none, [] => .ok worker.collected
  | none, _ :: _ => .error .unfinished

/-- The partitions in the pool; the schedule says whose step is next. -/
def minePool (parts : List (Option String × List (ℕ × Record))) (schedule : List ℕ)
    (files : Files φ) : Except MiningError (List (List (ℕ × Event ρ))) :=
  let workers := parts.map fun part => { scope := part.1, pending := part.2 }
  (schedule.foldl (poolStep drain tools mode) ⟨workers, files⟩).workers.mapM Worker.result

/-- The partitions one after the other. -/
def mineSerial : List (Option String × List (ℕ × Record)) → Files φ →
    Except MiningError (List (List (ℕ × Event ρ)))
  | [], _ => .ok []
  | (scope, records) :: rest, files =>
      match mineIndexedPartition drain tools mode scope records files with
      | (_, .error e) => .error e
      | (files, .ok events) => do
          let others ← mineSerial rest files
          return events :: others

end Pool

/-! ## A call -/

structure MiningOptions where
  workerCount : ℤ := 1
  maxWorkers : ℤ := 4
  reserveCpuCores : ℤ := 1
  partitionByNode : Bool := false
  parameterExtractionMode : ParameterMode := .off
  processStartMethod : String := "spawn"

structure Metadata where
  partitionCount : ℕ
  workerCount : ℤ
  parallel : Bool
  processStartMethod : String
deriving DecidableEq

/-- What the machine decides: its processors, and who runs when. -/
structure Machine where
  cpuCount : Option ℤ
  schedule : List ℕ

def effectiveWorkers (options : MiningOptions) (machine : Machine) (partitionCount : ℕ) : ℤ :=
  if partitionCount = 0 then 0
  else
    let cpus := match machine.cpuCount with
      | some n => if n = 0 then 1 else n
      | none => 1
    let availableCpus := max 1 (cpus - max 0 options.reserveCpuCores)
    min (min (max 1 options.workerCount) (max 1 options.maxWorkers))
      (min availableCpus partitionCount)

/-- `enumerate(records)`. -/
def enumerate (records : List Record) : List (ℕ × Record) := records.zipIdx.map Prod.swap

/-- The records with their positions, under their keys. -/
def partitionsOf (records : List Record) (partitionByNode : Bool) :
    Dict Key (List (ℕ × Record)) :=
  Dict.groupBy (fun item => miningPartitionKey item.2 partitionByNode) (enumerate records)

/-- `key[1] if partition_by_node else None`. -/
def stateScope (partitionByNode : Bool) (key : Key) : Option String :=
  if partitionByNode then key[1]? else none

variable {σ φ ρ : Type}

def mineTemplateEvents (drain : Drain σ φ) (tools : Tools ρ) (options : MiningOptions)
    (machine : Machine) (files : Files φ) (records : List Record) :
    Except MiningError (List (Event ρ) × Metadata) := do
  let parts := (partitionsOf records options.partitionByNode).entries.map fun item =>
    (stateScope options.partitionByNode item.1, item.2)
  let workers := effectiveWorkers options machine parts.length
  let collected ←
    if 1 < workers then
      minePool drain tools options.parameterExtractionMode parts machine.schedule files
    else mineSerial drain tools options.parameterExtractionMode parts files
  return ((scatter records.length collected.flatten).reduceOption,
    { partitionCount := parts.length
      workerCount := workers
      parallel := decide (1 < workers)
      processStartMethod := options.processStartMethod })

end LogRisk.Mining
