import LogRisk.Semantic.Schema

/-!
# The store of semantic dictionaries

Built-in dictionaries, the catalogue of their versions with the active one of each, the
custom rules of every version and the latest validation report of each.  The history
holds the reports and the audit events in the order in which they were recorded.
-/

namespace LogRisk.Semantic

structure Metadata where
  latestVersion : ℤ := 1
  activeVersion : ℤ := 1
  versions : List ℤ := [1]
deriving DecidableEq

structure Report where
  dictionaryId : String
  version : ℤ
  contentHash : String
  valid : Bool
deriving DecidableEq

inductive ActivationKind where
  | publish | rollback
deriving DecidableEq

structure Event where
  dictionaryId : String
  version : ℤ
  contentHash : String
  action : ActivationKind
  operator : String
deriving DecidableEq

inductive Entry where
  | validated (r : Report)
  | activated (e : Event)

structure Store where
  /-- The file of the catalogue, where it exists. -/
  catalog : Option (String → Option Metadata) := none
  /-- `custom_rules` of the stored versions. -/
  payloads : String → ℤ → Option (List Rule) := fun _ _ => none
  validations : String → ℤ → Option Report := fun _ _ => none
  history : List Entry := []

structure CoreCase where
  message : String
  sourceType : String
  component : String
  field : String
  expected : Value

def coreCases : List CoreCase :=
  [⟨"HTTP status 503", "access", "nginx", "http_status", .int 503⟩,
   ⟨"open failed errno=28", "syslog", "kernel", "errno", .int 28⟩,
   ⟨"container exited with code 137", "system", "containerd", "exit_code", .int 137⟩,
   ⟨"terminated by signal 9", "system", "containerd", "signal", .int 9⟩,
   ⟨"NVRM: Xid 79, GPU has fallen off the bus", "syslog", "kernel", "xid_code", .int 79⟩,
   ⟨"Reason=Evicted", "system", "kubelet", "k8s_reason", .string "Evicted"⟩]

structure Snapshot where
  dictionary : Dictionary
  status : String
  builtinRules : List Rule
  customRules : List Rule
  activeVersion : ℤ
  latestVersion : ℤ
  availableVersions : List ℤ

/-- What a request asks `_activate` for. -/
structure Confirmation where
  confirmed : Bool
  operator : String := "local-operator"

/-- The code with its built-in dictionaries. -/
structure Runtime where
  host : Host
  builtins : List Dictionary

namespace Runtime

variable (rt : Runtime)

def builtin (id : String) : Option Dictionary := rt.builtins.find? (·.dictionaryId = id)

/-- `_catalog()["items"]`. -/
def items (s : Store) (id : String) : Option Metadata :=
  (s.catalog.bind fun items => items id).orElse fun _ =>
    if (rt.builtin id).isSome then some {} else none

def customRules (s : Store) (id : String) (version : ℤ) : Except Exn (List Rule) :=
  if version = 1 then return []
  else match s.payloads id version with
  | none => throw "语义词典版本不存在"
  | some rules => return rules

/-- The validation of the built-in rules with custom ones. -/
def combined (builtin : Dictionary) (id : String) (version : ℤ) (custom : List Rule) :
    Except Exn Dictionary :=
  validateDictionary rt.host
    { dictionaryId := id, name := builtin.name, version, rules := builtin.rules ++ custom } (some id)

/-- The combined rules of a version. -/
def content (s : Store) (builtin : Dictionary) (id : String) (version : ℤ) :
    Except Exn (List Rule × Dictionary) := do
  let custom ← customRules s id version
  let dictionary ← rt.combined builtin id version custom
  return (custom, dictionary)

def snapshotOf (metadata : Metadata) (builtin : Dictionary) (version : ℤ)
    (content : List Rule × Dictionary) : Snapshot where
  dictionary := content.2
  status := if version = metadata.activeVersion then "published"
    else if version = metadata.latestVersion then "candidate" else "history"
  builtinRules := builtin.rules
  customRules := content.2.rules.filter fun rule => content.1.any (·.ruleId = rule.ruleId)
  activeVersion := metadata.activeVersion
  latestVersion := metadata.latestVersion
  availableVersions := metadata.versions.dedup.insertionSort (· ≤ ·)

def snapshot (s : Store) (id : String) (version : ℤ) : Except Exn Snapshot :=
  match rt.builtin id, rt.items s id with
  | some builtin, some metadata =>
      if version ∉ metadata.versions then throw "语义词典版本不存在"
      else do
        let content ← rt.content s builtin id version
        return snapshotOf metadata builtin version content
  | _, _ => throw "语义词典不存在"

/-- The state after a new version was written. -/
def withVersion (s : Store) (id : String) (metadata : Metadata) (version : ℤ)
    (custom : List Rule) : Store :=
  let written : Metadata :=
    { metadata with latestVersion := version, versions := metadata.versions ++ [version] }
  { s with
    payloads := fun id' version' =>
      if id' = id ∧ version' = version then some custom else s.payloads id' version'
    catalog := some fun id' => if id' = id then some written else rt.items s id' }

/-- The version that a call will write, with its custom rules. -/
structure Draft where
  metadata : Metadata
  version : ℤ
  custom : List Rule

/-- `custom_rules` of the request, or those of the active version. -/
def candidateRules (s : Store) (id : String) (metadata : Metadata)
    (requested : Option (List Rule)) : Except Exn (List Rule) :=
  match requested with
  | some rules => return rules
  | none => customRules s id metadata.activeVersion

def candidateDraft (s : Store) (id : String) (requested : Option (List Rule)) :
    Except Exn Draft :=
  match rt.builtin id, rt.items s id with
  | some builtin, some metadata => do
      let version := metadata.latestVersion + 1
      let custom ← candidateRules s id metadata requested
      let _ ← rt.combined builtin id version custom
      return ⟨metadata, version, custom⟩
  | _, _ => throw "语义词典不存在"

def versionDraft (s : Store) (id : String) (expected : ℤ) (customRules : List Rule) :
    Except Exn Draft :=
  match rt.builtin id, rt.items s id with
  | some builtin, some metadata =>
      if expected = 1 then throw "内置语义词典只读，请先创建候选版本"
      else if expected ≠ metadata.latestVersion then
        throw ("版本冲突：当前版本为 " ++ toString metadata.latestVersion)
      else do
        let version := metadata.latestVersion + 1
        let _ ← rt.combined builtin id version customRules
        return ⟨metadata, version, customRules⟩
  | _, _ => throw "语义词典不存在"

/-- Write a draft and answer with its snapshot. -/
def save (s : Store) (id : String) (draft : Except Exn Draft) : Except Exn Snapshot × Store :=
  match draft with
  | .error e => (.error e, s)
  | .ok draft =>
      let s' := rt.withVersion s id draft.metadata draft.version draft.custom
      (rt.snapshot s' id draft.version, s')

def createCandidate (s : Store) (id : String) (requested : Option (List Rule)) :
    Except Exn Snapshot × Store :=
  rt.save s id (rt.candidateDraft s id requested)

def saveVersion (s : Store) (id : String) (expected : ℤ) (customRules : List Rule) :
    Except Exn Snapshot × Store :=
  rt.save s id (rt.versionDraft s id expected customRules)

/-- The dictionaries of `_bundle`, one of them at another version than its active one. -/
def bundle (s : Store) (id : String) (version : ℤ) : Except Exn (List Payload) :=
  ((rt.builtins.map (·.dictionaryId)).dedup.insertionSort (· ≤ ·)).mapM fun id' => do
    let version' :=
      if id' = id then version else ((rt.items s id').map (·.activeVersion)).getD 1
    let snapshot ← rt.snapshot s id' version'
    return { snapshot.dictionary.toPayload with dictionaryId := id', version := version' }

def passes (dictionaries : List Payload) (c : CoreCase) : Except Exn Bool := do
  let fields ← extract rt.host dictionaries c.message c.sourceType c.component
  return decide (fields.lookup c.field = some c.expected)

def report (s : Store) (id : String) (version : ℤ) : Except Exn Report := do
  let snapshot ← rt.snapshot s id version
  let dictionaries ← rt.bundle s id version
  let checks ← coreCases.mapM (rt.passes dictionaries)
  return {
    dictionaryId := id, version, contentHash := snapshot.dictionary.contentHash,
    valid := checks.all (· = true) }

def record (s : Store) (r : Report) : Store :=
  { s with
    validations := fun id' version' =>
      if id' = r.dictionaryId ∧ version' = r.version then some r else s.validations id' version'
    history := s.history ++ [.validated r] }

def validateVersion (s : Store) (id : String) (version : ℤ) : Except Exn Report × Store :=
  match rt.report s id version with
  | .error e => (.error e, s)
  | .ok r => (.ok r, record s r)

/-- What has to hold before a version becomes active. -/
def activation (s : Store) (id : String) (version : ℤ) (payload : Confirmation)
    (action : ActivationKind) : Except Exn Snapshot :=
  if ¬ payload.confirmed then throw "词典变更需要人工确认"
  else do
    let snapshot ← rt.snapshot s id version
    if action = .publish then
      match s.validations id version with
      | none => throw "候选版本必须先通过校验"
      | some validation =>
          if ¬ validation.valid ∨ validation.contentHash ≠ snapshot.dictionary.contentHash then
            throw "候选版本校验未通过或已失效"
          else return snapshot
    else return snapshot

/-- The catalogue is written and the event appended. -/
def activated (s : Store) (id : String) (e : Event) : Store :=
  { s with
    catalog := some fun id' =>
      if id' = id then (rt.items s id).map fun metadata =>
        { metadata with activeVersion := e.version }
      else rt.items s id'
    history := s.history ++ [.activated e] }

def activate (s : Store) (id : String) (version : ℤ) (payload : Confirmation)
    (action : ActivationKind) : Except Exn Snapshot × Store :=
  match rt.activation s id version payload action with
  | .error e => (.error e, s)
  | .ok snapshot =>
      let s' := rt.activated s id
        { dictionaryId := id, version, contentHash := snapshot.dictionary.contentHash, action,
          operator := payload.operator }
      (rt.snapshot s' id version, s')

def publish (s : Store) (id : String) (version : ℤ) (payload : Confirmation) :
    Except Exn Snapshot × Store :=
  rt.activate s id version payload .publish

def rollback (s : Store) (id : String) (version : ℤ) (payload : Confirmation) :
    Except Exn Snapshot × Store :=
  rt.activate s id version payload .rollback

end Runtime

inductive Call where
  | createCandidate (id : String) (customRules : Option (List Rule))
  | saveVersion (id : String) (expected : ℤ) (customRules : List Rule)
  | validateVersion (id : String) (version : ℤ)
  | publish (id : String) (version : ℤ) (payload : Confirmation)
  | rollback (id : String) (version : ℤ) (payload : Confirmation)

/-- The store after a call. -/
def Runtime.step (rt : Runtime) (s : Store) : Call → Store
  | .createCandidate id customRules => (rt.createCandidate s id customRules).2
  | .saveVersion id expected customRules => (rt.saveVersion s id expected customRules).2
  | .validateVersion id version => (rt.validateVersion s id version).2
  | .publish id version payload => (rt.publish s id version payload).2
  | .rollback id version payload => (rt.rollback s id version payload).2

end LogRisk.Semantic
