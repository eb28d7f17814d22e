import LogRisk.Library.Dict
import LogRisk.Library.IsoTime
import LogRisk.Library.JsonText
import LogRisk.Library.Transaction
import Mathlib.Data.Rat.Defs

/-!
# What is ingested

A classified semantic event, the source record it was found in, and the keys that
are derived from the two: the fingerprint of the contribution, the physical key
that its revisions share, and the key under which events are merged.
-/

namespace LogRisk.NodeRisk

open LogRisk.Library

structure NodeRiskError where
  message : String
  code : String := "invalid_node_risk_request"
  statusCode : ℕ := 422
deriving DecidableEq

inductive Failure where
  | nodeRisk (error : NodeRiskError)
  /-- A primary key that is taken. -/
  | integrity
deriving DecidableEq

def fail (message : String) : Failure := .nodeRisk { message }

def conflict (message code : String) : Failure := .nodeRisk { message, code, statusCode := 409 }

/-! ## Falsy texts -/

def given (value : Option String) : Option String := value.filter fun s => s ≠ ""

/-- `a or b or …`: the first operand that is not falsy, else the last one. -/
def orText : List (Option String) → Option String
  | [] => none
  | [value] => value
  | value :: rest => if (given value).isSome then value else orText rest

/-- `str(a or b or … or default)`. -/
def textOr (values : List (Option String)) (default : String) : String :=
  ((values.filterMap given).head?).getD default

/-! ## Records -/

structure SourceRecord where
  cluster : Option String := none
  node : Option String := none
  host : Option String := none
  hostname : Option String := none
  timestamp : Option String := none
  windowStart : Option String := none
  firstSeen : Option String := none
  sourceBatchId : Option String := none
  batchId : Option String := none
  rawLogId : Option String := none
  templateInstanceHash : Option String := none
  templateHash : Option String := none
  messageCore : Option String := none
  semanticRevision : Option Json := none
  sourceNamespace : Option String := none
  sourceItemId : Option String := none
  expectedCurrentRevision : Option Json := none

structure SemanticEvent where
  riskType : String
  domain : String
  category : String
  riskSubtype : Option String := none
  severity : String
  baseScore : ℚ
  confidence : ℚ
  semanticRuleId : String
  semanticRuleVersion : ℤ
  semanticFields : Dict String String := ∅
  keyFields : List String
  /-- Zero stands for a missing value. -/
  windowSeconds : ℤ := 300

/-- The hash function and the reading of times. -/
structure NodeRiskEnv where
  sha256 : String → String
  /-- `_parse`; `none` where it raises. -/
  parse : String → Option IsoTime
  isoformat : IsoTime → String

def SourceRecord.clusterName (r : SourceRecord) : String := textOr [r.cluster] "default"

def SourceRecord.nodeName (r : SourceRecord) (default : String) : String :=
  textOr [r.node, r.host, r.hostname] default

def SourceRecord.batch (r : SourceRecord) : String := textOr [r.sourceBatchId, r.batchId] ""

/-! ## Keys -/

/-- `source_record.get("semantic_revision") or semantic_event.get("semantic_rule_version") or ""`. -/
def semanticRevision (event : SemanticEvent) (record : SourceRecord) : Json :=
  let version := Json.num event.semanticRuleVersion
  match record.semanticRevision.filter Json.truthy with
  | some revision => revision
  | none => if version.truthy then version else .str ""

/-- `_json(value)` of a container, `str(value)` of anything else. -/
def revisionText : Json → String
  | .str s => s
  | .bool b => if b then "True" else "False"
  | .null => "None"
  | value => value.canonical

/-- `_fingerprint`. -/
def fingerprint (env : NodeRiskEnv) (event : SemanticEvent) (record : SourceRecord)
    (sourceJobId : Option String) : String :=
  let sourceId := textOr [record.rawLogId, record.templateInstanceHash, record.templateHash]
    (env.sha256 (record.messageCore.getD ""))
  let sourceWindow := textOr [record.windowStart, record.timestamp] ""
  env.sha256 ("|".intercalate [record.clusterName, record.nodeName "", textOr [sourceJobId] "",
    record.batch, sourceId, sourceWindow, revisionText (semanticRevision event record),
    event.semanticRuleId, event.riskType])

/-- `_dedup_key`: the fields of the event shadow the node's own. -/
def dedupKey (env : NodeRiskEnv) (event : SemanticEvent) (record : SourceRecord) : String :=
  let context (field : String) : Option String :=
    match event.semanticFields.get? field with
    | some value => some value
    | none =>
        if field = "cluster" then some record.clusterName
        else if field = "node_id" then some (record.nodeName "unknown")
        else if field = "risk_type" then some event.riskType
        else none
  env.sha256 ("|".intercalate (event.keyFields.map fun field => (context field).getD ""))

/-- The key that all revisions of one contribution share, where its parts are known. -/
def physicalKey (env : NodeRiskEnv) (record : SourceRecord) (windowStart : IsoTime) : Option String :=
  match given record.sourceNamespace, given (some record.batch),
      orText [record.sourceItemId, record.rawLogId, record.templateInstanceHash] with
  | some ns, some batch, some item =>
      some (env.sha256 (Json.canonical (.arr [.str ns, .str batch,
        .str (textOr [record.windowStart] (env.isoformat windowStart)), .str item])))
  | _, _, _ => none

end LogRisk.NodeRisk
