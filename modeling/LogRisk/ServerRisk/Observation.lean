import LogRisk.Library.Dict
import LogRisk.Library.Transaction
import Mathlib.Algebra.Order.Ring.Rat
import Mathlib.Data.Rat.Defs

/-!
# Observations and the registered policies

An observation is a row a registered source submitted about one subject: an
adverse interval, a state snapshot, a recovery candidate or the coverage of an
event stream.  Sources and recovery rules come from the configuration.  Instants
are microseconds since the epoch in UTC.
-/

namespace LogRisk.ServerRisk

open LogRisk.Library LogRisk.Library.Transaction

/-- What raises: a `ServerRiskError` with its code, or the language itself. -/
inductive Fault where
  | serverRisk (code : String)
  | typeError
  | indexError
deriving DecidableEq

/-! ## Values of the configuration and of typed fields -/

inductive Scalar where
  | str (s : String)
  | int (n : ℤ)
  | float (q : ℚ)
  | bool (b : Bool)
deriving DecidableEq

namespace Scalar

/-- The number a value counts as; a boolean counts as zero or one. -/
def number? : Scalar → Option ℚ
  | str _ => none
  | int n => some n
  | float q => some q
  | bool b => some (if b then 1 else 0)

/-- `a == b`, where equal numbers of different types are equal. -/
def same : Scalar → Scalar → Bool
  | str s, str s' => decide (s = s')
  | a, b =>
      match a.number?, b.number? with
      | some x, some y => decide (x = y)
      | _, _ => false

def truthy : Scalar → Bool
  | str s => decide (s ≠ "")
  | int n => decide (n ≠ 0)
  | float q => decide (q ≠ 0)
  | bool b => b

end Scalar

/-- `SEVERITY_ORDER.get(s, 0)`. -/
def severityOrder : Scalar → ℕ
  | .str "critical" => 4
  | .str "high" => 3
  | .str "medium" => 2
  | .str "low" => 1
  | _ => 0

/-- `max(a, b, key=...)`: the first of the highest. -/
def severer (a b : Scalar) : Scalar := if severityOrder a < severityOrder b then b else a

/-! ## Sources -/

inductive Capability where
  | errorOnly
  | completeEventStream
  | authoritativeState
deriving DecidableEq

def Capability.ofText : String → Option Capability
  | "error_only" => some .errorOnly
  | "complete_event_stream" => some .completeEventStream
  | "authoritative_state" => some .authoritativeState
  | _ => none

/-- A source as the configuration has it; `keys` are the keys it has besides the
fields. -/
structure SourceEntry where
  enabled : Bool
  sourceEpoch : Option String
  configRevision : Option String
  capability : Option String
  freshnessSeconds : Option Scalar
  maxGapSeconds : Option Scalar
  allowedLatenessSeconds : Option Scalar
  keys : List String

/-- A source whose registration has passed the checks. -/
structure Source where
  sourceEpoch : String
  configRevision : String
  capability : Capability
  freshnessSeconds : ℤ
  maxGapSeconds : ℤ
  allowedLatenessSeconds : ℤ
  freshness_pos : 1 ≤ freshnessSeconds
  maxGap_pos : 1 ≤ maxGapSeconds
  lateness_nonneg : 0 ≤ allowedLatenessSeconds

def unregistered : Fault := .serverRisk "observation_source_unregistered"

def configInvalid : Fault := .serverRisk "observation_source_config_invalid"

/-- A threshold in seconds: an integer from the lower bound on. -/
def threshold (lower : ℤ) : Option Scalar → Except Fault { n : ℤ // lower ≤ n }
  | some (.int n) => if h : lower ≤ n then .ok ⟨n, h⟩ else .error configInvalid
  | _ => .error configInvalid

/-! ## Recovery rules -/

/-- A rule of the configuration, reduced to the keys the assessment reads, with
values of other kinds dropped. -/
structure Rule where
  mode : Option Scalar := none
  holdSeconds : Option Scalar := none
  recoverySignal : Option Scalar := none
  positiveField : Option Scalar := none
  positiveValue : Option Scalar := none
  requiresActivity : Option Scalar := none
  requiredSignals : Option (Scalar ⊕ List String) := none

def Rule.isMode (rule : Rule) (mode : String) : Bool := decide (rule.mode = some (.str mode))

/-- `set(rule.get("required_signals", []))`; of a text, its characters. -/
def Rule.needed (rule : Rule) : Except Fault (List String) :=
  match rule.requiredSignals with
  | none => .ok []
  | some (.inr signals) => .ok signals
  | some (.inl (.str s)) => .ok (s.toList.map String.singleton)
  | some (.inl _) => .error .typeError

/-- The hold duration as a number. -/
def Rule.hold? (rule : Rule) : Option ℚ := rule.holdSeconds.bind Scalar.number?

/-- A hold duration is registered, and it is not negative. -/
def Rule.Registered (rule : Rule) : Prop := ∃ hold, rule.hold? = some hold ∧ 0 ≤ hold

structure Policies where
  sources : Dict String SourceEntry
  rules : Dict String Rule

/-- `RiskPolicies.source`. -/
def Policies.source (policies : Policies) (sourceId : String) : Except Fault Source := do
  let entry ← orFail (policies.sources.get? sourceId) unregistered
  require (entry.enabled = true) unregistered
  require (["environment", "cluster", "node_ids", "signals", "permitted_actors"] ⊆ entry.keys)
    configInvalid
  let sourceEpoch ← orFail entry.sourceEpoch configInvalid
  let configRevision ← orFail entry.configRevision configInvalid
  let capability ← orFail (entry.capability.bind Capability.ofText) configInvalid
  let freshness ← threshold 1 entry.freshnessSeconds
  let maxGap ← threshold 1 entry.maxGapSeconds
  let lateness ← threshold 0 entry.allowedLatenessSeconds
  return {
    sourceEpoch, configRevision, capability,
    freshnessSeconds := freshness.1, maxGapSeconds := maxGap.1
    allowedLatenessSeconds := lateness.1, freshness_pos := freshness.2, maxGap_pos := maxGap.2
    lateness_nonneg := lateness.2 }

/-! ## Observations -/

structure Coverage where
  signalCodes : List String
  gaps : List (ℤ × ℤ)
  droppedCount : ℕ
  parseFailureCount : ℕ
  completeThrough : ℤ
deriving DecidableEq

inductive Kind where
  | adverse
  | stateSnapshot
  | recoveryCandidate
  | coverage (c : Coverage)
deriving DecidableEq

inductive Mode where
  | current
  | historical
deriving DecidableEq

structure Identity where
  cluster : String
  nodeId : String
  nodeUid : Option String
  objectKind : String
  objectId : String
  bootId : Option String
deriving DecidableEq

/-- A stored observation; what was submitted as a point has equal ends. -/
structure Observation where
  observationId : String
  subjectKey : String
  sourceId : String
  sourceEpoch : String
  configRevision : String
  idempotencyKey : String
  batchDigest : String
  mode : Mode
  intervalStart : ℤ
  intervalEnd : ℤ
  kind : Kind
  riskType : String
  signalCode : String
  identity : Identity
  typedFields : Dict String Scalar
  sourceSequence : ℕ
  start_le_end : intervalStart ≤ intervalEnd

namespace Observation

def isAdverse (o : Observation) : Bool := decide (o.kind = .adverse)

/-- `typed_fields.get("severity", "high")`. -/
def severity (o : Observation) : Scalar := (o.typedFields.get? "severity").getD (.str "high")

/-- `typed_fields.get(key)`; the keys are texts. -/
def field (o : Observation) : Option Scalar → Option Scalar
  | some (.str key) => o.typedFields.get? key
  | _ => none

/-- `typed_fields.get(key) is True`. -/
def isTrue (o : Observation) (key : String) : Bool :=
  decide (o.typedFields.get? key = some (.bool true))

end Observation

/-- What a source, in one epoch, under one configuration, said of one boot. -/
structure Boundary where
  sourceId : String
  sourceEpoch : String
  configRevision : String
  bootId : Option String
deriving DecidableEq

def Observation.boundary (o : Observation) : Boundary :=
  { sourceId := o.sourceId, sourceEpoch := o.sourceEpoch, configRevision := o.configRevision
    bootId := o.identity.bootId }

end LogRisk.ServerRisk
