import LogRisk.Library.Dict
import LogRisk.Library.Paging
import LogRisk.Library.Text
import Mathlib.Data.Multiset.AddSub
import Mathlib.Data.Finset.Option
import Mathlib.Data.Finset.Union
import Mathlib.Data.Prod.Lex
import Mathlib.Order.WithBot
import Mathlib.Order.Nat
import Mathlib.Data.String.Basic

/-!
# Template events and their windows

`TemplateEventAggregator` counts template events in windows of time.  Times are
microseconds since the epoch in UTC.  A set that is written out as a sorted list is
a finite set here, and a dictionary of counters is the multiset of what it counts.
The value of a semantic field is of any type `ν`.
-/

namespace LogRisk.Windows

open LogRisk.Library

variable {ν : Type}

/-! ## Events -/

/-- A text that is not falsy. -/
def given (s : Option String) : Option String := s.filter fun s => s ≠ ""

structure Relation where
  fromKey : String
  relation : String
  toKey : String
deriving DecidableEq

structure RiskSemantic where
  riskType : Option String
deriving DecidableEq

/-- A template event; the dictionary versions are in the order of their keys. -/
structure TemplateEvent (ν : Type) where
  timestamp : Option String := none
  windowStart : Option String := none
  firstSeen : Option String := none
  cluster : Option String := none
  node : Option String := none
  «namespace» : Option String := none
  pod : Option String := none
  sourceType : Option String := none
  component : Option String := none
  severity : Option String := none
  templateHash : Option String := none
  template : Option String := none
  rawSample : Option String := none
  entityKeys : List String := []
  relations : List Relation := []
  semanticFields : Dict String ν := ∅
  semanticTags : List String := []
  typedParameters : List (String × String) := []
  semanticExtractorVersion : Option String := none
  semanticDictionaryVersions : List (String × String) := []
  riskSemantic : Option RiskSemantic := none

/-- `TemplateEventAggregator(window_seconds, max_samples_per_template)`, and the
reading of an ISO time, which counts as UTC when it names no zone. -/
structure Settings where
  parseTime : String → Option ℤ
  windowSeconds : ℕ
  maxSamples : ℕ
  window_pos : 0 < windowSeconds

/-! ## Times -/

inductive TimeQuality where
  | event
  | window
  | unknown
deriving DecidableEq

/-- `_parse_known_time`. -/
def Settings.parseKnownTime (settings : Settings) (value : Option String) : Option ℤ :=
  (given value).bind settings.parseTime

/-- `resolve_event_time(event, {})`. -/
def Settings.resolveEventTime (settings : Settings) (e : TemplateEvent ν) :
    Option ℤ × TimeQuality :=
  match settings.parseKnownTime e.timestamp with
  | some direct => (some direct, .event)
  | none =>
      match settings.parseKnownTime ((given e.windowStart).or e.firstSeen) with
      | some boundary => (some boundary, .window)
      | none => (none, .unknown)

def microseconds : ℤ := 1000000

/-- `floor_window`: whole seconds are cut towards zero first. -/
def Settings.floorWindow (settings : Settings) (t : ℤ) : ℤ :=
  let epoch := t.tdiv microseconds
  (epoch - epoch % settings.windowSeconds) * microseconds

def Settings.startOf (settings : Settings) (e : TemplateEvent ν) : Option ℤ :=
  (settings.resolveEventTime e).1.map settings.floorWindow

def Settings.endOf (settings : Settings) (e : TemplateEvent ν) : Option ℤ :=
  (settings.startOf e).map fun start => start + settings.windowSeconds * microseconds

/-- The earlier of two times that may be missing, the first one when they are equal. -/
def earliest : Option ℤ → Option ℤ → Option ℤ
  | none, b => b
  | a, none => a
  | some x, some y => some (if y < x then y else x)

def latest : Option ℤ → Option ℤ → Option ℤ
  | none, b => b
  | a, none => a
  | some x, some y => some (if x < y then y else x)

/-! ## Severities -/

/-- The table of the aggregator. -/
def severityTable : List (String × ℤ) :=
  [("TRACE", 0), ("DEBUG", 1), ("INFO", 2), ("NOTICE", 3), ("WARNING", 4), ("WARN", 4),
    ("ERROR", 5), ("CRITICAL", 6), ("FATAL", 7)]

def severityOrder (severity : Option String) : ℤ :=
  (severityTable.lookup (Text.upper (severity.getD ""))).getD (-1)

/-- The new severity when it ranks higher. -/
def raised (order : Option String → ℤ) (current new : Option String) : Option String :=
  if order current < order new then new else current

/-! ## Windows -/

inductive EntityType where
  | node
  | pod
  | unknown
deriving DecidableEq

structure Window (ν : Type) where
  windowStart : Option ℤ
  windowEnd : Option ℤ
  timeQuality : TimeQuality
  cluster : Option String
  entityType : EntityType
  entityId : String
  sourceType : Option String
  component : Option String
  severity : Option String
  templateHash : Option String
  template : Option String
  count : ℕ
  severityDistribution : Multiset String
  firstSeen : Option ℤ
  lastSeen : Option ℤ
  samples : List String
  affectedNamespaces : Finset String
  affectedPods : Finset String
  entityKeys : Finset String
  entityRelations : Finset Relation
  semanticFields : Multiset (String × ν)
  semanticTags : Finset String
  typedParameters : Multiset (String × String)
  semanticExtractorVersion : Option String
  semanticDictionaryVersions : List (String × String)
  riskSemantic : Option RiskSemantic

namespace TemplateEvent

def entityId (e : TemplateEvent ν) : String := (((given e.node).or (given e.pod)).getD "unknown")

def entityType (e : TemplateEvent ν) : EntityType :=
  if (given e.node).isSome then .node else if (given e.pod).isSome then .pod else .unknown

def riskType (e : TemplateEvent ν) : Option String := e.riskSemantic.bind RiskSemantic.riskType

/-- The unit a systemd event is about. -/
def unit (e : TemplateEvent ν) : Option ν :=
  if e.component = some "systemd" then e.semanticFields.get? "unit" else none

/-- `str(severity or "unknown").upper()`. -/
def severityName (e : TemplateEvent ν) : String :=
  Text.upper ((given e.severity).getD "unknown")

def tags (e : TemplateEvent ν) : List String := e.semanticTags.filter (· ≠ "")

def keys (e : TemplateEvent ν) : List String := e.entityKeys.filter (· ≠ "")

def wholeRelations (e : TemplateEvent ν) : List Relation :=
  e.relations.filter fun r => r.fromKey ≠ "" ∧ r.relation ≠ "" ∧ r.toKey ≠ ""

def parameters (e : TemplateEvent ν) : List (String × String) :=
  e.typedParameters.filter fun p => p.1 ≠ "" ∧ p.2 ≠ ""

end TemplateEvent

/-- The key of the aggregator. -/
structure AggregatorKey (ν : Type) where
  start : Option ℤ
  cluster : Option String
  entityType : EntityType
  entityId : String
  component : Option String
  templateHash : Option String
  sourceType : Option String
  semanticExtractorVersion : Option String
  semanticDictionaryVersions : List (String × String)
  riskType : Option String
  unit : Option ν
deriving DecidableEq

def Settings.keyOf (settings : Settings) (e : TemplateEvent ν) : AggregatorKey ν where
  start := settings.startOf e
  cluster := e.cluster
  entityType := e.entityType
  entityId := e.entityId
  component := e.component
  templateHash := e.templateHash
  sourceType := e.sourceType
  semanticExtractorVersion := e.semanticExtractorVersion
  semanticDictionaryVersions := e.semanticDictionaryVersions
  riskType := e.riskType
  unit := e.unit

/-- The window an event opens, before it is counted. -/
def Settings.opened (settings : Settings) (e : TemplateEvent ν) : Window ν where
  windowStart := settings.startOf e
  windowEnd := settings.endOf e
  timeQuality := (settings.resolveEventTime e).2
  cluster := e.cluster
  entityType := e.entityType
  entityId := e.entityId
  sourceType := e.sourceType
  component := e.component
  severity := e.severity
  templateHash := e.templateHash
  template := e.template
  count := 0
  severityDistribution := 0
  firstSeen := (settings.resolveEventTime e).1
  lastSeen := (settings.resolveEventTime e).1
  samples := []
  affectedNamespaces := ∅
  affectedPods := ∅
  entityKeys := ∅
  entityRelations := ∅
  semanticFields := 0
  semanticTags := ∅
  typedParameters := 0
  semanticExtractorVersion := e.semanticExtractorVersion
  semanticDictionaryVersions := e.semanticDictionaryVersions
  riskSemantic := e.riskSemantic

/-- One event counted in its window. -/
def Settings.counted (settings : Settings) (w : Window ν) (e : TemplateEvent ν) : Window ν :=
  { w with
    count := w.count + 1
    severityDistribution := w.severityDistribution + {e.severityName}
    firstSeen := earliest w.firstSeen (settings.resolveEventTime e).1
    lastSeen := latest w.lastSeen (settings.resolveEventTime e).1
    severity := raised severityOrder w.severity e.severity
    samples := if w.samples.length < settings.maxSamples then
        w.samples ++ (given e.rawSample).toList else w.samples
    affectedNamespaces := w.affectedNamespaces ∪ (given e.namespace).toFinset
    affectedPods := w.affectedPods ∪ (given e.pod).toFinset
    entityKeys := w.entityKeys ∪ e.keys.toFinset
    entityRelations := w.entityRelations ∪ e.wholeRelations.toFinset
    semanticFields := w.semanticFields + e.semanticFields.entries
    semanticTags := w.semanticTags ∪ e.tags.toFinset
    typedParameters := w.typedParameters + e.parameters }

variable [DecidableEq ν]

/-- `aggregator.windows` after the events. -/
def Settings.windows (settings : Settings) (events : List (TemplateEvent ν)) :
    Dict (AggregatorKey ν) (Window ν) :=
  Dict.groupFold settings.keyOf (fun w e => settings.counted (w.getD (settings.opened e)) e) ∅ events

/-- The order of the finished windows. -/
def finalKey (w : Window ν) : WithBot ℤ ×ₗ String ×ₗ ℤ :=
  toLex (w.windowStart, toLex (w.entityId, -w.count))

/-- `aggregate_template_events`. -/
def Settings.aggregate (settings : Settings) (events : List (TemplateEvent ν)) : List (Window ν) :=
  Paging.ordered finalKey (settings.windows events).values

end LogRisk.Windows
