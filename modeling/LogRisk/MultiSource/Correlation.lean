import LogRisk.Library.UnionFind
import LogRisk.MultiSource.Observations
import Mathlib.Algebra.Order.Field.Rat
import Mathlib.Algebra.Order.Group.Abs
import Mathlib.Data.Prod.Lex

/-!
# Correlation of observations

`correlate_observations`: for every observation the later ones of other families that share
an entity within the gap of the rule, the edges between them, and the groups that the edges
make.  The search stops where the rule has no more comparisons to spend.
-/

namespace LogRisk.MultiSource

open LogRisk.Library

structure CorrelationRule where
  ruleId : String
  enabled : Bool := true
  sourcePairs : List (String × String) := []
  maxGapSeconds : ℚ := 0
  minRiskScore : ℚ := 0
  minCount : ℤ := 1
  confidence : ℚ := 0
  /-- Zero where there is none. -/
  maxCandidatePairs : ℕ := 0
  version : ℕ := 1

/-- An observation with the time at which its window starts, in seconds. -/
structure Item where
  obs : Observation
  time : ℚ

structure Edge where
  edgeId : String
  leftObservationId : String
  rightObservationId : String
  entityKeys : List String
  gapSeconds : ℚ

structure Correlation where
  correlationId : String
  ruleId : String
  ruleVersion : ℕ
  cluster : String
  primaryEntityKey : String
  groupScope : String
  edges : List Edge
  isPartial : Bool
  windowStart : String
  windowEnd : String
  confidence : ℚ
  riskScore : ℚ
  sourceFamilies : List String
  observationIds : List String

def seconds (t : IsoTime) : ℚ := t.instant / 1000000

section Correlating

variable (host : Host) (rule : CorrelationRule)

/-- `rule.get("min_count") or 1`. -/
def CorrelationRule.minimumCount : ℤ := if rule.minCount = 0 then 1 else rule.minCount

/-- The item of an observation that the rule looks at. -/
def itemOf (o : Observation) : Option Item :=
  if rule.minRiskScore ≤ o.riskScore ∧ rule.minimumCount ≤ o.count ∧ o.entityKeys ≠ [] then
    (parseTime host o.windowStart).map fun t => ⟨o, seconds t⟩
  else none

def Item.shares (first second : Item) : List String :=
  (first.obs.entityKeys.filter fun key => decide (key ∈ second.obs.entityKeys)).dedup.insertionSort
    (· ≤ ·)

def gap (first second : Item) : ℚ := |first.time - second.time|

/-- `_pair_allowed`. -/
def pairAllowed (first second : String) : Bool :=
  decide (first ≠ second ∧ ((first, second) ∈ rule.sourcePairs ∨ (second, first) ∈ rule.sourcePairs))

/-! ## Candidates -/

/-- The places of the items of one cluster, entity and family, ordered by their times. -/
def bucket (items : List Item) (cluster entity family : String) : List (ℚ ×ₗ ℤ) :=
  ((items.zipIdx.filter fun x => decide (x.1.obs.cluster = cluster ∧ entity ∈ x.1.obs.entityKeys ∧
    x.1.obs.sourceFamily = family)).map fun x => toLex (x.1.time, (x.2 : ℤ))).insertionSort (· ≤ ·)

/-- `bisect_left` to `bisect_right` of an ordered bucket. -/
def slice (bucket : List (ℚ ×ₗ ℤ)) (low high : ℚ ×ₗ ℤ) : List (ℚ ×ₗ ℤ) :=
  (bucket.dropWhile fun e => decide (e < low)).takeWhile fun e => decide (e ≤ high)

/-- `pair - {family}`, where the family is in the pair. -/
def otherFamilies (family : String) (pair : String × String) : List String :=
  if family = pair.1 ∨ family = pair.2 then
    [pair.1, pair.2].filter fun other => decide (other ≠ family)
  else []

/-- The places that the search for partners of an item comes by. -/
def positions (items : List Item) (first : Item) : List ℕ :=
  rule.sourcePairs.flatMap fun pair => (otherFamilies first.obs.sourceFamily pair).flatMap fun other =>
    first.obs.entityKeys.dedup.flatMap fun entity =>
      (slice (bucket items first.obs.cluster entity other)
        (toLex (first.time - rule.maxGapSeconds, -1))
        (toLex (first.time + rule.maxGapSeconds, (items.length : ℤ)))).map fun e =>
          (ofLex e).2.toNat

def addLater (left : ℕ) (candidates : List ℕ) (right : ℕ) : List ℕ :=
  if left < right then candidates.insert right else candidates

/-- The later places, up to one more than there are comparisons left. -/
def collect (remaining left : ℕ) : List ℕ → List ℕ → List ℕ × Bool
  | candidates, [] => (candidates, false)
  | candidates, right :: rest =>
      if remaining < (addLater left candidates right).length then (addLater left candidates right, true)
      else collect remaining left (addLater left candidates right) rest

/-! ## Edges -/

structure Search where
  comparisons : ℕ := 0
  isPartial : Bool := false
  parent : UnionFind.Parents := fun i => i
  edges : List Edge := []

def budget : ℕ := max 1 (if rule.maxCandidatePairs = 0 then 100000 else rule.maxCandidatePairs)

def edgeOf (first second : Item) : Edge :=
  let left := min first.obs.observationId second.obs.observationId
  let right := max first.obs.observationId second.obs.observationId
  { edgeId := "edge-" ++ host.digest ("|".intercalate
      ([rule.ruleId, toString rule.version, left, right] ++ first.shares second))
    leftObservationId := left
    rightObservationId := right
    entityKeys := first.shares second
    gapSeconds := gap first second }

def compareOne (n left right : ℕ) (first second : Item) (s : Search) : Search :=
  if first.obs.cluster ≠ second.obs.cluster then s
  else if ¬ pairAllowed rule first.obs.sourceFamily second.obs.sourceFamily then s
  else
    let s := { s with comparisons := s.comparisons + 1 }
    if (first.shares second).isEmpty then s
    else if rule.maxGapSeconds < gap first second then s
    else { s with
      parent := UnionFind.join n s.parent left right, edges := s.edges ++ [edgeOf host rule first second] }

def compareEach (items : List Item) (left : ℕ) (first : Item) : Search → List ℕ → Search
  | s, [] => s
  | s, right :: rest =>
      if budget rule ≤ s.comparisons then { s with isPartial := true }
      else match items[right]? with
      | none => compareEach items left first s rest
      | some second =>
          compareEach items left first (compareOne host rule items.length left right first second s) rest

/-- The candidates of an item and the comparisons with them. -/
def searchOne (items : List Item) (left : ℕ) (first : Item) (s : Search) : Search :=
  let found := collect (budget rule - s.comparisons) left [] (positions rule items first)
  compareEach host rule items left first { s with isPartial := found.2 }
    (found.1.insertionSort (· ≤ ·))

def search (items : List Item) : Search → List (Item × ℕ) → Search
  | s, [] => s
  | s, (first, left) :: rest =>
      let s := searchOne host rule items left first s
      if s.isPartial then s else search items s rest

/-! ## Groups -/

/-- The roots of items, looked for one after the other. -/
def roots (n : ℕ) : UnionFind.Parents → List ℕ → List ℕ
  | _, [] => []
  | parent, i :: rest =>
      (UnionFind.root n parent i).1 :: roots n (UnionFind.root n parent i).2 rest

def familiesOf (group : List Item) : List String :=
  ((group.map (·.obs.sourceFamily)).dedup).insertionSort (· ≤ ·)

def sharedKeys (group : List Item) : List String :=
  match group with
  | [] => []
  | first :: rest => (first.obs.entityKeys.filter fun key =>
      rest.all fun item => decide (key ∈ item.obs.entityKeys)).dedup.insertionSort (· ≤ ·)

def idsOf (group : List Item) : List String :=
  (group.map (·.obs.observationId)).insertionSort (· ≤ ·)

def edgesOf (edges : List Edge) (ids : List String) : List Edge :=
  (edges.filter fun edge => decide (edge.leftObservationId ∈ ids ∧ edge.rightObservationId ∈ ids)
    ).insertionSort fun a b => a.edgeId ≤ b.edgeId

def correlationId (ids : List String) : String :=
  "correlation-" ++ host.digest ("|".intercalate ([rule.ruleId, toString rule.version] ++ ids))

def correlationOf (s : Search) (group : List Item) : Option Correlation :=
  let ids := idsOf group
  let edges := edgesOf s.edges ids
  if group.length < 2 ∨ (familiesOf group).length < 2 ∨ edges = [] then none
  else some {
    correlationId := correlationId host rule ids
    ruleId := rule.ruleId
    ruleVersion := rule.version
    cluster := ((group.head?).map (·.obs.cluster)).getD ""
    primaryEntityKey := ((sharedKeys group).head?).getD
      (((edges.head?).bind (·.entityKeys.head?)).getD "")
    groupScope := if (sharedKeys group).isEmpty then "edge_connected" else "shared_entity"
    edges
    isPartial := s.isPartial
    windowStart := ((group.map (·.obs.windowStart)).min?).getD ""
    windowEnd := ((group.map (·.obs.windowEnd)).max?).getD ""
    confidence := rule.confidence
    riskScore := ((group.map (·.obs.riskScore)).max?).getD 0
    sourceFamilies := familiesOf group
    observationIds := ids }

def groups (items : List Item) (s : Search) : List (List Item) :=
  (Dict.groupBy Prod.fst
    ((roots items.length s.parent (List.range items.length)).zip items)).values.map fun group =>
      group.map Prod.snd

/-- `correlate_observations`. -/
def correlateObservations (observations : List Observation) : List Correlation :=
  if ¬ rule.enabled then []
  else
    let items := observations.filterMap (itemOf host rule)
    let s := search host rule items {} items.zipIdx
    ((groups items s).filterMap (correlationOf host rule s)).insertionSort fun a b =>
      a.correlationId ≤ b.correlationId

end Correlating

end LogRisk.MultiSource
