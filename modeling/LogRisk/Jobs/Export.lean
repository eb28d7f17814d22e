import Mathlib.Algebra.BigOperators.Group.List.Basic
import Mathlib.Algebra.Order.Field.Rat
import LogRisk.Approval.Canonical
import LogRisk.Library.Transaction

/-!
# Exporting the approved features

The records of a job that belong to a node and have an approved feature are folded into one
entry per cluster and node: its window, its highest score with its level, its log count, its
features and what they affect.  A window is folded with `min` and `max` of the texts that are
there, which raise where there is none.
-/

namespace LogRisk.Jobs

open LogRisk.Library LogRisk.Library.Transaction LogRisk.Approval

/-! ## Jobs -/

inductive FeatureStatus where
  | pending
  | approved
  | rejected
deriving DecidableEq

structure Feature where
  candidateId : String
  status : FeatureStatus
deriving DecidableEq

/-- What the export reads of a source; a missing text of a window is empty. -/
structure Source where
  entityType : String
  cluster : Option String
  entityId : Option String
  riskScore : Option ℚ
  riskLevel : Option String
  windowStart : String
  windowEnd : String
  affectedEntities : List String

/-- The source of a record is stored with it or referred to. -/
structure Record (ρ : Type) where
  source : Source ⊕ ρ
  logCount : ℤ
  featureIds : List String

structure Job (ρ : Type) where
  features : List Feature
  entities : List (Record ρ)

/-- A node among the `approved_risk_nodes`. -/
structure Node where
  nodeId : Option String
  cluster : Option String
  riskScore : Option ℚ
  riskLevel : Option String
  windowStart : String
  windowEnd : String
  logCount : ℤ
  approvedFeatureIds : List String
  affectedEntities : List String

structure Statistics where
  total : ℕ
  approved : ℕ
  rejected : ℕ
  pending : ℕ

structure Package where
  reviewStatistics : Statistics
  approvedRiskNodes : List Node
  approvedFeatures : List Feature

/-- `sourceMissing` is raised where a source that is referred to cannot be read, `noWindow` by
`min` and `max` of nothing. -/
inductive ExportError where
  | noneApproved
  | sourceMissing
  | noWindow

abbrev Outcome := Except ExportError

/-! ## Contributions -/

/-- A record that counts for a node. -/
structure Contribution where
  source : Source
  logCount : ℤ
  featureIds : List String

/-- `float(source.get("risk_score") or 0)`. -/
def scoreOf (score : Option ℚ) : ℚ := score.getD 0

def Contribution.key (c : Contribution) : String × String :=
  (c.source.cluster.getD "", c.source.entityId.getD "")

def Node.key (n : Node) : String × String := (n.cluster.getD "", n.nodeId.getD "")

/-- The entry of a node before its first contribution is added. -/
def Contribution.opened (c : Contribution) : Node where
  nodeId := c.source.entityId
  cluster := c.source.cluster
  riskScore := c.source.riskScore
  riskLevel := c.source.riskLevel
  windowStart := c.source.windowStart
  windowEnd := c.source.windowEnd
  logCount := 0
  approvedFeatureIds := []
  affectedEntities := []

def earliest (first second : String) : Option String := ([first, second].filter (· ≠ "")).min?

def latest (first second : String) : Option String := ([first, second].filter (· ≠ "")).max?

/-- The entry with one more contribution. -/
def Contribution.addTo (c : Contribution) (n : Node) : Outcome Node := do
  let higher := scoreOf n.riskScore < scoreOf c.source.riskScore
  let windowStart ← orFail (earliest n.windowStart c.source.windowStart) .noWindow
  let windowEnd ← orFail (latest n.windowEnd c.source.windowEnd) .noWindow
  return { n with
    riskScore := if higher then c.source.riskScore else n.riskScore
    riskLevel := if higher then c.source.riskLevel else n.riskLevel
    windowStart
    windowEnd
    logCount := n.logCount + c.logCount
    approvedFeatureIds := sortedSet (n.approvedFeatureIds ++ c.featureIds)
    affectedEntities := sortedSet (n.affectedEntities ++ c.source.affectedEntities) }

section Export

variable {ρ : Type} (read : ρ → Outcome Source)

/-- `_record_source`. -/
def recordSource (record : Record ρ) : Outcome Source :=
  match record.source with
  | .inl source => .ok source
  | .inr reference => read reference

/-- Only a node with an approved feature counts. -/
def contribution (approvedIds : List String) (source : Source) (record : Record ρ) :
    Option Contribution :=
  let featureIds := sortedSet (record.featureIds.filter (· ∈ approvedIds))
  if source.entityType ≠ "node" ∨ featureIds = [] then none
  else some { source, logCount := record.logCount, featureIds }

abbrev Nodes := Dict (String × String) Node

def addContribution (nodes : Nodes) (c : Contribution) : Outcome Nodes := do
  let node ← c.addTo ((nodes.get? c.key).getD c.opened)
  return nodes.set c.key node

/-- One turn of the loop over the records. -/
def visit (approvedIds : List String) (nodes : Nodes) (record : Record ρ) : Outcome Nodes := do
  let source ← recordSource read record
  match contribution approvedIds source record with
  | none => return nodes
  | some c => addContribution nodes c

def Job.approvedFeatures (job : Job ρ) : List Feature :=
  job.features.filter (·.status = .approved)

def Job.approvedIds (job : Job ρ) : List String := job.approvedFeatures.map Feature.candidateId

def Job.statistics (job : Job ρ) : Statistics where
  total := job.features.length
  approved := job.approvedFeatures.length
  rejected := job.features.countP (·.status = .rejected)
  pending := job.features.countP (·.status = .pending)

/-- `str(item["node_id"])`. -/
def Node.name (n : Node) : String := n.nodeId.getD "None"

/-- `export_approved`. -/
def exportApproved (job : Job ρ) : Outcome Package := do
  require (job.approvedFeatures ≠ []) .noneApproved
  let nodes ← job.entities.foldlM (visit read job.approvedIds) ∅
  return {
    reviewStatistics := job.statistics
    approvedRiskNodes := nodes.values.insertionSort fun a b => a.name ≤ b.name
    approvedFeatures := job.approvedFeatures }

/-- What the records contribute, as far as their sources can be read. -/
def contributions (approvedIds : List String) (records : List (Record ρ)) : List Contribution :=
  records.filterMap fun record =>
    match recordSource read record with
    | .ok source => contribution approvedIds source record
    | .error _ => none

end Export

/-! ## Windows -/

/-- The hull of the texts that are there, empty where there are none. -/
def Hull (le : String → String → Prop) (texts : List String) (x : String) : Prop :=
  x = "" ∧ (∀ text ∈ texts, text = "") ∨
    x ≠ "" ∧ x ∈ texts ∧ ∀ text ∈ texts, text ≠ "" → le x text

/-- One of two texts that is there and comes first. -/
def Picks (le : String → String → Prop) (first second x : String) : Prop :=
  x ≠ "" ∧ (x = first ∨ x = second) ∧ (first ≠ "" → le x first) ∧ (second ≠ "" → le x second)

theorem earliest_spec {first second x : String} (h : earliest first second = some x) :
    Picks (· ≤ ·) first second x := by
  unfold earliest at h
  obtain ⟨hmem, hleast⟩ := List.min?_eq_some_iff.mp h
  obtain ⟨hmem, hne⟩ := List.mem_filter.mp hmem
  refine ⟨of_decide_eq_true hne, ?_, fun hgiven => ?_, fun hgiven => ?_⟩
  · simpa only [List.mem_cons, List.not_mem_nil, or_false] using hmem
  · exact hleast first (List.mem_filter.mpr ⟨List.mem_cons_self, decide_eq_true hgiven⟩)
  · exact hleast second (List.mem_filter.mpr
      ⟨List.mem_cons_of_mem _ List.mem_cons_self, decide_eq_true hgiven⟩)

theorem latest_spec {first second x : String} (h : latest first second = some x) :
    Picks (· ≥ ·) first second x := by
  unfold latest at h
  obtain ⟨hmem, hgreatest⟩ := List.max?_eq_some_iff.mp h
  obtain ⟨hmem, hne⟩ := List.mem_filter.mp hmem
  refine ⟨of_decide_eq_true hne, ?_, fun hgiven => ?_, fun hgiven => ?_⟩
  · simpa only [List.mem_cons, List.not_mem_nil, or_false] using hmem
  · exact hgreatest first (List.mem_filter.mpr ⟨List.mem_cons_self, decide_eq_true hgiven⟩)
  · exact hgreatest second (List.mem_filter.mpr
      ⟨List.mem_cons_of_mem _ List.mem_cons_self, decide_eq_true hgiven⟩)

theorem earliest_eq_none {first second : String} :
    earliest first second = none ↔ first = "" ∧ second = "" := by
  unfold earliest
  rw [List.min?_eq_none_iff, List.filter_eq_nil_iff]
  simp

theorem latest_eq_none {first second : String} :
    latest first second = none ↔ first = "" ∧ second = "" := by
  unfold latest
  rw [List.max?_eq_none_iff, List.filter_eq_nil_iff]
  simp

section Hulls

variable {le : String → String → Prop}

theorem hull_concat [IsTrans String le] {texts : List String} {x text y : String}
    (h : Hull le texts x) (hpick : Picks le x text y) :
    Hull le (texts ++ [text]) y := by
  obtain ⟨hne, hfrom, hfirst, hsecond⟩ := hpick
  refine .inr ⟨hne, ?_, fun t ht hgiven => ?_⟩
  · rcases hfrom with rfl | rfl
    · rcases h with ⟨hempty, -⟩ | ⟨-, hmem, -⟩
      · exact absurd hempty hne
      · exact List.mem_append_left _ hmem
    · exact List.mem_append_right _ (List.mem_singleton_self _)
  · rcases List.mem_append.mp ht with ht | ht
    · rcases h with ⟨-, hall⟩ | ⟨hx, -, hle⟩
      · exact absurd (hall t ht) hgiven
      · exact IsTrans.trans y x t (hfirst hx) (hle t ht hgiven)
    · obtain rfl := List.mem_singleton.mp ht
      exact hsecond hgiven

/-- A text that was counted already changes nothing. -/
theorem hull_single {text y : String} (hpick : Picks le text text y) : Hull le [text] y := by
  obtain ⟨hne, hfrom, hle, -⟩ := hpick
  have hsame : y = text := hfrom.elim id id
  refine .inr ⟨hne, List.mem_singleton.mpr hsame, fun t ht hgiven => ?_⟩
  obtain rfl := List.mem_singleton.mp ht
  exact hle hgiven

end Hulls

/-! ## Entries -/

/-- The entry of a node sums up its contributions. -/
structure Summary (cs : List Contribution) (n : Node) : Prop where
  key : ∀ c ∈ cs, c.key = n.key
  windowStart : Hull (· ≤ ·) (cs.map fun c => c.source.windowStart) n.windowStart
  windowEnd : Hull (· ≥ ·) (cs.map fun c => c.source.windowEnd) n.windowEnd
  riskScore : ∀ c ∈ cs, scoreOf c.source.riskScore ≤ scoreOf n.riskScore
  riskLevel : ∃ c ∈ cs, c.source.riskScore = n.riskScore ∧ c.source.riskLevel = n.riskLevel
  logCount : n.logCount = (cs.map Contribution.logCount).sum
  approvedFeatureIds : n.approvedFeatureIds = sortedSet (cs.flatMap Contribution.featureIds)
  affectedEntities :
    n.affectedEntities = sortedSet (cs.flatMap fun c => c.source.affectedEntities)

theorem addTo_eq_ok {c : Contribution} {n n' : Node} :
    c.addTo n = .ok n' ↔ ∃ windowStart windowEnd,
      earliest n.windowStart c.source.windowStart = some windowStart ∧
      latest n.windowEnd c.source.windowEnd = some windowEnd ∧
      n' = { n with
        riskScore := if scoreOf n.riskScore < scoreOf c.source.riskScore then c.source.riskScore
          else n.riskScore
        riskLevel := if scoreOf n.riskScore < scoreOf c.source.riskScore then c.source.riskLevel
          else n.riskLevel
        windowStart
        windowEnd
        logCount := n.logCount + c.logCount
        approvedFeatureIds := sortedSet (n.approvedFeatureIds ++ c.featureIds)
        affectedEntities := sortedSet (n.affectedEntities ++ c.source.affectedEntities) } := by
  unfold Contribution.addTo
  dsimp only
  rw [orFail_bind_eq_ok]
  refine exists_congr fun windowStart => ?_
  rw [orFail_bind_eq_ok, exists_and_left]
  refine and_congr_right fun _ => exists_congr fun windowEnd => and_congr_right fun _ => ?_
  rw [pure_eq_ok, eq_comm]

theorem sortedSet_append_sortedSet (items more : List String) :
    sortedSet (sortedSet items ++ more) = sortedSet (items ++ more) :=
  sortedSet_eq_of_mem_iff fun item => by rw [List.mem_append, List.mem_append, mem_sortedSet]

/-- One more contribution of the same node. -/
theorem Summary.concat {cs : List Contribution} {n n' : Node} (h : Summary cs n) {c : Contribution}
    (hkey : c.key = n.key) (hadd : c.addTo n = .ok n') : Summary (cs ++ [c]) n' := by
  obtain ⟨windowStart, windowEnd, hstart, hend, rfl⟩ := addTo_eq_ok.mp hadd
  constructor
  · intro c' hc'
    rcases List.mem_append.mp hc' with hc' | hc'
    · exact h.key c' hc'
    · obtain rfl := List.mem_singleton.mp hc'
      exact hkey
  · have hpick := earliest_spec hstart
    rw [List.map_append, List.map_singleton]
    exact hull_concat h.windowStart hpick
  · have hpick := latest_spec hend
    rw [List.map_append, List.map_singleton]
    exact hull_concat h.windowEnd hpick
  · intro c' hc'
    dsimp only
    split_ifs with hhigher
    · rcases List.mem_append.mp hc' with hc' | hc'
      · exact (h.riskScore c' hc').trans hhigher.le
      · rw [List.mem_singleton.mp hc']
    · rcases List.mem_append.mp hc' with hc' | hc'
      · exact h.riskScore c' hc'
      · rw [List.mem_singleton.mp hc']
        exact not_lt.mp hhigher
  · dsimp only
    split_ifs with hhigher
    · exact ⟨c, List.mem_append_right _ (List.mem_singleton_self c), rfl, rfl⟩
    · obtain ⟨c', hc', hscore, hlevel⟩ := h.riskLevel
      exact ⟨c', List.mem_append_left _ hc', hscore, hlevel⟩
  · rw [List.map_append, List.sum_append, ← h.logCount, List.map_singleton, List.sum_singleton]
  · dsimp only
    rw [h.approvedFeatureIds, sortedSet_append_sortedSet, List.flatMap_append,
      List.flatMap_singleton]
  · dsimp only
    rw [h.affectedEntities, sortedSet_append_sortedSet, List.flatMap_append, List.flatMap_singleton]

/-- The first contribution of a node. -/
theorem summary_opened {c : Contribution} {n : Node} (hadd : c.addTo c.opened = .ok n) :
    Summary [c] n := by
  obtain ⟨windowStart, windowEnd, hstart, hend, rfl⟩ := addTo_eq_ok.mp hadd
  have hnot : ¬scoreOf c.opened.riskScore < scoreOf c.source.riskScore := lt_irrefl _
  constructor
  · intro c' hc'
    rw [List.mem_singleton.mp hc']
    rfl
  · exact hull_single (earliest_spec hstart)
  · exact hull_single (latest_spec hend)
  · intro c' hc'
    dsimp only
    rw [if_neg hnot, List.mem_singleton.mp hc']
    exact le_rfl
  · refine ⟨c, List.mem_singleton_self c, ?_, ?_⟩
    · dsimp only
      rw [if_neg hnot]
      rfl
    · dsimp only
      rw [if_neg hnot]
      rfl
  · rw [List.map_singleton, List.sum_singleton]
    exact zero_add _
  · rw [List.flatMap_singleton]
    rfl
  · rw [List.flatMap_singleton]
    rfl

/-! ## The loop -/

/-- Every entry sums up the contributions of its node, and every contribution has an entry. -/
def Folded (cs : List Contribution) (nodes : Nodes) : Prop :=
  (∀ key n, nodes.get? key = some n → n.key = key ∧ Summary (cs.filter (·.key = key)) n) ∧
    ∀ c ∈ cs, (nodes.get? c.key).isSome = true

theorem folded_nil : Folded [] ∅ := by
  refine ⟨fun key n h => ?_, fun c hc => absurd hc List.not_mem_nil⟩
  rw [Dict.get?_empty] at h
  cases h

theorem Folded.add {cs : List Contribution} {nodes nodes' : Nodes} (h : Folded cs nodes)
    {c : Contribution} (hadd : addContribution nodes c = .ok nodes') : Folded (cs ++ [c]) nodes' := by
  obtain ⟨node, hnode, hset⟩ := bind_eq_ok.mp hadd
  obtain rfl := pure_eq_ok.mp hset
  have hnew : node.key = c.key ∧ Summary ((cs ++ [c]).filter (·.key = c.key)) node := by
    have hsame : [c].filter (fun c' => decide (c'.key = c.key)) = [c] :=
      List.filter_cons_of_pos (decide_eq_true rfl)
    rw [List.filter_append, hsame]
    cases hget : nodes.get? c.key with
    | some n =>
        rw [hget, Option.getD_some] at hnode
        obtain ⟨hkey, hsummary⟩ := h.1 c.key n hget
        have hconcat := hsummary.concat hkey.symm hnode
        exact ⟨(hconcat.key c (List.mem_append_right _ (List.mem_singleton_self c))).symm, hconcat⟩
    | none =>
        rw [hget, Option.getD_none] at hnode
        have hnone : cs.filter (·.key = c.key) = [] := by
          refine List.filter_eq_nil_iff.mpr fun c' hc' hkey => ?_
          have hsome := h.2 c' hc'
          rw [of_decide_eq_true hkey, hget] at hsome
          cases hsome
        have hopened := summary_opened hnode
        rw [hnone, List.nil_append]
        exact ⟨(hopened.key c (List.mem_singleton_self c)).symm, hopened⟩
  constructor
  · intro key n hget
    rw [Dict.get?_set] at hget
    split at hget
    · rename_i hkey
      obtain rfl := Option.some.inj hget
      rw [← hkey]
      exact hnew
    · rename_i hkey
      obtain ⟨hkey', hsummary⟩ := h.1 key n hget
      refine ⟨hkey', ?_⟩
      rw [List.filter_append, List.filter_cons_of_neg (by simpa using hkey), List.filter_nil,
        List.append_nil]
      exact hsummary
  · intro c' hc'
    rw [Dict.get?_set]
    split
    · rfl
    · rename_i hkey
      rcases List.mem_append.mp hc' with hc' | hc'
      · exact h.2 c' hc'
      · exact absurd (congrArg Contribution.key (List.mem_singleton.mp hc').symm) hkey

section Loop

variable {ρ : Type} {read : ρ → Outcome Source} {approvedIds : List String}

theorem folded_visit {seen : List (Record ρ)} {record : Record ρ} {nodes nodes' : Nodes}
    (h : Folded (contributions read approvedIds seen) nodes)
    (hvisit : visit read approvedIds nodes record = .ok nodes') :
    Folded (contributions read approvedIds (seen ++ [record])) nodes' := by
  obtain ⟨source, hsource, hvisit⟩ := bind_eq_ok.mp hvisit
  unfold contributions at h ⊢
  rw [List.filterMap_append, List.filterMap_cons, List.filterMap_nil, hsource]
  dsimp only
  cases hc : contribution approvedIds source record with
  | none =>
      rw [hc] at hvisit
      obtain rfl := pure_eq_ok.mp hvisit
      rw [List.append_nil]
      exact h
  | some c =>
      rw [hc] at hvisit
      exact h.add hvisit

/-- The windows of a contribution are given. -/
def Contribution.Windowed (c : Contribution) : Prop :=
  c.source.windowStart ≠ "" ∧ c.source.windowEnd ≠ ""

theorem Contribution.Windowed.addTo_ok {c : Contribution} (h : c.Windowed) (n : Node) :
    ∃ n', c.addTo n = .ok n' := by
  obtain ⟨windowStart, hstart⟩ := Option.ne_none_iff_exists'.mp
    (mt earliest_eq_none.mp fun hnone : n.windowStart = "" ∧ c.source.windowStart = "" =>
      h.1 hnone.2)
  obtain ⟨windowEnd, hend⟩ := Option.ne_none_iff_exists'.mp
    (mt latest_eq_none.mp fun hnone : n.windowEnd = "" ∧ c.source.windowEnd = "" => h.2 hnone.2)
  exact ⟨_, addTo_eq_ok.mpr ⟨windowStart, windowEnd, hstart, hend, rfl⟩⟩

/-- A node whose first contribution lacks a bound of its window is not opened. -/
theorem windowed_of_opened {c : Contribution} {n : Node} (h : c.addTo c.opened = .ok n) :
    c.Windowed := by
  obtain ⟨windowStart, windowEnd, hstart, hend, -⟩ := addTo_eq_ok.mp h
  constructor
  · intro hempty
    have hnone : earliest c.opened.windowStart c.source.windowStart = none :=
      earliest_eq_none.mpr ⟨hempty, hempty⟩
    rw [hnone] at hstart
    cases hstart
  · intro hempty
    have hnone : latest c.opened.windowEnd c.source.windowEnd = none :=
      latest_eq_none.mpr ⟨hempty, hempty⟩
    rw [hnone] at hend
    cases hend

/-- The source of a record can be read, and what it contributes has a window. -/
def Complete (read : ρ → Outcome Source) (approvedIds : List String) (record : Record ρ) : Prop :=
  ∃ source, recordSource read record = .ok source ∧
    ∀ c, contribution approvedIds source record = some c → c.Windowed

theorem Complete.visit_ok {record : Record ρ} (h : Complete read approvedIds record) (nodes : Nodes) :
    ∃ nodes', visit read approvedIds nodes record = .ok nodes' := by
  obtain ⟨source, hsource, hwindowed⟩ := h
  unfold visit
  rw [hsource]
  change ∃ nodes', (match contribution approvedIds source record with
    | none => pure nodes
    | some c => addContribution nodes c) = Except.ok nodes'
  cases hc : contribution approvedIds source record with
  | none => exact ⟨nodes, rfl⟩
  | some c =>
      obtain ⟨node, hnode⟩ := (hwindowed c hc).addTo_ok ((nodes.get? c.key).getD c.opened)
      exact ⟨nodes.set c.key node, bind_eq_ok.mpr ⟨node, hnode, rfl⟩⟩

theorem complete_of_visit_empty {record : Record ρ} {nodes : Nodes}
    (h : visit read approvedIds ∅ record = .ok nodes) : Complete read approvedIds record := by
  obtain ⟨source, hsource, h⟩ := bind_eq_ok.mp h
  refine ⟨source, hsource, fun c hc => ?_⟩
  rw [hc] at h
  obtain ⟨node, hnode, -⟩ := bind_eq_ok.mp h
  rw [Dict.get?_empty, Option.getD_none] at hnode
  exact windowed_of_opened hnode

theorem foldlM_visit_ok {records : List (Record ρ)}
    (h : ∀ record ∈ records, Complete read approvedIds record) (nodes : Nodes) :
    ∃ nodes', records.foldlM (visit read approvedIds) nodes = .ok nodes' := by
  induction records generalizing nodes with
  | nil => exact ⟨nodes, rfl⟩
  | cons record records ih =>
      obtain ⟨next, hnext⟩ := (h record List.mem_cons_self).visit_ok nodes
      obtain ⟨nodes', hnodes'⟩ := ih (fun r hr => h r (List.mem_cons_of_mem _ hr)) next
      refine ⟨nodes', ?_⟩
      rw [List.foldlM_cons, hnext]
      exact hnodes'

end Loop

/-! ## The package -/

/-- One entry for each node that something contributes to. -/
structure Aggregates (cs : List Contribution) (nodes : List Node) : Prop where
  keys : (nodes.map Node.key).Nodup
  covered : ∀ key, key ∈ nodes.map Node.key ↔ ∃ c ∈ cs, c.key = key
  summary : ∀ n ∈ nodes, Summary (cs.filter (·.key = n.key)) n

theorem Folded.aggregates {cs : List Contribution} {nodes : Nodes} (h : Folded cs nodes) :
    Aggregates cs nodes.values := by
  have hkeys : nodes.values.map Node.key = nodes.keys := by
    unfold Dict.values Dict.keys
    rw [List.map_map]
    exact List.map_congr_left fun e he => (h.1 e.1 e.2 (Dict.get?_eq_some.mpr he)).1
  refine ⟨hkeys ▸ nodes.nodup, fun key => ?_, fun n hn => ?_⟩
  · rw [hkeys]
    constructor
    · intro hmem
      obtain ⟨n, hn⟩ := Dict.mem_keys.mp hmem
      obtain ⟨c, hc, -⟩ := (h.1 key n hn).2.riskLevel
      obtain ⟨hc, hkey⟩ := List.mem_filter.mp hc
      exact ⟨c, hc, of_decide_eq_true hkey⟩
    · rintro ⟨c, hc, rfl⟩
      exact Dict.isSome_get?.mp (h.2 c hc)
  · obtain ⟨key, hget⟩ := Dict.mem_values.mp hn
    obtain ⟨hkey, hsummary⟩ := h.1 key n hget
    rw [hkey]
    exact hsummary

theorem Aggregates.perm {cs : List Contribution} {nodes nodes' : List Node} (h : Aggregates cs nodes)
    (hperm : nodes'.Perm nodes) : Aggregates cs nodes' where
  keys := (hperm.map Node.key).nodup_iff.mpr h.keys
  covered key := (hperm.map Node.key).mem_iff.trans (h.covered key)
  summary n hn := h.summary n (hperm.mem_iff.mp hn)

/-- The export of a job succeeds; every node that an approved feature was found at is
summed up once, and the statistics add up. -/
def Exports {ρ : Type} (read : ρ → Outcome Source) (job : Job ρ) : Prop :=
  ∃ package, exportApproved read job = .ok package ∧
    Aggregates (contributions read job.approvedIds job.entities) package.approvedRiskNodes ∧
    package.approvedFeatures = job.features.filter (·.status = .approved) ∧
    package.reviewStatistics.total = job.features.length ∧
    package.reviewStatistics.approved + package.reviewStatistics.rejected +
      package.reviewStatistics.pending = package.reviewStatistics.total

theorem statistics_sum {ρ : Type} (job : Job ρ) :
    job.statistics.approved + job.statistics.rejected + job.statistics.pending =
      job.statistics.total := by
  unfold Job.statistics Job.approvedFeatures
  dsimp only
  induction job.features with
  | nil => rfl
  | cons f features ih =>
      rw [List.filter_cons, List.countP_cons, List.countP_cons, List.length_cons]
      cases f.status <;> simp <;> omega

/-- Every order of the records is exported just when every source can be read and every
contributing record has both bounds of its window. -/
theorem export_aggregates {ρ : Type} (read : ρ → Outcome Source) (job : Job ρ)
    (happroved : ∃ f ∈ job.features, f.status = .approved) :
    (∀ records, records.Perm job.entities → Exports read { job with entities := records }) ↔
      ∀ record ∈ job.entities, ∃ source, recordSource read record = .ok source ∧
        ∀ c, contribution job.approvedIds source record = some c →
          c.source.windowStart ≠ "" ∧ c.source.windowEnd ≠ "" := by
  have hsome : job.approvedFeatures ≠ [] := by
    obtain ⟨f, hf, hstatus⟩ := happroved
    exact List.ne_nil_of_mem (List.mem_filter.mpr ⟨hf, decide_eq_true hstatus⟩)
  constructor
  · intro h record hrecord
    -- In the order that begins with the record nothing is there to complete its window.
    obtain ⟨before, after, hsplit⟩ := List.append_of_mem hrecord
    obtain ⟨package, hpackage, -⟩ := h (record :: (before ++ after)) (by
      rw [hsplit]
      exact List.perm_middle.symm)
    obtain ⟨-, hpackage⟩ := require_bind_eq_ok.mp hpackage
    obtain ⟨nodes, hnodes, -⟩ := bind_eq_ok.mp hpackage
    rw [List.foldlM_cons] at hnodes
    obtain ⟨next, hnext, -⟩ := bind_eq_ok.mp hnodes
    exact complete_of_visit_empty hnext
  · intro h records hperm
    have hcomplete : ∀ record ∈ records, Complete read job.approvedIds record :=
      fun record hrecord => h record (hperm.mem_iff.mp hrecord)
    obtain ⟨nodes, hnodes⟩ := foldlM_visit_ok hcomplete ∅
    have hempty : Folded (contributions read job.approvedIds []) ∅ := folded_nil
    have hfolded : Folded (contributions read job.approvedIds records) nodes :=
      foldlM_invariant (I := fun seen nodes => Folded (contributions read job.approvedIds seen) nodes)
        (fun _ _ _ _ hseen hvisit => folded_visit hseen hvisit) hempty hnodes
    refine ⟨_, require_bind_eq_ok.mpr ⟨hsome, bind_eq_ok.mpr ⟨nodes, hnodes, rfl⟩⟩, ?_, rfl, rfl,
      statistics_sum _⟩
    exact hfolded.aggregates.perm (List.perm_insertionSort _ _)

/-! ## A record without a window -/

/-- A record of node `n` with the approved feature `f`. -/
def nodeRecord (windowStart windowEnd : String) (score : Option ℚ) : Record Empty where
  source := .inl {
    entityType := "node", cluster := some "c", entityId := some "n", riskScore := score
    riskLevel := none, windowStart, windowEnd, affectedEntities := [] }
  logCount := 1
  featureIds := ["f"]

def jobOf (records : List (Record Empty)) : Job Empty := ⟨[⟨"f", .approved⟩], records⟩

def noReference (reference : Empty) : Outcome Source := reference.elim

theorem complete_nodeRecord {windowStart windowEnd : String} (h : windowStart ≠ "" ∧ windowEnd ≠ "")
    (score : Option ℚ) : Complete noReference ["f"] (nodeRecord windowStart windowEnd score) := by
  refine ⟨_, rfl, fun c hc => ?_⟩
  unfold contribution at hc
  dsimp only at hc
  split_ifs at hc
  obtain rfl := Option.some.inj hc
  exact h

/-- Two windows, one of them with a score. -/
theorem windowed_records_export :
    Exports noReference (jobOf [nodeRecord "1" "2" none, nodeRecord "2" "3" (some 5)]) ∧
      Exports noReference (jobOf [nodeRecord "2" "3" (some 5), nodeRecord "1" "2" none]) := by
  suffices h : ∀ records : List (Record Empty),
      records.Perm [nodeRecord "1" "2" none, nodeRecord "2" "3" (some 5)] →
      Exports noReference (jobOf records) from ⟨h _ (List.Perm.refl _), h _ (List.Perm.swap ..)⟩
  refine (export_aggregates noReference
    (jobOf [nodeRecord "1" "2" none, nodeRecord "2" "3" (some 5)]) ?_).mpr ?_
  · exact ⟨⟨"f", .approved⟩, List.mem_singleton_self _, rfl⟩
  · intro record hrecord
    simp only [jobOf, List.mem_cons, List.not_mem_nil, or_false] at hrecord
    rcases hrecord with rfl | rfl
    · exact complete_nodeRecord (by decide) none
    · exact complete_nodeRecord (by decide) (some 5)

/-- A record without a window is exported after one that has a window, and fails before it. -/
theorem windowless_record_fails :
    (exportApproved noReference (jobOf [nodeRecord "1" "2" none, nodeRecord "" "" none])).toBool =
        true ∧
      (exportApproved noReference (jobOf [nodeRecord "" "" none, nodeRecord "1" "2" none])).toBool =
        false ∧
      ¬∀ job : Job Empty, (∃ f ∈ job.features, f.status = .approved) →
        ∀ records, records.Perm job.entities → Exports noReference { job with entities := records } := by
  refine ⟨by decide +kernel, by decide +kernel, fun h => ?_⟩
  have hfails : (exportApproved noReference (jobOf [nodeRecord "" "" none])).toBool = false := by
    decide +kernel
  obtain ⟨package, hpackage, -⟩ := h (jobOf [nodeRecord "" "" none])
    ⟨⟨"f", .approved⟩, List.mem_singleton_self _, rfl⟩ [nodeRecord "" "" none] (List.Perm.refl _)
  have hsame : exportApproved noReference (jobOf [nodeRecord "" "" none]) = .ok package := hpackage
  rw [hsame] at hfails
  cases hfails

end LogRisk.Jobs
