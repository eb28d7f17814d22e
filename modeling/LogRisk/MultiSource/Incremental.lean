import LogRisk.MultiSource.Completeness
import LogRisk.MultiSource.Identity

/-!
# Correlation of what is ingested

An ingestion saves its observations and then correlates those of its clusters that end at or
after a bound: the earliest of its windows less the largest gap of the rules.  The bound is
compared as a text and the gap counts whole seconds; where neither leaves out an observation,
every pair that a rule relates has its edge after the ingestion.
-/

namespace LogRisk.MultiSource

open LogRisk.Library

/-- An ingestion and the rules that are stored when it correlates, ordered by their names. -/
structure Call extends Ingestion where
  rules : List CorrelationRule
  rules_nodup : (rules.map CorrelationRule.ruleId).Nodup

structure Database where
  observations : Observations := ∅
  correlations : Dict String Correlation := ∅

section Ingesting

variable (host : Host) (aliases : Aliases)

/-! ## Correlations -/

/-- What an upsert writes over a stored correlation. -/
def Correlation.update (row new : Correlation) : Correlation :=
  { row with
    windowStart := new.windowStart, windowEnd := new.windowEnd, confidence := new.confidence,
    riskScore := new.riskScore, sourceFamilies := new.sourceFamilies, edges := new.edges,
    groupScope := new.groupScope, isPartial := new.isPartial, observationIds := new.observationIds }

/-- `save_correlation`. -/
def saveCorrelation (row : Option Correlation) (new : Correlation) : Correlation :=
  match row with
  | none => new
  | some row => row.update new

/-- `int(seconds)`. -/
def wholeSeconds (seconds : ℚ) : ℤ := seconds.num.tdiv seconds.den

def maximumGap (rules : List CorrelationRule) : ℤ :=
  ((rules.map fun rule => wholeSeconds rule.maxGapSeconds).max?).getD 0

/-- The time from which observations are read again. -/
def bound (rules : List CorrelationRule) (earliest : IsoTime) : IsoTime :=
  earliest.add (-(maximumGap rules * IsoTime.second))

def sinceOf (rules : List CorrelationRule) (earliest : Option IsoTime) : String :=
  match earliest with
  | none => ""
  | some earliest => host.isoformat (bound rules earliest)

def recentObservations (table : Observations) (cluster since : String) : List Observation :=
  (table.values.filter fun o => decide (o.cluster = cluster ∧ since ≤ o.windowEnd)).insertionSort
    fun a b => a.windowStart ≤ b.windowStart

/-- The correlations that the rules find in clusters. -/
def correlationsOf (table : Observations) (rules : List CorrelationRule) (clusters : List String)
    (since : String) : List Correlation :=
  clusters.flatMap fun cluster => rules.flatMap fun rule =>
    correlateObservations host rule (recentObservations table cluster since)

def correlateClusters (db : Database) (rules : List CorrelationRule) (clusters : List String)
    (earliest : Option IsoTime) : Database :=
  let found := correlationsOf host db.observations rules clusters (sinceOf host rules earliest)
  { db with
    correlations := Dict.groupFold Correlation.correlationId saveCorrelation db.correlations found }

/-! ## Ingestions -/

def Call.windows (call : Call) : List (RiskEntity × Window) :=
  MultiSource.windows host aliases call.sourceJobId call.entities

def Call.clusters (call : Call) : List String :=
  ((call.windows host aliases).map fun w => w.2.route.cluster).dedup

def Call.earliest (call : Call) : Option IsoTime :=
  MultiSource.earliest ((call.windows host aliases).map Prod.snd)

def Call.since (call : Call) : String := sinceOf host call.rules (call.earliest host aliases)

/-- The observations after a call. -/
def Call.saved (db : Database) (call : Call) : Observations :=
  save db.observations (ingested host aliases call.sourceJobId call.entities)

/-- `ingest_risk_entities`. -/
def ingestRiskEntities (db : Database) (call : Call) : Database :=
  correlateClusters host { db with observations := call.saved host aliases db } call.rules
    (call.clusters host aliases) (call.earliest host aliases)

/-- Every call meets its condition on the database that it finds. -/
def Steps (P : Database → Call → Prop) : Database → List Call → Prop
  | _, [] => True
  | db, call :: calls => P db call ∧ Steps P (ingestRiskEntities host aliases db call) calls

/-! ## What is asked of an ingestion -/

/-- A rule relates two observations, each as it looks at them. -/
def Relates (rule : CorrelationRule) (o o' : Observation) (first second : Item) : Prop :=
  itemOf host rule o = some first ∧ itemOf host rule o' = some second ∧ Pairs rule first second

/-- An ingested observation has its edges with all observations that a rule relates to it. -/
def EdgesStored (db : Database) (call : Call) : Prop :=
  ∀ w ∈ call.windows host aliases, ∀ o,
    (ingestRiskEntities host aliases db call).observations.get? (w.2.id host) = some o →
    ∀ o' ∈ (ingestRiskEntities host aliases db call).observations.values,
    ∀ rule ∈ call.rules, rule.enabled = true →
    WithinBudget host rule (recentObservations (call.saved host aliases db) o.cluster
      (call.since host aliases)) →
    ∀ first second, Relates host rule o o' first second →
      ∃ c ∈ (ingestRiskEntities host aliases db call).correlations.values,
        edgeOf host rule first second ∈ c.edges

/-- The windows of a call are in UTC and none ends before it starts. -/
def Valid (call : Call) : Prop :=
  ∀ w ∈ call.windows host aliases, w.2.start.offset = 0 ∧
    ∀ stop, parseTime host w.2.windowEnd = some stop →
      stop.offset = 0 ∧ w.2.start.instant ≤ stop.instant

/-- No observation is left out: no end of a window sorts before the bound without being before
it, a rule that is enabled has no gap beyond the whole seconds of all rules, and what is stored
already under the name of an ingested window is in an ingested cluster and not before all of
the ingested windows. -/
structure Covered (db : Database) (call : Call) : Prop where
  spelled : ∀ o ∈ db.observations.values ++ ingested host aliases call.sourceJobId call.entities,
    o.cluster ∈ call.clusters host aliases → ∀ earliest, call.earliest host aliases = some earliest →
    ∀ stop, parseTime host o.windowEnd = some stop →
      (bound call.rules earliest).instant ≤ stop.instant → call.since host aliases ≤ o.windowEnd
  whole : ∀ rule ∈ call.rules, rule.enabled = true →
    ∃ rule' ∈ call.rules, rule.maxGapSeconds ≤ wholeSeconds rule'.maxGapSeconds
  again : ∀ w ∈ call.windows host aliases, ∀ o, db.observations.get? (w.2.id host) = some o →
    o.cluster ∈ call.clusters host aliases ∧ ∀ earliest, call.earliest host aliases = some earliest →
      ∀ start, parseTime host o.windowStart = some start → earliest.instant ≤ start.instant

/-- Digests hold no bar. -/
def BarFree : Prop := ∀ text, '|' ∉ (host.digest text).toList

end Ingesting

variable {host : Host} {aliases : Aliases} {db : Database} {call : Call} {rule : CorrelationRule}

/-! ## The observations of an ingestion -/

theorem earlier_le (a b : IsoTime) :
    (a.earlier b).instant ≤ a.instant ∧ (a.earlier b).instant ≤ b.instant := by
  unfold IsoTime.earlier
  split
  · omega
  · omega

theorem earliest_le {ws : List Window} {t : IsoTime} (h : earliest ws = some t) {w : Window}
    (hw : w ∈ ws) : t.instant ≤ w.start.instant := by
  have hfold : ∀ (rest : List Window) (t : IsoTime),
      (rest.foldl (fun t w => t.earlier w.start) t).instant ≤ t.instant ∧
        ∀ w ∈ rest, (rest.foldl (fun t w => t.earlier w.start) t).instant ≤ w.start.instant := by
    intro rest
    induction rest with
    | nil => exact fun t => ⟨le_rfl, fun w hw => absurd hw List.not_mem_nil⟩
    | cons v rest ih =>
        intro t
        obtain ⟨hle, hall⟩ := ih (t.earlier v.start)
        obtain ⟨ht, hv⟩ := earlier_le t v.start
        refine ⟨hle.trans ht, fun w hw => ?_⟩
        rcases List.mem_cons.mp hw with rfl | hw
        · exact hle.trans hv
        · exact hall w hw
  cases ws with
  | nil => cases h
  | cons v rest =>
      rw [← Option.some.inj h]
      rcases List.mem_cons.mp hw with rfl | hw
      · exact (hfold rest _).1
      · exact (hfold rest _).2 w hw

theorem exists_earliest {ws : List Window} {w : Window} (hw : w ∈ ws) :
    ∃ t, earliest ws = some t := by
  cases ws with
  | nil => exact absurd hw List.not_mem_nil
  | cons v rest => exact ⟨_, rfl⟩

theorem call_window {w : RiskEntity × Window} (hw : w ∈ call.windows host aliases) :
    parseTime host w.2.windowStart = some w.2.start ∧
      ∃ stop, parseTime host w.2.windowEnd = some stop := by
  obtain ⟨entity, _, hw⟩ := List.mem_flatMap.mp hw
  obtain ⟨window, hwindow, rfl⟩ := List.mem_map.mp hw
  obtain ⟨source, _, hsource⟩ := List.mem_filterMap.mp hwindow
  refine ⟨(windowOf_some hsource).2.2.2, ?_⟩
  unfold windowOf at hsource
  obtain ⟨route, _, hsource⟩ := Option.bind_eq_some_iff.mp hsource
  obtain ⟨_, _, hsource⟩ := Option.bind_eq_some_iff.mp hsource
  obtain ⟨start, _, hsource⟩ := Option.bind_eq_some_iff.mp hsource
  obtain ⟨stop, hstop, hsource⟩ := Option.bind_eq_some_iff.mp hsource
  rw [← Option.some.inj hsource]
  exact ⟨stop, hstop⟩

/-- An observation as the table keeps it: under its name, with the times of its window. -/
structure Stored (host : Host) (k : String) (o : Observation) : Prop where
  key : o.observationId = k
  named : ∃ text, k = "observation-" ++ host.digest text
  times : ∃ start stop, parseTime host o.windowStart = some start ∧
    parseTime host o.windowEnd = some stop ∧ start.instant ≤ stop.instant

/-- Every observation of a table is as the table keeps it. -/
def Kept (host : Host) (table : Observations) : Prop := ∀ k o, table.get? k = some o → Stored host k o

theorem stored_observe (hvalid : Valid host aliases call) {w : RiskEntity × Window}
    (hw : w ∈ call.windows host aliases) : Stored host (w.2.id host) (observe host w.1 w.2) := by
  obtain ⟨hstart, stop, hstop⟩ := call_window hw
  exact ⟨rfl, ⟨_, rfl⟩, _, stop, hstart, hstop, ((hvalid w hw).2 stop hstop).2⟩

theorem kept_saved (hdb : Kept host db.observations) (hvalid : Valid host aliases call) :
    Kept host (call.saved host aliases db) := by
  intro k o h
  refine Dict.groupFold_entries hdb (fun x hx row hrow => ?_) h
  obtain ⟨w, hw, rfl⟩ := List.mem_map.mp hx
  cases row with
  | none => exact stored_observe hvalid hw
  | some row =>
      have hkept := hrow row rfl
      exact ⟨hkept.key, hkept.named, hkept.times⟩

/-- Two observations with one cluster and one window. -/
structure SameWindow (o o' : Observation) : Prop where
  cluster : o.cluster = o'.cluster
  start : o.windowStart = o'.windowStart
  stop : o.windowEnd = o'.windowEnd

/-- Saving leaves cluster and window of what is stored, or takes those of what is ingested. -/
theorem saved_origin {k : String} {o : Observation} (h : (call.saved host aliases db).get? k = some o) :
    (∃ row, db.observations.get? k = some row ∧ SameWindow o row) ∨
      ∃ w ∈ call.windows host aliases, w.2.id host = k ∧ SameWindow o (observe host w.1 w.2) := by
  refine Dict.groupFold_entries (P := fun k o =>
    (∃ row, db.observations.get? k = some row ∧ SameWindow o row) ∨
      ∃ w ∈ call.windows host aliases, w.2.id host = k ∧ SameWindow o (observe host w.1 w.2))
    (fun k o hget => .inl ⟨o, hget, rfl, rfl, rfl⟩) (fun x hx row hrow => ?_) h
  obtain ⟨w, hw, rfl⟩ := List.mem_map.mp hx
  cases row with
  | none => exact .inr ⟨w, hw, rfl, rfl, rfl, rfl⟩
  | some row =>
      rcases hrow row rfl with ⟨old, hold, hsame⟩ | ⟨w', hw', hid, hsame⟩
      · exact .inl ⟨old, hold, hsame.cluster, hsame.start, hsame.stop⟩
      · exact .inr ⟨w', hw', hid, hsame.cluster, hsame.start, hsame.stop⟩

/-! ## What is read again -/

theorem wholeSeconds_le_maximumGap {rules : List CorrelationRule} {rule : CorrelationRule}
    (h : rule ∈ rules) : wholeSeconds rule.maxGapSeconds ≤ maximumGap rules := by
  have hmem : wholeSeconds rule.maxGapSeconds ∈ rules.map fun rule => wholeSeconds rule.maxGapSeconds :=
    List.mem_map.mpr ⟨rule, h, rfl⟩
  unfold maximumGap
  cases hmax : (rules.map fun rule => wholeSeconds rule.maxGapSeconds).max? with
  | none =>
      rw [List.max?_eq_none_iff.mp hmax] at hmem
      exact absurd hmem List.not_mem_nil
  | some m => exact (List.max?_eq_some_iff.mp hmax).2 _ hmem

/-- A time within the gap of another one that is not before the earliest is not before the
bound. -/
theorem bound_le {rules : List CorrelationRule} {first second earliest : IsoTime} {limit : ℚ}
    (hgap : |seconds first - seconds second| ≤ limit) (hlimit : limit ≤ maximumGap rules)
    (hfirst : earliest.instant ≤ first.instant) :
    (bound rules earliest).instant ≤ second.instant ∧ (bound rules earliest).instant ≤ first.instant := by
  have hpos : (0 : ℚ) ≤ maximumGap rules := (abs_nonneg _).trans (hgap.trans hlimit)
  have hnonneg : 0 ≤ maximumGap rules := by exact_mod_cast hpos
  have hinstant : (bound rules earliest).instant = earliest.instant - maximumGap rules * 1000000 := by
    unfold bound IsoTime.instant IsoTime.add IsoTime.second
    dsimp only
    omega
  have hle : seconds first - seconds second ≤ maximumGap rules :=
    (le_abs_self _).trans (hgap.trans hlimit)
  have hcast : (first.instant : ℚ) - second.instant ≤ maximumGap rules * 1000000 := by
    unfold seconds at hle
    linarith
  have hclose : first.instant - second.instant ≤ maximumGap rules * 1000000 := by
    exact_mod_cast hcast
  rw [hinstant]
  constructor
  · omega
  · omega

/-- Observations of an ingested cluster that do not end before the bound are read again. -/
theorem mem_recent (hcovered : Covered host aliases db call) (hkept : Kept host (call.saved host aliases db))
    {earliest start : IsoTime} (hearliest : call.earliest host aliases = some earliest)
    {k cluster : String} {o : Observation} (ho : (call.saved host aliases db).get? k = some o)
    (hcluster : o.cluster = cluster) (hmem : cluster ∈ call.clusters host aliases)
    (hstart : parseTime host o.windowStart = some start)
    (hbound : (bound call.rules earliest).instant ≤ start.instant) :
    o ∈ recentObservations (call.saved host aliases db) cluster (call.since host aliases) := by
  obtain ⟨start', stop, hstart', hstop, hle⟩ := (hkept k o ho).times
  obtain rfl := Option.some.inj (hstart.symm.trans hstart')
  have horigin : ∃ row ∈ db.observations.values ++
      ingested host aliases call.sourceJobId call.entities, SameWindow o row := by
    rcases saved_origin ho with ⟨row, hrow, hsame⟩ | ⟨w, hw, _, hsame⟩
    · exact ⟨row, List.mem_append_left _ (Dict.mem_values.mpr ⟨k, hrow⟩), hsame⟩
    · exact ⟨_, List.mem_append_right _ (List.mem_map.mpr ⟨w, hw, rfl⟩), hsame⟩
  obtain ⟨row, hrow, hsame⟩ := horigin
  unfold recentObservations
  rw [List.mem_insertionSort]
  refine List.mem_filter.mpr ⟨Dict.mem_values.mpr ⟨k, ho⟩, decide_eq_true ⟨hcluster, ?_⟩⟩
  rw [hsame.stop]
  refine hcovered.spelled row hrow ?_ earliest hearliest stop ?_ (hbound.trans hle)
  · rw [← hsame.cluster, hcluster]
    exact hmem
  · rw [← hsame.stop]
    exact hstop
/-! ## Names of correlations -/

/-- The marks of an observation's name. -/
def IsName (text : String) : Prop := "observation-".toList <+: text.toList

theorem isName_append (text : String) : IsName ("observation-" ++ text) := by
  unfold IsName
  rw [String.toList_append]
  exact List.prefix_append _ _

theorem digits_of_mem {version : ℕ} {c : Char} (h : c ∈ (toString version).toList) : c.isDigit := by
  rw [show toString version = version.repr from rfl, Nat.toList_repr] at h
  exact Nat.isDigit_of_mem_toDigits (by decide) (by decide) h

theorem not_isName_version (version : ℕ) : ¬ IsName (toString version) := by
  intro h
  have hmem : 'o' ∈ (toString version).toList := h.subset (by decide)
  exact absurd (digits_of_mem hmem) (by decide)

/-- The names of the observations that a correlation is made of. -/
theorem correlate_ids {observations : List Observation} {c : Correlation}
    (h : c ∈ correlateObservations host rule observations) : ∃ ids, ids ≠ [] ∧
      (∀ id ∈ ids, ∃ o ∈ observations, o.observationId = id) ∧
      c.correlationId = correlationId host rule ids ∧
      c.edges = edgesOf (search host rule (observations.filterMap (itemOf host rule)) {}
        (observations.filterMap (itemOf host rule)).zipIdx).edges ids := by
  unfold correlateObservations at h
  split at h
  · exact absurd h List.not_mem_nil
  · obtain ⟨group, hgroup, hc⟩ := List.mem_filterMap.mp ((List.mem_insertionSort _).mp h)
    obtain ⟨hlength, hid, hedges⟩ := correlationOf_some hc
    refine ⟨idsOf group, fun hnil => ?_, fun id hmem => ?_, hid, hedges⟩
    · have hsame : (idsOf group).length = group.length := by
        unfold idsOf
        rw [List.length_insertionSort, List.length_map]
      rw [hnil, List.length_nil] at hsame
      omega
    · obtain ⟨item, hitem, rfl⟩ := List.mem_map.mp ((List.mem_insertionSort _).mp hmem)
      obtain ⟨o, ho, hsome⟩ := List.mem_filterMap.mp (mem_items_of_group hgroup hitem)
      exact ⟨o, ho, by rw [(itemOf_some hsome).1]⟩

/-- Rule and observations are determined by the name of a correlation. -/
theorem correlationId_inj (hfree : BarFree host) {rule rule' : CorrelationRule} {ids ids' : List String}
    (hids : ∀ id ∈ ids, ∃ text, id = "observation-" ++ host.digest text)
    (hids' : ∀ id ∈ ids', ∃ text, id = "observation-" ++ host.digest text)
    (h : correlationId host rule ids = correlationId host rule' ids') :
    rule.ruleId = rule'.ruleId ∧ ids = ids' := by
  have hnames : ∀ {l : List String}, (∀ id ∈ l, ∃ text, id = "observation-" ++ host.digest text) →
      ∀ id ∈ l, IsName id := by
    intro l hl id hid
    obtain ⟨text, rfl⟩ := hl id hid
    exact isName_append _
  have hbars : ∀ {l : List String} (version : ℕ),
      (∀ id ∈ l, ∃ text, id = "observation-" ++ host.digest text) →
      ∀ word ∈ toString version :: l, '|' ∉ word.toList := by
    intro l version hl word hword
    rcases List.mem_cons.mp hword with rfl | hword
    · exact fun hbar => absurd (digits_of_mem hbar) (by decide)
    · obtain ⟨text, rfl⟩ := hl word hword
      rw [String.toList_append, List.mem_append]
      rintro (hbar | hbar)
      · exact absurd hbar (by decide)
      · exact hfree text hbar
  have hjoined := host.digest_injective ((String.append_right_inj "correlation-").mp h)
  exact Text.intercalate_marked '|' (not_isName_version _) (not_isName_version _)
    (hnames hids) (hnames hids') (hbars _ hids) (hbars _ hids') hjoined

/-- Correlations of one ingestion with one name have the same edges. -/
theorem edges_of_correlationId (hfree : BarFree host) {table : Observations} (hkept : Kept host table)
    {rules : List CorrelationRule} (hrules : (rules.map CorrelationRule.ruleId).Nodup)
    {clusters : List String} {since : String} {c c' : Correlation}
    (hc : c ∈ correlationsOf host table rules clusters since)
    (hc' : c' ∈ correlationsOf host table rules clusters since)
    (hid : c.correlationId = c'.correlationId) : c.edges = c'.edges := by
  obtain ⟨cluster, _, hc⟩ := List.mem_flatMap.mp hc
  obtain ⟨rule, hrule, hc⟩ := List.mem_flatMap.mp hc
  obtain ⟨cluster', _, hc'⟩ := List.mem_flatMap.mp hc'
  obtain ⟨rule', hrule', hc'⟩ := List.mem_flatMap.mp hc'
  obtain ⟨ids, hne, hfrom, hcid, hedges⟩ := correlate_ids hc
  obtain ⟨ids', _, hfrom', hcid', hedges'⟩ := correlate_ids hc'
  have hrecent : ∀ {cluster : String} {o : Observation},
      o ∈ recentObservations table cluster since →
        table.get? o.observationId = some o ∧ o.cluster = cluster := by
    intro cluster o ho
    obtain ⟨ho, hin⟩ := List.mem_filter.mp ((List.mem_insertionSort _).mp ho)
    obtain ⟨k, hk⟩ := Dict.mem_values.mp ho
    rw [(hkept k o hk).key]
    exact ⟨hk, (of_decide_eq_true hin).1⟩
  have hnamed : ∀ {cluster : String} {l : List String},
      (∀ id ∈ l, ∃ o ∈ recentObservations table cluster since, o.observationId = id) →
        ∀ id ∈ l, ∃ text, id = "observation-" ++ host.digest text := by
    intro cluster l hl id hid
    obtain ⟨o, ho, rfl⟩ := hl id hid
    exact (hkept _ o (hrecent ho).1).named
  obtain ⟨hruleId, rfl⟩ := correlationId_inj hfree (hnamed hfrom) (hnamed hfrom')
    (hcid.symm.trans (hid.trans hcid'))
  obtain rfl := List.inj_on_of_nodup_map hrules hrule hrule' hruleId
  -- an observation of both correlations tells their cluster
  obtain ⟨id, hmem⟩ := List.exists_mem_of_ne_nil ids hne
  obtain ⟨o, ho, rfl⟩ := hfrom id hmem
  obtain ⟨o', ho', hsame⟩ := hfrom' _ hmem
  obtain ⟨hget, rfl⟩ := hrecent ho
  obtain ⟨hget', rfl⟩ := hrecent ho'
  rw [hsame] at hget'
  obtain rfl := Option.some.inj (hget.symm.trans hget')
  exact hedges.trans hedges'.symm

/-- A correlation that is found leaves its edges in a stored one. -/
theorem edges_saved {found : List Correlation}
    (hsame : ∀ c ∈ found, ∀ c' ∈ found, c.correlationId = c'.correlationId → c.edges = c'.edges)
    {c : Correlation} (hc : c ∈ found) (t : Dict String Correlation) :
    ∃ row ∈ (Dict.groupFold Correlation.correlationId saveCorrelation t found).values,
      row.edges = c.edges := by
  have hfold : ∀ (l : List Correlation) (row : Option Correlation), l ≠ [] →
      (∀ c' ∈ l, c'.edges = c.edges) →
      ∃ row', Dict.foldSome saveCorrelation row l = some row' ∧ row'.edges = c.edges := by
    intro l
    induction l with
    | nil => exact fun _ hne => absurd rfl hne
    | cons c' rest ih =>
        intro row _ hall
        have hhead : (saveCorrelation row c').edges = c.edges := by
          rw [← hall c' List.mem_cons_self]
          cases row with
          | none => rfl
          | some row => rfl
        cases rest with
        | nil => exact ⟨_, rfl, hhead⟩
        | cons c'' rest =>
            exact ih _ (List.cons_ne_nil c'' rest) fun d hd => hall d (List.mem_cons_of_mem c' hd)
  have hmem : c ∈ found.filter fun c' => decide (c'.correlationId = c.correlationId) :=
    List.mem_filter.mpr ⟨hc, decide_eq_true rfl⟩
  obtain ⟨row, hrow, hedges⟩ := hfold _ (t.get? c.correlationId) (List.ne_nil_of_mem hmem)
    fun c' hc' => hsame c' (List.mem_filter.mp hc').1 c hc (of_decide_eq_true (List.mem_filter.mp hc').2)
  refine ⟨row, Dict.mem_values.mpr ⟨c.correlationId, ?_⟩, hedges⟩
  rw [Dict.get?_groupFold]
  exact hrow

/-! ## Every pair has its edge -/

/-- An ingested observation is of an ingested cluster and not before the earliest window. -/
theorem ingested_start (hcovered : Covered host aliases db call) {w : RiskEntity × Window}
    (hw : w ∈ call.windows host aliases) {o : Observation}
    (ho : (call.saved host aliases db).get? (w.2.id host) = some o) {earliest start : IsoTime}
    (hearliest : call.earliest host aliases = some earliest)
    (hstart : parseTime host o.windowStart = some start) :
    o.cluster ∈ call.clusters host aliases ∧ earliest.instant ≤ start.instant := by
  rcases saved_origin ho with ⟨row, hrow, hsame⟩ | ⟨w', hw', _, hsame⟩
  · obtain ⟨hcluster, hle⟩ := hcovered.again w hw row hrow
    rw [hsame.cluster]
    exact ⟨hcluster, hle earliest hearliest start (hsame.start ▸ hstart)⟩
  · have hparse : parseTime host o.windowStart = some w'.2.start := by
      rw [hsame.start]
      exact (call_window hw').1
    obtain rfl := Option.some.inj (hstart.symm.trans hparse)
    rw [hsame.cluster]
    refine ⟨List.mem_dedup.mpr (List.mem_map.mpr ⟨w', hw', rfl⟩), ?_⟩
    exact earliest_le hearliest (List.mem_map_of_mem hw')

/-- One ingestion that leaves nothing out stores the edges of all its pairs. -/
theorem ingest_edges (hfree : BarFree host) (hdb : Kept host db.observations)
    (hvalid : Valid host aliases call) (hcovered : Covered host aliases db call) :
    EdgesStored host aliases db call := by
  intro w hw o ho o' ho' rule hrule henabled hbudget first second hrelates
  obtain ⟨hfirst, hsecond, hpairs⟩ := hrelates
  have hkept := kept_saved hdb hvalid
  obtain ⟨hobs, start, hstart, htime⟩ := itemOf_some hfirst
  obtain ⟨hobs', start', hstart', htime'⟩ := itemOf_some hsecond
  obtain ⟨earliest, hearliest⟩ := exists_earliest (List.mem_map_of_mem (f := Prod.snd) hw)
  obtain ⟨hcluster, hle⟩ := ingested_start hcovered hw ho hearliest hstart
  obtain ⟨rule', hrule', hwhole⟩ := hcovered.whole rule hrule henabled
  have hlimit : rule.maxGapSeconds ≤ maximumGap call.rules := hwhole.trans
    (by exact_mod_cast wholeSeconds_le_maximumGap hrule')
  have hclose := hpairs.close
  unfold gap at hclose
  rw [htime, htime'] at hclose
  obtain ⟨hbound', hbound⟩ := bound_le hclose hlimit hle
  have hsame : o'.cluster = o.cluster := by
    rw [← hobs, ← hobs']
    exact hpairs.cluster.symm
  obtain ⟨k', hk'⟩ := Dict.mem_values.mp ho'
  have hmem := mem_recent hcovered hkept hearliest ho rfl hcluster hstart hbound
  have hmem' := mem_recent hcovered hkept hearliest hk' hsame hcluster hstart' hbound'
  obtain ⟨c, hc, hedge⟩ := correlate_complete henabled hbudget
    (List.mem_filterMap.mpr ⟨o, hmem, hfirst⟩) (List.mem_filterMap.mpr ⟨o', hmem', hsecond⟩) hpairs
  have hfound : c ∈ correlationsOf host (call.saved host aliases db) call.rules
      (call.clusters host aliases) (call.since host aliases) :=
    List.mem_flatMap.mpr ⟨o.cluster, hcluster, List.mem_flatMap.mpr ⟨rule, hrule, hc⟩⟩
  obtain ⟨row, hrow, hedges⟩ := edges_saved
    (fun _ hd _ hd' => edges_of_correlationId hfree hkept call.rules_nodup hd hd') hfound db.correlations
  exact ⟨row, hrow, hedges ▸ hedge⟩

theorem steps_edges (hfree : BarFree host) {calls : List Call} (hdb : Kept host db.observations)
    (h : Steps host aliases (fun db call => Valid host aliases call ∧ Covered host aliases db call)
      db calls) : Steps host aliases (EdgesStored host aliases) db calls := by
  induction calls generalizing db with
  | nil => trivial
  | cons call calls ih =>
      obtain ⟨⟨hvalid, hcovered⟩, hrest⟩ := h
      exact ⟨ingest_edges hfree hdb hvalid hcovered, ih (kept_saved hdb hvalid) hrest⟩

/-- In a run whose ingestions leave nothing out, every ingestion stores the edges of all pairs of
an ingested observation and a stored one. -/
theorem edges_stored (host : { host : Host // BarFree host }) (aliases : Aliases)
    (calls : { calls : List Call // Steps host.val aliases (fun db call =>
      Valid host.val aliases call ∧ Covered host.val aliases db call) {} calls }) :
    Steps host.val aliases (EdgesStored host.val aliases) {} calls.val :=
  steps_edges host.property (fun _ _ h => by cases h) calls.property

/-! ## A time with a space before it -/

namespace Spaced

def escape (c : Char) : List Char :=
  if c = '|' then ['~', 'b'] else if c = '~' then ['~', 't'] else [c]

theorem escape_ne_nil (c : Char) : escape c ≠ [] := by
  unfold escape
  split_ifs
  · decide
  · decide
  · exact List.cons_ne_nil c []

theorem escape_inj {cs cs' : List Char} (h : cs.flatMap escape = cs'.flatMap escape) : cs = cs' := by
  induction cs generalizing cs' with
  | nil =>
      cases cs' with
      | nil => rfl
      | cons c' cs' =>
          rw [List.flatMap_cons, List.flatMap_nil] at h
          exact absurd (List.append_eq_nil_iff.mp h.symm).1 (escape_ne_nil c')
  | cons c cs ih =>
      cases cs' with
      | nil =>
          rw [List.flatMap_cons, List.flatMap_nil] at h
          exact absurd (List.append_eq_nil_iff.mp h).1 (escape_ne_nil c)
      | cons c' cs' =>
          rw [List.flatMap_cons, List.flatMap_cons] at h
          have hheads : c = c' ∧ cs.flatMap escape = cs'.flatMap escape := by
            unfold escape at h ⊢
            grind
          rw [hheads.1, ih hheads.2]

/-- Noon and some minutes of the first of January 2026. -/
def noon (minutes : ℤ) : IsoTime := ⟨(1767268800 + 60 * minutes) * 1000000, 0⟩

def clock : Host where
  casefold := id
  casefold_empty := id_empty
  casefold_default := id_default
  digest text := String.ofList (text.toList.flatMap escape)
  digest_injective := fun _ _ h => String.toList_inj.mp (escape_inj (String.ofList_inj.mp h))
  fromIso text :=
    if text = "2026-01-01 12:00:00+00:00" then some (noon 0)
    else if text = "2026-01-01T12:05:00+00:00" then some (noon 5)
    else none
  isoformat t := if t = noon 0 then "2026-01-01T12:00:00+00:00" else "2026-01-01T11:55:00+00:00"

theorem barFree : BarFree clock := by
  intro text h
  rw [show clock.digest text = String.ofList (text.toList.flatMap escape) from rfl,
    String.toList_ofList] at h
  obtain ⟨c, _, hc⟩ := List.mem_flatMap.mp h
  unfold escape at hc
  grind

def fiveMinutes : CorrelationRule where
  ruleId := "cross-source-same-entity"
  sourcePairs := [("kernel", "kubelet")]
  maxGapSeconds := 300

/-- A template window of a component of a node. -/
def ingestion (component time : String) : Call where
  sourceJobId := "j"
  entities := [{ riskScore := 60, windowStart := time, windowEnd := time, topTemplates := [{
    members := fun name => if name = "node" then some "n" else if name = "template_hash" then some "h"
      else if name = "component" then some component else if name = "window_start" then some time
      else none }] }]
  rules := [fiveMinutes]
  rules_nodup := by decide

def kernel : Call := ingestion "kernel" "2026-01-01 12:00:00+00:00"

def kubelet : Call := ingestion "kubelet" "2026-01-01T12:05:00+00:00"

def before : Database := ingestRiskEntities clock (fun _ => []) {} kernel

def after : Database := ingestRiskEntities clock (fun _ => []) before kubelet

instance (rule : CorrelationRule) (first second : Item) : Decidable (Pairs rule first second) :=
  decidable_of_iff (first.obs.cluster = second.obs.cluster ∧
      pairAllowed rule first.obs.sourceFamily second.obs.sourceFamily = true ∧
      (∃ key ∈ first.obs.entityKeys, key ∈ second.obs.entityKeys) ∧
      gap first second ≤ rule.maxGapSeconds)
    ⟨fun h => ⟨h.1, h.2.1, h.2.2.1, h.2.2.2⟩, fun h => ⟨h.cluster, h.families, h.shared, h.close⟩⟩

theorem related : ∃ w ∈ kubelet.windows clock fun _ => [], ∃ e ∈ after.observations.entries,
    e.1 = w.2.id clock ∧ ∃ e' ∈ after.observations.entries,
      ((search clock fiveMinutes ((recentObservations (kubelet.saved clock (fun _ => []) before)
        e.2.cluster (kubelet.since clock fun _ => [])).filterMap (itemOf clock fiveMinutes)) {}
        ((recentObservations (kubelet.saved clock (fun _ => []) before) e.2.cluster
          (kubelet.since clock fun _ => [])).filterMap (itemOf clock fiveMinutes)).zipIdx).isPartial
            = false) ∧
      ∃ first ∈ (itemOf clock fiveMinutes e.2).toList, ∃ second ∈ (itemOf clock fiveMinutes e'.2).toList,
        Pairs fiveMinutes first second := by
  decide +kernel

theorem uncorrelated : after.correlations.values.length = 0 := by
  decide +kernel

theorem kernel_window : (kernel.windows clock fun _ => []).map (fun w => (w.2.start, w.2.windowEnd)) =
    [(noon 0, "2026-01-01 12:00:00+00:00")] := by
  decide +kernel

theorem kubelet_window : (kubelet.windows clock fun _ => []).map (fun w => (w.2.start, w.2.windowEnd)) =
    [(noon 5, "2026-01-01T12:05:00+00:00")] := by
  decide +kernel

theorem valid {call : Call} {start : IsoTime} {text : String}
    (hwindows : (call.windows clock fun _ => []).map (fun w => (w.2.start, w.2.windowEnd)) =
      [(start, text)]) (hoffset : start.offset = 0) (hparse : parseTime clock text = some start) :
    Valid clock (fun _ => []) call := by
  intro w hw
  have hmem : (w.2.start, w.2.windowEnd) ∈ [(start, text)] :=
    hwindows ▸ List.mem_map.mpr ⟨w, hw, rfl⟩
  obtain ⟨hstart, hend⟩ := Prod.mk.inj (List.mem_singleton.mp hmem)
  rw [hstart, hend, hparse]
  refine ⟨hoffset, fun stop hstop => ?_⟩
  rw [← Option.some.inj hstop]
  exact ⟨hoffset, le_rfl⟩

end Spaced

/-- A stored observation whose end is written with a space is not read again. -/
theorem pair_without_edge : ¬ ∀ (host : { host : Host // BarFree host }) (aliases : Aliases)
    (calls : { calls : List Call // Steps host.val aliases (fun _ call =>
      Valid host.val aliases call) {} calls }),
    Steps host.val aliases (EdgesStored host.val aliases) {} calls.val := by
  intro h
  have hkernel : Valid Spaced.clock (fun _ => []) Spaced.kernel :=
    Spaced.valid Spaced.kernel_window rfl (by decide +kernel)
  have hkubelet : Valid Spaced.clock (fun _ => []) Spaced.kubelet :=
    Spaced.valid Spaced.kubelet_window rfl (by decide +kernel)
  have hsteps := h ⟨Spaced.clock, Spaced.barFree⟩ (fun _ => [])
    ⟨[Spaced.kernel, Spaced.kubelet], hkernel, hkubelet, trivial⟩
  obtain ⟨w, hw, e, he, hid, e', he', hbudget, first, hfirst, second, hsecond, hpairs⟩ := Spaced.related
  have hget : Spaced.after.observations.get? (w.2.id Spaced.clock) = some e.2 := by
    rw [← hid]
    exact Dict.get?_eq_some.mpr he
  have hvalue : e'.2 ∈ Spaced.after.observations.values := List.mem_map.mpr ⟨e', he', rfl⟩
  obtain ⟨c, hc, _⟩ := hsteps.2.1 w hw e.2 hget e'.2 hvalue Spaced.fiveMinutes List.mem_cons_self rfl
    hbudget first second ⟨Option.mem_toList.mp hfirst, Option.mem_toList.mp hsecond, hpairs⟩
  have hstored : c ∈ Spaced.after.correlations.values := hc
  have hpos := List.length_pos_of_mem hstored
  rw [Spaced.uncorrelated] at hpos
  exact absurd hpos (Nat.lt_irrefl 0)

end LogRisk.MultiSource
