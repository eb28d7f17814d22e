import Mathlib.Algebra.Order.Floor.Ring
import Mathlib.Algebra.Order.BigOperators.Group.List
import Mathlib.Data.Finset.Card
import Mathlib.Data.Rat.Floor
import Mathlib.Tactic.Linarith
import Mathlib.Tactic.Positivity
import LogRisk.NodeRisk.Projection

/-!
# Scoring a node

Six dimensions of the active events are weighed and added up; overrides lift the
score and force the level.  With weights that are not negative the score never
falls when an event is added, and neither does the level, unless an override sets
it.
-/

namespace LogRisk.NodeRisk

open LogRisk.Library

/-! ## Rounding -/

/-- To the nearest integer, from the middle to the even one. -/
def roundHalfEven (x : ℚ) : ℤ :=
  if x - ⌊x⌋ < 1 / 2 then ⌊x⌋
  else if 1 / 2 < x - ⌊x⌋ then ⌊x⌋ + 1
  else if ⌊x⌋ % 2 = 0 then ⌊x⌋ else ⌊x⌋ + 1

/-- `round(x, digits)`. -/
def roundTo (digits : ℕ) (x : ℚ) : ℚ := roundHalfEven (x * 10 ^ digits) / 10 ^ digits

theorem roundHalfEven_bounds (x : ℚ) : ⌊x⌋ ≤ roundHalfEven x ∧ roundHalfEven x ≤ ⌊x⌋ + 1 := by
  unfold roundHalfEven
  split_ifs <;> omega

theorem roundHalfEven_mono : Monotone roundHalfEven := by
  intro x y hxy
  have hfloor := Int.floor_mono hxy
  rcases hfloor.lt_or_eq with hlt | heq
  · have hx := (roundHalfEven_bounds x).2
    have hy := (roundHalfEven_bounds y).1
    omega
  · unfold roundHalfEven
    rw [heq]
    have hfrac : x - ⌊y⌋ ≤ y - ⌊y⌋ := by linarith
    split_ifs <;> first | omega | linarith

theorem roundTo_mono (digits : ℕ) : Monotone (roundTo digits) := by
  intro x y hxy
  have hscaled : x * 10 ^ digits ≤ y * 10 ^ digits := by gcongr
  unfold roundTo
  gcongr
  exact_mod_cast roundHalfEven_mono hscaled

/-! ## The configuration -/

/-- One of the `hard_overrides`. -/
structure Override where
  riskType : Option String
  status : Option String
  forceLevel : String
  minimumScore : ℚ
  reason : String
  named : forceLevel ≠ ""

structure ScoringConfig where
  weights : Dict String ℚ
  capTypes : ℤ
  capDomains : ℤ
  thresholds : Dict String ℚ
  hardOverrides : List Override

/-- What `_load_config` checks: `math.isclose` of the sum of the weights and one. -/
def ScoringConfig.Loads (c : ScoringConfig) : Prop :=
  |c.weights.values.sum - 1| ≤ max (1 / 10 ^ 9 * max |c.weights.values.sum| 1) (1 / 10 ^ 4)

/-! ## Dimensions -/

def severityPoints (severity : String) : ℚ :=
  if severity = "critical" then 100 else if severity = "high" then 75
  else if severity = "medium" then 45 else if severity = "low" then 20 else 0

/-- `(now - time).total_seconds() / 3600`. -/
def hoursSince (now time : IsoTime) : ℚ :=
  ((now.instant - time.instant : ℤ) : ℚ) / IsoTime.second / 3600

def maxActiveSeverity (active : List EventView) : ℚ :=
  (active.map fun e => severityPoints e.event.severity).max?.getD 0

def recurrence (counts : Statistics) : ℚ := min 100 counts.occurrenceCount24h

def riskTypes (active : List EventView) : ℕ := (active.map (·.event.riskType)).dedup.length

def riskDomains (active : List EventView) : ℕ := (active.map (·.event.riskDomain)).dedup.length

def diversity (c : ScoringConfig) (active : List EventView) : ℚ :=
  min 100 ((riskTypes active / c.capTypes + riskDomains active / c.capDomains) * 50)

def duration (active : List EventView) (now : IsoTime) : ℚ :=
  min 100 (max 0 ((active.map fun e => hoursSince now e.event.firstSeen).max?.getD 0 / 168 * 100))

def recency (active : List EventView) (now : IsoTime) : ℚ :=
  max 0 (100 - (active.map fun e => hoursSince now e.event.lastSeen).min?.getD 720 / 24 * 100)

def impactFields : List String := ["pci_bdf", "gpu_uuid", "pod", "container_id", "device"]

/-- The devices and workloads that the events name. -/
def impacted (active : List EventView) : List String :=
  (active.flatMap fun e =>
    (e.event.semanticFields.entries.filter fun p => p.1 ∈ impactFields ∧ p.2 ≠ "").map Prod.snd).dedup

def impact (active : List EventView) : ℚ :=
  min 100 (max (if active = [] then (0 : ℚ) else 1) (impacted active).length * 25)

/-- The dimensions under the names of their weights; dividing by a cap of zero
raises. -/
def dimensions (c : ScoringConfig) (active : List EventView) (counts : Statistics) (now : IsoTime) :
    Option (List (String × ℚ)) :=
  if c.capTypes = 0 ∨ c.capDomains = 0 then none
  else some [("max_active_severity", maxActiveSeverity active), ("recurrence", recurrence counts),
    ("diversity", diversity c active), ("duration", duration active now),
    ("recency", recency active now), ("impact", impact active)]

def weigh (c : ScoringConfig) (dimension : String × ℚ) : Option (String × ℚ) :=
  (c.weights.get? dimension.1).map fun w => (dimension.1, roundTo 2 (dimension.2 * w))

/-! ## Overrides and levels -/

def openStatuses : List (Option String) := [some "active", some "acknowledged"]

local instance lawfulStatus : LawfulBEq (Option String) := inferInstance

/-- The overrides that one of the active events triggers. -/
def triggered (c : ScoringConfig) (active : List EventView) : List Override :=
  c.hardOverrides.filter fun o =>
    active.any (fun e => o.riskType = some e.event.riskType) && decide (o.status ∈ openStatuses)

def forceLevel (forced : Option String) (o : Override) : Option String :=
  match forced with
  | none => some o.forceLevel
  | some level =>
      if severityPoints level < severityPoints o.forceLevel then some o.forceLevel else some level

def levelNames : List String := ["critical", "high", "medium", "low"]

/-- The first of the levels that the score reaches; where there is none, or a
threshold is missing, this raises. -/
def reachedLevel (thresholds : Dict String ℚ) (score : ℚ) : List String → Option String
  | [] => none
  | name :: rest =>
      match thresholds.get? name with
      | none => none
      | some threshold => if threshold ≤ score then some name else reachedLevel thresholds score rest

def levelOf (c : ScoringConfig) (forced : Option String) (score : ℚ) : Option String :=
  match forced with
  | some level => some level
  | none => reachedLevel c.thresholds score levelNames

/-! ## The assessment -/

/-- The result of `_score`. -/
structure Assessment where
  overallScore : ℚ
  overallLevel : String
  confidence : ℚ
  primaryRisks : List (String × String × ℕ)
  assessmentReasons : List String
  dimensions : List (String × ℚ)
  contributions : List (String × ℚ)

def confidence (active : List EventView) : ℚ :=
  if active = [] then 1
  else roundTo 4 ((active.map (·.event.confidence)).sum / active.length)

/-- More severe, or as severe and seen later. -/
def heavier (best e : EventView) : Bool :=
  decide (severityPoints best.event.severity < severityPoints e.event.severity ∨
    severityPoints best.event.severity = severityPoints e.event.severity ∧
      best.event.lastSeen < e.event.lastSeen)

/-- `max(active, key=…)`. -/
def heaviest : List EventView → Option EventView
  | [] => none
  | e :: rest => some (rest.foldl (fun best e => if heavier best e then e else best) e)

def reasonsOf (active : List EventView) (overrides : List Override) : List String :=
  match overrides, heaviest active with
  | [], some e => ["当前主要风险为 " ++ e.event.riskType ++ "，等级 " ++ e.event.severity]
  | overrides, _ => overrides.map (·.reason)

/-- The most severe first, then by risk type. -/
def PrimaryOrder (a b : EventView) : Prop :=
  severityPoints b.event.severity < severityPoints a.event.severity ∨
    severityPoints b.event.severity = severityPoints a.event.severity ∧
      a.event.riskType ≤ b.event.riskType

instance : DecidableRel PrimaryOrder := fun _ _ => instDecidableOr

def primaryRisks (active : List EventView) : List (String × String × ℕ) :=
  ((active.insertionSort PrimaryOrder).take 5).map fun e =>
    (e.event.riskType, e.event.severity, e.occurrenceCount)

/-- The events that are open. -/
def activeOf (events : List EventView) : List EventView := events.filter fun e => e.status.isOpen

/-- `_score`; `none` where it raises. -/
def assess (c : ScoringConfig) (events : List EventView) (counts : Statistics) (now : IsoTime) :
    Option Assessment := do
  let active := activeOf events
  let dims ← dimensions c active counts now
  let contributions ← dims.mapM (weigh c)
  let overrides := triggered c active
  let score := overrides.foldl (fun score o => max score o.minimumScore)
    (roundTo 2 (contributions.map Prod.snd).sum)
  let level ← levelOf c (overrides.foldl forceLevel none) score
  some {
    overallScore := score
    overallLevel := level
    confidence := confidence active
    primaryRisks := primaryRisks active
    assessmentReasons := reasonsOf active overrides
    dimensions := dims
    contributions }

/-! ## More events -/

theorem max?_mono {xs ys : List ℚ} {d : ℚ} (h : xs ⊆ ys) (hd : xs = [] → ∀ y ∈ ys, d ≤ y) :
    xs.max?.getD d ≤ ys.max?.getD d := by
  cases hx : xs.max? with
  | none =>
      have hnil := List.max?_eq_none_iff.mp hx
      cases hy : ys.max? with
      | none => rfl
      | some y => exact hd hnil y (List.max?_eq_some_iff.mp hy).1
  | some x =>
      have hmem := h (List.max?_eq_some_iff.mp hx).1
      cases hy : ys.max? with
      | none =>
          rw [List.max?_eq_none_iff.mp hy] at hmem
          cases hmem
      | some y => exact (List.max?_eq_some_iff.mp hy).2 x hmem

theorem min?_anti {xs ys : List ℚ} {d : ℚ} (h : xs ⊆ ys) (hne : xs ≠ []) :
    ys.min?.getD d ≤ xs.min?.getD d := by
  obtain ⟨x, hx⟩ := Option.ne_none_iff_exists'.mp (mt List.min?_eq_none_iff.mp hne)
  have hmem := h (List.min?_eq_some_iff.mp hx).1
  cases hy : ys.min? with
  | none =>
      rw [List.min?_eq_none_iff.mp hy] at hmem
      cases hmem
  | some y =>
      rw [hx]
      exact (List.min?_eq_some_iff.mp hy).2 x hmem

theorem dedup_length_mono {α : Type} [DecidableEq α] {xs ys : List α} (h : xs ⊆ ys) :
    xs.dedup.length ≤ ys.dedup.length := by
  rw [← List.card_toFinset, ← List.card_toFinset]
  exact Finset.card_le_card fun x hx => List.mem_toFinset.mpr (h (List.mem_toFinset.mp hx))

theorem severityPoints_nonneg (severity : String) : 0 ≤ severityPoints severity := by
  unfold severityPoints
  split_ifs <;> norm_num

theorem maxActiveSeverity_mono {active active' : List EventView} (h : active ⊆ active') :
    maxActiveSeverity active ≤ maxActiveSeverity active' := by
  refine max?_mono (List.map_subset _ h) fun _ y hy => ?_
  obtain ⟨e, -, rfl⟩ := List.mem_map.mp hy
  exact severityPoints_nonneg e.event.severity

theorem diversity_mono {c : ScoringConfig} {active active' : List EventView} (h : active ⊆ active')
    (htypes : 0 < c.capTypes) (hdomains : 0 < c.capDomains) :
    diversity c active ≤ diversity c active' := by
  have ht : riskTypes active ≤ riskTypes active' := dedup_length_mono (List.map_subset _ h)
  have hd : riskDomains active ≤ riskDomains active' := dedup_length_mono (List.map_subset _ h)
  unfold diversity
  gcongr

theorem duration_mono {active active' : List EventView} (now : IsoTime) (h : active ⊆ active') :
    duration active now ≤ duration active' now := by
  unfold duration
  refine min_le_min_left _ ?_
  cases hnil : active with
  | nil =>
      rw [List.map_nil, List.max?_nil, Option.getD_none]
      refine le_of_eq_of_le ?_ (le_max_left _ _)
      norm_num
  | cons e rest =>
      rw [← hnil]
      gcongr
      refine max?_mono (List.map_subset _ h) fun hempty => ?_
      rw [hnil] at hempty
      cases hempty

theorem recency_mono {active active' : List EventView} (now : IsoTime) (h : active ⊆ active') :
    recency active now ≤ recency active' now := by
  unfold recency
  cases hnil : active with
  | nil =>
      rw [List.map_nil, List.min?_nil, Option.getD_none]
      refine le_of_eq_of_le ?_ (le_max_left _ _)
      norm_num
  | cons e rest =>
      rw [← hnil]
      gcongr
      refine min?_anti (List.map_subset _ h) fun hempty => ?_
      rw [List.map_eq_nil_iff, hnil] at hempty
      cases hempty

theorem impact_mono {active active' : List EventView} (h : active ⊆ active') :
    impact active ≤ impact active' := by
  have himpacted : (impacted active).length ≤ (impacted active').length := by
    refine dedup_length_mono fun x hx => ?_
    obtain ⟨e, he, hxe⟩ := List.mem_flatMap.mp hx
    exact List.mem_flatMap.mpr ⟨e, h he, hxe⟩
  have hany : (if active = [] then (0 : ℚ) else 1) ≤ if active' = [] then 0 else 1 := by
    by_cases hnil : active = []
    · rw [if_pos hnil]
      split_ifs <;> norm_num
    · have hnil' : active' ≠ [] := by
        rintro rfl
        exact hnil (List.subset_nil.mp h)
      rw [if_neg hnil, if_neg hnil']
  unfold impact
  gcongr

theorem recurrence_mono {events events' : List EventView} (now : IsoTime)
    (h : events.Sublist events') :
    recurrence (statistics events now) ≤ recurrence (statistics events' now) := by
  have hcount : (statistics events now).occurrenceCount24h ≤
      (statistics events' now).occurrenceCount24h :=
    (((h.filter _).filter _).map _).sum_le_sum fun _ _ => Nat.zero_le _
  unfold recurrence
  gcongr

/-! ## Weighing -/

/-- Under the same names, no value falls. -/
def Rises (dims dims' : List (String × ℚ)) : Prop :=
  List.Forall₂ (fun d d' => d.1 = d'.1 ∧ d.2 ≤ d'.2) dims dims'

/-- Weights are not negative, and so are the caps of the diversity. -/
structure ScoringConfig.Sound (c : ScoringConfig) : Prop where
  weights : ∀ name w, c.weights.get? name = some w → 0 ≤ w
  capTypes : 0 < c.capTypes
  capDomains : 0 < c.capDomains

theorem dimensions_rise {c : ScoringConfig} (hc : c.Sound) {events events' : List EventView}
    (h : events.Sublist events') (now : IsoTime) {dims : List (String × ℚ)}
    (hdims : dimensions c (activeOf events) (statistics events now) now = some dims) :
    ∃ dims', dimensions c (activeOf events') (statistics events' now) now = some dims' ∧
      Rises dims dims' := by
  have hcaps : ¬(c.capTypes = 0 ∨ c.capDomains = 0) := by
    rintro (hzero | hzero)
    · exact hc.capTypes.ne' hzero
    · exact hc.capDomains.ne' hzero
  have hactive : activeOf events ⊆ activeOf events' := (h.filter _).subset
  unfold dimensions at hdims ⊢
  rw [if_neg hcaps] at hdims ⊢
  obtain rfl := Option.some.inj hdims
  refine ⟨_, rfl, ?_⟩
  exact .cons ⟨rfl, maxActiveSeverity_mono hactive⟩ <| .cons ⟨rfl, recurrence_mono now h⟩ <|
    .cons ⟨rfl, diversity_mono hactive hc.capTypes hc.capDomains⟩ <|
    .cons ⟨rfl, duration_mono now hactive⟩ <| .cons ⟨rfl, recency_mono now hactive⟩ <|
    .cons ⟨rfl, impact_mono hactive⟩ .nil

theorem weigh_rises {c : ScoringConfig} (hc : c.Sound) {dims dims' weighed : List (String × ℚ)}
    (h : Rises dims dims') (hweighed : dims.mapM (weigh c) = some weighed) :
    ∃ weighed', dims'.mapM (weigh c) = some weighed' ∧ Rises weighed weighed' := by
  induction h generalizing weighed with
  | nil =>
      obtain rfl := Option.some.inj hweighed
      exact ⟨[], rfl, .nil⟩
  | @cons d d' dims dims' hd hrest ih =>
      obtain ⟨name, value⟩ := d
      obtain ⟨name', value'⟩ := d'
      obtain ⟨rfl, hvalue⟩ := hd
      rw [List.mapM_cons] at hweighed
      obtain ⟨x, hx, hweighed⟩ := Option.bind_eq_some_iff.mp hweighed
      obtain ⟨xs, hxs, hweighed⟩ := Option.bind_eq_some_iff.mp hweighed
      obtain rfl := Option.some.inj hweighed
      obtain ⟨xs', hxs', hrises⟩ := ih hxs
      obtain ⟨w, hw, rfl⟩ := Option.map_eq_some_iff.mp hx
      refine ⟨(name, roundTo 2 (value' * w)) :: xs', ?_, .cons ⟨rfl, ?_⟩ hrises⟩
      · have hhead : weigh c (name, value') = some (name, roundTo 2 (value' * w)) := by
          unfold weigh
          rw [hw]
          rfl
        rw [List.mapM_cons, hhead, hxs']
        rfl
      · exact roundTo_mono 2 (mul_le_mul_of_nonneg_right hvalue (hc.weights name w hw))

theorem Rises.sum_le {dims dims' : List (String × ℚ)} (h : Rises dims dims') :
    (dims.map Prod.snd).sum ≤ (dims'.map Prod.snd).sum := by
  induction h with
  | nil => rfl
  | cons hd _ ih =>
      rw [List.map_cons, List.map_cons, List.sum_cons, List.sum_cons]
      exact add_le_add hd.2 ih

/-! ## Overriding -/

theorem triggered_sublist (c : ScoringConfig) {active active' : List EventView}
    (h : active ⊆ active') : (triggered c active).Sublist (triggered c active') := by
  refine List.monotone_filter_right _ fun o ho => ?_
  rw [Bool.and_eq_true, List.any_eq_true] at ho ⊢
  obtain ⟨⟨e, he, htype⟩, hstatus⟩ := ho
  exact ⟨⟨e, h he, htype⟩, hstatus⟩

theorem foldl_max_mono {α : Type} (f : α → ℚ) {xs ys : List α} (h : xs.Sublist ys) :
    ∀ {a b : ℚ}, a ≤ b → xs.foldl (fun m x => max m (f x)) a ≤ ys.foldl (fun m x => max m (f x)) b := by
  induction h with
  | slnil => exact fun hab => hab
  | cons y _ ih => exact fun hab => ih (hab.trans (le_max_left _ _))
  | cons_cons x _ ih => exact fun hab => ih (max_le_max_right _ hab)

/-- No level comes before every level. -/
def forcedPoints (forced : Option String) : ℚ := forced.elim (-1) severityPoints

theorem forcedPoints_forceLevel (forced : Option String) (o : Override) :
    forcedPoints (forceLevel forced o) = max (forcedPoints forced) (severityPoints o.forceLevel) := by
  cases forced with
  | none =>
      have hpoints := severityPoints_nonneg o.forceLevel
      have hle : forcedPoints none ≤ severityPoints o.forceLevel := by
        change (-1 : ℚ) ≤ _
        linarith
      exact (max_eq_right hle).symm
  | some level =>
      unfold forceLevel
      dsimp only
      split_ifs with hlt
      · exact (max_eq_right hlt.le).symm
      · exact (max_eq_left (not_lt.mp hlt)).symm

theorem forcedPoints_foldl (overrides : List Override) (forced : Option String) :
    forcedPoints (overrides.foldl forceLevel forced) =
      overrides.foldl (fun m o => max m (severityPoints o.forceLevel)) (forcedPoints forced) := by
  induction overrides generalizing forced with
  | nil => rfl
  | cons o overrides ih => rw [List.foldl_cons, List.foldl_cons, ih, forcedPoints_forceLevel]

/-- What is forced is what one of the overrides forces. -/
theorem forced_mem {overrides : List Override} {forced : Option String} {level : String}
    (h : overrides.foldl forceLevel forced = some level) :
    forced = some level ∨ ∃ o ∈ overrides, o.forceLevel = level := by
  induction overrides generalizing forced with
  | nil => exact .inl h
  | cons o overrides ih =>
      rcases ih h with hstep | ⟨o', ho', hlevel⟩
      · unfold forceLevel at hstep
        split at hstep
        · exact .inr ⟨o, List.mem_cons_self, Option.some.inj hstep⟩
        · split_ifs at hstep
          · exact .inr ⟨o, List.mem_cons_self, Option.some.inj hstep⟩
          · exact .inl hstep
      · exact .inr ⟨o', List.mem_cons_of_mem _ ho', hlevel⟩

theorem forced_isSome {overrides : List Override} (h : overrides ≠ []) (forced : Option String) :
    (overrides.foldl forceLevel forced).isSome = true := by
  have hpoints : -1 < forcedPoints (overrides.foldl forceLevel forced) := by
    obtain ⟨o, rest, rfl⟩ := List.exists_cons_of_ne_nil h
    have ho := severityPoints_nonneg o.forceLevel
    rw [forcedPoints_foldl, List.foldl_cons]
    have hle := foldl_max_mono (fun o : Override => severityPoints o.forceLevel)
      (List.nil_sublist rest) (le_max_right (forcedPoints forced) (severityPoints o.forceLevel))
    rw [List.foldl_nil] at hle
    linarith
  cases hforced : overrides.foldl forceLevel forced with
  | some level => rfl
  | none =>
      rw [hforced] at hpoints
      exact absurd hpoints (lt_irrefl _)

/-! ## Levels -/

/-- A higher score reaches its level earlier in the list. -/
theorem reachedLevel_mono {thresholds : Dict String ℚ} {score score' : ℚ} (h : score ≤ score')
    {names : List String} (hnames : names.Pairwise fun a b => severityPoints b ≤ severityPoints a)
    {level : String} (hlevel : reachedLevel thresholds score names = some level) :
    ∃ level', reachedLevel thresholds score' names = some level' ∧
      severityPoints level ≤ severityPoints level' ∧ level ∈ names := by
  induction names with
  | nil => cases hlevel
  | cons name rest ih =>
      obtain ⟨hhead, hrest⟩ := List.pairwise_cons.mp hnames
      unfold reachedLevel at hlevel ⊢
      cases hthreshold : thresholds.get? name with
      | none =>
          rw [hthreshold] at hlevel
          cases hlevel
      | some threshold =>
          rw [hthreshold] at hlevel
          dsimp only at hlevel ⊢
          by_cases hreached : threshold ≤ score
          · rw [if_pos hreached] at hlevel
            obtain rfl := Option.some.inj hlevel
            exact ⟨name, if_pos (hreached.trans h), le_rfl, List.mem_cons_self⟩
          · rw [if_neg hreached] at hlevel
            obtain ⟨level', hlevel', hle, hmem⟩ := ih hrest hlevel
            by_cases hreached' : threshold ≤ score'
            · exact ⟨name, if_pos hreached', hhead level hmem, List.mem_cons_of_mem _ hmem⟩
            · exact ⟨level', (if_neg hreached').trans hlevel', hle, List.mem_cons_of_mem _ hmem⟩

theorem levelNames_descend :
    levelNames.Pairwise fun a b => severityPoints b ≤ severityPoints a := by
  simp [levelNames, severityPoints]
  norm_num

/-- The level after more events, unless an override sets it where none did before. -/
theorem levelOf_mono {c : ScoringConfig} {overrides overrides' : List Override}
    (h : overrides.Sublist overrides') {score score' : ℚ} (hscore : score ≤ score') {level : String}
    (hlevel : levelOf c (overrides.foldl forceLevel none) score = some level) :
    ∃ level', levelOf c (overrides'.foldl forceLevel none) score' = some level' ∧
      (severityPoints level ≤ severityPoints level' ∨
        overrides = [] ∧ ∃ o ∈ overrides', o.forceLevel = level') := by
  cases hforced' : overrides'.foldl forceLevel none with
  | none =>
      have hnil' : overrides' = [] := by
        by_contra hne
        have hsome := forced_isSome hne none
        rw [hforced'] at hsome
        cases hsome
      subst hnil'
      obtain rfl := List.sublist_nil.mp h
      obtain ⟨level', hlevel', hle, -⟩ := reachedLevel_mono hscore levelNames_descend hlevel
      exact ⟨level', hlevel', .inl hle⟩
  | some level' =>
      refine ⟨level', rfl, ?_⟩
      cases hforced : overrides.foldl forceLevel none with
      | none =>
          refine .inr ⟨?_, ?_⟩
          · by_contra hne
            have hsome := forced_isSome hne none
            rw [hforced] at hsome
            cases hsome
          · rcases forced_mem hforced' with hnone | hmem
            · cases hnone
            · exact hmem
      | some forced =>
          rw [hforced] at hlevel
          obtain rfl := Option.some.inj hlevel
          have hpoints := forcedPoints_foldl overrides none
          have hpoints' := forcedPoints_foldl overrides' none
          rw [hforced] at hpoints
          rw [hforced'] at hpoints'
          left
          change forcedPoints (some forced) ≤ forcedPoints (some level')
          rw [hpoints, hpoints']
          exact foldl_max_mono _ h le_rfl

theorem assess_eq_some {c : ScoringConfig} {events : List EventView} {counts : Statistics}
    {now : IsoTime} {a : Assessment} :
    assess c events counts now = some a ↔
      ∃ dims weighed score level, dimensions c (activeOf events) counts now = some dims ∧
        dims.mapM (weigh c) = some weighed ∧
        score = (triggered c (activeOf events)).foldl (fun score o => max score o.minimumScore)
          (roundTo 2 (weighed.map Prod.snd).sum) ∧
        levelOf c ((triggered c (activeOf events)).foldl forceLevel none) score = some level ∧
        a = {
          overallScore := score
          overallLevel := level
          confidence := confidence (activeOf events)
          primaryRisks := primaryRisks (activeOf events)
          assessmentReasons := reasonsOf (activeOf events) (triggered c (activeOf events))
          dimensions := dims
          contributions := weighed } := by
  constructor
  · intro h
    obtain ⟨dims, hdims, h⟩ := Option.bind_eq_some_iff.mp h
    obtain ⟨weighed, hweighed, h⟩ := Option.bind_eq_some_iff.mp h
    obtain ⟨level, hlevel, h⟩ := Option.bind_eq_some_iff.mp h
    exact ⟨dims, weighed, _, level, hdims, hweighed, rfl, hlevel, (Option.some.inj h).symm⟩
  · rintro ⟨dims, weighed, score, level, hdims, hweighed, rfl, hlevel, rfl⟩
    unfold assess
    simp only [hdims, hweighed, hlevel, Option.bind_eq_bind, Option.bind_some]

/-- More events: the score does not fall, and the level only where an override sets
it. -/
theorem assess_mono {c : ScoringConfig} (hc : c.Sound) {events events' : List EventView}
    (h : events.Sublist events') {now : IsoTime} {a : Assessment}
    (ha : assess c events (statistics events now) now = some a) :
    ∃ a', assess c events' (statistics events' now) now = some a' ∧
      a.overallScore ≤ a'.overallScore ∧
      (severityPoints a.overallLevel ≤ severityPoints a'.overallLevel ∨
        triggered c (activeOf events) = [] ∧
          ∃ o ∈ triggered c (activeOf events'), o.forceLevel = a'.overallLevel) := by
  obtain ⟨dims, weighed, score, level, hdims, hweighed, hscore, hlevel, rfl⟩ := assess_eq_some.mp ha
  obtain ⟨dims', hdims', hrises⟩ := dimensions_rise hc h now hdims
  obtain ⟨weighed', hweighed', hrises'⟩ := weigh_rises hc hrises hweighed
  have htriggered : (triggered c (activeOf events)).Sublist (triggered c (activeOf events')) :=
    triggered_sublist c (h.filter _).subset
  have hbase : roundTo 2 (weighed.map Prod.snd).sum ≤ roundTo 2 (weighed'.map Prod.snd).sum :=
    roundTo_mono 2 hrises'.sum_le
  have hle := foldl_max_mono Override.minimumScore htriggered hbase
  rw [← hscore] at hle
  obtain ⟨level', hlevel', hlevels⟩ := levelOf_mono htriggered hle hlevel
  exact ⟨_, assess_eq_some.mpr ⟨dims', weighed', _, level', hdims', hweighed', rfl, hlevel', rfl⟩,
    hle, hlevels⟩

/-! ## Acknowledging -/

/-- An event without the marks that a transition between open states leaves. -/
def unmarked (v : EventView) : EventView where
  event := { v.event with
    status := .active, acknowledgedAt := none, acknowledgedBy := none, updatedAt := default }
  occurrenceCount := v.occurrenceCount
  status := if v.status.isOpen then .active else v.status

@[simp] theorem isOpen_unmarked (v : EventView) : (unmarked v).status.isOpen = v.status.isOpen := by
  unfold unmarked
  cases v.status <;> rfl

theorem superseded_unmarked (v : EventView) :
    (unmarked v).status = .superseded ↔ v.status = .superseded := by
  unfold unmarked
  cases v.status <;> simp [ViewStatus.isOpen]

theorem activeOf_map (events : List EventView) :
    activeOf (events.map unmarked) = (activeOf events).map unmarked := by
  unfold activeOf
  rw [List.filter_map]
  refine congrArg _ (List.filter_congr fun v _ => ?_)
  exact isOpen_unmarked v

/-- A function of the events that reads none of the marks. -/
theorem map_unmarked {α : Type} (f : EventView → α) (hf : ∀ v, f (unmarked v) = f v)
    (events : List EventView) : (events.map unmarked).map f = events.map f := by
  rw [List.map_map]
  exact List.map_congr_left fun v _ => hf v

theorem statistics_map (events : List EventView) (now : IsoTime) :
    statistics (events.map unmarked) now = statistics events now := by
  have hcounted : (events.map unmarked).filter (fun e => decide (e.status ≠ .superseded)) =
      (events.filter fun e => decide (e.status ≠ .superseded)).map unmarked := by
    rw [List.filter_map]
    refine congrArg _ (List.filter_congr fun v _ => ?_)
    exact decide_eq_decide.mpr (not_congr (superseded_unmarked v))
  have hopen : ∀ xs : List EventView, (xs.map unmarked).countP (fun e => e.status.isOpen) =
      xs.countP fun e => e.status.isOpen := by
    intro xs
    rw [List.countP_map]
    exact List.countP_congr fun v _ => by rw [Function.comp_apply, isOpen_unmarked]
  have hrecent : ∀ (days : ℤ) (xs : List EventView),
      (xs.map unmarked).filter (fun e =>
        decide (now.instant - days * IsoTime.day ≤ e.event.lastSeen.instant)) =
      (xs.filter fun e =>
        decide (now.instant - days * IsoTime.day ≤ e.event.lastSeen.instant)).map unmarked :=
    fun days xs => List.filter_map
  unfold statistics
  dsimp only
  rw [hcounted]
  simp only [hopen, hrecent, List.length_map]
  rw [map_unmarked _ fun _ => rfl, map_unmarked _ fun _ => rfl]

theorem heaviest_map (active : List EventView) :
    heaviest (active.map unmarked) = (heaviest active).map unmarked := by
  cases active with
  | nil => rfl
  | cons e rest =>
      have hfold : ∀ best : EventView,
          (rest.map unmarked).foldl (fun best e => if heavier best e then e else best)
            (unmarked best) =
          unmarked (rest.foldl (fun best e => if heavier best e then e else best) best) := by
        induction rest with
        | nil => exact fun _ => rfl
        | cons e' rest ih =>
            intro best
            have hstep : (if heavier (unmarked best) (unmarked e') then unmarked e' else unmarked best) =
                unmarked (if heavier best e' then e' else best) := (apply_ite unmarked _ _ _).symm
            rw [List.map_cons, List.foldl_cons, List.foldl_cons, hstep, ih]
      exact congrArg some (hfold e)

theorem primaryRisks_map (active : List EventView) :
    primaryRisks (active.map unmarked) = primaryRisks active := by
  unfold primaryRisks
  rw [← List.map_insertionSort PrimaryOrder PrimaryOrder unmarked active fun _ _ _ _ => Iff.rfl,
    ← List.map_take]
  exact map_unmarked _ (fun _ => rfl) _

theorem triggered_map (c : ScoringConfig) (active : List EventView) :
    triggered c (active.map unmarked) = triggered c active := by
  refine List.filter_congr fun o _ => ?_
  rw [List.any_map]
  rfl

theorem reasonsOf_map (active : List EventView) (overrides : List Override) :
    reasonsOf (active.map unmarked) overrides = reasonsOf active overrides := by
  unfold reasonsOf
  rw [heaviest_map]
  cases overrides with
  | nil => cases heaviest active <;> rfl
  | cons o overrides => rfl

theorem dimensions_map (c : ScoringConfig) (active : List EventView) (counts : Statistics)
    (now : IsoTime) :
    dimensions c (active.map unmarked) counts now = dimensions c active counts now := by
  have himpacted : impacted (active.map unmarked) = impacted active := by
    unfold impacted
    rw [List.flatMap_map]
    rfl
  have hnil : active.map unmarked = [] ↔ active = [] := List.map_eq_nil_iff
  unfold dimensions maxActiveSeverity diversity riskTypes riskDomains duration recency impact
  rw [himpacted, if_congr hnil rfl rfl, map_unmarked _ fun _ => rfl, map_unmarked _ fun _ => rfl,
    map_unmarked _ fun _ => rfl, map_unmarked _ fun _ => rfl, map_unmarked _ fun _ => rfl]

theorem confidence_map (active : List EventView) :
    confidence (active.map unmarked) = confidence active := by
  unfold confidence
  rw [if_congr List.map_eq_nil_iff rfl rfl, map_unmarked _ fun _ => rfl, List.length_map]

theorem assess_map (c : ScoringConfig) (events : List EventView) (counts : Statistics)
    (now : IsoTime) : assess c (events.map unmarked) counts now = assess c events counts now := by
  unfold assess
  dsimp only
  rw [activeOf_map, dimensions_map, triggered_map, confidence_map, primaryRisks_map, reasonsOf_map]

theorem unmarked_acknowledged {c : TransitionCall} {e : RiskEvent} (hc : c.target = .acknowledged)
    (he : e.status ≠ .recovered) : unmarked (transitioned c e).view = unmarked e.view := by
  obtain hstatus | hstatus : e.status = .active ∨ e.status = .acknowledged := by
    cases h : e.status with
    | active => exact .inl rfl
    | acknowledged => exact .inr rfl
    | recovered => exact absurd h he
  all_goals
    unfold transitioned RiskEvent.view
    rw [hc, hstatus]
    cases hderived : e.derivationStatus <;> simp [unmarked, EventStatus.view, ViewStatus.isOpen, hderived]

/-! ## The node's assessment -/

/-- `_score` with the statistics of the same events. -/
def assessed (c : ScoringConfig) (events : List EventView) (now : IsoTime) : Option Assessment :=
  assess c events (statistics events now) now

theorem severityPoints_le (severity : String) : severityPoints severity ≤ 100 := by
  unfold severityPoints
  split_ifs <;> norm_num

def weightsOf (severity recurrence diversity duration recency impact : ℚ) : Dict String ℚ :=
  ((((((∅ : Dict String ℚ).set "max_active_severity" severity).set "recurrence" recurrence).set
    "diversity" diversity).set "duration" duration).set "recency" recency).set "impact" impact

/-- The configuration that is shipped. -/
def shipped : ScoringConfig where
  weights := weightsOf (35 / 100) (20 / 100) (15 / 100) (10 / 100) (10 / 100) (10 / 100)
  capTypes := 5
  capDomains := 4
  thresholds := ((((∅ : Dict String ℚ).set "critical" 90).set "high" 70).set "medium" 40).set "low" 0
  hardOverrides := [
    ⟨some "gpu.fallen_off_bus", some "active", "critical", 95,
      "存在未恢复的 GPU fallen off bus 风险", by decide⟩,
    ⟨some "gpu.uncontained_error", some "active", "critical", 98,
      "存在未恢复的 GPU uncontained error", by decide⟩,
    ⟨some "k8s.node.not_ready", some "active", "critical", 95,
      "Kubernetes 节点处于 NotReady", by decide⟩]

theorem shipped_sound : shipped.Loads ∧ shipped.Sound ∧
    ∀ o ∈ shipped.hardOverrides, o.forceLevel = "critical" := by
  have hweights : ∀ p ∈ shipped.weights.entries, 0 ≤ p.2 := by decide +kernel
  refine ⟨?_, ⟨?_, by decide, by decide⟩, ?_⟩
  · unfold ScoringConfig.Loads
    decide +kernel
  · intro name w hw
    exact hweights (name, w) (Dict.get?_eq_some.mp hw)
  · intro o ho
    simp only [shipped, List.mem_cons, List.not_mem_nil, or_false] at ho
    rcases ho with rfl | rfl | rfl <;> rfl

/-- An active event of this risk, seen at the epoch. -/
def riskAt (riskType severity : String) (count : ℕ) : EventView where
  event := {
    eventId := riskType, cluster := "c", nodeId := "n", riskDomain := "d", riskCategory := "c"
    riskType, riskSubtype := none, severity, baseScore := 1, confidence := 1
    semanticRuleId := "r", semanticRuleVersion := 1, dedupKey := riskType
    occurrenceCount := count, firstSeen := ⟨0, 0⟩, lastSeen := ⟨0, 0⟩, windowStart := ⟨0, 0⟩
    windowEnd := ⟨0, 0⟩, status := .active, semanticFields := ∅, evidenceRefs := []
    sourceJobId := none, sourceTraceId := none, createdAt := ⟨0, 0⟩, updatedAt := ⟨0, 0⟩ }
  occurrenceCount := count
  status := .active

/-- The weights add up to one, and one of them is negative. -/
def negativeWeight : ScoringConfig := { shipped with weights := weightsOf 2 (-1) 0 0 0 0 }

/-- An override forces a low level. -/
def lowOverride : ScoringConfig :=
  { shipped with hardOverrides :=
      [⟨some "k8s.node.not_ready", some "active", "low", 0, "forced", by decide⟩] }

theorem lowOverride_sound : lowOverride.Loads ∧ lowOverride.Sound :=
  ⟨shipped_sound.1, shipped_sound.2.1.weights, shipped_sound.2.1.capTypes,
    shipped_sound.2.1.capDomains⟩

def outcome (c : ScoringConfig) (events : List EventView) : Option (ℚ × String) :=
  (assessed c events ⟨0, 0⟩).map fun a => (a.overallScore, a.overallLevel)

end LogRisk.NodeRisk
