import LogRisk.NodeRisk.Scoring

/-!
# The range of a score

Every dimension is cut to at most one hundred but the recency, which only has a lower
bound: an event that was seen after the clock lifts it beyond.  With weights that add up to
one the score stays within its range as long as no event is ahead of the clock.
-/

namespace LogRisk.NodeRisk

open LogRisk.Library

/-! ## Rounded values -/

theorem roundTo_two_zero : roundTo 2 0 = 0 := by decide +kernel

theorem roundTo_two_hundred : roundTo 2 100 = 100 := by decide +kernel

/-! ## Dimensions within their range -/

/-- From zero to one hundred. -/
def InRange (x : ℚ) : Prop := 0 ≤ x ∧ x ≤ 100

theorem inRange_min {x : ℚ} (h : 0 ≤ x) : InRange (min 100 x) :=
  ⟨le_min (by norm_num) h, min_le_left _ _⟩

theorem inRange_maxActiveSeverity (active : List EventView) :
    InRange (maxActiveSeverity active) := by
  unfold maxActiveSeverity
  cases h : (active.map fun e => severityPoints e.event.severity).max? with
  | none => exact ⟨le_rfl, by norm_num⟩
  | some x =>
      obtain ⟨e, -, rfl⟩ := List.mem_map.mp (List.max?_eq_some_iff.mp h).1
      exact ⟨severityPoints_nonneg _, severityPoints_le _⟩

theorem inRange_recurrence (counts : Statistics) : InRange (recurrence counts) :=
  inRange_min (Nat.cast_nonneg _)

theorem inRange_diversity {c : ScoringConfig} (htypes : 0 < c.capTypes) (hdomains : 0 < c.capDomains)
    (active : List EventView) : InRange (diversity c active) := by
  have hcapTypes : (0 : ℚ) < c.capTypes := Int.cast_pos.mpr htypes
  have hcapDomains : (0 : ℚ) < c.capDomains := Int.cast_pos.mpr hdomains
  refine inRange_min ?_
  positivity

theorem inRange_duration (active : List EventView) (now : IsoTime) : InRange (duration active now) :=
  inRange_min (le_max_left _ _)

theorem inRange_impact (active : List EventView) : InRange (impact active) := by
  refine inRange_min ?_
  have hcount : (0 : ℚ) ≤ (impacted active).length := Nat.cast_nonneg _
  have hmax := hcount.trans (le_max_right (if active = [] then (0 : ℚ) else 1) _)
  linarith

theorem recency_nonneg (active : List EventView) (now : IsoTime) : 0 ≤ recency active now :=
  le_max_left _ _

theorem hoursSince_nonneg {now time : IsoTime} : 0 ≤ hoursSince now time ↔ time.instant ≤ now.instant := by
  have hsecond : (0 : ℚ) < IsoTime.second := by
    unfold IsoTime.second
    norm_num
  unfold hoursSince
  rw [le_div_iff₀ (by norm_num), zero_mul, le_div_iff₀ hsecond, zero_mul, Int.cast_nonneg_iff]
  omega

/-- No event was seen after the clock. -/
def NoneAhead (active : List EventView) (now : IsoTime) : Prop :=
  ∀ e ∈ active, e.event.lastSeen.instant ≤ now.instant

/-- The recency is in range unless an event is ahead of the clock. -/
theorem inRange_recency_iff {active : List EventView} {now : IsoTime} :
    InRange (recency active now) ↔ NoneAhead active now := by
  have hrecency : InRange (recency active now) ↔
      0 ≤ (active.map fun e => hoursSince now e.event.lastSeen).min?.getD 720 := by
    unfold InRange recency
    constructor
    · intro h
      have hle := (le_max_right _ _).trans h.2
      linarith
    · intro h
      refine ⟨le_max_left _ _, max_le (by norm_num) ?_⟩
      linarith
  rw [hrecency]
  unfold NoneAhead
  cases h : (active.map fun e => hoursSince now e.event.lastSeen).min? with
  | none =>
      have hnil := List.map_eq_nil_iff.mp (List.min?_eq_none_iff.mp h)
      rw [hnil, Option.getD_none]
      exact iff_of_true (by norm_num) fun e he => absurd he List.not_mem_nil
  | some least =>
      obtain ⟨hmem, hleast⟩ := List.min?_eq_some_iff.mp h
      rw [Option.getD_some]
      constructor
      · intro hnonneg e he
        exact hoursSince_nonneg.mp (hnonneg.trans (hleast _ (List.mem_map_of_mem he)))
      · intro hnone
        obtain ⟨e, he, rfl⟩ := List.mem_map.mp hmem
        exact hoursSince_nonneg.mpr (hnone e he)

/-! ## Balanced configurations -/

def dimensionNames : List String :=
  ["max_active_severity", "recurrence", "diversity", "duration", "recency", "impact"]

/-- Every dimension has a weight and every level a threshold, the weighed maxima add up to at
most one hundred, the lowest level is always reached, and no override goes beyond. -/
structure ScoringConfig.Balanced (c : ScoringConfig) : Prop extends c.Sound where
  weighed : ∀ name ∈ dimensionNames, (c.weights.get? name).isSome = true
  total : (dimensionNames.map fun name => roundTo 2 (100 * (c.weights.get? name).getD 0)).sum ≤ 100
  leveled : ∀ name ∈ levelNames, (c.thresholds.get? name).isSome = true
  lowest : ∀ threshold, c.thresholds.get? "low" = some threshold → threshold ≤ 0
  overrides : ∀ o ∈ c.hardOverrides, o.minimumScore ≤ 100

section Balanced

variable {c : ScoringConfig} (hc : c.Balanced)
include hc

theorem dimensions_eq (active : List EventView) (counts : Statistics) (now : IsoTime) :
    dimensions c active counts now = some [("max_active_severity", maxActiveSeverity active),
      ("recurrence", recurrence counts), ("diversity", diversity c active),
      ("duration", duration active now), ("recency", recency active now),
      ("impact", impact active)] := by
  unfold dimensions
  rw [if_neg]
  rintro (hzero | hzero)
  · exact hc.capTypes.ne' hzero
  · exact hc.capDomains.ne' hzero

theorem mapM_weigh {dims : List (String × ℚ)} (hnames : ∀ d ∈ dims, d.1 ∈ dimensionNames) :
    dims.mapM (weigh c) =
      some (dims.map fun d => (d.1, roundTo 2 (d.2 * (c.weights.get? d.1).getD 0))) := by
  induction dims with
  | nil => rfl
  | cons d dims ih =>
      obtain ⟨w, hw⟩ := Option.isSome_iff_exists.mp (hc.weighed d.1 (hnames d List.mem_cons_self))
      have hhead : weigh c d = some (d.1, roundTo 2 (d.2 * (c.weights.get? d.1).getD 0)) := by
        unfold weigh
        rw [hw]
        rfl
      rw [List.mapM_cons, hhead, ih fun d' hd' => hnames d' (List.mem_cons_of_mem _ hd')]
      rfl

theorem weight_nonneg (name : String) : 0 ≤ (c.weights.get? name).getD 0 := by
  cases hw : c.weights.get? name with
  | none => exact le_rfl
  | some w => exact hc.weights name w hw

theorem contribution_nonneg {value : ℚ} (hvalue : 0 ≤ value) (name : String) :
    0 ≤ roundTo 2 (value * (c.weights.get? name).getD 0) := by
  have hmono := roundTo_mono 2 (mul_nonneg hvalue (weight_nonneg hc name))
  rwa [roundTo_two_zero] at hmono

theorem contribution_le {value : ℚ} (hvalue : value ≤ 100) (name : String) :
    roundTo 2 (value * (c.weights.get? name).getD 0) ≤
      roundTo 2 (100 * (c.weights.get? name).getD 0) :=
  roundTo_mono 2 (mul_le_mul_of_nonneg_right hvalue (weight_nonneg hc name))

/-- With a score that is not negative a level is reached. -/
theorem reachedLevel_of_nonneg {score : ℚ} (hscore : 0 ≤ score) {names : List String}
    (hnames : names ⊆ levelNames) (hlow : "low" ∈ names) :
    ∃ level ∈ names, reachedLevel c.thresholds score names = some level := by
  induction names with
  | nil => cases hlow
  | cons name rest ih =>
      obtain ⟨threshold, hthreshold⟩ :=
        Option.isSome_iff_exists.mp (hc.leveled name (hnames List.mem_cons_self))
      unfold reachedLevel
      rw [hthreshold]
      dsimp only
      by_cases hreached : threshold ≤ score
      · exact ⟨name, List.mem_cons_self, if_pos hreached⟩
      · have hrest : "low" ∈ rest := by
          refine (List.mem_cons.mp hlow).resolve_left fun hname => hreached ?_
          exact (hc.lowest threshold (hname ▸ hthreshold)).trans hscore
        obtain ⟨level, hmem, hlevel⟩ :=
          ih (fun n hn => hnames (List.mem_cons_of_mem _ hn)) hrest
        exact ⟨level, List.mem_cons_of_mem _ hmem, (if_neg hreached).trans hlevel⟩

/-- A level that is assigned is one of the four or forced by an override. -/
theorem levelOf_of_nonneg {score : ℚ} (hscore : 0 ≤ score) (active : List EventView) :
    ∃ level, levelOf c ((triggered c active).foldl forceLevel none) score = some level ∧
      (level ∈ levelNames ∨ ∃ o ∈ c.hardOverrides, o.forceLevel = level) := by
  cases hforced : (triggered c active).foldl forceLevel none with
  | none =>
      obtain ⟨level, hmem, hlevel⟩ :=
        reachedLevel_of_nonneg hc hscore (List.Subset.refl levelNames) (by decide)
      exact ⟨level, hlevel, .inl hmem⟩
  | some level =>
      refine ⟨level, rfl, .inr ?_⟩
      rcases forced_mem hforced with hnone | ⟨o, ho, hlevel⟩
      · cases hnone
      · exact ⟨o, (List.mem_filter.mp ho).1, hlevel⟩

end Balanced

theorem le_foldl_max (overrides : List Override) (score : ℚ) :
    score ≤ overrides.foldl (fun score o => max score o.minimumScore) score := by
  have hmono := foldl_max_mono Override.minimumScore (List.nil_sublist overrides) (le_refl score)
  rwa [List.foldl_nil] at hmono

theorem foldl_max_le {overrides : List Override} (h : ∀ o ∈ overrides, o.minimumScore ≤ 100)
    {score : ℚ} (hscore : score ≤ 100) :
    overrides.foldl (fun score o => max score o.minimumScore) score ≤ 100 := by
  induction overrides generalizing score with
  | nil => exact hscore
  | cons o overrides ih =>
      rw [List.foldl_cons]
      exact ih (fun o' ho' => h o' (List.mem_cons_of_mem _ ho'))
        (max_le hscore (h o List.mem_cons_self))

/-! ## The range -/

/-- An assessment whose dimensions and score are in range and whose level is assigned. -/
structure Assessment.Ranged (c : ScoringConfig) (a : Assessment) : Prop where
  dimensions : ∀ d ∈ a.dimensions, InRange d.2
  score : InRange a.overallScore
  level : a.overallLevel ∈ levelNames ∨ ∃ o ∈ c.hardOverrides, o.forceLevel = a.overallLevel

/-- The dimensions in the order in which they are weighed. -/
def dimensionList (c : ScoringConfig) (events : List EventView) (now : IsoTime) : List (String × ℚ) :=
  [("max_active_severity", maxActiveSeverity (activeOf events)),
    ("recurrence", recurrence (statistics events now)), ("diversity", diversity c (activeOf events)),
    ("duration", duration (activeOf events) now), ("recency", recency (activeOf events) now),
    ("impact", impact (activeOf events))]

theorem map_fst_dimensionList (c : ScoringConfig) (events : List EventView) (now : IsoTime) :
    (dimensionList c events now).map Prod.fst = dimensionNames := rfl

section Assessed

variable {c : ScoringConfig} (hc : c.Balanced) (events : List EventView) (now : IsoTime)
include hc

/-- Only the recency can be beyond one hundred. -/
theorem dimensionList_bounds : ∀ d ∈ dimensionList c events now,
    0 ≤ d.2 ∧ (d.1 ≠ "recency" → d.2 ≤ 100) := by
  have hseverity := inRange_maxActiveSeverity (activeOf events)
  have hrecurrence := inRange_recurrence (statistics events now)
  have hdiversity := inRange_diversity hc.capTypes hc.capDomains (activeOf events)
  have hduration := inRange_duration (activeOf events) now
  have himpact := inRange_impact (activeOf events)
  intro d hd
  unfold dimensionList at hd
  simp only [List.mem_cons, List.not_mem_nil, or_false] at hd
  rcases hd with rfl | rfl | rfl | rfl | rfl | rfl
  · exact ⟨hseverity.1, fun _ => hseverity.2⟩
  · exact ⟨hrecurrence.1, fun _ => hrecurrence.2⟩
  · exact ⟨hdiversity.1, fun _ => hdiversity.2⟩
  · exact ⟨hduration.1, fun _ => hduration.2⟩
  · exact ⟨recency_nonneg _ _, fun hne => absurd rfl hne⟩
  · exact ⟨himpact.1, fun _ => himpact.2⟩

theorem inRange_dimensionList_iff :
    (∀ d ∈ dimensionList c events now, InRange d.2) ↔ NoneAhead (activeOf events) now := by
  rw [← inRange_recency_iff]
  constructor
  · intro h
    refine h ("recency", recency (activeOf events) now) ?_
    unfold dimensionList
    simp only [List.mem_cons, true_or, or_true]
  · intro h d hd
    obtain ⟨hnonneg, hle⟩ := dimensionList_bounds hc events now d hd
    by_cases hname : d.1 = "recency"
    · have hvalue : d.2 = recency (activeOf events) now := by
        unfold dimensionList at hd
        simp only [List.mem_cons, List.not_mem_nil, or_false] at hd
        rcases hd with rfl | rfl | rfl | rfl | rfl | rfl
        all_goals first | rfl | simp at hname
      rw [hvalue]
      exact h
    · exact ⟨hnonneg, hle hname⟩

/-- The weighed dimensions added up. -/
def baseScore (c : ScoringConfig) (events : List EventView) (now : IsoTime) : ℚ :=
  roundTo 2 ((dimensionList c events now).map fun d =>
    roundTo 2 (d.2 * (c.weights.get? d.1).getD 0)).sum

theorem baseScore_nonneg : 0 ≤ baseScore c events now := by
  have hsum : 0 ≤ ((dimensionList c events now).map fun d =>
      roundTo 2 (d.2 * (c.weights.get? d.1).getD 0)).sum := by
    refine List.sum_nonneg fun x hx => ?_
    obtain ⟨d, hd, rfl⟩ := List.mem_map.mp hx
    exact contribution_nonneg hc (dimensionList_bounds hc events now d hd).1 d.1
  have hmono := roundTo_mono 2 hsum
  rwa [roundTo_two_zero] at hmono

theorem baseScore_le (h : ∀ d ∈ dimensionList c events now, InRange d.2) :
    baseScore c events now ≤ 100 := by
  have hsum : ((dimensionList c events now).map fun d =>
      roundTo 2 (d.2 * (c.weights.get? d.1).getD 0)).sum ≤ 100 := by
    calc ((dimensionList c events now).map fun d =>
          roundTo 2 (d.2 * (c.weights.get? d.1).getD 0)).sum
        ≤ ((dimensionList c events now).map fun d =>
          roundTo 2 (100 * (c.weights.get? d.1).getD 0)).sum :=
          List.sum_le_sum fun d hd => contribution_le hc (h d hd).2 d.1
      _ = (dimensionNames.map fun name => roundTo 2 (100 * (c.weights.get? name).getD 0)).sum := by
          rw [← map_fst_dimensionList c events now, List.map_map]
          rfl
      _ ≤ 100 := hc.total
  have hmono := roundTo_mono 2 hsum
  rwa [roundTo_two_hundred] at hmono

/-- The dimensions, the score and the level of the assessment. -/
theorem assessed_spec : ∃ a, assessed c events now = some a ∧
    a.dimensions = dimensionList c events now ∧
    a.overallScore = (triggered c (activeOf events)).foldl (fun score o => max score o.minimumScore)
      (baseScore c events now) ∧
    (a.overallLevel ∈ levelNames ∨ ∃ o ∈ c.hardOverrides, o.forceLevel = a.overallLevel) := by
  have hdims : dimensions c (activeOf events) (statistics events now) now =
      some (dimensionList c events now) := dimensions_eq hc _ _ _
  have hweighed := mapM_weigh hc fun d hd =>
    map_fst_dimensionList c events now ▸ List.mem_map_of_mem hd
  have hscore : roundTo 2 (((dimensionList c events now).map fun d =>
      (d.1, roundTo 2 (d.2 * (c.weights.get? d.1).getD 0))).map Prod.snd).sum =
      baseScore c events now := by
    unfold baseScore
    rw [List.map_map]
    rfl
  have hnonneg := (baseScore_nonneg hc events now).trans
    (le_foldl_max (triggered c (activeOf events)) _)
  rw [← hscore] at hnonneg
  obtain ⟨level, hlevel, hassigned⟩ := levelOf_of_nonneg hc hnonneg (activeOf events)
  refine ⟨_, assess_eq_some.mpr ⟨_, _, _, level, hdims, hweighed, rfl, hlevel, rfl⟩, rfl, ?_, hassigned⟩
  rw [← hscore]

end Assessed

/-- The configuration that is shipped is balanced. -/
theorem shipped_balanced : shipped.Balanced where
  toSound := shipped_sound.2.1
  weighed := by decide +kernel
  total := by decide +kernel
  leveled := by decide +kernel
  lowest := by
    intro threshold h
    have hzero : shipped.thresholds.get? "low" = some 0 := by decide +kernel
    rw [hzero] at h
    exact (Option.some.inj h).ge
  overrides := by decide +kernel

/-- Under a balanced configuration every list of events is scored and gets a level. -/
theorem exists_assessed {c : ScoringConfig} (hc : c.Balanced) (events : List EventView)
    (now : IsoTime) :
    ∃ a, assessed c events now = some a ∧ (∀ d ∈ a.dimensions, 0 ≤ d.2) ∧ 0 ≤ a.overallScore ∧
      (a.overallLevel ∈ levelNames ∨ ∃ o ∈ c.hardOverrides, o.forceLevel = a.overallLevel) := by
  obtain ⟨a, ha, hdims, hscore, hlevel⟩ := assessed_spec hc events now
  refine ⟨a, ha, fun d hd => ?_, ?_, hlevel⟩
  · exact (dimensionList_bounds hc events now d (hdims ▸ hd)).1
  · rw [hscore]
    exact (baseScore_nonneg hc events now).trans (le_foldl_max _ _)

theorem assessed_ranged_iff {c : ScoringConfig} (hc : c.Balanced) (events : List EventView)
    (now : IsoTime) :
    (∃ a, assessed c events now = some a ∧ a.Ranged c) ↔
      ∀ e ∈ activeOf events, e.event.lastSeen.instant ≤ now.instant := by
  obtain ⟨a, ha, hdims, hscore, hlevel⟩ := assessed_spec hc events now
  constructor
  · rintro ⟨a', ha', hranged⟩
    obtain rfl := Option.some.inj (ha.symm.trans ha')
    exact (inRange_dimensionList_iff hc events now).mp (hdims ▸ hranged.dimensions)
  · intro hahead
    have hrange := (inRange_dimensionList_iff hc events now).mpr hahead
    refine ⟨a, ha, ⟨hdims ▸ hrange, ?_, hlevel⟩⟩
    rw [hscore]
    constructor
    · exact (baseScore_nonneg hc events now).trans (le_foldl_max _ _)
    · refine foldl_max_le (fun o ho => ?_) (baseScore_le hc events now hrange)
      exact hc.overrides o (List.mem_filter.mp ho).1

end LogRisk.NodeRisk
