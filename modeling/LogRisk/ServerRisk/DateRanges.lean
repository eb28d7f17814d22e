import LogRisk.Library.Partition
import Mathlib.Algebra.BigOperators.Intervals
import Mathlib.Data.Int.ConditionallyCompleteOrder

/-!
# Known counts of days and of ranges of days

A fact counts for a range of local dates when it lies within its bounds as a whole.  A fact is a
point, an interval that includes its end, or, where it was registered as an observation, one that
does not; without two readable times it counts nowhere.  Single days and longer ranges are
computed by queries of their own.
-/

namespace LogRisk.ServerRisk

open LogRisk.Library LogRisk.Library.Dict

/-! ## Facts -/

inductive Provenance where
  | legacyUnverified
  | committedWindow
  | registeredObservation
deriving DecidableEq

/-- A fact with its times as instants; a time that cannot be read is missing. -/
structure Fact where
  factRef : String
  riskType : String
  objectKind : String
  objectId : String
  provenance : Provenance
  firstSeen : Option ℤ
  lastSeen : Option ℤ
  count : ℕ

/-- An observed interval ends before its last instant. -/
def exclusive (f : Fact) (left right : ℤ) : Prop :=
  f.provenance = .registeredObservation ∧ left ≠ right

instance (f : Fact) (left right : ℤ) : Decidable (exclusive f left right) :=
  inferInstanceAs (Decidable (_ ∧ _))

/-- Some instant of the fact lies in the range. -/
def touches (f : Fact) (left right start stop : ℤ) : Prop :=
  left < stop ∧ if exclusive f left right then start < right else start ≤ right

instance (f : Fact) (left right start stop : ℤ) : Decidable (touches f left right start stop) :=
  inferInstanceAs (Decidable (_ ∧ _))

/-- The whole fact lies in the range. -/
def bounded (f : Fact) (left right start stop : ℤ) : Prop :=
  start ≤ left ∧ if exclusive f left right then right ≤ stop else right < stop

instance (f : Fact) (left right start stop : ℤ) : Decidable (bounded f left right start stop) :=
  inferInstanceAs (Decidable (_ ∧ _))

/-! ## The overview of a range -/

/-- What `_groups` keeps of a fact: nothing, or whether it is bounded. -/
def overviewFact (start stop : ℤ) (f : Fact) : Option Bool :=
  match f.firstSeen, f.lastSeen with
  | some left, some right =>
      if right < left ∨ ¬ touches f left right start stop then none
      else some (decide (bounded f left right start stop))
  | _, _ => none

/-- The facts of a host in groups by risk type and object.  Which facts are admitted (those of the
host, and not of a synthetic environment) does not depend on the dates. -/
def groups (admitted : Fact → Bool) (facts : List Fact) (start stop : ℤ) :
    Dict (String × String × String) (List (Fact × Bool)) :=
  groupBy (fun item : Fact × Bool => (item.1.riskType, item.1.objectKind, item.1.objectId))
    ((facts.filter admitted).filterMap fun f => (overviewFact start stop f).map fun b => (f, b))

/-- `known_occurrence_count` of a group. -/
def groupKnown (items : List (Fact × Bool)) : ℕ :=
  ((items.filter fun item => item.2).map fun item => item.1.count).sum

/-- `known_occurrence_count` of the overview of a host, for all levels and recovery states. -/
def overviewKnown (admitted : Fact → Bool) (facts : List Fact) (start stop : ℤ) : ℕ :=
  ((groups admitted facts start stop).values.map groupKnown).sum

/-! ## The evidence of a day -/

/-- What `day_evidence` selects of a fact: nothing, or whether its count is known. -/
def dayFact (start stop : ℤ) (f : Fact) : Option Bool :=
  match f.firstSeen, f.lastSeen with
  | some first, some last =>
      if touches f first last start stop then some (decide (bounded f first last start stop))
      else none
  | _, _ => none

def dayKnown (facts : List Fact) (start stop : ℤ) : ℕ :=
  ((facts.filter fun f => decide (dayFact start stop f = some true)).map Fact.count).sum

/-! ## What a range counts -/

def counted (admitted : Fact → Bool) (start stop : ℤ) (f : Fact) : Prop :=
  admitted f = true ∧ overviewFact start stop f = some true

instance (admitted : Fact → Bool) (start stop : ℤ) (f : Fact) :
    Decidable (counted admitted start stop f) := inferInstanceAs (Decidable (_ ∧ _))

/-- The fact has instants before an instant and at or behind it. -/
def crosses (f : Fact) (instant : ℤ) : Prop :=
  match f.firstSeen, f.lastSeen with
  | some left, some right =>
      left < instant ∧ if exclusive f left right then instant < right else instant ≤ right
  | _, _ => False

/-- The instants at which the local dates start. -/
structure Zone where
  midnight : ℤ → ℤ
  monotone : Monotone midnight

variable {admitted : Fact → Bool}

theorem counted_iff {start stop : ℤ} {f : Fact} :
    counted admitted start stop f ↔ admitted f = true ∧ ∃ left right,
      f.firstSeen = some left ∧ f.lastSeen = some right ∧ left ≤ right ∧ left < stop ∧
        bounded f left right start stop := by
  unfold counted overviewFact
  refine and_congr_right fun _ => ?_
  constructor
  · intro h
    split at h
    · rename_i left right hleft hright
      split at h
      · cases h
      · rename_i hkept
        obtain ⟨hle, htouches⟩ := not_or.mp hkept
        exact ⟨left, right, hleft, hright, not_lt.mp hle, (not_not.mp htouches).1,
          of_decide_eq_true (Option.some.inj h)⟩
    · cases h
  · rintro ⟨left, right, hleft, hright, hle, hstop, hbounded⟩
    have htouches : touches f left right start stop := by
      refine ⟨hstop, ?_⟩
      have hstart := hbounded.1
      split
      · rename_i hexclusive
        have := hexclusive.2
        omega
      · omega
    rw [hleft, hright]
    simp only
    rw [if_neg (not_or.mpr ⟨not_lt.mpr hle, not_not.mpr htouches⟩), decide_eq_true hbounded]

theorem sum_bounded (facts : List Fact) (start stop : ℤ) :
    groupKnown ((facts.filter admitted).filterMap fun f =>
        (overviewFact start stop f).map fun b => (f, b)) =
      (facts.map fun f => if counted admitted start stop f then f.count else 0).sum := by
  induction facts with
  | nil => rfl
  | cons f facts ih =>
      rw [List.map_cons, List.sum_cons, ← ih]
      by_cases hadmitted : admitted f = true
      · have hcounted : counted admitted start stop f ↔ overviewFact start stop f = some true :=
          and_iff_right hadmitted
        rw [List.filter_cons_of_pos hadmitted, List.filterMap_cons]
        match hkept : overviewFact start stop f with
        | none =>
            rw [if_neg (by rw [hcounted, hkept]; decide), Nat.zero_add]
            rfl
        | some false =>
            rw [if_neg (by rw [hcounted, hkept]; decide), Nat.zero_add]
            rfl
        | some true =>
            rw [if_pos (hcounted.mpr hkept)]
            rfl
      · rw [List.filter_cons_of_neg hadmitted, if_neg fun h => hadmitted h.1, Nat.zero_add]

/-- The known count is what the counted facts count together. -/
theorem overviewKnown_eq (facts : List Fact) (start stop : ℤ) :
    overviewKnown admitted facts start stop =
      (facts.map fun f => if counted admitted start stop f then f.count else 0).sum := by
  have hsum : ∀ gs : List (List (Fact × Bool)), (gs.map groupKnown).sum = groupKnown gs.flatten := by
    intro gs
    induction gs with
    | nil => rfl
    | cons g gs ih =>
        rw [List.map_cons, List.sum_cons, ih, List.flatten_cons]
        unfold groupKnown
        rw [List.filter_append, List.map_append, List.sum_append]
  have hperm := flatten_groupBy_perm
    (fun item : Fact × Bool => (item.1.riskType, item.1.objectKind, item.1.objectId))
    ((facts.filter admitted).filterMap fun f => (overviewFact start stop f).map fun b => (f, b))
  unfold overviewKnown
  rw [hsum, ← sum_bounded]
  exact ((hperm.filter _).map _).sum_nat

/-- The facts that the overview looks at: admitted, and not ending before they start. -/
def shown (admitted : Fact → Bool) (f : Fact) : Bool :=
  admitted f && match f.firstSeen, f.lastSeen with
    | some left, some right => decide (left ≤ right)
    | _, _ => false

/-- Of those, the evidence of a day has known counts for what the overview of the day counts. -/
theorem counted_iff_dayFact {start stop : ℤ} {f : Fact} :
    counted admitted start stop f ↔ shown admitted f = true ∧ dayFact start stop f = some true := by
  unfold counted shown dayFact overviewFact
  cases hleft : f.firstSeen with
  | none => simp
  | some left =>
      cases hright : f.lastSeen with
      | none => simp
      | some right =>
          by_cases hle : left ≤ right
          · by_cases htouches : touches f left right start stop
            · simp [hle, htouches]
            · simp [htouches]
          · simp [hle]

theorem dayKnown_shown (facts : List Fact) (start stop : ℤ) :
    dayKnown (facts.filter (shown admitted)) start stop =
      overviewKnown admitted facts start stop := by
  rw [overviewKnown_eq]
  unfold dayKnown
  rw [List.filter_filter]
  induction facts with
  | nil => rfl
  | cons f facts ih =>
      rw [List.map_cons, List.sum_cons, ← ih, List.filter_cons]
      by_cases hcounted : counted admitted start stop f
      · obtain ⟨hshown, hday⟩ := counted_iff_dayFact.mp hcounted
        rw [if_pos hcounted, if_pos (by simp [hshown, hday]), List.map_cons, List.sum_cons]
      · rw [if_neg hcounted, if_neg, Nat.zero_add]
        intro h
        rw [Bool.and_eq_true, decide_eq_true_eq] at h
        exact hcounted (counted_iff_dayFact.mpr h.symm)

/-! ## Days of a range -/

variable {zone : Zone} {first : ℤ} {n : ℕ}

/-- What is counted on the day with the given number, from the first one. -/
def countedOn (admitted : Fact → Bool) (zone : Zone) (first : ℤ) (i : ℕ) (f : Fact) : Prop :=
  counted admitted (zone.midnight (first + i)) (zone.midnight (first + i + 1)) f

instance (i : ℕ) (f : Fact) : Decidable (countedOn admitted zone first i f) :=
  inferInstanceAs (Decidable (counted _ _ _ _))

/-- A fact is counted on the day in which it starts. -/
theorem lt_of_countedOn {i j : ℕ} {f : Fact} (hi : countedOn admitted zone first i f)
    (hj : countedOn admitted zone first j f) : ¬ i < j := by
  intro hlt
  obtain ⟨_, left, _, hleft, _, _, hstop, _⟩ := counted_iff.mp hi
  obtain ⟨_, left', _, hleft', _, _, _, hbounded⟩ := counted_iff.mp hj
  obtain rfl : left = left' := Option.some.inj (hleft.symm.trans hleft')
  have hmidnight : zone.midnight (first + i + 1) ≤ zone.midnight (first + j) :=
    zone.monotone (by omega)
  have hstart := hbounded.1
  omega

theorem countedOn_unique {i j : ℕ} {f : Fact} (hi : countedOn admitted zone first i f)
    (hj : countedOn admitted zone first j f) : i = j := by
  have hij := lt_of_countedOn hi hj
  have hji := lt_of_countedOn hj hi
  omega

/-- What is counted on a day is counted in the range. -/
theorem counted_of_countedOn {i : ℕ} (hi : i ≤ n) {f : Fact}
    (h : countedOn admitted zone first i f) :
    counted admitted (zone.midnight first) (zone.midnight (first + n + 1)) f := by
  obtain ⟨hadmitted, left, right, hleft, hright, hle, hstop, hstart, hend⟩ := counted_iff.mp h
  have hfirst : zone.midnight first ≤ zone.midnight (first + i) := zone.monotone (by omega)
  have hlast : zone.midnight (first + i + 1) ≤ zone.midnight (first + n + 1) :=
    zone.monotone (by omega)
  refine counted_iff.mpr ⟨hadmitted, left, right, hleft, hright, hle, by omega, by omega, ?_⟩
  split
  · rename_i hexclusive
    rw [if_pos hexclusive] at hend
    omega
  · rename_i hexclusive
    rw [if_neg hexclusive] at hend
    omega

theorem not_crosses_of_countedOn {i : ℕ} {f : Fact} (h : countedOn admitted zone first i f)
    (k : ℕ) : ¬ crosses f (zone.midnight (first + k)) := by
  obtain ⟨_, left, right, hleft, hright, _, _, hstart, hend⟩ := counted_iff.mp h
  unfold crosses
  rw [hleft, hright]
  rintro ⟨hbefore, hbehind⟩
  rcases Nat.lt_or_ge i k with hik | hki
  · have hmidnight : zone.midnight (first + i + 1) ≤ zone.midnight (first + k) :=
      zone.monotone (by omega)
    split at hbehind
    · rename_i hexclusive
      rw [if_pos hexclusive] at hend
      omega
    · rename_i hexclusive
      rw [if_neg hexclusive] at hend
      omega
  · have hmidnight : zone.midnight (first + k) ≤ zone.midnight (first + i) :=
      zone.monotone (by omega)
    omega

/-- The day in which an instant of the range lies. -/
theorem exists_day {left : ℤ} (hstart : zone.midnight first ≤ left)
    (hstop : left < zone.midnight (first + n + 1)) :
    ∃ i ≤ n, zone.midnight (first + i) ≤ left ∧ left < zone.midnight (first + i + 1) := by
  induction n with
  | zero => exact ⟨0, le_refl 0, by simpa using hstart, by simpa using hstop⟩
  | succ n ih =>
      by_cases hlast : zone.midnight (first + (n + 1 : ℕ)) ≤ left
      · exact ⟨n + 1, le_refl _, hlast, hstop⟩
      · have hbefore : left < zone.midnight (first + n + 1) := by
          have hcast : first + ((n + 1 : ℕ) : ℤ) = first + n + 1 := by omega
          rw [hcast] at hlast
          exact not_le.mp hlast
        obtain ⟨i, hi, hday⟩ := ih hbefore
        exact ⟨i, by omega, hday⟩

/-- What is counted in the range and crosses none of its midnights is counted on a day. -/
theorem countedOn_of_not_crosses {f : Fact}
    (h : counted admitted (zone.midnight first) (zone.midnight (first + n + 1)) f)
    (hcrosses : ∀ k, 1 ≤ k → k ≤ n → ¬ crosses f (zone.midnight (first + k))) :
    ∃ i ≤ n, countedOn admitted zone first i f := by
  obtain ⟨hadmitted, left, right, hleft, hright, hle, hstop, hstart, hend⟩ := counted_iff.mp h
  obtain ⟨i, hi, hfrom, hto⟩ := exists_day hstart hstop
  refine ⟨i, hi, counted_iff.mpr ⟨hadmitted, left, right, hleft, hright, hle, hto, hfrom, ?_⟩⟩
  by_cases hlast : i = n
  · subst hlast
    exact hend
  · have hnot := hcrosses (i + 1) (by omega) (by omega)
    have hcast : first + ((i + 1 : ℕ) : ℤ) = first + i + 1 := by omega
    unfold crosses at hnot
    rw [hcast, hleft, hright] at hnot
    simp only [hto, true_and] at hnot
    split
    · rename_i hexclusive
      rw [if_pos hexclusive] at hnot
      exact not_lt.mp hnot
    · rename_i hexclusive
      rw [if_neg hexclusive] at hnot
      exact not_le.mp hnot

/-! ## Sums -/

theorem sum_range_map (facts : List Fact) (g : ℕ → Fact → ℕ) (m : ℕ) :
    (∑ i ∈ Finset.range m, (facts.map (g i)).sum) =
      (facts.map fun f => ∑ i ∈ Finset.range m, g i f).sum := by
  induction facts with
  | nil => simp
  | cons f facts ih =>
      simp only [List.map_cons, List.sum_cons]
      rw [Finset.sum_add_distrib, ih]

theorem sum_map_le {facts : List Fact} {a b : Fact → ℕ} (h : ∀ f ∈ facts, a f ≤ b f) :
    (facts.map a).sum ≤ (facts.map b).sum := by
  induction facts with
  | nil => exact le_refl _
  | cons f facts ih =>
      have hf := h f List.mem_cons_self
      have hrest := ih fun g hg => h g (List.mem_cons_of_mem f hg)
      rw [List.map_cons, List.map_cons, List.sum_cons, List.sum_cons]
      omega

theorem sum_map_eq_iff {facts : List Fact} {a b : Fact → ℕ} (h : ∀ f ∈ facts, a f ≤ b f) :
    (facts.map a).sum = (facts.map b).sum ↔ ∀ f ∈ facts, a f = b f := by
  induction facts with
  | nil => simp
  | cons f facts ih =>
      have hf := h f List.mem_cons_self
      have htail : ∀ g ∈ facts, a g ≤ b g := fun g hg => h g (List.mem_cons_of_mem f hg)
      have hle := sum_map_le htail
      rw [List.forall_mem_cons, ← ih htail, List.map_cons, List.map_cons, List.sum_cons,
        List.sum_cons]
      omega

/-- Over the days of the range a fact counts once or not at all. -/
theorem sum_countedOn (f : Fact) :
    (∑ i ∈ Finset.range (n + 1), if countedOn admitted zone first i f then f.count else 0) =
      if ∃ i ≤ n, countedOn admitted zone first i f then f.count else 0 := by
  split
  · rename_i hday
    obtain ⟨i, hi, hcounted⟩ := hday
    rw [Finset.sum_eq_single i, if_pos hcounted]
    · intro j _ hne
      exact if_neg fun hj => hne (countedOn_unique hj hcounted)
    · intro hnot
      exact absurd (Finset.mem_range.mpr (by omega)) hnot
  · rename_i hnone
    refine Finset.sum_eq_zero fun i hi => if_neg fun hcounted => hnone ⟨i, ?_, hcounted⟩
    have := Finset.mem_range.mp hi
    omega

/-- The known counts of the single days, added up. -/
def knownOfDays (admitted : Fact → Bool) (facts : List Fact) (zone : Zone) (first : ℤ) (n : ℕ) :
    ℕ :=
  ∑ i ∈ Finset.range (n + 1),
    overviewKnown admitted facts (zone.midnight (first + i)) (zone.midnight (first + i + 1))

/-- The known count of the days from the first one on to the one `n` days later. -/
def knownOfRange (admitted : Fact → Bool) (facts : List Fact) (zone : Zone) (first : ℤ) (n : ℕ) :
    ℕ :=
  overviewKnown admitted facts (zone.midnight first) (zone.midnight (first + n + 1))

theorem knownOfDays_eq (facts : List Fact) : knownOfDays admitted facts zone first n =
    (facts.map fun f =>
      if ∃ i ≤ n, countedOn admitted zone first i f then f.count else 0).sum := by
  unfold knownOfDays
  simp only [overviewKnown_eq]
  rw [sum_range_map]
  refine congrArg List.sum (List.map_congr_left fun f _ => ?_)
  exact sum_countedOn f

/-- No fact is counted on two days of a range of local dates.  The known counts of the days add
up to no more than the known count of the range, and to as much exactly when no fact that counts
in the range crosses one of its inner midnights.  The evidence of a day has the known count of
the overview of the day. -/
theorem date_range_additive (admitted : Fact → Bool) (facts : List Fact) (zone : Zone) (first : ℤ)
    (n : ℕ) :
    (∀ f ∈ facts, ∀ i j, countedOn admitted zone first i f → countedOn admitted zone first j f →
      i = j) ∧
    knownOfDays admitted facts zone first n ≤ knownOfRange admitted facts zone first n ∧
    (knownOfDays admitted facts zone first n = knownOfRange admitted facts zone first n ↔
      ∀ f ∈ facts, counted admitted (zone.midnight first) (zone.midnight (first + n + 1)) f →
        0 < f.count → ∀ k : ℕ, 1 ≤ k → k ≤ n → ¬ crosses f (zone.midnight (first + k))) ∧
    ∀ i : ℕ, dayKnown (facts.filter (shown admitted)) (zone.midnight (first + i))
        (zone.midnight (first + i + 1)) =
      overviewKnown admitted facts (zone.midnight (first + i)) (zone.midnight (first + i + 1)) := by
  have hle : ∀ f ∈ facts, (if ∃ i ≤ n, countedOn admitted zone first i f then f.count else 0) ≤
      if counted admitted (zone.midnight first) (zone.midnight (first + n + 1)) f then f.count
      else 0 := by
    intro f _
    split
    · rename_i hday
      obtain ⟨i, hi, hcounted⟩ := hday
      rw [if_pos (counted_of_countedOn hi hcounted)]
    · exact Nat.zero_le _
  refine ⟨fun f _ i j hi hj => countedOn_unique hi hj, ?_, ?_, fun i => dayKnown_shown facts _ _⟩
  · rw [knownOfDays_eq, knownOfRange, overviewKnown_eq]
    exact sum_map_le hle
  · rw [knownOfDays_eq, knownOfRange, overviewKnown_eq, sum_map_eq_iff hle]
    refine forall₂_congr fun f _ => ?_
    constructor
    · intro heq hcounted hpos k _ hk
      rw [if_pos hcounted] at heq
      by_cases hday : ∃ i ≤ n, countedOn admitted zone first i f
      · obtain ⟨i, _, hi⟩ := hday
        exact not_crosses_of_countedOn hi k
      · rw [if_neg hday] at heq
        omega
    · intro hcrosses
      by_cases hcounted : counted admitted (zone.midnight first)
          (zone.midnight (first + n + 1)) f
      · rw [if_pos hcounted]
        rcases Nat.eq_zero_or_pos f.count with hzero | hpos
        · rw [hzero, ite_self]
        · rw [if_pos (countedOn_of_not_crosses hcounted (hcrosses hcounted hpos))]
      · rw [if_neg hcounted, if_neg]
        rintro ⟨i, hi, hday⟩
        exact hcounted (counted_of_countedOn hi hday)

end LogRisk.ServerRisk
