import LogRisk.Windows.Batches

/-!
# Windows of a whole run and of its batches

Merged batch windows are the windows of the whole run exactly when no two events of
one identity name different units.  Counts tell the two apart otherwise: the merge
counts every event of an identity in one window, the aggregator does not.
-/

namespace LogRisk.Windows

open LogRisk.Library

variable {ν : Type}

/-- Two lists of windows with the same identities, and the same facts under each. -/
def SameWindows (xs ys : List (Window ν)) : Prop :=
  (∀ k, (∃ w ∈ xs, w.identity = k) ↔ ∃ w ∈ ys, w.identity = k) ∧
    ∀ w ∈ xs, ∀ v ∈ ys, w.identity = v.identity → w.facts = v.facts

variable [DecidableEq ν]

/-- The windows a run of batches hands over. -/
def Settings.batchWindows (settings : Settings) (batches : List (List (TemplateEvent ν))) :
    List (Window ν) :=
  batches.flatMap settings.aggregate

/-! ## Where units agree -/

omit [DecidableEq ν] in
theorem UnitsAgree.of_subset {settings : Settings} {events events' : List (TemplateEvent ν)}
    (h : UnitsAgree settings events) (hsubset : events' ⊆ events) :
    UnitsAgree settings events' :=
  fun e he e' he' => h e (hsubset he) e' (hsubset he')

theorem facts_batchWindows {settings : Settings} {batches : List (List (TemplateEvent ν))}
    (hunits : UnitsAgree settings batches.flatten) (k : Identity) :
    ((mergedWindows (settings.batchWindows batches)).get? k).map Window.facts =
      factsOf settings (batches.flatten.filter fun e => decide (settings.identityOf e = k)) := by
  have hbatches : ∀ bs : List (List (TemplateEvent ν)), (∀ b ∈ bs, UnitsAgree settings b) →
      (((bs.flatMap settings.aggregate).filter fun w => decide (w.identity = k)).map
          fun w => some w.facts).foldl mergeFacts none =
        factsOf settings (bs.flatten.filter fun e => decide (settings.identityOf e = k)) := by
    intro bs hbs
    induction bs with
    | nil => rfl
    | cons b bs ih =>
        obtain ⟨w, hw, hfacts⟩ := aggregate_identity (hbs b List.mem_cons_self) k
        have ih := ih fun b' hb' => hbs b' (List.mem_cons_of_mem _ hb')
        rw [List.flatMap_cons, List.filter_append, List.map_append, List.foldl_append,
          foldl_mergeFacts, ih, hw, List.flatten_cons, List.filter_append, factsOf_append, ← hfacts]
        congr 1
        cases w with
        | none => rfl
        | some w => exact mergeFacts_none_left _
  rw [facts_mergedWindows]
  refine hbatches batches fun b hb => hunits.of_subset fun e he => ?_
  exact List.mem_flatten.mpr ⟨b, hb, he⟩

theorem sameWindows_of_unitsAgree {settings : Settings} {batches : List (List (TemplateEvent ν))}
    (hunits : UnitsAgree settings batches.flatten) :
    SameWindows (mergeTemplateWindows (settings.batchWindows batches))
      (settings.aggregate batches.flatten) := by
  have hwhole : ∀ k, ∃ w : Option (Window ν),
      (∀ v, v ∈ settings.aggregate batches.flatten ∧ v.identity = k ↔ w = some v) ∧
        w.map Window.facts =
          ((mergedWindows (settings.batchWindows batches)).get? k).map Window.facts := by
    intro k
    obtain ⟨w, hw, hfacts⟩ := aggregate_identity hunits k
    refine ⟨w, fun v => ?_, hfacts.trans (facts_batchWindows hunits k).symm⟩
    have hmem : v ∈ settings.aggregate batches.flatten ∧ v.identity = k ↔ v ∈ w.toList := by
      rw [← hw, List.mem_filter, decide_eq_true_iff]
    rw [hmem, Option.mem_toList]
  constructor
  · intro k
    obtain ⟨w, hw, hfacts⟩ := hwhole k
    constructor
    · rintro ⟨u, hu, rfl⟩
      rw [mem_mergeTemplateWindows.mp hu] at hfacts
      obtain ⟨v, rfl, -⟩ := Option.map_eq_some_iff.mp hfacts
      exact ⟨v, (hw v).mpr rfl⟩
    · rintro ⟨v, hv⟩
      rw [(hw v).mp hv] at hfacts
      obtain ⟨u, hu, -⟩ := Option.map_eq_some_iff.mp hfacts.symm
      have hidentity := identity_mergedWindows hu
      refine ⟨u, mem_mergeTemplateWindows.mpr ?_, hidentity⟩
      rwa [hidentity]
  · intro u hu v hv hidentity
    obtain ⟨w, hw, hfacts⟩ := hwhole v.identity
    rw [(hw v).mp ⟨hv, rfl⟩, ← hidentity, mem_mergeTemplateWindows.mp hu] at hfacts
    exact (Option.some.inj hfacts).symm

/-! ## Where they do not -/

omit [DecidableEq ν] in
theorem count_folded {settings : Settings} {events : List (TemplateEvent ν)} {w : Window ν}
    (h : settings.folded events = some w) : w.count = events.length := by
  have hfold : ∀ (u : Window ν) (events : List (TemplateEvent ν)) (w : Window ν),
      Dict.foldSome (fun w e => settings.counted (w.getD (settings.opened e)) e) (some u) events =
        some w → w.count = u.count + events.length := by
    intro u events
    induction events generalizing u with
    | nil =>
        intro w hw
        cases hw
        rfl
    | cons e events ih =>
        intro w hw
        have hcount : (settings.counted u e).count = u.count + 1 := rfl
        have hrest := ih (settings.counted u e) w hw
        rw [List.length_cons]
        omega
  cases events with
  | nil => cases h
  | cons e events =>
      have hcount : (settings.counted (settings.opened e) e).count = 1 := rfl
      have hrest := hfold (settings.counted (settings.opened e) e) events w h
      rw [List.length_cons]
      omega

theorem count_windows {settings : Settings} {events : List (TemplateEvent ν)}
    {key : AggregatorKey ν} {w : Window ν} (h : (settings.windows events).get? key = some w) :
    w.count = (events.filter fun e => decide (settings.keyOf e = key)).length :=
  count_folded ((get?_windows settings events key).symm.trans h)

/-- The merge counts all events of an identity. -/
theorem count_batchWindows {settings : Settings} {batches : List (List (TemplateEvent ν))}
    {k : Identity} {w : Window ν}
    (h : (mergedWindows (settings.batchWindows batches)).get? k = some w) :
    w.count = (batches.flatten.filter fun e => decide (settings.identityOf e = k)).length := by
  rw [count_mergedWindows h]
  unfold Settings.batchWindows
  clear h
  induction batches with
  | nil => rfl
  | cons b batches ih =>
      have happend : occurrences k (settings.aggregate b ++ batches.flatMap settings.aggregate) =
          occurrences k (settings.aggregate b) +
            occurrences k (batches.flatMap settings.aggregate) := by
        unfold occurrences
        rw [List.map_append, List.sum_append]
      rw [List.flatMap_cons, happend, occurrences_aggregate, ih, List.flatten_cons,
        List.filter_append, List.length_append]

/-- An event is counted in a window of the key it has. -/
theorem exists_window (settings : Settings) {events : List (TemplateEvent ν)}
    {e : TemplateEvent ν} (he : e ∈ events) :
    ∃ w, (settings.windows events).get? (settings.keyOf e) = some w := by
  apply Dict.mem_keys.mp
  unfold Settings.windows
  rw [Dict.mem_keys_groupFold]
  exact Or.inr ⟨e, he, rfl⟩

theorem unitsAgree_of_sameWindows {settings : Settings} {batches : List (List (TemplateEvent ν))}
    (hsame : SameWindows (mergeTemplateWindows (settings.batchWindows batches))
      (settings.aggregate batches.flatten)) : UnitsAgree settings batches.flatten := by
  intro e he e' he' hidentity
  obtain ⟨w, hw⟩ := exists_window settings he
  have hmem : w ∈ settings.aggregate batches.flatten := mem_aggregate.mpr ⟨_, hw⟩
  have hk : w.identity = settings.identityOf e := identity_windows hw
  obtain ⟨u, hu, huk⟩ := (hsame.1 (settings.identityOf e)).mpr ⟨w, hmem, hk⟩
  have hfacts := hsame.2 u hu w hmem (huk.trans hk.symm)
  have hcount : u.count = w.count := congrArg Facts.count hfacts
  rw [mem_mergeTemplateWindows, huk] at hu
  rw [count_batchWindows hu, count_windows hw] at hcount
  -- Events of one key are among those of the identity; as many of them are all of them.
  have hsub : (batches.flatten.filter fun x => decide (settings.keyOf x = settings.keyOf e)).Sublist
      (batches.flatten.filter fun x => decide (settings.identityOf x = settings.identityOf e)) :=
    List.monotone_filter_right _ fun x hx =>
      decide_eq_true (keyOf_eq_iff.mp (of_decide_eq_true hx)).1
  have hall := hsub.eq_of_length hcount.symm
  have hin : e' ∈ batches.flatten.filter fun x =>
      decide (settings.identityOf x = settings.identityOf e) :=
    List.mem_filter.mpr ⟨he', decide_eq_true hidentity.symm⟩
  rw [← hall] at hin
  exact (keyOf_eq_iff.mp (of_decide_eq_true (List.mem_filter.mp hin).2)).2.symm

/-- Windows do not depend on where the batches are cut exactly when units agree. -/
theorem sameWindows_iff_unitsAgree (settings : Settings)
    (batches : List (List (TemplateEvent ν))) :
    SameWindows (mergeTemplateWindows (settings.batchWindows batches))
      (settings.aggregate batches.flatten) ↔ UnitsAgree settings batches.flatten :=
  ⟨unitsAgree_of_sameWindows, sameWindows_of_unitsAgree⟩

/-! ## Two services that fail in one window -/

def minutes : Settings where
  parseTime _ := none
  windowSeconds := 300
  maxSamples := 3
  window_pos := by decide

/-- `<SYSTEMD_UNIT> failed`. -/
def unitFailed (unit : String) : TemplateEvent String :=
  { cluster := some "c", node := some "n", component := some "systemd",
    templateHash := some "h", severity := some "ERROR"
    semanticFields := (∅ : Dict String String).set "unit" unit }

/-- The aggregator counts the two services apart, the merge does not. -/
theorem merge_joins_units :
    ¬ SameWindows
      (mergeTemplateWindows (minutes.batchWindows [[unitFailed "a.service"], [unitFailed "b.service"]]))
      (minutes.aggregate [[unitFailed "a.service"], [unitFailed "b.service"]].flatten) := by
  intro hsame
  have hagree := unitsAgree_of_sameWindows hsame (unitFailed "a.service") List.mem_cons_self
    (unitFailed "b.service") (List.mem_cons_of_mem _ List.mem_cons_self) rfl
  exact absurd hagree (by decide)

end LogRisk.Windows
