import LogRisk.Windows.Merge
import Mathlib.Algebra.GroupWithZero.Nat
import Mathlib.Tactic.SplitIfs

/-!
# Cutting events into batches

The facts a window carries are a fold over the events in it, and merging two windows
gives the facts of both lists of events.  So windows aggregated batch by batch and
then merged have the facts of windows aggregated at once, as long as the two keys
tell the same events apart: no two events of one identity may name different units.
-/

namespace LogRisk.Windows

open LogRisk.Library

variable {ν : Type}

/-! ## Facts of a window -/

/-- What a window says of its events. -/
structure Facts (ν : Type) where
  count : ℕ
  severity : Option String
  severityDistribution : Multiset String
  firstSeen : Option ℤ
  lastSeen : Option ℤ
  affectedNamespaces : Finset String
  affectedPods : Finset String
  entityKeys : Finset String
  entityRelations : Finset Relation
  semanticFields : Multiset (String × ν)
  semanticTags : Finset String
  typedParameters : Multiset (String × String)

@[ext] theorem Facts.ext_fields {f g : Facts ν} (hcount : f.count = g.count)
    (hseverity : f.severity = g.severity)
    (hdistribution : f.severityDistribution = g.severityDistribution)
    (hfirst : f.firstSeen = g.firstSeen) (hlast : f.lastSeen = g.lastSeen)
    (hnamespaces : f.affectedNamespaces = g.affectedNamespaces)
    (hpods : f.affectedPods = g.affectedPods) (hkeys : f.entityKeys = g.entityKeys)
    (hrelations : f.entityRelations = g.entityRelations)
    (hfields : f.semanticFields = g.semanticFields) (htags : f.semanticTags = g.semanticTags)
    (hparameters : f.typedParameters = g.typedParameters) : f = g := by
  cases f
  cases g
  simp_all

def Window.facts (w : Window ν) : Facts ν where
  count := w.count
  severity := w.severity
  severityDistribution := w.severityDistribution
  firstSeen := w.firstSeen
  lastSeen := w.lastSeen
  affectedNamespaces := w.affectedNamespaces
  affectedPods := w.affectedPods
  entityKeys := w.entityKeys
  entityRelations := w.entityRelations
  semanticFields := w.semanticFields
  semanticTags := w.semanticTags
  typedParameters := w.typedParameters

namespace Facts

def merge (f g : Facts ν) : Facts ν where
  count := f.count + g.count
  severity := raised severityOrder f.severity g.severity
  severityDistribution := f.severityDistribution + g.severityDistribution
  firstSeen := earliest f.firstSeen g.firstSeen
  lastSeen := latest f.lastSeen g.lastSeen
  affectedNamespaces := f.affectedNamespaces ∪ g.affectedNamespaces
  affectedPods := f.affectedPods ∪ g.affectedPods
  entityKeys := f.entityKeys ∪ g.entityKeys
  entityRelations := f.entityRelations ∪ g.entityRelations
  semanticFields := f.semanticFields + g.semanticFields
  semanticTags := f.semanticTags ∪ g.semanticTags
  typedParameters := f.typedParameters + g.typedParameters

theorem merge_severity (f g : Facts ν) :
    (f.merge g).severity = raised severityOrder f.severity g.severity := rfl

/-- The facts of a single event. -/
def single (settings : Settings) (e : TemplateEvent ν) : Facts ν :=
  (settings.counted (settings.opened e) e).facts

theorem earliest_assoc (a b c : Option ℤ) :
    earliest (earliest a b) c = earliest a (earliest b c) := by
  cases a <;> cases b <;> cases c <;> simp only [earliest]
  congr 1
  split_ifs <;> omega

theorem latest_assoc (a b c : Option ℤ) : latest (latest a b) c = latest a (latest b c) := by
  cases a <;> cases b <;> cases c <;> simp only [latest]
  congr 1
  split_ifs <;> omega

theorem earliest_self (a : Option ℤ) : earliest a a = a := by
  cases a <;> simp [earliest]

theorem latest_self (a : Option ℤ) : latest a a = a := by
  cases a <;> simp [latest]

theorem raised_assoc (order : Option String → ℤ) (a b c : Option String) :
    raised order (raised order a b) c = raised order a (raised order b c) := by
  unfold raised
  split_ifs <;> first | rfl | (exfalso; omega)

theorem merge_assoc (f g h : Facts ν) : (f.merge g).merge h = f.merge (g.merge h) := by
  ext1
  · exact Nat.add_assoc _ _ _
  · rw [merge_severity, merge_severity, merge_severity, merge_severity, raised_assoc]
  · exact add_assoc _ _ _
  · exact earliest_assoc _ _ _
  · exact latest_assoc _ _ _
  · exact Finset.union_assoc _ _ _
  · exact Finset.union_assoc _ _ _
  · exact Finset.union_assoc _ _ _
  · exact Finset.union_assoc _ _ _
  · exact add_assoc _ _ _
  · exact Finset.union_assoc _ _ _
  · exact add_assoc _ _ _

end Facts

theorem facts_merged (current window : Window ν) :
    (current.merged window).facts = current.facts.merge window.facts := by
  have hseverity : (current.merged window).facts.severity =
      raised severityOrder current.severity window.severity := by
    rw [← mergeSeverityOrder_eq]
    rfl
  exact Facts.ext_fields rfl hseverity rfl rfl rfl rfl rfl rfl rfl rfl rfl rfl

/-- Counting an event merges in the facts of the event. -/
theorem facts_counted (settings : Settings) (w : Window ν) (e : TemplateEvent ν) :
    (settings.counted w e).facts = w.facts.merge (Facts.single settings e) := by
  have hsingle : (Facts.single settings e).severity = e.severity := by
    have hsame : raised severityOrder e.severity e.severity = e.severity := ite_self _
    exact hsame
  ext1
  · exact congrArg (w.count + ·) (Nat.zero_add 1).symm
  · rw [Facts.merge_severity, hsingle]
    rfl
  · exact congrArg (w.severityDistribution + ·) (zero_add _).symm
  · exact congrArg (earliest w.firstSeen) (Facts.earliest_self _).symm
  · exact congrArg (latest w.lastSeen) (Facts.latest_self _).symm
  · exact congrArg (w.affectedNamespaces ∪ ·) (Finset.empty_union _).symm
  · exact congrArg (w.affectedPods ∪ ·) (Finset.empty_union _).symm
  · exact congrArg (w.entityKeys ∪ ·) (Finset.empty_union _).symm
  · exact congrArg (w.entityRelations ∪ ·) (Finset.empty_union _).symm
  · exact congrArg (w.semanticFields + ·) (zero_add _).symm
  · exact congrArg (w.semanticTags ∪ ·) (Finset.empty_union _).symm
  · exact congrArg (w.typedParameters + ·) (zero_add _).symm

/-! ## Facts of lists of events -/

/-- Facts that may be missing, when there is nothing to speak of. -/
def mergeFacts : Option (Facts ν) → Option (Facts ν) → Option (Facts ν)
  | none, g => g
  | f, none => f
  | some f, some g => some (f.merge g)

@[simp] theorem mergeFacts_none_left (g : Option (Facts ν)) : mergeFacts none g = g := by
  cases g <;> rfl

@[simp] theorem mergeFacts_none_right (f : Option (Facts ν)) : mergeFacts f none = f := by
  cases f <;> rfl

theorem mergeFacts_assoc (f g h : Option (Facts ν)) :
    mergeFacts (mergeFacts f g) h = mergeFacts f (mergeFacts g h) := by
  cases f <;> cases g <;> cases h <;> simp [mergeFacts, Facts.merge_assoc]

/-- The facts of events that are counted together. -/
def factsOf (settings : Settings) (events : List (TemplateEvent ν)) : Option (Facts ν) :=
  (events.map fun e => some (Facts.single settings e)).foldl mergeFacts none

theorem foldl_mergeFacts (f : Option (Facts ν)) (gs : List (Option (Facts ν))) :
    gs.foldl mergeFacts f = mergeFacts f (gs.foldl mergeFacts none) := by
  induction gs generalizing f with
  | nil => rw [List.foldl_nil, List.foldl_nil, mergeFacts_none_right]
  | cons g gs ih =>
      rw [List.foldl_cons, List.foldl_cons, ih, ih (mergeFacts none g), mergeFacts_none_left,
        mergeFacts_assoc]

theorem factsOf_append (settings : Settings) (xs ys : List (TemplateEvent ν)) :
    factsOf settings (xs ++ ys) = mergeFacts (factsOf settings xs) (factsOf settings ys) := by
  unfold factsOf
  rw [List.map_append, List.foldl_append, foldl_mergeFacts]

/-- What the events of one key are counted into. -/
def Settings.folded (settings : Settings) (events : List (TemplateEvent ν)) : Option (Window ν) :=
  Dict.foldSome (fun w e => settings.counted (w.getD (settings.opened e)) e) none events

theorem facts_foldSome (settings : Settings) (w : Option (Window ν)) (events : List (TemplateEvent ν)) :
    (Dict.foldSome (fun w e => settings.counted (w.getD (settings.opened e)) e) w events).map
        Window.facts = mergeFacts (w.map Window.facts) (factsOf settings events) := by
  induction events generalizing w with
  | nil => rw [Dict.foldSome_nil]; exact (mergeFacts_none_right _).symm
  | cons e events ih =>
      have hcons : factsOf settings (e :: events) =
          mergeFacts (some (Facts.single settings e)) (factsOf settings events) :=
        factsOf_append settings [e] events
      rw [Dict.foldSome_cons, ih, hcons, ← mergeFacts_assoc]
      congr 1
      cases w with
      | none => rfl
      | some w => exact congrArg some (facts_counted settings w e)

theorem facts_folded (settings : Settings) (events : List (TemplateEvent ν)) :
    (settings.folded events).map Window.facts = factsOf settings events := by
  unfold Settings.folded
  rw [facts_foldSome]
  exact mergeFacts_none_left _

/-! ## Windows by identity -/

def AggregatorKey.identity (settings : Settings) (key : AggregatorKey ν) : Identity where
  windowStart := key.start
  windowEnd := key.start.map fun start => start + settings.windowSeconds * microseconds
  cluster := key.cluster
  entityType := key.entityType
  entityId := key.entityId
  component := key.component
  templateHash := key.templateHash
  riskType := key.riskType
  sourceType := key.sourceType
  semanticExtractorVersion := key.semanticExtractorVersion
  semanticDictionaryVersions := key.semanticDictionaryVersions

/-- The identity of the window an event is counted in. -/
def Settings.identityOf (settings : Settings) (e : TemplateEvent ν) : Identity :=
  (settings.keyOf e).identity settings

/-- The key of the aggregator is the identity and the unit. -/
theorem keyOf_eq_iff {settings : Settings} {e e' : TemplateEvent ν} :
    settings.keyOf e = settings.keyOf e' ↔
      settings.identityOf e = settings.identityOf e' ∧ e.unit = e'.unit := by
  constructor
  · intro h
    exact ⟨congrArg (AggregatorKey.identity settings) h, congrArg AggregatorKey.unit h⟩
  · rintro ⟨hidentity, hunit⟩
    simp only [Settings.identityOf, AggregatorKey.identity, Identity.mk.injEq] at hidentity
    obtain ⟨hstart, -, hcluster, htype, hid, hcomponent, hhash, hrisk, hsource, hextractor,
      hversions⟩ := hidentity
    have hparts : settings.keyOf e = { settings.keyOf e' with unit := e.unit } := by
      rw [AggregatorKey.mk.injEq]
      exact ⟨hstart, hcluster, htype, hid, hcomponent, hhash, hsource, hextractor, hversions, hrisk,
        rfl⟩
    rw [hparts, hunit]
    rfl

theorem identity_folded {settings : Settings} {events : List (TemplateEvent ν)} {w : Window ν}
    (h : settings.folded events = some w) {k : Identity}
    (hevents : ∀ e ∈ events, settings.identityOf e = k) : w.identity = k := by
  have hfold : ∀ (o : Option (Window ν)), (∀ v, o = some v → v.identity = k) →
      (∀ e ∈ events, settings.identityOf e = k) →
      ∀ w, Dict.foldSome (fun w e => settings.counted (w.getD (settings.opened e)) e) o events =
        some w → w.identity = k := by
    clear h hevents
    induction events with
    | nil =>
        intro o ho _ w hw
        exact ho w hw
    | cons e events ih =>
        intro o ho hevents w hw
        refine ih _ (fun v hv => ?_) (fun e' he' => hevents e' (List.mem_cons_of_mem _ he')) w hw
        obtain rfl := Option.some.inj hv
        cases o with
        | none => exact hevents e List.mem_cons_self
        | some u => exact ho u rfl
  exact hfold none (fun v hv => by cases hv) hevents w h

variable [DecidableEq ν]

theorem get?_windows (settings : Settings) (events : List (TemplateEvent ν))
    (key : AggregatorKey ν) : (settings.windows events).get? key =
      settings.folded (events.filter fun e => decide (settings.keyOf e = key)) := by
  unfold Settings.windows Settings.folded
  rw [Dict.get?_groupFold, Dict.get?_empty]

theorem identity_windows {settings : Settings} {events : List (TemplateEvent ν)}
    {key : AggregatorKey ν} {w : Window ν} (h : (settings.windows events).get? key = some w) :
    w.identity = key.identity settings := by
  rw [get?_windows] at h
  refine identity_folded h fun e he => ?_
  have hkey := of_decide_eq_true (List.mem_filter.mp he).2
  exact congrArg (AggregatorKey.identity settings) hkey

theorem exists_event {settings : Settings} {events : List (TemplateEvent ν)}
    {key : AggregatorKey ν} {w : Window ν} (h : (settings.windows events).get? key = some w) :
    ∃ e ∈ events, settings.keyOf e = key := by
  have hkey := Dict.mem_keys_of_get? h
  unfold Settings.windows at hkey
  rw [Dict.mem_keys_groupFold] at hkey
  exact hkey.resolve_left (by simp)

theorem mem_aggregate {settings : Settings} {events : List (TemplateEvent ν)} {w : Window ν} :
    w ∈ settings.aggregate events ↔ ∃ key, (settings.windows events).get? key = some w := by
  unfold Settings.aggregate
  rw [Paging.mem_ordered, Dict.mem_values]

/-- No two of the events have one identity and name different units. -/
def UnitsAgree (settings : Settings) (events : List (TemplateEvent ν)) : Prop :=
  ∀ e ∈ events, ∀ e' ∈ events, settings.identityOf e = settings.identityOf e' → e.unit = e'.unit

/-- Where units agree there is one window of an identity, with the facts of all its
events. -/
theorem aggregate_identity {settings : Settings} {events : List (TemplateEvent ν)}
    (hunits : UnitsAgree settings events) (k : Identity) :
    ∃ w : Option (Window ν), (settings.aggregate events).filter (fun w => decide (w.identity = k)) =
        w.toList ∧
      w.map Window.facts =
        factsOf settings (events.filter fun e => decide (settings.identityOf e = k)) := by
  have hordered : ∀ o : Option (Window ν),
      (settings.windows events).values.filter (fun w => decide (w.identity = k)) = o.toList →
      (settings.aggregate events).filter (fun w => decide (w.identity = k)) = o.toList := by
    intro o ho
    have hperm : ((settings.aggregate events).filter fun w => decide (w.identity = k)).Perm
        o.toList := ho ▸ (Paging.ordered_perm _ _).filter _
    cases o with
    | none => exact hperm.eq_nil
    | some w => exact List.perm_singleton.mp hperm
  by_cases hany : ∃ e ∈ events, settings.identityOf e = k
  · obtain ⟨e, he, hidentity⟩ := hany
    have hsame : ∀ e' ∈ events, (settings.identityOf e' = k ↔ settings.keyOf e' = settings.keyOf e) := by
      intro e' he'
      constructor
      · intro h'
        exact keyOf_eq_iff.mpr ⟨h'.trans hidentity.symm, hunits e' he' e he (h'.trans hidentity.symm)⟩
      · intro h'
        exact (keyOf_eq_iff.mp h').1.trans hidentity
    refine ⟨(settings.windows events).get? (settings.keyOf e), hordered _ ?_, ?_⟩
    · refine Dict.filter_values_key fun key w hw => ?_
      rw [decide_eq_true_iff, identity_windows hw]
      obtain ⟨e', he', rfl⟩ := exists_event hw
      exact hsame e' he'
    · rw [get?_windows, facts_folded]
      congr 1
      refine List.filter_congr fun e' he' => ?_
      rw [decide_eq_decide]
      exact (hsame e' he').symm
  · refine ⟨none, hordered none ?_, ?_⟩
    · refine List.filter_eq_nil_iff.mpr fun w hw hidentity => hany ?_
      obtain ⟨key, hkey⟩ := Dict.mem_values.mp hw
      obtain ⟨e, he, rfl⟩ := exists_event hkey
      exact ⟨e, he, (identity_windows hkey).symm.trans (of_decide_eq_true hidentity)⟩
    · have hnil : events.filter (fun e => decide (settings.identityOf e = k)) = [] :=
        List.filter_eq_nil_iff.mpr fun e he hidentity => hany ⟨e, he, of_decide_eq_true hidentity⟩
      rw [hnil]
      rfl

/-! ## Merged windows -/

omit [DecidableEq ν] in
theorem get?_mergedWindows (windows : List (Window ν)) (k : Identity) :
    (mergedWindows windows).get? k =
      Dict.foldSome mergeStep none (windows.filter fun w => decide (w.identity = k)) := by
  unfold mergedWindows
  rw [Dict.get?_groupFold, Dict.get?_empty]

omit [DecidableEq ν] in
theorem foldSome_mergeStep_cons (w : Window ν) (windows : List (Window ν)) :
    Dict.foldSome mergeStep none (w :: windows) = some (windows.foldl Window.merged w) := by
  rw [Dict.foldSome_cons]
  show Dict.foldSome mergeStep (some w) windows = _
  induction windows generalizing w with
  | nil => rfl
  | cons v windows ih => exact ih (w.merged v)

omit [DecidableEq ν] in
theorem identity_mergedWindows {windows : List (Window ν)} {k : Identity} {w : Window ν}
    (h : (mergedWindows windows).get? k = some w) : w.identity = k := by
  rw [get?_mergedWindows] at h
  cases hfilter : windows.filter fun w => decide (w.identity = k) with
  | nil => rw [hfilter] at h; cases h
  | cons v rest =>
      rw [hfilter, foldSome_mergeStep_cons] at h
      obtain rfl := Option.some.inj h
      have hv : v ∈ windows.filter fun w => decide (w.identity = k) := hfilter ▸ List.mem_cons_self
      have hkeeps : ∀ u : Window ν, (rest.foldl Window.merged u).identity = u.identity := by
        clear h hfilter hv
        induction rest with
        | nil => exact fun u => rfl
        | cons x rest ih => exact fun u => ih (u.merged x)
      rw [hkeeps]
      exact of_decide_eq_true (List.mem_filter.mp hv).2

omit [DecidableEq ν] in
theorem mem_mergeTemplateWindows {windows : List (Window ν)} {w : Window ν} :
    w ∈ mergeTemplateWindows windows ↔ (mergedWindows windows).get? w.identity = some w := by
  unfold mergeTemplateWindows
  rw [Dict.mem_values]
  constructor
  · rintro ⟨k, hk⟩
    rwa [identity_mergedWindows hk]
  · exact fun h => ⟨_, h⟩

omit [DecidableEq ν] in
theorem facts_mergedWindows (windows : List (Window ν)) (k : Identity) :
    ((mergedWindows windows).get? k).map Window.facts =
      ((windows.filter fun w => decide (w.identity = k)).map fun w => some w.facts).foldl
        mergeFacts none := by
  rw [get?_mergedWindows]
  have hfold : ∀ (o : Option (Window ν)) (ws : List (Window ν)),
      (Dict.foldSome mergeStep o ws).map Window.facts =
        (ws.map fun w => some w.facts).foldl mergeFacts (o.map Window.facts) := by
    intro o ws
    induction ws generalizing o with
    | nil => rfl
    | cons w ws ih =>
        rw [Dict.foldSome_cons, ih, List.map_cons, List.foldl_cons]
        congr 1
        cases o with
        | none => rfl
        | some u => exact congrArg some (facts_merged u w)
  exact hfold none _

/-! ## Counts -/

/-- How often an identity occurs in the windows. -/
def occurrences (k : Identity) (windows : List (Window ν)) : ℕ :=
  (windows.map fun w => if w.identity = k then w.count else 0).sum

omit [DecidableEq ν] in
theorem count_mergedWindows {windows : List (Window ν)} {k : Identity} {w : Window ν}
    (h : (mergedWindows windows).get? k = some w) : w.count = occurrences k windows := by
  rw [get?_mergedWindows] at h
  have hfold : ∀ (ws : List (Window ν)) (u : Window ν),
      (ws.foldl Window.merged u).count = u.count + (ws.map Window.count).sum := by
    intro ws
    induction ws with
    | nil => exact fun u => rfl
    | cons v ws ih =>
        intro u
        rw [List.foldl_cons, ih, List.map_cons, List.sum_cons, ← Nat.add_assoc]
        rfl
  have hsum : occurrences k windows =
      ((windows.filter fun w => decide (w.identity = k)).map Window.count).sum := by
    clear h
    unfold occurrences
    induction windows with
    | nil => rfl
    | cons v windows ih =>
        rw [List.map_cons, List.sum_cons, ih]
        by_cases hv : v.identity = k
        · rw [if_pos hv, List.filter_cons_of_pos (by simpa using hv), List.map_cons, List.sum_cons]
        · rw [if_neg hv, List.filter_cons_of_neg (by simpa using hv), Nat.zero_add]
  rw [hsum]
  cases hfilter : windows.filter fun w => decide (w.identity = k) with
  | nil => rw [hfilter] at h; cases h
  | cons v rest =>
      rw [hfilter, foldSome_mergeStep_cons] at h
      obtain rfl := Option.some.inj h
      rw [hfold, List.map_cons, List.sum_cons]

/-- The windows of a batch count its events. -/
theorem occurrences_aggregate (settings : Settings) (events : List (TemplateEvent ν))
    (k : Identity) : occurrences k (settings.aggregate events) =
      (events.filter fun e => decide (settings.identityOf e = k)).length := by
  have htotal : occurrences k (settings.aggregate events) =
      (settings.windows events).total fun w => if w.identity = k then w.count else 0 :=
    ((Paging.ordered_perm _ _).map _).sum_eq
  rw [htotal]
  clear htotal
  induction events using List.reverseRecOn with
  | nil => rfl
  | append_singleton events e ih =>
      rw [List.filter_append, List.length_append, ← ih]
      have hwindows : settings.windows (events ++ [e]) =
          (settings.windows events).set (settings.keyOf e) (settings.counted
            (((settings.windows events).get? (settings.keyOf e)).getD (settings.opened e)) e) := by
        unfold Settings.windows
        rw [Dict.groupFold_append, Dict.groupFold_cons, Dict.groupFold_nil, Dict.alter_eq_set]
      rw [hwindows]
      have hcontribution : ∀ u : Window ν, u.identity = settings.identityOf e →
          (if (settings.counted u e).identity = k then (settings.counted u e).count else 0) =
            (if u.identity = k then u.count else 0) +
              ([e].filter fun e => decide (settings.identityOf e = k)).length := by
        intro u hu
        have hsame : (settings.counted u e).identity = u.identity := rfl
        have hcount : (settings.counted u e).count = u.count + 1 := rfl
        rw [hsame, hcount, hu]
        by_cases hk : settings.identityOf e = k
        · rw [if_pos hk, if_pos hk, List.filter_cons_of_pos (by simpa using hk)]
          rfl
        · rw [if_neg hk, if_neg hk, List.filter_cons_of_neg (by simpa using hk)]
          rfl
      cases hold : (settings.windows events).get? (settings.keyOf e) with
      | none =>
          have hopened := hcontribution (settings.opened e) rfl
          have hzero : (settings.opened e).count = 0 := rfl
          rw [hzero, ite_self, Nat.zero_add] at hopened
          rw [Option.getD_none, Dict.total_set_of_notMem (Dict.get?_eq_none.mp hold), hopened]
      | some u =>
          have hu := hcontribution u (identity_windows hold)
          have hset := Dict.total_set_of_get? hold (settings.counted u e) fun w =>
            if w.identity = k then w.count else 0
          rw [Option.getD_some]
          omega

end LogRisk.Windows
