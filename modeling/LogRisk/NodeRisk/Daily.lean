import LogRisk.NodeRisk.Dirty

/-!
# Daily rows

A recalculation rewrites the row of a day from those events of the day that it
has read.  The row is complete when it has read all of them, and stays so as long
as no event enters or leaves the day unnoticed.
-/

namespace LogRisk.NodeRisk

open LogRisk.Library LogRisk.Library.Transaction

/-! ## The events of a day -/

/-- The events of a node that count, as they are read. -/
def nodeEvents (t : Tables) (node : String × String) : List EventView :=
  counted ((t.eventsOf node).map RiskEvent.view)

def onDay (day : ℤ) (events : List EventView) : List EventView :=
  events.filter fun e => e.event.lastSeen.date = day

/-- The row counts these events, and its peak is none below theirs. -/
def DailyRow.Shows (row : DailyRow) (events : List EventView) : Prop :=
  row.aggregate = dayAggregate events ∧ eventPeak events ≤ row.maxEventScore

/-- Every day with events has a row, and every row counts the events of its day. -/
def DailyComplete (t : Tables) (node : String × String) : Prop :=
  ∀ day, (onDay day (nodeEvents t node) ≠ [] → (t.daily.get? (node, day)).isSome) ∧
    ∀ row, t.daily.get? (node, day) = some row → row.Shows (onDay day (nodeEvents t node))

theorem counted_readEvents (t : Tables) (node : String × String) (now : IsoTime) :
    counted (readEvents t node now) = (nodeEvents t node).filter fun e => visible now e.event := by
  rw [counted, readEvents, nodeEvents, counted, List.filter_filter, List.filter_map, List.filter_map,
    List.filter_filter]
  refine congrArg _ (List.filter_congr fun e _ => ?_)
  simp only [Function.comp_apply, RiskEvent.view, Bool.and_comm]

/-! ## What a recalculation writes -/

theorem getD_groupedByDay (events : List EventView) (now : IsoTime) (day : ℤ) :
    ((groupedByDay events now).get? day).getD [] = onDay day (counted events) := by
  rw [groupedByDay, Dict.get?_alter]
  split
  · rename_i heq
    rw [← heq]
    exact Dict.getD_groupBy _ _ _
  · exact Dict.getD_groupBy _ _ _

theorem isSome_groupedByDay (events : List EventView) (now : IsoTime) (day : ℤ) :
    ((groupedByDay events now).get? day).isSome ↔
      now.date = day ∨ ∃ e ∈ counted events, e.event.lastSeen.date = day := by
  rw [groupedByDay, Dict.isSome_get?, Dict.mem_keys_alter, Dict.mem_keys_groupBy, or_comm, eq_comm]

theorem refreshDaily_get? (t : Tables) (p : Projection) (node : String × String) (day : ℤ) :
    (refreshDaily t p).daily.get? (node, day) =
      if p.node = node ∧ ((groupedByDay p.events p.now).get? day).isSome then
        some (writeDay t p (t.daily.get? (node, day)) (day, onDay day (counted p.events)))
      else t.daily.get? (node, day) := by
  rw [refreshDaily]
  simp only [Dict.get?_groupFold]
  by_cases hnode : p.node = node
  · have hfilter : (groupedByDay p.events p.now).entries.filter
        (fun entry => decide ((p.node, entry.1) = (node, day))) =
          (groupedByDay p.events p.now).entries.filter fun entry => decide (entry.1 = day) :=
      List.filter_congr fun entry _ => by simp [hnode]
    rw [hfilter, Dict.filter_entries_key, ← getD_groupedByDay p.events p.now]
    cases hday : (groupedByDay p.events p.now).get? day with
    | none => rw [if_neg (by simp)]; rfl
    | some items => rw [if_pos ⟨hnode, rfl⟩]; rfl
  · rw [if_neg fun h => hnode h.1, List.filter_eq_nil_iff.mpr]
    · rfl
    · intro entry _
      simp [hnode]

theorem writtenRow_shows (old : Option DailyRow) (items : List EventView) (peak : ℚ) (now : IsoTime) :
    (writtenRow old items peak now).Shows items := by
  refine ⟨rfl, ?_⟩
  cases old with
  | none => exact le_refl _
  | some row => exact le_max_right _ _

/-- A projection of a revision is recorded as that; other nodes are left alone. -/
theorem project_revisions {t t' : Tables} {p : Projection} (hok : project t p = .ok ((), t')) :
    (∀ node, node ≠ p.node → t'.revisions.get? node = t.revisions.get? node) ∧
      (p.revision = none → t'.revisions = t.revisions) ∧
      ∀ revision ∈ p.revision, revisionOf t p.node = revision ∧ revisionOf t' p.node = revision ∧
        projectedOf t' p.node = revision := by
  obtain ⟨revisions, hrevisions, hok⟩ := bind_eq_ok.mp hok
  obtain ⟨-, rfl⟩ := Prod.mk.inj (Except.ok.inj hok)
  cases hrevision : p.revision with
  | none =>
      rw [projectRevision, hrevision] at hrevisions
      obtain rfl := Except.ok.inj hrevisions
      exact ⟨fun _ _ => rfl, fun _ => rfl, (by intro r hr; cases hr)⟩
  | some revision =>
      rw [projectRevision, hrevision] at hrevisions
      obtain ⟨row, hrow, hrevisions⟩ := orFail_bind_eq_ok.mp hrevisions
      obtain rfl := Except.ok.inj hrevisions
      obtain ⟨hget, hmatch⟩ := Option.filter_eq_some_iff.mp hrow
      have hmatch : row.revision = revision := by simpa using hmatch
      refine ⟨fun node hne => Dict.get?_set_of_ne (Ne.symm hne), (by intro h; cases h), ?_⟩
      intro r hr
      obtain rfl := Option.some.inj hr
      refine ⟨?_, ?_, ?_⟩
      · rw [revisionOf, hget]
        exact hmatch
      · simp [revisionOf, hmatch]
      · simp [projectedOf]

/-! ## Tracking what was recorded -/

/-- The tables, and the events of every node as its last recalculation found them. -/
structure Tracked where
  tables : Tables
  recorded : String × String → List EventView

def Tracked.initial : Tracked := ⟨.empty, fun _ => []⟩

def trackedStep (env : NodeRiskEnv) (model : ScoreModel) (s : Tracked) (call : Call) : Tracked where
  tables := step env model s.tables call
  recorded :=
    match call with
    | .recalculate node now =>
        match recalculate model s.tables node now with
        | .ok _ => Function.update s.recorded node (nodeEvents s.tables node)
        | .error _ => s.recorded
    | .ingest _ | .transition _ => s.recorded

theorem exec_tracked (env : NodeRiskEnv) (model : ScoreModel) (s : Tracked) (calls : List Call) :
    (exec (trackedStep env model) s calls).tables = exec (step env model) s.tables calls := by
  induction calls generalizing s with
  | nil => rfl
  | cons call calls ih => rw [exec_cons, exec_cons, ih]; rfl

/-- The days a recalculation at `now` rewrites: today, and every day it reads an
event of. -/
def Visited (t : Tables) (node : String × String) (now : IsoTime) (day : ℤ) : Prop :=
  now.date = day ∨ ∃ e ∈ nodeEvents t node, visible now e.event = true ∧ e.event.lastSeen.date = day

/-- The look-back window cuts through no day, and every day whose events are not
those of the last recalculation is visited. -/
structure VisitsWholeDays (s : Tracked) (node : String × String) (now : IsoTime) : Prop where
  whole : ∀ e ∈ nodeEvents s.tables node, Visited s.tables node now e.event.lastSeen.date →
    visible now e.event = true
  changed : ∀ day, onDay day (nodeEvents s.tables node) ≠ onDay day (s.recorded node) →
    Visited s.tables node now day

/-- What has to hold of a step before it is taken. -/
def KeepsDays (env : NodeRiskEnv) (s : Tracked) : Call → Prop
  | .ingest c => ∀ d, draft env c = .ok d → MergesOwn s.tables d
  | .transition _ => True
  | .recalculate node now => VisitsWholeDays s node now

/-- Rows show what was recorded, and where that is no longer so the node is dirty. -/
structure Recorded (s : Tracked) : Prop where
  accounted : Accounted s.tables
  ordered : Ordered s.tables
  present : ∀ node day, onDay day (s.recorded node) ≠ [] →
    (s.tables.daily.get? (node, day)).isSome
  shows : ∀ node day row, s.tables.daily.get? (node, day) = some row →
    row.Shows (onDay day (s.recorded node))
  dirty : ∀ node, nodeEvents s.tables node = s.recorded node ∨ Dirty s.tables node

theorem recorded_initial : Recorded .initial where
  accounted := accounted_empty
  ordered := fun node => le_refl 0
  present := fun node day h => absurd rfl h
  shows := by intro node day row h; cases h
  dirty := fun node => .inl rfl

theorem Recorded.written {s : Tracked} (h : Recorded s) {t' : Tables}
    (haccounted : Accounted t') (hdaily : t'.daily = s.tables.daily) (hmarks : Marks s.tables t') :
    Recorded ⟨t', s.recorded⟩ := by
  refine ⟨haccounted, hmarks.ordered h.ordered, ?_, ?_, ?_⟩
  · intro node day hne
    rw [hdaily]
    exact h.present node day hne
  · intro node day row hrow
    rw [hdaily] at hrow
    exact h.shows node day row hrow
  · intro node
    rcases hmarks.changes h.ordered node with hsame | hdirty
    · rcases h.dirty node with hrecorded | hdirty
      · left
        rw [← hrecorded]
        change counted ((t'.eventsOf node).map RiskEvent.view) = _
        rw [hsame]
        rfl
      · exact .inr (hmarks.dirty hdirty)
    · exact .inr hdirty

/-- Where a recalculation visits whole days, its rows show all events of the node. -/
theorem recalculate_recorded {model : ScoreModel} {s : Tracked} {node : String × String}
    {now : IsoTime} {t' : Tables} (h : Recorded s) (haccounted : Accounted t') (hdays : VisitsWholeDays s node now)
    (hok : recalculate model s.tables node now = .ok ((), t')) :
    Recorded ⟨t', Function.update s.recorded node (nodeEvents s.tables node)⟩ := by
  obtain ⟨p, t₁, hread, hproject, rfl⟩ := recalculate_eq_ok hok
  obtain ⟨rfl, rfl, hrevision, hread, -⟩ := readProjection_eq_ok hread
  obtain ⟨hevents, -, hdaily⟩ := project_frame hproject
  obtain ⟨hother, hunrevised, hrevised⟩ := project_revisions hproject
  have hnodeEvents : ∀ other, nodeEvents (refreshDaily t₁ p) other = nodeEvents s.tables other :=
    fun other => by
      change counted ((t₁.eventsOf other).map RiskEvent.view) = _
      rw [Tables.eventsOf, hevents]
      rfl
  have hvisited : ∀ day, ((groupedByDay p.events p.now).get? day).isSome ↔
      Visited s.tables p.node p.now day := by
    intro day
    rw [isSome_groupedByDay, hread, counted_readEvents, Visited]
    simp only [List.mem_filter, and_assoc]
  have hday : ∀ day, Visited s.tables p.node p.now day →
      onDay day (counted p.events) = onDay day (nodeEvents s.tables p.node) := by
    intro day hday
    rw [hread, counted_readEvents, onDay, onDay, List.filter_filter]
    refine List.filter_congr fun e he => ?_
    by_cases heq : e.event.lastSeen.date = day
    · simp [hdays.whole e he (heq ▸ hday)]
    · simp [heq]
  have hget : ∀ other day row,
      (refreshDaily t₁ p).daily.get? (other, day) = some row →
      row.Shows (onDay day (Function.update s.recorded p.node (nodeEvents s.tables p.node) other)) := by
    intro other day row hrow
    rw [refreshDaily_get?] at hrow
    split at hrow
    · rename_i hcond
      obtain ⟨rfl, hsome⟩ := hcond
      obtain rfl := Option.some.inj hrow
      rw [Function.update_self, ← hday day ((hvisited day).mp hsome)]
      exact writtenRow_shows _ _ _ _
    · rename_i hcond
      rw [hdaily] at hrow
      have hshows := h.shows other day row hrow
      by_cases heq : other = p.node
      · subst heq
        rw [Function.update_self]
        have hsame : onDay day (nodeEvents s.tables p.node) = onDay day (s.recorded p.node) := by
          by_contra hne
          exact hcond ⟨rfl, (hvisited day).mpr (hdays.changed day hne)⟩
        rw [hsame]
        exact hshows
      · rw [Function.update_of_ne heq]
        exact hshows
  have hself : Function.update s.recorded p.node (nodeEvents s.tables p.node) p.node =
      nodeEvents s.tables p.node := Function.update_self ..
  have helse : ∀ other, other ≠ p.node →
      Function.update s.recorded p.node (nodeEvents s.tables p.node) other = s.recorded other :=
    fun other hne => Function.update_of_ne hne ..
  generalize Function.update s.recorded p.node (nodeEvents s.tables p.node) = recorded at *
  refine ⟨haccounted, ?_, ?_, hget, ?_⟩
  · intro other
    change projectedOf t₁ other ≤ revisionOf t₁ other
    by_cases heq : other = p.node
    · subst heq
      cases hrevision : p.revision with
      | none =>
          rw [projectedOf, revisionOf, hunrevised hrevision]
          exact h.ordered p.node
      | some revision =>
          obtain ⟨-, hnow, hprojected⟩ := hrevised revision hrevision
          rw [hnow, hprojected]
    · rw [projectedOf, revisionOf, hother other heq]
      exact h.ordered other
  · intro other day hne
    change onDay day (recorded other) ≠ [] at hne
    rw [refreshDaily_get?]
    split
    · rfl
    · rename_i hcond
      rw [hdaily]
      by_cases heq : other = p.node
      · subst heq
        rw [hself] at hne
        refine h.present _ day ?_
        have hsame : onDay day (nodeEvents s.tables p.node) = onDay day (s.recorded p.node) := by
          by_contra hchanged
          exact hcond ⟨rfl, (hvisited day).mpr (hdays.changed day hchanged)⟩
        rwa [← hsame]
      · rw [helse other heq] at hne
        exact h.present other day hne
  · intro other
    by_cases heq : other = p.node
    · subst heq
      exact .inl ((hnodeEvents p.node).trans hself.symm)
    · change nodeEvents (refreshDaily t₁ p) other = recorded other ∨ _
      rw [hnodeEvents, helse other heq]
      refine (h.dirty other).imp_right fun hdirty => ?_
      change projectedOf t₁ other < revisionOf t₁ other
      rw [projectedOf, revisionOf, hother other heq]
      exact hdirty

theorem trackedStep_recorded {env : NodeRiskEnv} {model : ScoreModel} {s : Tracked} {call : Call}
    (h : Recorded s) (hkeeps : KeepsDays env s call) : Recorded (trackedStep env model s call) := by
  have haccounted : Accounted (step env model s.tables call) := step_accounted call h.accounted
  cases call with
  | ingest c =>
      rw [trackedStep]
      rw [step] at haccounted ⊢
      cases hok : ingest env s.tables c with
      | error e => exact h
      | ok r =>
          rw [hok, settled_ok] at haccounted
          obtain ⟨d, hdraft, ⟨-, -, hsame⟩ | ⟨-, -, hcontribute⟩⟩ := ingest_eq_ok hok
          · rw [settled_ok, hsame]
            exact h
          · have hmarks := contribute_marks h.accounted.booked.ids (hkeeps d hdraft) hcontribute
            exact h.written haccounted (contribute_daily hcontribute).1 hmarks
  | transition c =>
      rw [trackedStep]
      rw [step] at haccounted ⊢
      cases hok : transition s.tables c with
      | error e => exact h
      | ok r =>
          rw [hok, settled_ok] at haccounted
          exact h.written haccounted (transition_daily hok).1 (transition_marks hok)
  | recalculate node now =>
      rw [trackedStep]
      rw [step] at haccounted ⊢
      cases hok : recalculate model s.tables node now with
      | error e =>
          exact h
      | ok r =>
          rw [hok, settled_ok] at haccounted
          exact recalculate_recorded h haccounted hkeeps hok

/-- In every run whose recalculations visit whole days, the rows of a node whose
projection is up to date are complete. -/
theorem daily_rows_complete (env : NodeRiskEnv) (model : ScoreModel) (calls : List Call)
    (hkeeps : Along (trackedStep env model) (KeepsDays env) .initial calls) (node : String × String) :
    let t := exec (step env model) .empty calls
    projectedOf t node = revisionOf t node → DailyComplete t node := by
  intro t huptodate
  have hrecorded : Recorded (exec (trackedStep env model) .initial calls) :=
    exec_invariant (fun s call hs hk => trackedStep_recorded hs hk) recorded_initial hkeeps
  have htables : (exec (trackedStep env model) .initial calls).tables = t := exec_tracked ..
  have hevents : nodeEvents t node = (exec (trackedStep env model) .initial calls).recorded node := by
    rcases hrecorded.dirty node with hsame | hdirty
    · rw [← hsame, htables]
    · rw [htables] at hdirty
      exact absurd huptodate hdirty.ne
  intro day
  rw [hevents, ← htables]
  exact ⟨hrecorded.present node day, hrecorded.shows node day⟩

/-! ## A day that is cut -/

/-- Hashing keeps the text; two times of one day are known. -/
def dayEnv : NodeRiskEnv where
  sha256 := id
  parse := fun text => some (if text = "early" then ⟨6 * 3600 * IsoTime.second, 0⟩
    else ⟨18 * 3600 * IsoTime.second, 0⟩)
  isoformat := fun _ => ""

def dayCall (risk timestamp : String) : IngestCall where
  event := { riskType := risk, domain := "d", category := "c", severity := "high", baseScore := 1,
             confidence := 1, semanticRuleId := "r", semanticRuleVersion := 1,
             keyFields := ["node_id", "risk_type"] }
  record := { node := some "n", timestamp := some timestamp }
  now := ⟨0, 0⟩
  newId := risk

def recoverCall (eventId : String) : TransitionCall where
  eventId
  target := .recovered
  operator := "op"
  reason := "fixed"
  now := ⟨0, 0⟩

/-- Two events of one day recover; thirty days later only the second is read. -/
def cutDay : List Call :=
  [.ingest (dayCall "a" "early"), .ingest (dayCall "b" "late"), .transition (recoverCall "a"),
   .transition (recoverCall "b"),
   .recalculate ("default", "n") ⟨30 * IsoTime.day + 12 * 3600 * IsoTime.second, 0⟩]

theorem recalculation_cuts_day : ¬∀ (env : NodeRiskEnv) (model : ScoreModel) (calls : List Call)
    (node : String × String),
    projectedOf (exec (step env model) .empty calls) node =
      revisionOf (exec (step env model) .empty calls) node →
    DailyComplete (exec (step env model) .empty calls) node := by
  intro h
  have hcomplete := h dayEnv zeroScore cutDay ("default", "n") rfl
  have hcount := congrArg DayAggregate.eventCount ((hcomplete 0).2 _ rfl).1
  exact absurd hcount (by decide)

/-- One event, recalculated on its own day. -/
def oneDay : List Call := [.ingest (dayCall "a" "early"), .recalculate ("default", "n") ⟨0, 0⟩]

theorem same_day_rows_complete :
    DailyComplete (exec (step dayEnv zeroScore) .empty oneDay) ("default", "n") := by
  have hwhole : VisitsWholeDays
      (trackedStep dayEnv zeroScore .initial (.ingest (dayCall "a" "early"))) ("default", "n") ⟨0, 0⟩ := by
    constructor
    · intro e he _
      obtain rfl := List.mem_singleton.mp he
      rfl
    · intro day hday
      by_cases htoday : day = 0
      · exact .inl htoday.symm
      · refine absurd (List.filter_cons_of_neg fun hdate => ?_) hday
        exact htoday (of_decide_eq_true hdate : (0 : ℤ) = day).symm
  have hkeeps : Along (trackedStep dayEnv zeroScore) (KeepsDays dayEnv) .initial oneDay :=
    ⟨fun d _ e he => (by cases he), hwhole, trivial⟩
  exact daily_rows_complete dayEnv zeroScore oneDay hkeeps ("default", "n") rfl

end LogRisk.NodeRisk
