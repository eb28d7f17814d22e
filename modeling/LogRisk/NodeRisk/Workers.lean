import LogRisk.NodeRisk.Daily

/-!
# Several workers

A recalculation takes its steps one at a time: it reads the revision, then the
events, then the last peak, records its projection in one transaction and
rewrites the daily rows in another.  Other workers act in between.
-/

namespace LogRisk.NodeRisk

open LogRisk.Library LogRisk.Library.Transaction

/-- How far a worker is in a recalculation. -/
inductive Phase where
  | idle
  | revised (node : String × String) (now : IsoTime) (revision : Option ℕ)
  | read (node : String × String) (now : IsoTime) (revision : Option ℕ) (events : List EventView)
  | ready (p : Projection)
  /-- The projection is recorded, the daily rows are not yet rewritten. -/
  | projected (p : Projection)

structure Workers where
  tables : Tables
  phase : ℕ → Phase

def Workers.initial : Workers := ⟨.empty, fun _ => .idle⟩

def Workers.enter (s : Workers) (w : ℕ) (phase : Phase) : Workers :=
  { s with phase := Function.update s.phase w phase }

inductive Action where
  | ingest (c : IngestCall)
  | transition (c : TransitionCall)
  | readRevision (w : ℕ) (node : String × String) (now : IsoTime)
  | readEvents (w : ℕ)
  | readPeak (w : ℕ)
  | project (w : ℕ)
  | refreshDaily (w : ℕ)

/-- What a worker does next with what it has read; a failed projection ends the
recalculation. -/
def act (env : NodeRiskEnv) (model : ScoreModel) (s : Workers) : Action → Workers
  | .ingest c => { s with tables := settled s.tables (ingest env s.tables c) }
  | .transition c => { s with tables := settled s.tables (transition s.tables c) }
  | .readRevision w node now =>
      match s.phase w with
      | .idle => s.enter w (.revised node now (readRevision s.tables node))
      | _ => s
  | .readEvents w =>
      match s.phase w with
      | .revised node now revision =>
          if readEvents s.tables node now = [] ∧ s.tables.eventsOf node = [] then s.enter w .idle
          else s.enter w (.read node now revision (readEvents s.tables node now))
      | _ => s
  | .readPeak w =>
      match s.phase w with
      | .read node now revision events =>
          s.enter w (.ready ⟨node, now, revision, events,
            snapshotOf model events now (previousPeak s.tables node now)⟩)
      | _ => s
  | .project w =>
      match s.phase w with
      | .ready p =>
          match project s.tables p with
          | .ok r => Workers.enter ⟨r.2, s.phase⟩ w (.projected p)
          | .error _ => s.enter w .idle
      | _ => s
  | .refreshDaily w =>
      match s.phase w with
      | .projected p => Workers.enter ⟨refreshDaily s.tables p, s.phase⟩ w .idle
      | _ => s

/-- No worker has daily rows of the node still to write. -/
def Settled (s : Workers) (node : String × String) : Prop :=
  ∀ w p, s.phase w = .projected p → p.node ≠ node

/-- What has to hold of a step before it is taken. -/
def KeepsProjections (env : NodeRiskEnv) (s : Workers) : Action → Prop
  | .ingest c => ∀ d, draft env c = .ok d → MergesOwn s.tables d
  | .readRevision _ node _ => s.tables.revisions.get? node ≠ none
  | .project w => ∀ p, s.phase w = .ready p → Settled s p.node
  | _ => True

/-- The snapshot and the rows of all visited days are those of the events as they are. -/
def Consistent (model : ScoreModel) (t : Tables) (node : String × String) : Prop :=
  ∃ now previous,
    t.snapshots.get? node = some (snapshotOf model (readEvents t node now) now previous) ∧
    ∀ day, Visited t node now day → ∃ row, t.daily.get? (node, day) = some row ∧
      row.Shows (onDay day (counted (readEvents t node now)))

/-- What was read is still there, as long as the revision has not moved on. -/
def Fresh (t : Tables) (node : String × String) (now : IsoTime) (revision : Option ℕ)
    (events : List EventView) : Prop :=
  ∃ n, revision = some n ∧ n ≤ revisionOf t node ∧
    (revisionOf t node = n → events = readEvents t node now)

/-- What is known of a worker from its phase. -/
def PhaseHolds (model : ScoreModel) (t : Tables) : Phase → Prop
  | .idle => True
  | .revised node _ revision => ∃ n, revision = some n ∧ n ≤ revisionOf t node
  | .read node now revision events => Fresh t node now revision events
  | .ready p =>
      Fresh t p.node p.now p.revision p.events ∧
        ∃ previous, p.snapshot = snapshotOf model p.events p.now previous
  | .projected p =>
      Fresh t p.node p.now p.revision p.events ∧
        (∃ previous, p.snapshot = snapshotOf model p.events p.now previous) ∧
        p.revision = some (projectedOf t p.node) ∧ t.snapshots.get? p.node = some p.snapshot

structure Coordinated (model : ScoreModel) (s : Workers) : Prop where
  accounted : Accounted s.tables
  ordered : Ordered s.tables
  phases : ∀ w, PhaseHolds model s.tables (s.phase w)
  alone : ∀ w w' p p', s.phase w = .projected p → s.phase w' = .projected p' →
    p.node = p'.node → w = w'
  consistent : ∀ node, Settled s node → s.tables.revisions.get? node ≠ none →
    projectedOf s.tables node = revisionOf s.tables node → Consistent model s.tables node

/-! ## What a write leaves of what was read -/

theorem readEvents_congr {t t' : Tables} {node : String × String}
    (h : t'.eventsOf node = t.eventsOf node) (now : IsoTime) :
    readEvents t' node now = readEvents t node now := by rw [readEvents, h]; rfl

theorem Marks.revision_le {t t' : Tables} (h : Marks t t') (node : String × String) :
    revisionOf t node ≤ revisionOf t' node := by
  rcases h node with ⟨-, hsame⟩ | ⟨hlt, -⟩
  · rw [revisionOf, revisionOf, hsame]
  · exact hlt.le

theorem Fresh.marks {t t' : Tables} {node : String × String} {now : IsoTime} {revision : Option ℕ}
    {events : List EventView} (h : Fresh t node now revision events) (hmarks : Marks t t') :
    Fresh t' node now revision events := by
  obtain ⟨n, hrevision, hle, hevents⟩ := h
  refine ⟨n, hrevision, hle.trans (hmarks.revision_le node), fun heq => ?_⟩
  rcases hmarks node with ⟨hsame, hrevisions⟩ | ⟨hlt, -⟩
  · rw [readEvents_congr hsame]
    refine hevents ?_
    rw [← heq, revisionOf, revisionOf, hrevisions]
  · exact absurd (hle.trans_lt hlt) (by omega)

theorem Marks.projected {t t' : Tables} (h : Marks t t') (node : String × String) :
    projectedOf t' node = projectedOf t node := by
  rcases h node with ⟨-, hsame⟩ | ⟨-, hprojected⟩
  · rw [projectedOf, projectedOf, hsame]
  · exact hprojected

theorem PhaseHolds.marks {model : ScoreModel} {t t' : Tables} {phase : Phase}
    (h : PhaseHolds model t phase) (hmarks : Marks t t') (hsnapshots : t'.snapshots = t.snapshots) :
    PhaseHolds model t' phase := by
  cases phase with
  | idle => trivial
  | revised node now revision =>
      obtain ⟨n, hn, hle⟩ := h
      exact ⟨n, hn, hle.trans (hmarks.revision_le node)⟩
  | read node now revision events => exact Fresh.marks h hmarks
  | ready p => exact ⟨h.1.marks hmarks, h.2⟩
  | projected p =>
      obtain ⟨hfresh, hprevious, hprojected, hsnapshot⟩ := h
      refine ⟨hfresh.marks hmarks, hprevious, ?_, ?_⟩
      · rw [hmarks.projected]
        exact hprojected
      · rw [hsnapshots]
        exact hsnapshot

/-- A write to the ledger keeps the workers coordinated. -/
theorem Coordinated.written {model : ScoreModel} {s : Workers} (h : Coordinated model s) {t' : Tables}
    (haccounted : Accounted t') (hmarks : Marks s.tables t') (hdaily : t'.daily = s.tables.daily)
    (hsnapshots : t'.snapshots = s.tables.snapshots) : Coordinated model ⟨t', s.phase⟩ := by
  refine ⟨haccounted, hmarks.ordered h.ordered, fun w => (h.phases w).marks hmarks hsnapshots,
    h.alone, fun node hsettled hrow huptodate => ?_⟩
  change projectedOf t' node = revisionOf t' node at huptodate
  rcases hmarks node with ⟨hsame, hrevisions⟩ | hmarked
  · rw [projectedOf, revisionOf, hrevisions] at huptodate
    obtain ⟨now, previous, hsnapshot, hrows⟩ := h.consistent node hsettled (hrevisions ▸ hrow) huptodate
    refine ⟨now, previous, ?_, fun day hday => ?_⟩
    · rw [readEvents_congr hsame, hsnapshots]
      exact hsnapshot
    · rw [readEvents_congr hsame, hdaily]
      refine hrows day ?_
      rw [Visited, nodeEvents, hsame] at hday
      exact hday
  · exact absurd huptodate (hmarked.dirty h.ordered).ne

/-! ## Reading -/

theorem enter_phase (s : Workers) (w : ℕ) (phase : Phase) : (s.enter w phase).phase w = phase :=
  Function.update_self ..

theorem enter_phase_of_ne (s : Workers) {w w' : ℕ} (phase : Phase) (h : w' ≠ w) :
    (s.enter w phase).phase w' = s.phase w' := Function.update_of_ne h ..

/-- Entering a phase before the projection is recorded. -/
theorem Coordinated.entered {model : ScoreModel} {s : Workers} (h : Coordinated model s) {w : ℕ}
    {phase : Phase} (hphase : PhaseHolds model s.tables phase)
    (hold : ∀ p, s.phase w ≠ .projected p) (hnew : ∀ p, phase ≠ .projected p) :
    Coordinated model (s.enter w phase) := by
  have hprojected : ∀ w' p, (s.enter w phase).phase w' = .projected p → s.phase w' = .projected p := by
    intro w' p hp
    by_cases heq : w' = w
    · rw [heq, enter_phase] at hp
      exact absurd hp (hnew p)
    · rwa [enter_phase_of_ne s phase heq] at hp
  refine ⟨h.accounted, h.ordered, fun w' => ?_, ?_, fun node hsettled => h.consistent node ?_⟩
  · by_cases heq : w' = w
    · rw [heq, enter_phase]
      exact hphase
    · rw [enter_phase_of_ne s phase heq]
      exact h.phases w'
  · intro w₁ w₂ p₁ p₂ h₁ h₂
    exact h.alone w₁ w₂ p₁ p₂ (hprojected w₁ p₁ h₁) (hprojected w₂ p₂ h₂)
  · intro w' p hp
    refine hsettled w' p ?_
    by_cases heq : w' = w
    · exact absurd (heq ▸ hp) (hold p)
    · rw [enter_phase_of_ne s phase heq, hp]

/-! ## Recording the projection -/

theorem Fresh.congr {t t' : Tables} {node : String × String} {now : IsoTime} {revision : Option ℕ}
    {events : List EventView} (h : Fresh t node now revision events)
    (hevents : t'.events = t.events) (hrevision : revisionOf t' node = revisionOf t node) :
    Fresh t' node now revision events := by
  rw [Fresh, hrevision, readEvents, Tables.eventsOf, hevents]
  exact h

theorem projected_coordinated {model : ScoreModel} {s : Workers} (h : Coordinated model s) {w : ℕ}
    {p : Projection} {t' : Tables} (hphase : s.phase w = .ready p) (hsettled : Settled s p.node)
    (hok : project s.tables p = .ok ((), t')) :
    Coordinated model (Workers.enter ⟨t', s.phase⟩ w (.projected p)) := by
  have hready : PhaseHolds model s.tables (.ready p) := hphase ▸ h.phases w
  obtain ⟨hfresh, hprevious⟩ := hready
  obtain ⟨n, hn, -, -⟩ := hfresh
  obtain ⟨hevents, hingestions, hdaily⟩ := project_frame hok
  obtain ⟨hother, -, hrevised⟩ := project_revisions hok
  obtain ⟨hbefore, hafter, hprojected⟩ := hrevised n hn
  have hsnapshots : t'.snapshots = s.tables.snapshots.set p.node p.snapshot := by
    obtain ⟨revisions, -, hok⟩ := bind_eq_ok.mp hok
    obtain ⟨-, rfl⟩ := Prod.mk.inj (Except.ok.inj hok)
    rfl
  have hrevision : ∀ node, revisionOf t' node = revisionOf s.tables node := by
    intro node
    by_cases heq : node = p.node
    · rw [heq, hafter, hbefore]
    · rw [revisionOf, revisionOf, hother node heq]
  have hsame : ∀ node, node ≠ p.node → projectedOf t' node = projectedOf s.tables node ∧
      t'.snapshots.get? node = s.tables.snapshots.get? node := by
    intro node hne
    rw [projectedOf, projectedOf, hother node hne, hsnapshots, Dict.get?_set_of_ne (Ne.symm hne)]
    exact ⟨rfl, rfl⟩
  refine ⟨⟨h.accounted.booked.congr hevents hingestions, ?_⟩, fun node => ?_, fun w' => ?_, ?_, ?_⟩
  · change PhysicalUnique t'
    rw [PhysicalUnique, hingestions]
    exact h.accounted.physical
  · change projectedOf t' node ≤ revisionOf t' node
    by_cases heq : node = p.node
    · rw [heq, hafter, hprojected]
    · rw [hrevision, (hsame node heq).1]
      exact h.ordered node
  · by_cases heq : w' = w
    · rw [heq, enter_phase]
      refine ⟨Fresh.congr (hphase ▸ h.phases w : PhaseHolds model s.tables (.ready p)).1 hevents
        (hrevision p.node), hprevious, ?_, ?_⟩
      · rw [hn]
        exact congrArg some hprojected.symm
      · change t'.snapshots.get? p.node = _
        rw [hsnapshots, Dict.get?_set_self]
    · rw [enter_phase_of_ne _ _ heq]
      change PhaseHolds model t' (s.phase w')
      have hholds := h.phases w'
      cases hw : s.phase w' with
      | idle => trivial
      | revised node now revision =>
          rw [hw] at hholds
          obtain ⟨m, hm, hle⟩ := hholds
          exact ⟨m, hm, (hrevision node).symm ▸ hle⟩
      | read node now revision events =>
          rw [hw] at hholds
          exact Fresh.congr hholds hevents (hrevision node)
      | ready q =>
          rw [hw] at hholds
          exact ⟨hholds.1.congr hevents (hrevision q.node), hholds.2⟩
      | projected q =>
          rw [hw] at hholds
          obtain ⟨hq, hprev, hrev, hsnap⟩ := hholds
          obtain ⟨hproj, hsnapshot⟩ := hsame q.node (hsettled w' q hw)
          refine ⟨hq.congr hevents (hrevision q.node), hprev, ?_, ?_⟩
          · rw [hproj, hrev]
          · rw [hsnapshot, hsnap]
  · have hnot : ∀ w' q, w' ≠ w → (Workers.enter ⟨t', s.phase⟩ w (.projected p)).phase w' = .projected q →
        s.phase w' = .projected q := fun w' q hne hq => by rwa [enter_phase_of_ne _ _ hne] at hq
    intro w₁ w₂ p₁ p₂ h₁ h₂ hnode
    by_cases hw₁ : w₁ = w <;> by_cases hw₂ : w₂ = w
    · exact hw₁.trans hw₂.symm
    · rw [hw₁, enter_phase] at h₁
      obtain rfl := Phase.projected.inj h₁
      exact absurd hnode.symm (hsettled w₂ p₂ (hnot w₂ p₂ hw₂ h₂))
    · rw [hw₂, enter_phase] at h₂
      obtain rfl := Phase.projected.inj h₂
      exact absurd hnode (hsettled w₁ p₁ (hnot w₁ p₁ hw₁ h₁))
    · exact h.alone w₁ w₂ p₁ p₂ (hnot w₁ p₁ hw₁ h₁) (hnot w₂ p₂ hw₂ h₂) hnode
  · intro node hquiet hrow huptodate
    have hne : node ≠ p.node := Ne.symm (hquiet w p (enter_phase _ _ _))
    have hbeforeQuiet : Settled s node := by
      intro w' q hq
      refine hquiet w' q ?_
      by_cases heq : w' = w
      · rw [heq, hphase] at hq
        cases hq
      · rw [enter_phase_of_ne _ _ heq]
        exact hq
    change t'.revisions.get? node ≠ none at hrow
    change projectedOf t' node = revisionOf t' node at huptodate
    rw [hrevision, (hsame node hne).1] at huptodate
    obtain ⟨now, previous, hsnapshot, hrows⟩ :=
      h.consistent node hbeforeQuiet (hother node hne ▸ hrow) huptodate
    have hread : readEvents t' node now = readEvents s.tables node now := by
      rw [readEvents, Tables.eventsOf, hevents]
      rfl
    refine ⟨now, previous, ?_, fun day hday => ?_⟩
    · change t'.snapshots.get? node = some (snapshotOf model (readEvents t' node now) now previous)
      rw [hread, (hsame node hne).2]
      exact hsnapshot
    · change ∃ row, t'.daily.get? (node, day) = some row ∧
        row.Shows (onDay day (counted (readEvents t' node now)))
      rw [hread, hdaily]
      refine hrows day ?_
      change now.date = day ∨ ∃ e ∈ nodeEvents t' node, _ at hday
      rw [nodeEvents, Tables.eventsOf, hevents] at hday
      exact hday

/-! ## Rewriting the daily rows -/

theorem refreshed_coordinated {model : ScoreModel} {s : Workers} (h : Coordinated model s) {w : ℕ}
    {p : Projection} (hphase : s.phase w = .projected p) :
    Coordinated model (Workers.enter ⟨refreshDaily s.tables p, s.phase⟩ w .idle) := by
  have hholds : PhaseHolds model s.tables (.projected p) := hphase ▸ h.phases w
  obtain ⟨⟨n, hn, -, hevents⟩, ⟨previous, hprevious⟩, hprojected, hsnapshot⟩ := hholds
  have hmarks : Marks s.tables (refreshDaily s.tables p) := fun node => .inl ⟨rfl, rfl⟩
  have hothers : ∀ w' q, (Workers.enter ⟨refreshDaily s.tables p, s.phase⟩ w .idle).phase w' =
      .projected q → w' ≠ w ∧ s.phase w' = .projected q := by
    intro w' q hq
    by_cases heq : w' = w
    · rw [heq, enter_phase] at hq
      cases hq
    · rw [enter_phase_of_ne _ _ heq] at hq
      exact ⟨heq, hq⟩
  refine ⟨⟨h.accounted.booked.congr rfl rfl, h.accounted.physical⟩, h.ordered, fun w' => ?_, ?_, ?_⟩
  · by_cases heq : w' = w
    · rw [heq, enter_phase]
      trivial
    · rw [enter_phase_of_ne _ _ heq]
      exact (h.phases w').marks hmarks rfl
  · intro w₁ w₂ p₁ p₂ h₁ h₂
    exact h.alone w₁ w₂ p₁ p₂ (hothers w₁ p₁ h₁).2 (hothers w₂ p₂ h₂).2
  · intro node hquiet hrow huptodate
    change projectedOf s.tables node = revisionOf s.tables node at huptodate
    by_cases heq : node = p.node
    · subst heq
      have hread : p.events = readEvents s.tables p.node p.now := by
        refine hevents ?_
        rw [← huptodate]
        exact Option.some.inj (hprojected.symm.trans hn)
      refine ⟨p.now, previous, ?_, fun day hday => ?_⟩
      · change s.tables.snapshots.get? p.node = some
          (snapshotOf model (readEvents s.tables p.node p.now) p.now previous)
        rw [← hread, hsnapshot, hprevious]
      · have hvisited : ((groupedByDay p.events p.now).get? day).isSome := by
          rw [isSome_groupedByDay, hread, counted_readEvents]
          simp only [List.mem_filter, and_assoc]
          exact hday
        refine ⟨_, (refreshDaily_get? s.tables p p.node day).trans (if_pos ⟨rfl, hvisited⟩), ?_⟩
        change DailyRow.Shows _ (onDay day (counted (readEvents s.tables p.node p.now)))
        rw [← hread]
        exact writtenRow_shows _ _ _ _
    · have hbeforeQuiet : Settled s node := by
        intro w' q hq
        by_cases hw : w' = w
        · rw [hw, hphase] at hq
          obtain rfl := Phase.projected.inj hq
          exact Ne.symm heq
        · exact hquiet w' q ((enter_phase_of_ne _ _ hw).trans hq)
      obtain ⟨now, prev, hsnap, hrows⟩ := h.consistent node hbeforeQuiet hrow huptodate
      refine ⟨now, prev, hsnap, fun day hday => ?_⟩
      obtain ⟨row, hget, hshows⟩ := hrows day hday
      refine ⟨row, ?_, hshows⟩
      change (refreshDaily s.tables p).daily.get? (node, day) = some row
      rw [refreshDaily_get?, if_neg fun hc => heq hc.1.symm]
      exact hget

/-! ## Runs -/

theorem coordinated_initial (model : ScoreModel) : Coordinated model .initial where
  accounted := accounted_empty
  ordered := fun node => le_refl 0
  phases := fun w => trivial
  alone := by intro w w' p p' h; cases h
  consistent := fun node _ hrow => absurd rfl hrow

theorem act_coordinated {env : NodeRiskEnv} {model : ScoreModel} {s : Workers} {a : Action}
    (h : Coordinated model s) (hkeeps : KeepsProjections env s a) :
    Coordinated model (act env model s a) := by
  cases a with
  | ingest c =>
      have haccounted : Accounted (step env model s.tables (.ingest c)) :=
        step_accounted _ h.accounted
      rw [act]
      rw [step] at haccounted
      cases hok : ingest env s.tables c with
      | error e => exact h
      | ok r =>
          rw [hok, settled_ok] at haccounted
          obtain ⟨d, hdraft, ⟨-, -, hsame⟩ | ⟨-, -, hcontribute⟩⟩ := ingest_eq_ok hok
          · rw [settled_ok, hsame]
            exact h
          · obtain ⟨hdaily, hsnapshots⟩ := contribute_daily hcontribute
            exact h.written haccounted
              (contribute_marks h.accounted.booked.ids (hkeeps d hdraft) hcontribute) hdaily hsnapshots
  | transition c =>
      have haccounted : Accounted (step env model s.tables (.transition c)) :=
        step_accounted _ h.accounted
      rw [act]
      rw [step] at haccounted
      cases hok : transition s.tables c with
      | error e => exact h
      | ok r =>
          rw [hok, settled_ok] at haccounted
          obtain ⟨hdaily, hsnapshots⟩ := transition_daily hok
          exact h.written haccounted (transition_marks hok) hdaily hsnapshots
  | readRevision w node now =>
      rw [act]
      cases hw : s.phase w with
      | idle =>
          obtain ⟨r, hr⟩ := Option.ne_none_iff_exists'.mp hkeeps
          refine h.entered ⟨r.revision, ?_, ?_⟩ (by intro p hp; rw [hw] at hp; cases hp)
            (by intro p hp; cases hp)
          · rw [readRevision, hr]
            rfl
          · rw [revisionOf, hr]
            exact le_refl _
      | _ => exact h
  | readEvents w =>
      rw [act]
      cases hw : s.phase w with
      | revised node now revision =>
          have hholds : PhaseHolds model s.tables (.revised node now revision) := hw ▸ h.phases w
          obtain ⟨n, hn, hle⟩ := hholds
          have hold : ∀ p, s.phase w ≠ .projected p := by intro p hp; rw [hw] at hp; cases hp
          dsimp only
          split
          · exact h.entered trivial hold (by intro p hp; cases hp)
          · exact h.entered ⟨n, hn, hle, fun _ => rfl⟩ hold (by intro p hp; cases hp)
      | _ => exact h
  | readPeak w =>
      rw [act]
      cases hw : s.phase w with
      | read node now revision events =>
          have hholds : PhaseHolds model s.tables (.read node now revision events) := hw ▸ h.phases w
          exact h.entered ⟨hholds, _, rfl⟩ (by intro p hp; rw [hw] at hp; cases hp)
            (by intro p hp; cases hp)
      | _ => exact h
  | project w =>
      rw [act]
      cases hw : s.phase w with
      | ready p =>
          dsimp only
          cases hok : project s.tables p with
          | error e =>
              exact h.entered trivial (by intro p hp; rw [hw] at hp; cases hp) (by intro p hp; cases hp)
          | ok r => exact projected_coordinated h hw (hkeeps p hw) hok
      | _ => exact h
  | refreshDaily w =>
      rw [act]
      cases hw : s.phase w with
      | projected p => exact refreshed_coordinated h hw
      | _ => exact h

/-- Where no projection is recorded while another worker has daily rows of the node
to write, a node that is up to date and settled shows its events as they are; and
a projection that lost its revision leaves no trace. -/
theorem projections_consistent (env : NodeRiskEnv) (model : ScoreModel) (actions : List Action)
    (hkeeps : Along (act env model) (KeepsProjections env) .initial actions) :
    let s := exec (act env model) .initial actions
    (∀ node r, s.tables.revisions.get? node = some r → r.projectedRevision = r.revision →
      Settled s node → Consistent model s.tables node) ∧
    ∀ w p n r, s.phase w = .ready p → p.revision = some n →
      s.tables.revisions.get? p.node = some r → r.revision ≠ n →
      act env model s (.project w) = s.enter w .idle := by
  intro s
  have hcoordinated : Coordinated model s :=
    exec_invariant (fun s a hs hk => act_coordinated hs hk) (coordinated_initial model) hkeeps
  constructor
  · intro node r hr huptodate hsettled
    refine hcoordinated.consistent node hsettled (by rw [hr]; exact Option.some_ne_none r) ?_
    rw [projectedOf, revisionOf, hr]
    exact huptodate
  · intro w p n r hw hn hr hne
    have hmoved : (some r).filter (fun r => decide (r.revision = n)) = none :=
      Option.filter_eq_none_iff.mpr fun a ha => by
        obtain rfl := Option.some.inj ha
        simpa using hne
    rw [act, hw]
    simp [project, projectRevision, hn, hr, hmoved, orFail, bind, Except.bind]

/-! ## An overtaken refresh -/

/-- The worker that takes the step; ledger writes are nobody's. -/
def Action.worker : Action → Option ℕ
  | ingest _ | transition _ => none
  | readRevision w _ _ | readEvents w | readPeak w | project w | refreshDaily w => some w

theorem act_phase_of_ne (env : NodeRiskEnv) (model : ScoreModel) (s : Workers) {a : Action} {w : ℕ}
    (h : a.worker ≠ some w) : (act env model s a).phase w = s.phase w := by
  have hne : ∀ w', a.worker = some w' → w ≠ w' := fun w' hw heq => h (heq ▸ hw)
  cases a with
  | ingest c | transition c => rfl
  | readRevision w' node now =>
      rw [act]
      split
      · exact enter_phase_of_ne s _ (hne w' rfl)
      · rfl
  | readEvents w' =>
      rw [act]
      split
      · split
        · exact enter_phase_of_ne s _ (hne w' rfl)
        · exact enter_phase_of_ne s _ (hne w' rfl)
      · rfl
  | readPeak w' =>
      rw [act]
      split
      · exact enter_phase_of_ne s _ (hne w' rfl)
      · rfl
  | project w' =>
      rw [act]
      split
      · split
        · exact enter_phase_of_ne _ _ (hne w' rfl)
        · exact enter_phase_of_ne s _ (hne w' rfl)
      · rfl
  | refreshDaily w' =>
      rw [act]
      split
      · exact enter_phase_of_ne _ _ (hne w' rfl)
      · rfl

theorem exec_phase_of_ne (env : NodeRiskEnv) (model : ScoreModel) (s : Workers)
    {actions : List Action} {w : ℕ} (h : ∀ a ∈ actions, a.worker ≠ some w) :
    (exec (act env model) s actions).phase w = s.phase w := by
  induction actions generalizing s with
  | nil => rfl
  | cons a actions ih =>
      rw [List.forall_mem_cons] at h
      rw [exec_cons, ih _ h.2, act_phase_of_ne env model s h.1]

def readActions (w : ℕ) : List Action :=
  [.readRevision w ("default", "n") ⟨0, 0⟩, .readEvents w, .readPeak w, .project w]

/-- Worker 0 records its projection; before it rewrites the daily rows, another
event comes in and worker 1 recalculates the node. -/
def overtaken : List Action :=
  .ingest (dayCall "a" "early") :: readActions 0 ++
    .ingest (dayCall "b" "late") :: readActions 1 ++ [.refreshDaily 1, .refreshDaily 0]

theorem overtaken_idle (w : ℕ) : (exec (act dayEnv zeroScore) .initial overtaken).phase w = .idle := by
  by_cases h0 : w = 0
  · rw [h0]
    rfl
  by_cases h1 : w = 1
  · rw [h1]
    rfl
  refine exec_phase_of_ne dayEnv zeroScore .initial ?_
  simp only [overtaken, readActions, List.cons_append, List.nil_append, List.forall_mem_cons,
    Action.worker, ne_eq, Option.some.injEq, reduceCtorEq, not_false_eq_true, Ne.symm h0, Ne.symm h1,
    true_and]
  exact fun _ h => absurd h List.not_mem_nil

theorem refresh_overtaken : ¬∀ (env : NodeRiskEnv) (model : ScoreModel) (actions : List Action)
    (node : String × String) (r : Revision),
    (exec (act env model) .initial actions).tables.revisions.get? node = some r →
      r.projectedRevision = r.revision → Settled (exec (act env model) .initial actions) node →
      Consistent model (exec (act env model) .initial actions).tables node := by
  intro h
  have hidle : Settled (exec (act dayEnv zeroScore) .initial overtaken) ("default", "n") := by
    intro w p hp
    cases (overtaken_idle w).symm.trans hp
  obtain ⟨now, previous, -, hrows⟩ := h dayEnv zeroScore overtaken ("default", "n") _ rfl rfl hidle
  obtain ⟨row, hrow, hshows, -⟩ := hrows 0 (.inr ⟨_, List.mem_cons_self .., rfl, rfl⟩)
  obtain rfl := Option.some.inj hrow
  have hcount : (1 : ℕ) = 2 := congrArg DayAggregate.eventCount hshows
  exact absurd hcount (by decide)

/-- One worker, without interference. -/
def undisturbed : List Action :=
  .ingest (dayCall "a" "early") :: readActions 0 ++ [.refreshDaily 0]

theorem undisturbed_consistent :
    Consistent zeroScore (exec (act dayEnv zeroScore) .initial undisturbed).tables ("default", "n") := by
  have hidle : ∀ w, w ≠ 0 → (exec (act dayEnv zeroScore) .initial undisturbed).phase w = .idle := by
    intro w hw
    refine exec_phase_of_ne dayEnv zeroScore .initial ?_
    simp only [undisturbed, readActions, List.cons_append, List.nil_append, List.forall_mem_cons,
      Action.worker, ne_eq, Option.some.injEq, reduceCtorEq, not_false_eq_true, Ne.symm hw, true_and]
    exact fun _ h => absurd h List.not_mem_nil
  have hkeeps : Along (act dayEnv zeroScore) (KeepsProjections dayEnv) .initial undisturbed := by
    refine ⟨fun d _ e he => (by cases he), Option.some_ne_none _, trivial, trivial, ?_, trivial, trivial⟩
    intro p _ w q hq
    by_cases h0 : w = 0
    · rw [h0] at hq
      cases hq
    · have hbefore : (exec (act dayEnv zeroScore) .initial
          (.ingest (dayCall "a" "early") :: (readActions 0).take 3)).phase w = .idle := by
        refine exec_phase_of_ne dayEnv zeroScore .initial ?_
        simp only [readActions, List.take, List.forall_mem_cons, Action.worker, ne_eq,
          Option.some.injEq, reduceCtorEq, not_false_eq_true, Ne.symm h0, true_and]
        exact fun _ h => absurd h List.not_mem_nil
      cases hbefore.symm.trans hq
  refine (projections_consistent dayEnv zeroScore undisturbed hkeeps).1 ("default", "n") _ rfl rfl ?_
  intro w p hp
  by_cases h0 : w = 0
  · rw [h0] at hp
    cases hp
  · cases (hidle w h0).symm.trans hp

end LogRisk.NodeRisk
