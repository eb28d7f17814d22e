import LogRisk.ServerRisk.Assessment
import Mathlib.Data.List.Chain
import Mathlib.Algebra.Order.Field.Basic
import Mathlib.Tactic.NormNum

/-!
# What stands behind a clear subject

A run of positive observations is unbroken when all have one boundary and each
follows the one before without too long a gap.  The loop keeps such a run, which
reaches back to the last break.  It opens the run at the first of them, or at the
end of the adverse observation walked last when the run is one of coverage.  An
adverse observation that was walked earlier and ends later is not looked at.
-/

namespace LogRisk.ServerRisk

open LogRisk.Library LogRisk.Library.Transaction

variable (service : AssessmentService)

/-! ## Runs of positive observations -/

/-- An observation that its source may make and that tests as positive. -/
def AssessmentService.Positive (rule : Rule) (row : Observation) : Prop :=
  ∃ source, service.policies.source row.sourceId = .ok source ∧ source.compatible row = true ∧
    service.frontierComplete row = true ∧
    match row.kind with
    | .stateSnapshot => snapshotPositive rule source row = true
    | .coverage c =>
        ∃ needed, rule.needed = .ok needed ∧ coveragePositive rule source row c needed = true
    | _ => False

/-- The later observation continues the earlier one: coverage without a gap, a
snapshot within the longest gap its source is registered with. -/
def AssessmentService.Follows (a b : Observation) : Prop :=
  a.boundary = b.boundary ∧
    match b.kind with
    | .coverage _ => b.intervalStart ≤ a.intervalEnd
    | _ => ∀ source, service.policies.source b.sourceId = .ok source →
        b.intervalEnd - a.intervalEnd ≤ seconds source.maxGapSeconds

structure AssessmentService.Unbroken (rule : Rule) (run : List Observation) : Prop where
  positive : ∀ o ∈ run, service.Positive rule o
  follows : run.IsChain service.Follows

/-! ## Where a run opens -/

/-- The adverse observation walked last. -/
def lastAdverse (rows : List Observation) : Option Observation :=
  (rows.filter Observation.isAdverse).getLast?

/-- Where a run opens whose first observation comes after `earlier`. -/
def opening (earlier : List Observation) (first : Observation) : ℤ :=
  match first.kind with
  | .coverage _ => coverageBegin (lastAdverse earlier) first
  | _ => first.intervalEnd

/-- The observations that bear on the state. -/
def heard (rows : List Observation) : List Observation :=
  rows.filter fun o => decide (o.kind ≠ .recoveryCandidate)

/-- No unbroken run the rows end in opens before an adverse observation has ended. -/
def AssessmentService.OpensAfterAdverse (rows : List Observation) : Prop :=
  ∀ earlier first later, heard rows = earlier ++ first :: later →
    service.Unbroken (service.ruleFor rows) (first :: later) →
    ∀ a ∈ earlier, a.isAdverse = true → a.intervalEnd ≤ opening earlier first

/-- The adverse observations of the subject have ended by the time of the
evaluation, and no run opens before their ends. -/
structure AssessmentService.AdverseEnded (context : EvaluationContext) (exclusiveEnd : Bool)
    (rows : List Observation) (subject : String) : Prop where
  considered : ∀ o ∈ rows, o.subjectKey = subject → o.isAdverse = true →
    considered context exclusiveEnd o = true
  opens : service.OpensAfterAdverse (subjectRows context exclusiveEnd rows subject)

/-! ## What a recovery rests on -/

/-- The run that lasts from `start` to `finish` shows that the subject is clear. -/
structure AssessmentService.Recovered (context : EvaluationContext) (exclusiveEnd : Bool)
    (rows : List Observation) (subject : String) (run : List Observation) (start finish : ℤ) :
    Prop where
  /-- The rule asks for a duration that is not negative, and the run has it. -/
  hold : ∃ hold, (service.ruleFor (subjectRows context exclusiveEnd rows subject)).hold? = some hold ∧
    0 ≤ hold ∧ hold ≤ totalSeconds (finish - start)
  /-- Every source the subject was assessed by has been processed. -/
  frontiers : ∀ o ∈ subjectRows context exclusiveEnd rows subject,
    (∃ source, service.policies.source o.sourceId = .ok source) ∧
      service.frontierComplete o = true
  stored : ∀ o ∈ run, o ∈ rows ∧ o.subjectKey = subject
  /-- One source, epoch, configuration and boot. -/
  boundary : ∃ boundary, ∀ o ∈ run, o.boundary = boundary
  unbroken : service.Unbroken (service.ruleFor (subjectRows context exclusiveEnd rows subject)) run
  starts : ∃ first, run.head? = some first ∧
    match first.kind with
    | .coverage _ => first.intervalStart ≤ start ∧ start ≤ first.intervalEnd
    | _ => start = first.intervalEnd
  ends : ∃ last, run.getLast? = some last ∧ last.intervalEnd = finish ∧
    ∃ source, service.policies.source last.sourceId = .ok source ∧
      context.asOf < finish + seconds source.freshnessSeconds
  adverse : ∀ o ∈ rows, o.subjectKey = subject → o.isAdverse = true → o.intervalEnd ≤ start

variable {service}

/-! ## The run the loop keeps -/

theorem Evidence.positive {rule : Rule} {source : Source} {adverseRow : Option Observation}
    {row : Observation} {begin limit : ℤ} (h : Evidence rule source adverseRow row begin limit)
    (hsource : service.policies.source row.sourceId = .ok source)
    (hcompatible : source.compatible row = true)
    (hprocessed : service.frontierComplete row = true) : service.Positive rule row := by
  refine ⟨source, hsource, hcompatible, hprocessed, ?_⟩
  cases h with
  | snapshot hkind hpositive => simp only [hkind, hpositive]
  | coverage hkind hneeded hpositive =>
      simp only [hkind]
      exact ⟨_, hneeded, hpositive⟩

theorem Evidence.not_adverse {rule : Rule} {source : Source} {adverseRow : Option Observation}
    {row : Observation} {begin limit : ℤ} (h : Evidence rule source adverseRow row begin limit) :
    row.kind ≠ .adverse ∧ row.kind ≠ .recoveryCandidate := by
  cases h with
  | snapshot hkind | coverage hkind => simp [hkind]

theorem Evidence.begin_eq {rule : Rule} {source : Source} {earlier : List Observation}
    {row : Observation} {begin limit : ℤ}
    (h : Evidence rule source (lastAdverse earlier) row begin limit) :
    begin = opening earlier row := by
  cases h with
  | snapshot hkind | coverage hkind => simp only [opening, hkind]

theorem start_le_coverageBegin (adverseRow : Option Observation) (row : Observation) :
    row.intervalStart ≤ coverageBegin adverseRow row := by
  cases adverseRow with
  | none => exact le_refl _
  | some adverse => exact le_max_left _ _

/-- What begins within the limit follows. -/
theorem Evidence.follows {rule : Rule} {source : Source} {adverseRow : Option Observation}
    {a row : Observation} {begin limit : ℤ} (h : Evidence rule source adverseRow row begin limit)
    (hsource : service.policies.source row.sourceId = .ok source)
    (hboundary : a.boundary = row.boundary) (hlimit : ¬limit < begin - a.intervalEnd) :
    service.Follows a row := by
  refine ⟨hboundary, ?_⟩
  cases h with
  | snapshot hkind =>
      simp only [hkind]
      intro source' hsource'
      obtain rfl := Except.ok.inj (hsource.symm.trans hsource')
      omega
  | coverage hkind =>
      simp only [hkind]
      have hstart := start_le_coverageBegin adverseRow row
      omega

theorem lastAdverse_append_adverse (rows : List Observation) {row : Observation}
    (h : row.kind = .adverse) : lastAdverse (rows ++ [row]) = some row := by
  unfold lastAdverse
  rw [List.filter_append, List.filter_cons_of_pos (by simp [Observation.isAdverse, h]),
    List.filter_nil, List.getLast?_concat]

theorem lastAdverse_append_other (rows : List Observation) {row : Observation}
    (h : row.kind ≠ .adverse) : lastAdverse (rows ++ [row]) = lastAdverse rows := by
  unfold lastAdverse
  rw [List.filter_append, List.filter_cons_of_neg (by simp [Observation.isAdverse, h]),
    List.filter_nil, List.append_nil]

theorem heard_append (rows : List Observation) {row : Observation}
    (h : row.kind ≠ .recoveryCandidate) : heard (rows ++ [row]) = heard rows ++ [row] := by
  unfold heard
  rw [List.filter_append, List.filter_cons_of_pos (by simpa using h), List.filter_nil]

theorem heard_append_candidate (rows : List Observation) {row : Observation}
    (h : row.kind = .recoveryCandidate) : heard (rows ++ [row]) = heard rows := by
  unfold heard
  rw [List.filter_append, List.filter_cons_of_neg (by simpa using h), List.filter_nil,
    List.append_nil]

/-- The rows heard so far end in an unbroken run, which is what the loop keeps. -/
structure AssessmentService.Keeps (service : AssessmentService) (rule : Rule)
    (rows : List Observation) (boundary : Option Boundary) (span : Span)
    (earlier : List Observation) (first : Observation) (later : List Observation) : Prop where
  rows : rows = earlier ++ first :: later
  unbroken : service.Unbroken rule (first :: later)
  boundary : ∀ o ∈ first :: later, boundary = some o.boundary
  start : span.start = opening earlier first
  last : ∃ last, (first :: later).getLast? = some last ∧ last.intervalEnd = span.last
  /-- A run of more than one opens within its first. -/
  within : later ≠ [] → span.start ≤ first.intervalEnd
  registered : rule.Registered

namespace AssessmentService.Keeps

variable {rule : Rule} {rows earlier later : List Observation} {first row : Observation}
  {boundary : Option Boundary} {span : Span} {source : Source} {begin limit : ℤ}

/-- A positive observation opens a run. -/
theorem opened (hevidence : Evidence rule source (lastAdverse rows) row begin limit)
    (hpositive : service.Positive rule row) (hregistered : rule.Registered) :
    service.Keeps rule (rows ++ [row]) (some row.boundary) ⟨begin, row.intervalEnd⟩ rows row [] where
  rows := rfl
  unbroken := ⟨by simpa using hpositive, List.isChain_singleton _⟩
  boundary := by simp
  start := hevidence.begin_eq
  last := ⟨row, rfl, rfl⟩
  within := fun h => absurd rfl h
  registered := hregistered

theorem coverage_of_coverage {rule : Rule} {o row : Observation} {c : Coverage}
    (ho : service.Positive rule o) (hkind : o.kind = .coverage c)
    (hrow : service.Positive rule row) : ∃ c', row.kind = .coverage c' := by
  obtain ⟨source, -, -, -, ho⟩ := ho
  obtain ⟨source', -, -, -, hrow⟩ := hrow
  rw [hkind] at ho
  obtain ⟨needed, -, hcoverage⟩ := ho
  have hquiet : rule.mode = some (.str "quiet") := by
    unfold coveragePositive at hcoverage
    split at hcoverage <;> simp_all [Rule.isMode]
  cases hk : row.kind with
  | coverage c' => exact ⟨c', rfl⟩
  | adverse | recoveryCandidate => simp only [hk] at hrow
  | stateSnapshot =>
      simp only [hk] at hrow
      unfold snapshotPositive at hrow
      split at hrow <;> simp_all [Rule.isMode]

/-- An observation that follows the last one continues the run. -/
theorem extended (h : service.Keeps rule rows boundary span earlier first later)
    (hboundary : boundary = some row.boundary)
    (hsource : service.policies.source row.sourceId = .ok source)
    (hevidence : Evidence rule source (lastAdverse rows) row begin limit)
    (hpositive : service.Positive rule row) (hlimit : ¬limit < begin - span.last) :
    service.Keeps rule (rows ++ [row]) boundary ⟨span.start, row.intervalEnd⟩ earlier first
      (later ++ [row]) := by
  obtain ⟨last, hlast, hend⟩ := h.last
  have hfollows : service.Follows last row := by
    have hmem : last ∈ first :: later := List.mem_of_getLast? hlast
    have hsame : last.boundary = row.boundary :=
      Option.some.inj ((h.boundary last hmem).symm.trans hboundary)
    exact hevidence.follows hsource hsame (hend ▸ hlimit)
  have hboth : ∀ P : Observation → Prop, (∀ o ∈ first :: later, P o) → P row →
      ∀ o ∈ first :: (later ++ [row]), P o := by
    intro P hrun hrow o ho
    rw [← List.cons_append, List.mem_append, List.mem_singleton] at ho
    rcases ho with ho | rfl
    · exact hrun o ho
    · exact hrow
  refine ⟨?_, ⟨hboth _ h.unbroken.positive hpositive, ?_⟩, hboth _ h.boundary hboundary, h.start,
    ⟨row, ?_, rfl⟩, fun _ => ?_, h.registered⟩
  · rw [h.rows, List.append_assoc, List.cons_append]
  · rw [← List.cons_append]
    refine h.unbroken.follows.append (List.isChain_singleton _) ?_
    rintro x hx y hy
    obtain rfl := Option.some.inj (hlast.symm.trans hx)
    obtain rfl : row = y := Option.some.inj hy
    exact hfollows
  · rw [← List.cons_append, List.getLast?_concat]
  · by_cases hlater : later = []
    · -- the second observation of the run: nothing adverse lies between the two
      subst hlater
      obtain rfl : first = last := Option.some.inj hlast
      show span.start ≤ first.intervalEnd
      rw [h.start]
      unfold opening
      cases hkind : first.kind with
      | adverse | recoveryCandidate | stateSnapshot => exact le_refl _
      | coverage c =>
          have hfirst := h.unbroken.positive first List.mem_cons_self
          obtain ⟨c', hrow⟩ := coverage_of_coverage hfirst hkind hpositive
          have hadverse : lastAdverse rows = lastAdverse earlier := by
            rw [h.rows]
            exact lastAdverse_append_other earlier (by simp [hkind])
          rw [hadverse] at hevidence
          have hordered := first.start_le_end
          cases hevidence with
          | snapshot hkind' => simp [hrow] at hkind'
          | coverage hkind' =>
              unfold coverageBegin at hlimit ⊢
              cases hl : lastAdverse earlier with
              | none => exact hordered
              | some adverse =>
                  simp only [hl] at hlimit ⊢
                  omega
    · exact h.within hlater

end AssessmentService.Keeps

/-- What holds of the loop's variables after the rows. -/
structure RecoveryInv (service : AssessmentService) (rule : Rule) (rows : List Observation)
    (p : Progress) : Prop where
  adverseRow : p.adverseRow = lastAdverse (heard rows)
  frontiers : ∀ o ∈ rows, (∃ source, service.policies.source o.sourceId = .ok source) ∧
    service.frontierComplete o = true
  run : ∀ span, p.run = some span → ∃ earlier first later,
    service.Keeps rule (heard rows) p.positiveBoundary span earlier first later
  clear : p.state = .clear → ∃ span hold source, p.run = some span ∧ rule.hold? = some hold ∧
    0 ≤ hold ∧ hold ≤ totalSeconds (span.last - span.start) ∧
    (∀ boundary, p.positiveBoundary = some boundary →
      service.policies.source boundary.sourceId = .ok source) ∧
    p.validity = some (span.last + seconds source.freshnessSeconds)

section Loop

variable {context : EvaluationContext} {subject riskType : String} {rule : Rule}
  {rows : List Observation} {p p' : Progress} {row : Observation}

theorem Progress.adverse_fields (p : Progress) (digest : List String → String)
    (context : EvaluationContext) (subject riskType : String) (source : Source)
    (row : Observation) :
    let p' := p.adverse digest context subject riskType source row
    p'.adverseRow = some row ∧ p'.run = none ∧ p'.complete = p.complete ∧ p'.state ≠ .clear := by
  unfold Progress.adverse Progress.note
  dsimp only
  split <;> simp_all

theorem through_true (hcomplete : p.complete = true) : p.through true = p := by
  unfold Progress.through
  rw [hcomplete]
  cases p
  cases hcomplete
  rfl

theorem Outcome.complete
    (h : Outcome service context subject riskType rule p row p') (hcomplete : p'.complete = true) :
    p.complete = true ∧ (∃ source, service.policies.source row.sourceId = .ok source) ∧
      service.frontierComplete row = true := by
  cases h with
  | unregistered => cases hcomplete
  | adverse hsource hkind =>
      rw [(Progress.adverse_fields _ _ _ _ _ _ _).2.2.1] at hcomplete
      obtain ⟨hp, hrow⟩ : p.complete = true ∧ service.frontierComplete row = true := by
        simpa [Progress.through] using hcomplete
      exact ⟨hp, ⟨_, hsource⟩, hrow⟩
  | unsettled hsource hkind hrun h =>
      rw [h.complete] at hcomplete
      obtain ⟨hp, hrow⟩ : p.complete = true ∧ service.frontierComplete row = true := by
        simpa [Progress.through] using hcomplete
      exact ⟨hp, ⟨_, hsource⟩, hrow⟩
  | positive hsource hhold hnonneg hcompatible hprocessed hevidence =>
      have hp : p.complete = true := by
        simpa [Progress.positive, Progress.enter, Progress.through] using hcomplete
      exact ⟨hp, ⟨_, hsource⟩, hprocessed⟩

theorem RecoveryInv.step (h : p.complete = true → RecoveryInv service rule rows p)
    (hstep : service.observe context subject riskType rule p row = .ok p')
    (hcomplete : p'.complete = true) : RecoveryInv service rule (rows ++ [row]) p' := by
  have houtcome := observe_outcome service hstep
  obtain ⟨hp, hregistered, hprocessed⟩ := houtcome.complete hcomplete
  have hinv := h hp
  have hfrontiers : ∀ o ∈ rows ++ [row],
      (∃ source, service.policies.source o.sourceId = .ok source) ∧
        service.frontierComplete o = true := by
    intro o ho
    rw [List.mem_append, List.mem_singleton] at ho
    rcases ho with ho | rfl
    · exact hinv.frontiers o ho
    · exact ⟨hregistered, hprocessed⟩
  cases houtcome with
  | unregistered => cases hcomplete
  | adverse hsource hkind =>
      obtain ⟨hadverse, hrun, -, hstate⟩ := Progress.adverse_fields
        (p.through (service.frontierComplete row)) service.digest context subject riskType _ row
      refine ⟨?_, hfrontiers, ?_, fun hclear => absurd hclear hstate⟩
      · rw [hadverse, heard_append _ (by simp [hkind]), lastAdverse_append_adverse _ hkind]
      · intro span hspan
        exact absurd (hrun.symm.trans hspan) (by simp)
  | unsettled hsource hkind hrun hsame =>
      have hadverse : p'.adverseRow = lastAdverse (heard (rows ++ [row])) := by
        rw [hsame.adverseRow]
        by_cases hcandidate : row.kind = .recoveryCandidate
        · rw [heard_append_candidate _ hcandidate]
          exact hinv.adverseRow
        · rw [heard_append _ hcandidate, lastAdverse_append_other _ hkind]
          exact hinv.adverseRow
      refine ⟨hadverse, hfrontiers, ?_, fun hclear => ?_⟩
      · intro span hspan
        rcases hsame.run with hnone | ⟨hsameRun, hsameBoundary⟩
        · exact absurd (hnone.symm.trans hspan) (by simp)
        · obtain ⟨earlier, first, later, hkeeps⟩ := hinv.run span (hsameRun.symm.trans hspan)
          rcases hrun with hcandidate | hnone | hunregistered
          · rw [heard_append_candidate _ hcandidate, hsameBoundary]
            exact ⟨earlier, first, later, hkeeps⟩
          · exact absurd (hnone.symm.trans hspan) (by simp)
          · exact absurd hkeeps.registered hunregistered
      · rw [hsame.state] at hclear
        cases hclear
  | @positive source hold begin limit hsource hhold hnonneg hcompatible _ hevidence =>
      obtain ⟨hadverse, hcandidate⟩ := hevidence.not_adverse
      have hpositive := hevidence.positive hsource hcompatible hprocessed
      rw [hinv.adverseRow] at hevidence
      rw [through_true hp] at hcomplete ⊢
      refine ⟨?_, hfrontiers, ?_, fun hclear => ?_⟩
      · rw [heard_append _ hcandidate, lastAdverse_append_other _ hadverse]
        exact hinv.adverseRow
      · intro span hspan
        obtain rfl := Option.some.inj hspan
        rw [heard_append _ hcandidate]
        have hopened := AssessmentService.Keeps.opened hevidence hpositive ⟨hold, hhold, hnonneg⟩
        unfold Progress.continued
        cases hrun : (p.enter row.boundary).run with
        | none => exact ⟨_, _, _, hopened⟩
        | some kept =>
            dsimp only
            split
            · exact ⟨_, _, _, hopened⟩
            · rename_i hlimit
              obtain ⟨hsame, hkept⟩ : p.positiveBoundary = some row.boundary ∧ p.run = some kept := by
                unfold Progress.enter at hrun
                dsimp only at hrun
                split at hrun
                · exact ⟨‹_›, hrun⟩
                · cases hrun
              obtain ⟨earlier, first, later, hkeeps⟩ := hinv.run kept hkept
              rw [hsame] at hkeeps
              exact ⟨_, _, _, hkeeps.extended rfl hsource hevidence hpositive hlimit⟩
      · refine ⟨_, hold, source, rfl, hhold, hnonneg, ?_, ?_, rfl⟩
        · by_contra hshort
          unfold Progress.positive at hclear
          dsimp only at hclear hshort
          rw [if_neg hshort] at hclear
          cases hclear
        · intro boundary hboundary
          obtain rfl : row.boundary = boundary := Option.some.inj hboundary
          exact hsource

theorem recoveryInv_of_loop
    (h : rows.foldlM (service.observe context subject riskType rule) {} = .ok p)
    (hcomplete : p.complete = true) : RecoveryInv service rule rows p := by
  have hinit : RecoveryInv service rule [] {} :=
    ⟨rfl, by simp, (by intro span hspan; cases hspan), (by intro hclear; cases hclear)⟩
  have hloop := foldlM_invariant
    (I := fun rows (p : Progress) => p.complete = true → RecoveryInv service rule rows p)
    (fun _ _ _ _ hinv hstep hcomplete => RecoveryInv.step hinv hstep hcomplete)
    (fun _ => hinit) h
  exact hloop hcomplete

theorem status_clear (h : p.status context = .clear) :
    p.state = .clear ∧ p.complete = true ∧ ∀ validity, p.validity = some validity →
      context.asOf < validity := by
  unfold Progress.status at h
  split at h
  · rename_i hnone
    unfold Progress.objections at hnone
    refine ⟨h, ?_, ?_⟩
    · by_contra hcomplete
      simp [hcomplete] at hnone
    · intro validity hvalidity
      by_contra hexpired
      simp [hvalidity, not_lt.mp hexpired] at hnone
  · cases h

end Loop

/-! ## Clear subjects -/

theorem nonneg_of_totalSeconds {span : ℤ} (h : 0 ≤ totalSeconds span) : 0 ≤ span := by
  by_contra hneg
  have hlt : (span : ℚ) < 0 := by exact_mod_cast not_le.mp hneg
  unfold totalSeconds at h
  exact absurd h (not_le.mpr (div_neg_of_neg_of_pos hlt (by norm_num)))

theorem mem_subjectRows {context : EvaluationContext} {exclusiveEnd : Bool}
    {rows : List Observation} {subject : String} {o : Observation} :
    o ∈ subjectRows context exclusiveEnd rows subject ↔
      o ∈ rows ∧ o.subjectKey = subject ∧ considered context exclusiveEnd o = true := by
  unfold subjectRows
  rw [Paging.mem_ordered, List.mem_filter, List.mem_filter, decide_eq_true_iff]
  tauto

/-- A subject reported clear is clear when no run opened before an adverse observation
had ended. -/
theorem clear_is_recovered {context : EvaluationContext} {exclusiveEnd : Bool}
    {rows : List Observation} {report : Report}
    (h : service.evaluate context exclusiveEnd rows = .ok report) {check : Check}
    (hcheck : check ∈ report.checks) (hclear : check.status = .clear)
    (hended : service.AdverseEnded context exclusiveEnd rows check.subjectKey) :
    ∃ run start finish,
      service.Recovered context exclusiveEnd rows check.subjectKey run start finish := by
  obtain ⟨results, hresults, hchecks, -⟩ := evaluate_eq_ok h
  rw [hchecks, List.mem_map] at hcheck
  obtain ⟨result, hresult, rfl⟩ := hcheck
  obtain ⟨subject, -, hassess⟩ := exists_of_mem_results hresults hresult
  obtain ⟨riskType, p, hloop, rfl, hstatus, -⟩ := assessSubject_eq_ok hassess
  obtain ⟨hstate, hcomplete, hfresh⟩ := status_clear (hstatus.symm.trans hclear)
  have hinv := recoveryInv_of_loop hloop hcomplete
  obtain ⟨span, hold, source, hspan, hhold, hnonneg, hlong, hsource, hvalidity⟩ := hinv.clear hstate
  obtain ⟨earlier, first, later, hkeeps⟩ := hinv.run span hspan
  obtain ⟨last, hlast, hend⟩ := hkeeps.last
  have hboundary := hkeeps.boundary
  -- every observation of the run is one of the rows
  have hrun : ∀ o ∈ first :: later, o ∈ subjectRows context exclusiveEnd rows
      result.1.subjectKey := by
    intro o ho
    have hmem : o ∈ heard (subjectRows context exclusiveEnd rows result.1.subjectKey) := by
      rw [hkeeps.rows]
      exact List.mem_append_right _ ho
    exact List.mem_of_mem_filter hmem
  have hspan_le : 0 ≤ span.last - span.start := nonneg_of_totalSeconds (hnonneg.trans hlong)
  refine ⟨first :: later, span.start, span.last, ?_⟩
  refine ⟨⟨hold, hhold, hnonneg, hlong⟩, hinv.frontiers, ?_, ?_, hkeeps.unbroken, ?_, ?_, ?_⟩
  · intro o ho
    obtain ⟨hstored, hsubject, -⟩ := mem_subjectRows.mp (hrun o ho)
    exact ⟨hstored, hsubject⟩
  · refine ⟨first.boundary, fun o ho => ?_⟩
    exact Option.some.inj ((hboundary o ho).symm.trans (hboundary first List.mem_cons_self))
  · refine ⟨first, rfl, ?_⟩
    have hopening := hkeeps.start
    unfold opening at hopening
    have hwithin : span.start ≤ first.intervalEnd := by
      by_cases hlater : later = []
      · subst hlater
        obtain rfl : first = last := Option.some.inj hlast
        omega
      · exact hkeeps.within hlater
    cases hkind : first.kind with
    | adverse | recoveryCandidate | stateSnapshot => simpa only [hkind] using hopening
    | coverage c =>
        simp only [hkind] at hopening
        exact ⟨hopening ▸ start_le_coverageBegin _ _, hwithin⟩
  · have hsame := hsource last.boundary (hboundary last (List.mem_of_getLast? hlast))
    refine ⟨last, hlast, hend, source, hsame, hfresh _ hvalidity⟩
  · intro o hstored hsubject hadverse
    have hwalked : o ∈ subjectRows context exclusiveEnd rows result.1.subjectKey :=
      mem_subjectRows.mpr ⟨hstored, hsubject, hended.considered o hstored hsubject hadverse⟩
    have hheard : o ∈ heard (subjectRows context exclusiveEnd rows result.1.subjectKey) := by
      refine List.mem_filter.mpr ⟨hwalked, ?_⟩
      have hkind : o.kind = .adverse := by simpa [Observation.isAdverse] using hadverse
      simp [hkind]
    rw [hkeeps.rows, List.mem_append] at hheard
    rcases hheard with hearlier | hinRun
    · rw [hkeeps.start]
      exact hended.opens earlier first later hkeeps.rows hkeeps.unbroken o hearlier hadverse
    · -- the observations of the run are positive ones
      obtain ⟨source, -, -, -, hpositive⟩ := hkeeps.unbroken.positive o hinRun
      have hkind : o.kind = .adverse := by simpa [Observation.isAdverse] using hadverse
      simp only [hkind] at hpositive

/-! ## A recovery inside an adverse interval -/

/-- A source that reports the state of a node, and the rule it serves. -/
def readySource : SourceEntry where
  enabled := true
  sourceEpoch := some "epoch-1"
  configRevision := some "rev-1"
  capability := some "authoritative_state"
  freshnessSeconds := some (.int 300)
  maxGapSeconds := some (.int 60)
  allowedLatenessSeconds := some (.int 60)
  keys := ["environment", "cluster", "node_ids", "signals", "permitted_actors"]

def readyRule : Rule where
  mode := some (.str "state")
  holdSeconds := some (.int 5)
  recoverySignal := some (.str "node_ready")
  positiveField := some (.str "ready")
  positiveValue := some (.bool true)

def readyService : AssessmentService where
  digest := fun parts => parts.foldl (fun text part => text ++ part ++ ";") ""
  policies :=
    { sources := ⟨[("kubelet", readySource)], by decide⟩
      rules := ⟨[("node_not_ready", readyRule)], by decide⟩ }
  receipts := ⟨[("batch:kubelet;send-1;", ⟨"batch-1", true⟩)], by decide⟩

/-- An observation of the node, from the second `start` to the second `end'`. -/
def readyObservation (id : String) (kind : Kind) (start stop : ℕ) (h : start ≤ stop) :
    Observation where
  observationId := id
  subjectKey := "node-1"
  sourceId := "kubelet"
  sourceEpoch := "epoch-1"
  configRevision := "rev-1"
  idempotencyKey := "send-1"
  batchDigest := "batch-1"
  mode := .current
  intervalStart := seconds start
  intervalEnd := seconds stop
  kind := kind
  riskType := "node_not_ready"
  signalCode := "node_ready"
  identity := ⟨"c", "n", none, "node", "n", some "boot-1"⟩
  typedFields := ⟨[("ready", .bool true)], by decide⟩
  sourceSequence := start
  start_le_end := by unfold seconds; omega

/-- The snapshots lie within the adverse interval, which is walked first. -/
def insideAdverse : List Observation :=
  [readyObservation "a" .adverse 0 100 (by decide),
    readyObservation "s" .stateSnapshot 10 10 (by decide),
    readyObservation "t" .stateSnapshot 16 16 (by decide)]

def afterAdverse : List Observation :=
  [readyObservation "a" .adverse 0 5 (by decide),
    readyObservation "s" .stateSnapshot 10 10 (by decide),
    readyObservation "t" .stateSnapshot 16 16 (by decide)]

theorem recovery_inside_adverse :
    ∃ report check, readyService.evaluate ⟨.current, seconds 200⟩ false insideAdverse = .ok report ∧
      check ∈ report.checks ∧ check.status = .clear ∧
      ¬∃ run start finish, readyService.Recovered ⟨.current, seconds 200⟩ false insideAdverse
        check.subjectKey run start finish := by
  refine ⟨_, _, rfl, List.mem_cons_self, by decide +kernel, ?_⟩
  rintro ⟨run, start, finish, h⟩
  have hadverse : seconds 100 ≤ start := h.adverse _ List.mem_cons_self rfl rfl
  obtain ⟨first, hfirst, hstart⟩ := h.starts
  have hmem : first ∈ run := List.mem_of_head? hfirst
  obtain ⟨source, -, -, -, hpositive⟩ := h.unbroken.positive first hmem
  have hstored := (h.stored first hmem).1
  simp only [insideAdverse, List.mem_cons, List.not_mem_nil, or_false] at hstored
  rcases hstored with rfl | rfl | rfl
  · exact hpositive
  · have hten : start = seconds 10 := hstart
    unfold seconds at hadverse hten
    omega
  · have hsixteen : start = seconds 16 := hstart
    unfold seconds at hadverse hsixteen
    omega

theorem recovery_after_adverse :
    ∃ run start finish, readyService.Recovered ⟨.current, seconds 200⟩ false afterAdverse "node-1"
      run start finish := by
  have hended : readyService.AdverseEnded ⟨.current, seconds 200⟩ false afterAdverse "node-1" := by
    refine ⟨?_, ?_⟩
    · intro o ho _ _
      simp only [afterAdverse, List.mem_cons, List.not_mem_nil, or_false] at ho
      rcases ho with rfl | rfl | rfl <;> decide
    · intro earlier first later hrows hunbroken a ha hadverse
      have hstored : ∀ o ∈ earlier ++ first :: later, o ∈ afterAdverse := by
        intro o ho
        rw [← hrows] at ho
        exact (mem_subjectRows.mp (List.mem_of_mem_filter ho)).1
      have hlate : seconds 10 ≤ opening earlier first := by
        obtain ⟨source, -, -, -, hpositive⟩ := hunbroken.positive first List.mem_cons_self
        have hfirst := hstored first (List.mem_append_right _ List.mem_cons_self)
        simp only [afterAdverse, List.mem_cons, List.not_mem_nil, or_false] at hfirst
        rcases hfirst with rfl | rfl | rfl
        · exact hpositive.elim
        · exact le_refl (seconds 10)
        · show seconds 10 ≤ seconds 16
          decide
      have hsoon : a.intervalEnd = seconds 5 := by
        have hmem := hstored a (List.mem_append_left _ ha)
        simp only [afterAdverse, List.mem_cons, List.not_mem_nil, or_false] at hmem
        rcases hmem with rfl | rfl | rfl
        · rfl
        · cases hadverse
        · cases hadverse
      have hfive : seconds 5 ≤ seconds 10 := by decide
      omega
  obtain ⟨report, check, hok, hmem, hclear, hsubject⟩ : ∃ report check,
      readyService.evaluate ⟨.current, seconds 200⟩ false afterAdverse = .ok report ∧
        check ∈ report.checks ∧ check.status = .clear ∧ check.subjectKey = "node-1" :=
    ⟨_, _, rfl, List.mem_cons_self, by decide +kernel, rfl⟩
  rw [← hsubject] at hended ⊢
  exact clear_is_recovered hok hmem hclear hended

end LogRisk.ServerRisk
