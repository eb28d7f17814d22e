import LogRisk.ServerRisk.Observation
import LogRisk.Library.Paging
import Mathlib.Data.Prod.Lex
import Mathlib.Data.String.Basic

/-!
# The assessment of a subject

`AssessmentService._subject` walks the observations of one subject in the order
of their starts.  It keeps the current episode, the last adverse observation and
the positive observations that have followed one another without a break since
`start`; once these last as long as the rule asks, the subject is clear.
-/

namespace LogRisk.ServerRisk

open LogRisk.Library LogRisk.Library.Transaction

/-- Microseconds in so many seconds. -/
def seconds (n : ℤ) : ℤ := n * 1000000

/-- `timedelta.total_seconds()`. -/
def totalSeconds (span : ℤ) : ℚ := span / 1000000

/-! ## The service -/

/-- A row of `server_risk_projection_state` for a received batch. -/
structure Receipt where
  inputRevision : String
  complete : Bool
deriving DecidableEq

structure AssessmentService where
  digest : List String → String
  policies : Policies
  receipts : Dict String Receipt

variable (service : AssessmentService)

/-- `_frontier_complete`. -/
def AssessmentService.frontierComplete (row : Observation) : Bool :=
  let key := "batch:" ++ service.digest [row.sourceId, row.idempotencyKey]
  match service.receipts.get? key with
  | none => false
  | some saved => decide (saved.inputRevision = row.batchDigest) && saved.complete

/-- The row was submitted under the registration now in force. -/
def Source.compatible (source : Source) (row : Observation) : Bool :=
  decide (row.sourceEpoch = source.sourceEpoch) &&
    decide (row.configRevision = source.configRevision)

/-! ## Positive evidence -/

/-- A snapshot that shows the state the rule waits for. -/
def snapshotPositive (rule : Rule) (source : Source) (row : Observation) : Bool :=
  let satisfied := decide (source.capability = .authoritativeState) &&
    (rule.isMode "state" || rule.isMode "hardware") &&
    decide (rule.recoverySignal = some (.str row.signalCode)) &&
    match row.field rule.positiveField, rule.positiveValue with
    | none, none => true
    | some value, some expected => value.same expected
    | _, _ => false
  if rule.isMode "hardware" then
    satisfied && decide (row.signalCode = "gpu_recovery_verified") && row.isTrue "verified"
  else satisfied

/-- Coverage without gaps of all the signals the rule needs. -/
def coveragePositive (rule : Rule) (source : Source) (row : Observation) (c : Coverage)
    (needed : List String) : Bool :=
  let satisfied := decide (source.capability = .completeEventStream) && rule.isMode "quiet" &&
    decide (needed ≠ []) && needed.all (· ∈ c.signalCodes) && c.gaps.isEmpty &&
    decide (c.droppedCount = 0) && decide (c.parseFailureCount = 0) &&
    decide (c.completeThrough = row.intervalEnd)
  if rule.requiresActivity.any Scalar.truthy then
    satisfied && row.isTrue "activity" && row.isTrue "success"
  else satisfied

/-! ## Episodes -/

inductive Lifecycle where
  | «open»
  | resolved
deriving DecidableEq

structure Episode where
  episodeId : String
  subjectKey : String
  riskType : String
  identity : Identity
  severity : Scalar
  firstAdverse : ℤ
  lastAdverse : ℤ
  candidateStart : Option ℤ
  resolvedAt : Option ℤ
  previousEpisodeId : Option String
  lifecycle : Lifecycle
deriving DecidableEq

inductive Status where
  | unknown
  | present
  | recovering
  | clear
deriving DecidableEq

/-- `candidate` and `last_positive`, which are set and cleared together. -/
structure Span where
  start : ℤ
  last : ℤ
deriving DecidableEq

/-- The variables of the loop.  `rounds` is `closed` followed by `current`. -/
structure Progress where
  closed : List Episode := []
  current : Option Episode := none
  run : Option Span := none
  positiveBoundary : Option Boundary := none
  lastKnown : Option Status := none
  state : Status := .unknown
  reasons : List String := []
  validity : Option ℤ := none
  evidenceAt : Option ℤ := none
  complete : Bool := true
  adverseRow : Option Observation := none
  evidenceMode : Option Mode := none

namespace Progress

def rounds (p : Progress) : List Episode := p.closed ++ p.current.toList

/-- `reasons.append(reason)`. -/
def note (p : Progress) (reason : String) : Progress := { p with reasons := p.reasons ++ [reason] }

/-- The state is unknown, but positive evidence may still continue the run. -/
def doubt (p : Progress) (reason : String) : Progress := { p.note reason with state := .unknown }

/-- The state is unknown and the run is broken. -/
def breakRun (p : Progress) (reason : String) : Progress := { p.doubt reason with run := none }

/-- The current episode goes on, or a new one begins. -/
def episodeFor (p : Progress) (digest : List String → String) (subject riskType : String)
    (row : Observation) : List Episode × Episode :=
  let opened (closed : List Episode) : Episode :=
    { episodeId := digest [subject, row.observationId], subjectKey := subject, riskType
      identity := row.identity, severity := row.severity, firstAdverse := row.intervalStart
      lastAdverse := row.intervalEnd, candidateStart := none, resolvedAt := none
      previousEpisodeId := closed.getLast?.map Episode.episodeId, lifecycle := .open }
  match p.current with
  | none => (p.closed, opened p.closed)
  | some e =>
      if e.resolvedAt.isSome then (p.closed ++ [e], opened (p.closed ++ [e])) else (p.closed, e)

/-- The start of the run after a further positive observation, which begins at
`begin` and continues the run when that is no later than `limit` after its last. -/
def continued (p : Progress) (begin limit : ℤ) : ℤ :=
  match p.run with
  | none => begin
  | some r => if limit < begin - r.last then begin else r.start

/-- A positive observation: the run reaches to its end. -/
def positive (p : Progress) (hold : ℚ) (source : Source) (row : Observation) (start : ℤ) :
    Progress :=
  let state := if hold ≤ totalSeconds (row.intervalEnd - start) then Status.clear else .recovering
  let settle (e : Episode) : Episode :=
    if e.resolvedAt.isSome then e
    else if state = .clear then
      { e with candidateStart := some start, resolvedAt := some row.intervalEnd
               lifecycle := .resolved }
    else { e with candidateStart := some start }
  { p with
    current := p.current.map settle, run := some ⟨start, row.intervalEnd⟩, state
    lastKnown := some state, reasons := [], evidenceAt := some row.intervalEnd
    evidenceMode := some row.mode
    validity := some (row.intervalEnd + seconds source.freshnessSeconds) }

end Progress

/-! ## One observation -/

/-- How and when the assessment is made. -/
structure EvaluationContext where
  mode : Mode
  asOf : ℤ

/-- An adverse observation. -/
def Progress.adverse (p : Progress) (digest : List String → String) (context : EvaluationContext)
    (subject riskType : String) (source : Source) (row : Observation) : Progress :=
  let (closed, e) := p.episodeFor digest subject riskType row
  let recent := source.compatible row &&
    (decide (row.mode = .current) || decide (context.mode = .historical)) &&
    decide (context.asOf - row.intervalEnd ≤ seconds source.freshnessSeconds)
  let p' : Progress := { p with
    closed, current := some { e with
      lastAdverse := row.intervalEnd, severity := severer e.severity row.severity }
    adverseRow := some row, run := none, lastKnown := some .present
    state := if recent then .present else .unknown, evidenceAt := some row.intervalEnd
    evidenceMode := some row.mode
    validity := some (row.intervalEnd + seconds source.freshnessSeconds) }
  if recent then p' else p'.note "adverse_evidence_expired_or_historical"

/-- The boot the last adverse observation speaks of is another one. -/
def Progress.bootDiffers (p : Progress) (row : Observation) : Bool :=
  p.adverseRow.any fun adverse => decide (row.identity.bootId ≠ adverse.identity.bootId)

/-- A run of another boundary is not continued. -/
def Progress.enter (p : Progress) (boundary : Boundary) : Progress :=
  { p with
    run := if p.positiveBoundary = some boundary then p.run else none
    positiveBoundary := some boundary }

/-- Where the coverage of a stream begins to count. -/
def coverageBegin (adverseRow : Option Observation) (row : Observation) : ℤ :=
  match adverseRow with
  | none => row.intervalStart
  | some adverse => max row.intervalStart adverse.intervalEnd

/-- A snapshot or coverage whose rule, registration and boot have been checked. -/
def Progress.evidence (p : Progress) (rule : Rule) (hold : ℚ) (source : Source)
    (row : Observation) : Except Fault Progress :=
  match row.kind with
  | .coverage c =>
      rule.needed.bind fun needed =>
        if coveragePositive rule source row c needed then
          .ok (p.positive hold source row (p.continued (coverageBegin p.adverseRow row) 0))
        else .ok (p.breakRun "coverage_incomplete_or_activity_missing")
  | _ =>
      if snapshotPositive rule source row then
        .ok (p.positive hold source row
          (p.continued row.intervalEnd (seconds source.maxGapSeconds)))
      else .ok (p.breakRun "state_check_not_satisfied")

/-- A snapshot or coverage. -/
def Progress.recovery (p : Progress) (rule : Rule) (source : Source) (processed : Bool)
    (row : Observation) : Except Fault Progress :=
  match rule.holdSeconds with
  | none => .ok (p.doubt "recovery_policy_unregistered")
  | some value =>
      (orFail value.number? .typeError).bind fun hold =>
        if hold < 0 then .ok (p.doubt "recovery_policy_unregistered")
        else if !source.compatible row || !processed then
          .ok (p.breakRun "evidence_epoch_or_frontier_unverified")
        else if !rule.isMode "hardware" && p.bootDiffers row then
          .ok (p.breakRun "boot_incompatible")
        else (p.enter row.boundary).evidence rule hold source row

/-- `complete = complete and processed`. -/
def Progress.through (p : Progress) (processed : Bool) : Progress :=
  { p with complete := p.complete && processed }

/-- The body of the loop. -/
def AssessmentService.observe (context : EvaluationContext) (subject riskType : String)
    (rule : Rule) (p : Progress) (row : Observation) : Except Fault Progress :=
  match service.policies.source row.sourceId with
  | .error _ => .ok { p.note "source_unregistered" with complete := false }
  | .ok source =>
      let processed := service.frontierComplete row
      let p := p.through processed
      match row.kind with
      | .adverse => .ok (p.adverse service.digest context subject riskType source row)
      | .recoveryCandidate => .ok (p.doubt "recovery_candidate_not_authoritative")
      | _ => p.recovery rule source processed row

/-! ## What one observation does -/

/-- The state is unknown, the episodes are as they were, and the run is broken or
as it was. -/
structure Progress.Unsettled (p p' : Progress) : Prop where
  closed : p'.closed = p.closed
  current : p'.current = p.current
  adverseRow : p'.adverseRow = p.adverseRow
  complete : p'.complete = p.complete
  state : p'.state = .unknown
  run : p'.run = none ∨ p'.run = p.run ∧ p'.positiveBoundary = p.positiveBoundary

theorem Progress.unsettled_doubt (p : Progress) (reason : String) :
    p.Unsettled (p.doubt reason) :=
  ⟨rfl, rfl, rfl, rfl, rfl, Or.inr ⟨rfl, rfl⟩⟩

theorem Progress.unsettled_breakRun (p : Progress) (reason : String) :
    p.Unsettled (p.breakRun reason) :=
  ⟨rfl, rfl, rfl, rfl, rfl, Or.inl rfl⟩

theorem Progress.unsettled_enter (p : Progress) (boundary : Boundary) (reason : String) :
    p.Unsettled ((p.enter boundary).breakRun reason) :=
  ⟨rfl, rfl, rfl, rfl, rfl, Or.inl rfl⟩

/-- The observation tests as positive, beginning at `begin` and continuing what
ended at most `limit` before. -/
inductive Evidence (rule : Rule) (source : Source) (adverseRow : Option Observation)
    (row : Observation) : ℤ → ℤ → Prop where
  | snapshot (hkind : row.kind = .stateSnapshot) (h : snapshotPositive rule source row = true) :
      Evidence rule source adverseRow row row.intervalEnd (seconds source.maxGapSeconds)
  | coverage {c : Coverage} {needed : List String} (hkind : row.kind = .coverage c)
      (hneeded : rule.needed = .ok needed)
      (h : coveragePositive rule source row c needed = true) :
      Evidence rule source adverseRow row (coverageBegin adverseRow row) 0

/-- What the body of the loop can make of an observation. -/
inductive Outcome (context : EvaluationContext) (subject riskType : String) (rule : Rule)
    (p : Progress) (row : Observation) : Progress → Prop where
  | unregistered {e : Fault} (hsource : service.policies.source row.sourceId = .error e) :
      Outcome context subject riskType rule p row
        { p.note "source_unregistered" with complete := false }
  | adverse {source : Source} (hsource : service.policies.source row.sourceId = .ok source)
      (hkind : row.kind = .adverse) :
      Outcome context subject riskType rule p row
        ((p.through (service.frontierComplete row)).adverse service.digest context subject
          riskType source row)
  | unsettled {source : Source} {p' : Progress}
      (hsource : service.policies.source row.sourceId = .ok source)
      (hkind : row.kind ≠ .adverse)
      (hrun : row.kind = .recoveryCandidate ∨ p'.run = none ∨ ¬rule.Registered)
      (h : (p.through (service.frontierComplete row)).Unsettled p') :
      Outcome context subject riskType rule p row p'
  | positive {source : Source} {hold : ℚ} {begin limit : ℤ}
      (hsource : service.policies.source row.sourceId = .ok source)
      (hhold : rule.hold? = some hold) (hnonneg : 0 ≤ hold) (hcompatible : source.compatible row = true)
      (hprocessed : service.frontierComplete row = true)
      (hevidence : Evidence rule source p.adverseRow row begin limit) :
      Outcome context subject riskType rule p row
        (((p.through true).enter row.boundary).positive hold source row
          (((p.through true).enter row.boundary).continued begin limit))

theorem Progress.evidence_outcome {p p' : Progress} {rule : Rule} {hold : ℚ} {source : Source}
    {row : Observation} (hkind : row.kind ≠ .adverse) (hcandidate : row.kind ≠ .recoveryCandidate)
    (h : p.evidence rule hold source row = .ok p') :
    (∃ reason, p' = p.breakRun reason) ∨
      ∃ begin limit, Evidence rule source p.adverseRow row begin limit ∧
        p' = p.positive hold source row (p.continued begin limit) := by
  unfold Progress.evidence at h
  cases hrow : row.kind with
  | adverse => exact absurd hrow hkind
  | recoveryCandidate => exact absurd hrow hcandidate
  | stateSnapshot =>
      rw [hrow] at h
      by_cases hpositive : snapshotPositive rule source row = true
      · rw [if_pos hpositive] at h
        exact Or.inr ⟨_, _, .snapshot hrow hpositive, (Except.ok.inj h).symm⟩
      · rw [if_neg hpositive] at h
        exact Or.inl ⟨_, (Except.ok.inj h).symm⟩
  | coverage c =>
      rw [hrow] at h
      obtain ⟨needed, hneeded, h⟩ := bind_eq_ok.mp h
      by_cases hpositive : coveragePositive rule source row c needed = true
      · rw [if_pos hpositive] at h
        exact Or.inr ⟨_, _, .coverage hrow hneeded hpositive, (Except.ok.inj h).symm⟩
      · rw [if_neg hpositive] at h
        exact Or.inl ⟨_, (Except.ok.inj h).symm⟩

theorem Progress.recovery_outcome {p p' : Progress} {rule : Rule} {source : Source}
    {processed : Bool} {row : Observation} (hkind : row.kind ≠ .adverse)
    (hcandidate : row.kind ≠ .recoveryCandidate)
    (h : p.recovery rule source processed row = .ok p') :
    (p.Unsettled p' ∧ (p'.run = none ∨ ¬rule.Registered)) ∨
      ∃ hold begin limit, rule.hold? = some hold ∧ 0 ≤ hold ∧ source.compatible row = true ∧
        processed = true ∧ Evidence rule source p.adverseRow row begin limit ∧
        p' = (p.enter row.boundary).positive hold source row
          ((p.enter row.boundary).continued begin limit) := by
  unfold Progress.recovery at h
  cases hvalue : rule.holdSeconds with
  | none =>
      rw [hvalue] at h
      obtain rfl := Except.ok.inj h
      refine Or.inl ⟨p.unsettled_doubt _, Or.inr ?_⟩
      rintro ⟨hold, hhold, -⟩
      simp [Rule.hold?, hvalue] at hhold
  | some value =>
      rw [hvalue] at h
      obtain ⟨hold, hnumber, h⟩ := orFail_bind_eq_ok.mp h
      have hhold : rule.hold? = some hold := by simp [Rule.hold?, hvalue, hnumber]
      by_cases hneg : hold < 0
      · rw [if_pos hneg] at h
        obtain rfl := Except.ok.inj h
        refine Or.inl ⟨p.unsettled_doubt _, Or.inr ?_⟩
        rintro ⟨hold', hhold', hnonneg⟩
        obtain rfl := Option.some.inj (hhold'.symm.trans hhold)
        exact absurd hneg (not_lt.mpr hnonneg)
      rw [if_neg hneg] at h
      by_cases hverified : (!source.compatible row || !processed) = true
      · rw [if_pos hverified] at h
        obtain rfl := Except.ok.inj h
        exact Or.inl ⟨p.unsettled_breakRun _, Or.inl rfl⟩
      rw [if_neg hverified] at h
      by_cases hboot : (!rule.isMode "hardware" && p.bootDiffers row) = true
      · rw [if_pos hboot] at h
        obtain rfl := Except.ok.inj h
        exact Or.inl ⟨p.unsettled_breakRun _, Or.inl rfl⟩
      rw [if_neg hboot] at h
      obtain ⟨reason, rfl⟩ | ⟨begin, limit, hevidence, rfl⟩ :=
        Progress.evidence_outcome hkind hcandidate h
      · exact Or.inl ⟨p.unsettled_enter _ _, Or.inl rfl⟩
      · have hboth : source.compatible row = true ∧ processed = true := by simpa using hverified
        exact Or.inr ⟨hold, begin, limit, hhold, not_lt.mp hneg, hboth.1, hboth.2, hevidence, rfl⟩

theorem observe_outcome {context : EvaluationContext} {subject riskType : String} {rule : Rule}
    {p p' : Progress} {row : Observation}
    (h : service.observe context subject riskType rule p row = .ok p') :
    Outcome service context subject riskType rule p row p' := by
  unfold AssessmentService.observe at h
  cases hsource : service.policies.source row.sourceId with
  | error e =>
      rw [hsource] at h
      obtain rfl := Except.ok.inj h
      exact .unregistered hsource
  | ok source =>
      rw [hsource] at h
      by_cases hadverse : row.kind = .adverse
      · simp only [hadverse] at h
        obtain rfl := Except.ok.inj h
        exact .adverse hsource hadverse
      by_cases hcandidate : row.kind = .recoveryCandidate
      · simp only [hcandidate] at h
        obtain rfl := Except.ok.inj h
        exact .unsettled hsource hadverse (Or.inl hcandidate) (Progress.unsettled_doubt _ _)
      have hrecovery : (p.through (service.frontierComplete row)).recovery rule source
          (service.frontierComplete row) row = .ok p' := by
        cases hkind : row.kind with
        | adverse => exact absurd hkind hadverse
        | recoveryCandidate => exact absurd hkind hcandidate
        | stateSnapshot | coverage c => simpa only [hkind] using h
      obtain ⟨hunsettled, hrun⟩ |
        ⟨hold, begin, limit, hhold, hnonneg, hcompatible, hprocessed, hevidence, rfl⟩ :=
          Progress.recovery_outcome hadverse hcandidate hrecovery
      · exact .unsettled hsource hadverse (Or.inr hrun) hunsettled
      · rw [hprocessed] at hevidence ⊢
        exact .positive hsource hhold hnonneg hcompatible hprocessed hevidence

/-! ## The report -/

/-- What is reported of a subject. -/
structure Check where
  subjectKey : String
  identity : Identity
  riskType : String
  status : Status
  severity : Scalar
  evidenceAt : Option ℤ
  validUntil : Option ℤ
  lastKnownState : Option Status
  reasons : List String
  evidenceRefs : List String
  projectionComplete : Bool
  evaluationMode : Mode
  asOf : ℤ
  policy : Rule
  observedInterval : Option Span
  sourceBoundary : Boundary
  episodeRefs : List String

/-- `max([*severities, "unknown"], key=...)`. -/
def severest : List Scalar → Scalar
  | [] => .str "unknown"
  | s :: rest => (rest ++ [Scalar.str "unknown"]).foldl severer s

/-- What takes away from the state the loop ended in. -/
def Progress.objections (p : Progress) (context : EvaluationContext) : List String :=
  (if context.mode = .current ∧ p.evidenceMode = some .historical then
      ["historical_context_only"] else []) ++
    (if p.validity.any (· ≤ context.asOf) then ["evidence_expired"] else []) ++
    (if p.complete then [] else ["projection_pending"]) ++
    if p.evidenceAt = none then ["no_current_evidence"] else []

def Progress.status (p : Progress) (context : EvaluationContext) : Status :=
  if p.objections context = [] then p.state else .unknown

/-- `_subject`. -/
def AssessmentService.assessSubject (context : EvaluationContext) (subject : String)
    (rows : List Observation) : Except Fault (Check × List Episode) :=
  (orFail rows.getLast? .indexError).bind fun last =>
    let rule := (service.policies.rules.get? last.riskType).getD {}
    (rows.foldlM (service.observe context subject last.riskType rule) {}).bind fun p =>
      let status := p.status context
      .ok ({
        subjectKey := subject, identity := last.identity, riskType := last.riskType, status
        severity := severest ((rows.filter Observation.isAdverse).map Observation.severity)
        evidenceAt := p.evidenceAt
        validUntil := if status = .unknown then none else p.validity
        lastKnownState := p.lastKnown
        reasons := (p.reasons ++ p.objections context).dedup.insertionSort (· ≤ ·)
        evidenceRefs := rows.map Observation.observationId, projectionComplete := p.complete
        evaluationMode := context.mode, asOf := context.asOf, policy := rule
        observedInterval := p.run, sourceBoundary := last.boundary
        episodeRefs := p.rounds.map Episode.episodeId }, p.rounds)

/-- The observations the evaluation takes into account. -/
def considered (context : EvaluationContext) (exclusiveEnd : Bool) (row : Observation) : Bool :=
  decide (row.intervalEnd ≤ context.asOf) &&
    !(exclusiveEnd && decide (row.intervalStart = row.intervalEnd) &&
      decide (row.intervalEnd = context.asOf))

/-- The order in which the observations of a subject are walked. -/
def walkKey (row : Observation) : ℤ ×ₗ ℕ ×ₗ String :=
  toLex (row.intervalStart, toLex (row.sourceSequence, row.observationId))

/-- The observations of a subject as they are walked. -/
def subjectRows (context : EvaluationContext) (exclusiveEnd : Bool) (rows : List Observation)
    (subject : String) : List Observation :=
  Paging.ordered walkKey
    ((rows.filter (considered context exclusiveEnd)).filter fun row => row.subjectKey = subject)

structure Report where
  checks : List Check
  episodes : List Episode

/-- The subjects with an observation taken into account, `sorted(groups)`. -/
def subjectsOf (context : EvaluationContext) (exclusiveEnd : Bool) (rows : List Observation) :
    List String :=
  Paging.ordered id (Dict.groupBy Observation.subjectKey
    (rows.filter (considered context exclusiveEnd))).keys

/-- `evaluate`, as far as the checks and the episodes of the subjects go. -/
def AssessmentService.evaluate (context : EvaluationContext) (exclusiveEnd : Bool)
    (rows : List Observation) : Except Fault Report :=
  ((subjectsOf context exclusiveEnd rows).mapM fun subject =>
    service.assessSubject context subject (subjectRows context exclusiveEnd rows subject)).bind
      fun results => .ok { checks := results.map Prod.fst, episodes := results.flatMap Prod.snd }

/-! ## Successful evaluations -/

variable {service}

/-- The rule the subject is assessed by. -/
def AssessmentService.ruleFor (service : AssessmentService) (rows : List Observation) : Rule :=
  (rows.getLast?.bind fun last => service.policies.rules.get? last.riskType).getD {}

theorem assessSubject_eq_ok {context : EvaluationContext} {subject : String}
    {rows : List Observation} {result : Check × List Episode}
    (h : service.assessSubject context subject rows = .ok result) :
    ∃ riskType p, rows.foldlM (service.observe context subject riskType (service.ruleFor rows)) {} =
        .ok p ∧
      result.1.subjectKey = subject ∧ result.1.status = p.status context ∧ result.2 = p.rounds := by
  unfold AssessmentService.assessSubject at h
  obtain ⟨last, hlast, h⟩ := orFail_bind_eq_ok.mp h
  obtain ⟨p, hp, h⟩ := bind_eq_ok.mp h
  obtain rfl := Except.ok.inj h
  have hrule : service.ruleFor rows = (service.policies.rules.get? last.riskType).getD {} := by
    unfold AssessmentService.ruleFor
    rw [hlast, Option.bind_some]
  rw [← hrule] at hp
  exact ⟨last.riskType, p, hp, rfl, rfl, rfl⟩

theorem evaluate_eq_ok {context : EvaluationContext} {exclusiveEnd : Bool}
    {rows : List Observation} {report : Report}
    (h : service.evaluate context exclusiveEnd rows = .ok report) :
    ∃ results, List.Forall₂ (fun subject result => service.assessSubject context subject
        (subjectRows context exclusiveEnd rows subject) = .ok result)
        (subjectsOf context exclusiveEnd rows) results ∧
      report.checks = results.map Prod.fst ∧ report.episodes = results.flatMap Prod.snd := by
  unfold AssessmentService.evaluate at h
  obtain ⟨results, hresults, h⟩ := bind_eq_ok.mp h
  obtain rfl := Except.ok.inj h
  exact ⟨results, mapM_eq_ok.mp hresults, rfl, rfl⟩

end LogRisk.ServerRisk
