import LogRisk.ServerRisk.Recovery

/-!
# The episodes of a subject

The adverse observations of a subject, in the order they are walked, fall into
consecutive segments, one for each episode: an episode takes in every adverse
observation until positive evidence has resolved it.  Observations of sources that
are not registered are passed over.
-/

namespace LogRisk.ServerRisk

open LogRisk.Library LogRisk.Library.Transaction

/-- An adverse observation of a registered source. -/
def AssessmentService.counted (service : AssessmentService) (o : Observation) : Bool :=
  o.isAdverse && (service.policies.source o.sourceId).toBool

/-- The episode is the one of these adverse observations of the subject. -/
def Describes (service : AssessmentService) (subject : String) (segment : List Observation)
    (e : Episode) : Prop :=
  ∃ first rest, segment = first :: rest ∧
    e.episodeId = service.digest [subject, first.observationId] ∧ e.subjectKey = subject ∧
    e.identity = first.identity ∧ e.firstAdverse = first.intervalStart ∧
    e.severity = (rest.map Observation.severity).foldl severer first.severity

/-- Every episode names the one before it, the first of them `previous`. -/
def Linked (previous : Option String) : List Episode → Prop
  | [] => True
  | e :: es => e.previousEpisodeId = previous ∧ Linked (some e.episodeId) es

/-- What the episodes of a subject look like. -/
structure AssessmentService.WellFormed (service : AssessmentService) (subject : String)
    (adverse : List Observation) (episodes : List Episode) : Prop where
  segments : ∃ segments : List (List Observation), segments.flatten = adverse ∧
    List.Forall₂ (Describes service subject) segments episodes
  linked : Linked none episodes
  resolved : ∀ e ∈ episodes.dropLast, e.resolvedAt.isSome = true
  lifecycle : ∀ e ∈ episodes, e.lifecycle = .resolved ↔ e.resolvedAt.isSome = true

theorem linked_append {previous : Option String} {es : List Episode} {e : Episode} :
    Linked previous (es ++ [e]) ↔
      Linked previous es ∧
        e.previousEpisodeId = (es.getLast?.map Episode.episodeId).or previous := by
  induction es generalizing previous with
  | nil => simp [Linked]
  | cons d es ih =>
      rw [List.cons_append, Linked, Linked, ih, and_assoc]
      cases hlast : es.getLast? with
      | none =>
          rw [List.getLast?_eq_none_iff.mp hlast]
          simp
      | some last => simp [List.getLast?_cons, hlast]

variable {service : AssessmentService} {context : EvaluationContext} {subject riskType : String}
  {rule : Rule} {rows : List Observation} {p p' : Progress} {row : Observation}

/-! ## What an observation does to the episodes -/

theorem severer_self (s : Scalar) : severer s s = s := by
  unfold severer
  exact ite_self s

/-- No episode is going on. -/
def Progress.Idle (p : Progress) : Prop := ∀ e, p.current = some e → e.resolvedAt.isSome = true

theorem Progress.adverse_opens (h : p.Idle) (digest : List String → String)
    (context : EvaluationContext) (subject riskType : String) (source : Source)
    (row : Observation) :
    let p' := p.adverse digest context subject riskType source row
    p'.closed = p.rounds ∧ ∃ e, p'.current = some e ∧
      e.episodeId = digest [subject, row.observationId] ∧ e.subjectKey = subject ∧
      e.identity = row.identity ∧ e.firstAdverse = row.intervalStart ∧
      e.severity = row.severity ∧ e.lifecycle = .open ∧ e.resolvedAt = none ∧
      e.previousEpisodeId = p.rounds.getLast?.map Episode.episodeId := by
  have hparts : (p.adverse digest context subject riskType source row).closed =
      (p.episodeFor digest subject riskType row).1 ∧
      (p.adverse digest context subject riskType source row).current =
        some { (p.episodeFor digest subject riskType row).2 with
          lastAdverse := row.intervalEnd
          severity := severer (p.episodeFor digest subject riskType row).2.severity row.severity } := by
    unfold Progress.adverse Progress.note
    dsimp only
    split <;> exact ⟨rfl, rfl⟩
  dsimp only
  rw [hparts.1, hparts.2]
  unfold Progress.episodeFor Progress.rounds
  cases hcurrent : p.current with
  | none =>
      refine ⟨(List.append_nil _).symm, _, rfl, rfl, rfl, rfl, rfl, severer_self _, rfl, rfl, ?_⟩
      show p.closed.getLast?.map _ = (p.closed ++ []).getLast?.map _
      rw [List.append_nil]
  | some e =>
      dsimp only
      rw [if_pos (h e hcurrent)]
      exact ⟨rfl, _, rfl, rfl, rfl, rfl, rfl, severer_self _, rfl, rfl, rfl⟩

theorem Progress.adverse_extends {e : Episode} (hcurrent : p.current = some e)
    (hopen : e.resolvedAt.isSome = false) (digest : List String → String)
    (context : EvaluationContext) (subject riskType : String) (source : Source)
    (row : Observation) :
    let p' := p.adverse digest context subject riskType source row
    p'.closed = p.closed ∧ p'.current = some { e with
      lastAdverse := row.intervalEnd, severity := severer e.severity row.severity } := by
  have hepisode : p.episodeFor digest subject riskType row = (p.closed, e) := by
    unfold Progress.episodeFor
    rw [hcurrent]
    dsimp only
    rw [hopen]
    exact if_neg (by decide)
  unfold Progress.adverse Progress.note
  rw [hepisode]
  dsimp only
  split <;> exact ⟨rfl, rfl⟩

/-- Positive evidence settles the current episode. -/
theorem Progress.positive_settles (p : Progress) (hold : ℚ) (source : Source) (row : Observation)
    (start : ℤ) :
    let p' := p.positive hold source row start
    p'.closed = p.closed ∧ ∃ settle : Episode → Episode, p'.current = p.current.map settle ∧
      ∀ e, (settle e).episodeId = e.episodeId ∧ (settle e).subjectKey = e.subjectKey ∧
        (settle e).identity = e.identity ∧ (settle e).firstAdverse = e.firstAdverse ∧
        (settle e).severity = e.severity ∧ (settle e).previousEpisodeId = e.previousEpisodeId ∧
        ((e.lifecycle = .resolved ↔ e.resolvedAt.isSome = true) →
          ((settle e).lifecycle = .resolved ↔ (settle e).resolvedAt.isSome = true)) := by
  refine ⟨rfl, _, rfl, fun e => ?_⟩
  by_cases hresolved : e.resolvedAt.isSome = true
  · rw [if_pos hresolved]
    exact ⟨rfl, rfl, rfl, rfl, rfl, rfl, id⟩
  · rw [if_neg hresolved]
    split
    · exact ⟨rfl, rfl, rfl, rfl, rfl, rfl, fun _ => by simp⟩
    · exact ⟨rfl, rfl, rfl, rfl, rfl, rfl, id⟩

/-! ## The loop -/

/-- The episodes so far: those of `closed` are resolved and have the adverse
observations of `front`, the current one has the others. -/
structure EpisodesInv (service : AssessmentService) (subject : String) (rows : List Observation)
    (p : Progress) : Prop where
  segments : ∃ front, List.Forall₂ (Describes service subject) front p.closed ∧
    match p.current with
    | none => front = [] ∧ rows.filter service.counted = []
    | some e => ∃ segment, Describes service subject segment e ∧
        front.flatten ++ segment = rows.filter service.counted
  linked : Linked none p.rounds
  closed : ∀ e ∈ p.closed, e.resolvedAt.isSome = true
  lifecycle : ∀ e ∈ p.rounds, e.lifecycle = .resolved ↔ e.resolvedAt.isSome = true

/-- All the episodes with all the adverse observations. -/
theorem EpisodesInv.all (h : EpisodesInv service subject rows p) :
    ∃ segments, List.Forall₂ (Describes service subject) segments p.rounds ∧
      segments.flatten = rows.filter service.counted := by
  obtain ⟨front, hfront, hcurrent⟩ := h.segments
  unfold Progress.rounds
  cases hc : p.current with
  | none =>
      rw [hc] at hcurrent
      obtain ⟨rfl, hnone⟩ := hcurrent
      refine ⟨[], ?_, hnone.symm⟩
      rwa [Option.toList_none, List.append_nil]
  | some e =>
      rw [hc] at hcurrent
      obtain ⟨segment, hsegment, hflatten⟩ := hcurrent
      refine ⟨front ++ [segment], List.rel_append hfront (.cons hsegment .nil), ?_⟩
      rw [List.flatten_append, List.flatten_singleton]
      exact hflatten

theorem filter_counted_append (service : AssessmentService) (rows : List Observation)
    (row : Observation) :
    (rows ++ [row]).filter service.counted =
      rows.filter service.counted ++ if service.counted row = true then [row] else [] := by
  rw [List.filter_append]
  split
  · rw [List.filter_cons_of_pos ‹_›, List.filter_nil]
  · rw [List.filter_cons_of_neg ‹_›, List.filter_nil]

/-- What does not touch the episodes and is not counted changes nothing. -/
theorem EpisodesInv.passed (h : EpisodesInv service subject rows p)
    (hcounted : service.counted row = false) (hclosed : p'.closed = p.closed)
    (hcurrent : p'.current = p.current) : EpisodesInv service subject (rows ++ [row]) p' := by
  have hrounds : p'.rounds = p.rounds := by
    unfold Progress.rounds
    rw [hclosed, hcurrent]
  have hrows : (rows ++ [row]).filter service.counted = rows.filter service.counted := by
    rw [filter_counted_append, hcounted]
    exact List.append_nil _
  refine ⟨?_, hrounds ▸ h.linked, hclosed ▸ h.closed, hrounds ▸ h.lifecycle⟩
  rw [hclosed, hcurrent, hrows]
  exact h.segments

theorem EpisodesInv.opened (h : EpisodesInv service subject rows p) (hidle : p.Idle)
    (hcounted : service.counted row = true) (source : Source) :
    EpisodesInv service subject (rows ++ [row])
      (p.adverse service.digest context subject riskType source row) := by
  obtain ⟨hclosed, e, hcurrent, hid, hsubject, hidentity, hfirst, hseverity, hlifecycle,
    hunresolved, hprevious⟩ := p.adverse_opens hidle service.digest context subject riskType source row
  have hrounds : (p.adverse service.digest context subject riskType source row).rounds =
      p.rounds ++ [e] := by
    rw [Progress.rounds, hclosed, hcurrent]
    rfl
  have hresolved : ∀ e' ∈ p.rounds, e'.resolvedAt.isSome = true := by
    intro e' he'
    unfold Progress.rounds at he'
    rw [List.mem_append, Option.mem_toList] at he'
    rcases he' with he' | he'
    · exact h.closed e' he'
    · exact hidle e' he'
  obtain ⟨front, hfront, hflatten⟩ := h.all
  refine ⟨⟨front, ?_⟩, ?_, ?_, ?_⟩
  · rw [hclosed, hcurrent]
    refine ⟨hfront, [row], ⟨row, [], rfl, hid, hsubject, hidentity, hfirst, hseverity⟩, ?_⟩
    rw [filter_counted_append, if_pos hcounted, hflatten]
  · rw [hrounds, linked_append]
    refine ⟨h.linked, ?_⟩
    rw [hprevious, Option.or_none]
  · rw [hclosed]
    exact hresolved
  · rw [hrounds]
    intro e' he'
    rw [List.mem_append, List.mem_singleton] at he'
    rcases he' with he' | rfl
    · exact h.lifecycle e' he'
    · rw [hlifecycle, hunresolved]
      decide

/-- The current episode is replaced by one with the same links. -/
theorem EpisodesInv.replaced (h : EpisodesInv service subject rows p) {e e' : Episode}
    {rows' : List Observation} (hcurrent : p.current = some e) (hclosed' : p'.closed = p.closed)
    (hcurrent' : p'.current = some e') (hid : e'.episodeId = e.episodeId)
    (hprevious : e'.previousEpisodeId = e.previousEpisodeId)
    (hlifecycle : e'.lifecycle = .resolved ↔ e'.resolvedAt.isSome = true)
    (hsegment : ∀ segment, Describes service subject segment e →
      ∃ more, Describes service subject (segment ++ more) e' ∧
        rows'.filter service.counted = rows.filter service.counted ++ more) :
    EpisodesInv service subject rows' p' := by
  have hrounds : p.rounds = p.closed ++ [e] := by
    unfold Progress.rounds
    rw [hcurrent]
    rfl
  have hrounds' : p'.rounds = p.closed ++ [e'] := by
    unfold Progress.rounds
    rw [hclosed', hcurrent']
    rfl
  refine ⟨?_, ?_, hclosed' ▸ h.closed, ?_⟩
  · obtain ⟨front, hfront, hsegments⟩ := h.segments
    rw [hcurrent] at hsegments
    obtain ⟨segment, hdescribes, hflatten⟩ := hsegments
    obtain ⟨more, hmore, hrows⟩ := hsegment segment hdescribes
    refine ⟨front, hclosed' ▸ hfront, ?_⟩
    rw [hcurrent']
    refine ⟨segment ++ more, hmore, ?_⟩
    rw [hrows, ← hflatten, List.append_assoc]
  · have hlinked := h.linked
    rw [hrounds, linked_append] at hlinked
    rw [hrounds', linked_append]
    exact ⟨hlinked.1, hprevious.trans hlinked.2⟩
  · rw [hrounds']
    intro d hd
    rw [List.mem_append, List.mem_singleton] at hd
    rcases hd with hd | rfl
    · exact h.lifecycle d (hrounds ▸ List.mem_append_left _ hd)
    · exact hlifecycle

theorem EpisodesInv.extended (h : EpisodesInv service subject rows p) {e : Episode}
    (hcurrent : p.current = some e) (hopen : e.resolvedAt.isSome = false)
    (hcounted : service.counted row = true) (source : Source) :
    EpisodesInv service subject (rows ++ [row])
      (p.adverse service.digest context subject riskType source row) := by
  obtain ⟨hclosed', hcurrent'⟩ :=
    Progress.adverse_extends hcurrent hopen service.digest context subject riskType source row
  have hlifecycle := h.lifecycle e (by unfold Progress.rounds; simp [hcurrent])
  refine h.replaced hcurrent hclosed' hcurrent' rfl rfl hlifecycle fun segment hsegment => ?_
  obtain ⟨first, rest, rfl, hid, hsubject, hidentity, hfirst, hseverity⟩ := hsegment
  refine ⟨[row], ⟨first, rest ++ [row], rfl, hid, hsubject, hidentity, hfirst, ?_⟩, ?_⟩
  · show severer e.severity row.severity = _
    rw [List.map_append, List.foldl_append, hseverity]
    rfl
  · rw [filter_counted_append, if_pos hcounted]

theorem EpisodesInv.settled (h : EpisodesInv service subject rows p)
    (hcounted : service.counted row = false) (hold : ℚ) (source : Source) (start : ℤ) :
    EpisodesInv service subject (rows ++ [row]) (p.positive hold source row start) := by
  obtain ⟨hclosed', settle, hcurrent', hsettle⟩ := p.positive_settles hold source row start
  cases hcurrent : p.current with
  | none =>
      rw [hcurrent, Option.map_none] at hcurrent'
      exact h.passed hcounted hclosed' (hcurrent'.trans hcurrent.symm)
  | some e =>
      rw [hcurrent, Option.map_some] at hcurrent'
      obtain ⟨hid, hsubject, hidentity, hfirst, hseverity, hprevious, hlifecycle⟩ := hsettle e
      have hbefore := h.lifecycle e (by unfold Progress.rounds; simp [hcurrent])
      refine h.replaced hcurrent hclosed' hcurrent' hid hprevious (hlifecycle hbefore)
        fun segment hsegment => ?_
      obtain ⟨first, rest, rfl, hid', hsubject', hidentity', hfirst', hseverity'⟩ := hsegment
      refine ⟨[], ?_, ?_⟩
      · rw [List.append_nil]
        exact ⟨first, rest, rfl, hid.trans hid', hsubject.trans hsubject',
          hidentity.trans hidentity', hfirst.trans hfirst', hseverity.trans hseverity'⟩
      · rw [filter_counted_append, hcounted]
        rfl

theorem EpisodesInv.step (h : EpisodesInv service subject rows p)
    (hstep : service.observe context subject riskType rule p row = .ok p') :
    EpisodesInv service subject (rows ++ [row]) p' := by
  cases observe_outcome service hstep with
  | unregistered hsource =>
      refine h.passed ?_ rfl rfl
      unfold AssessmentService.counted
      rw [hsource]
      exact Bool.and_false _
  | @adverse source hsource hkind =>
      have hcounted : service.counted row = true := by
        simp [AssessmentService.counted, Observation.isAdverse, hkind, hsource, Except.toBool]
      have hthrough : EpisodesInv service subject rows (p.through (service.frontierComplete row)) :=
        ⟨h.segments, h.linked, h.closed, h.lifecycle⟩
      cases hcurrent : p.current with
      | none =>
          refine hthrough.opened (fun e he => ?_) hcounted source
          cases hcurrent.symm.trans he
      | some e =>
          by_cases hresolved : e.resolvedAt.isSome = true
          · refine hthrough.opened (fun e' he' => ?_) hcounted source
            obtain rfl := Option.some.inj (hcurrent.symm.trans he')
            exact hresolved
          · exact hthrough.extended hcurrent (Bool.eq_false_iff.mpr hresolved) hcounted source
  | unsettled hsource hkind hrun hsame =>
      refine h.passed ?_ hsame.closed hsame.current
      simp [AssessmentService.counted, Observation.isAdverse, hkind]
  | @positive source hold begin limit hsource hhold hnonneg hcompatible hprocessed hevidence =>
      have hentered : EpisodesInv service subject rows
          ((p.through true).enter row.boundary) := ⟨h.segments, h.linked, h.closed, h.lifecycle⟩
      refine hentered.settled ?_ hold source _
      simp [AssessmentService.counted, Observation.isAdverse, hevidence.not_adverse.1]

theorem episodesInv_of_loop
    (h : rows.foldlM (service.observe context subject riskType rule) {} = .ok p) :
    EpisodesInv service subject rows p := by
  have hinit : EpisodesInv service subject [] {} :=
    ⟨⟨[], .nil, And.intro rfl rfl⟩, trivial, by simp, by simp [Progress.rounds]⟩
  exact foldlM_invariant (I := EpisodesInv service subject)
    (fun _ _ _ _ hinv hstep => hinv.step hstep) hinit h

theorem Describes.subjectKey {segment : List Observation} {e : Episode}
    (h : Describes service subject segment e) : e.subjectKey = subject := by
  obtain ⟨first, rest, -, -, hsubject, -⟩ := h
  exact hsubject

theorem EpisodesInv.wellFormed (h : EpisodesInv service subject rows p) :
    service.WellFormed subject (rows.filter service.counted) p.rounds := by
  obtain ⟨segments, hsegments, hflatten⟩ := h.all
  refine ⟨⟨segments, hflatten, hsegments⟩, h.linked, fun e he => ?_, h.lifecycle⟩
  unfold Progress.rounds at he
  cases hcurrent : p.current with
  | none =>
      rw [hcurrent, Option.toList_none, List.append_nil] at he
      exact h.closed e (List.dropLast_subset _ he)
  | some d =>
      rw [hcurrent, Option.toList_some, List.dropLast_concat] at he
      exact h.closed e he

theorem EpisodesInv.subjectKey (h : EpisodesInv service subject rows p) :
    ∀ e ∈ p.rounds, e.subjectKey = subject := by
  intro e he
  obtain ⟨segments, hsegments, -⟩ := h.all
  obtain ⟨segment, -, hdescribes⟩ := exists_of_mem_results hsegments he
  exact hdescribes.subjectKey

/-! ## The report -/

/-- Items under distinct keys: those of a key are the ones that were put there. -/
theorem filter_flatMap_key {κ α β : Type} [DecidableEq κ] {keyOf : β → κ} {items : α → List β}
    {R : κ → α → Prop} (hR : ∀ k a, R k a → ∀ b ∈ items a, keyOf b = k) {keys : List κ}
    {results : List α} (h : List.Forall₂ R keys results) (hkeys : keys.Nodup) {k : κ} {a : α}
    (hk : (k, a) ∈ keys.zip results) :
    (results.flatMap items).filter (fun b => decide (keyOf b = k)) = items a := by
  induction h with
  | nil => cases hk
  | @cons k₁ a₁ keys results h₁ hrest ih =>
      obtain ⟨hnew, hkeys⟩ := List.nodup_cons.mp hkeys
      have hself : ∀ b ∈ items a₁, keyOf b = k₁ := hR k₁ a₁ h₁
      rw [List.flatMap_cons, List.filter_append]
      rw [List.zip_cons_cons, List.mem_cons] at hk
      rcases hk with hk | hk
      · obtain ⟨rfl, rfl⟩ := Prod.mk.inj hk
        have hothers : (results.flatMap items).filter (fun b => decide (keyOf b = k)) = [] := by
          refine List.filter_eq_nil_iff.mpr fun b hb hkey => hnew ?_
          obtain ⟨a', ha', hb⟩ := List.mem_flatMap.mp hb
          obtain ⟨k', hk', hR'⟩ := exists_of_mem_results hrest ha'
          rw [← of_decide_eq_true hkey, hR k' a' hR' b hb]
          exact (List.of_mem_zip hk').1
        rw [hothers, List.append_nil]
        exact List.filter_eq_self.mpr fun b hb => decide_eq_true (hself b hb)
      · have hother : (items a₁).filter (fun b => decide (keyOf b = k)) = [] := by
          refine List.filter_eq_nil_iff.mpr fun b hb hkey => hnew ?_
          rw [← hself b hb, of_decide_eq_true hkey]
          exact (List.of_mem_zip hk).1
        rw [hother, List.nil_append]
        exact ih hkeys hk

theorem nodup_subjectsOf (context : EvaluationContext) (exclusiveEnd : Bool)
    (rows : List Observation) : (subjectsOf context exclusiveEnd rows).Nodup :=
  (Paging.ordered_perm _ _).nodup_iff.mpr (Dict.nodup _)

theorem nodup_walkKey (h : (rows.map Observation.observationId).Nodup) :
    (rows.map walkKey).Nodup := by
  have hmap : rows.map Observation.observationId = (rows.map walkKey).map fun k =>
      (ofLex (ofLex k).2).2 := by
    rw [List.map_map]
    rfl
  rw [hmap] at h
  exact h.of_map

/-- The evaluation does not depend on the order in which the rows are stored. -/
theorem evaluate_perm {exclusiveEnd : Bool} {rows' : List Observation} (h : rows'.Perm rows)
    (hids : (rows.map Observation.observationId).Nodup) :
    service.evaluate context exclusiveEnd rows' = service.evaluate context exclusiveEnd rows := by
  have hsubjects : subjectsOf context exclusiveEnd rows' = subjectsOf context exclusiveEnd rows := by
    unfold subjectsOf
    apply Paging.ordered_eq_of_perm
    · apply (List.perm_ext_iff_of_nodup (Dict.nodup _) (Dict.nodup _)).mpr
      intro subject
      have hmem : ∀ o, o ∈ rows'.filter (considered context exclusiveEnd) ↔
          o ∈ rows.filter (considered context exclusiveEnd) := fun o => (h.filter _).mem_iff
      show subject ∈ Dict.keys _ ↔ subject ∈ Dict.keys _
      rw [Dict.mem_keys_groupBy, Dict.mem_keys_groupBy]
      simp only [hmem]
    · rw [List.map_id]
      exact Dict.nodup _
  have hrows : ∀ subject, subjectRows context exclusiveEnd rows' subject =
      subjectRows context exclusiveEnd rows subject := by
    intro subject
    unfold subjectRows
    apply Paging.ordered_eq_of_perm ((h.filter _).filter _)
    have hids' := (h.map Observation.observationId).nodup_iff.mpr hids
    exact nodup_walkKey ((hids'.sublist (List.filter_sublist.map _)).sublist
      (List.filter_sublist.map _))
  unfold AssessmentService.evaluate
  rw [hsubjects]
  simp only [hrows]

/-- The episodes of a subject divide its adverse observations, each names the one
before, all but the last are resolved, and the order of storage is of no account. -/
theorem subject_episodes {exclusiveEnd : Bool} {report : Report}
    (h : service.evaluate context exclusiveEnd rows = .ok report) :
    (∀ check ∈ report.checks, service.WellFormed check.subjectKey
      ((subjectRows context exclusiveEnd rows check.subjectKey).filter service.counted)
      (report.episodes.filter fun e => e.subjectKey = check.subjectKey)) ∧
    ((rows.map Observation.observationId).Nodup → ∀ rows', rows'.Perm rows →
      service.evaluate context exclusiveEnd rows' = .ok report) := by
  refine ⟨fun check hcheck => ?_, fun hids rows' hperm => (evaluate_perm hperm hids).trans h⟩
  obtain ⟨results, hresults, hchecks, hepisodes⟩ := evaluate_eq_ok h
  rw [hchecks, List.mem_map] at hcheck
  obtain ⟨result, hresult, rfl⟩ := hcheck
  obtain ⟨subject, hzip, hassess⟩ := exists_of_mem_results hresults hresult
  have hkey : ∀ subject (result : Check × List Episode), service.assessSubject context subject
      (subjectRows context exclusiveEnd rows subject) = .ok result →
        ∀ e ∈ result.2, e.subjectKey = subject := by
    intro subject result hassess e he
    obtain ⟨riskType, p, hloop, -, -, hrounds⟩ := assessSubject_eq_ok hassess
    exact (episodesInv_of_loop hloop).subjectKey e (hrounds ▸ he)
  have hown : report.episodes.filter (fun e => e.subjectKey = subject) = result.2 := by
    rw [hepisodes]
    exact filter_flatMap_key hkey hresults (nodup_subjectsOf _ _ _) hzip
  obtain ⟨riskType, p, hloop, hsubject, -, hrounds⟩ := assessSubject_eq_ok hassess
  rw [hsubject, hown, hrounds]
  exact (episodesInv_of_loop hloop).wellFormed

/-- An observation of a source that is not registered is in no episode, an episode can
end with an observation inside an earlier one, and it can be resolved before its last
adverse instant. -/
theorem episodes_pass_over :
    (∃ report, readyService.evaluate ⟨.current, seconds 200⟩ false
        [{ readyObservation "a" .adverse 0 100 (by decide) with sourceId := "retired" }] =
          .ok report ∧ report.episodes = []) ∧
    (∃ report, readyService.evaluate ⟨.current, seconds 200⟩ false
        [readyObservation "a" .adverse 0 100 (by decide),
          readyObservation "b" .adverse 10 20 (by decide)] = .ok report ∧
      report.episodes.map Episode.lastAdverse = [seconds 20]) ∧
    ∃ report, readyService.evaluate ⟨.current, seconds 200⟩ false insideAdverse = .ok report ∧
      report.episodes.map Episode.lastAdverse = [seconds 100] ∧
      report.episodes.map Episode.resolvedAt = [some (seconds 16)] :=
  ⟨⟨_, rfl, by decide +kernel⟩, ⟨_, rfl, by decide +kernel⟩,
    ⟨_, rfl, by decide +kernel, by decide +kernel⟩⟩

theorem node_episodes :
    ∃ report,
      readyService.evaluate ⟨.current, seconds 200⟩ false insideAdverse.reverse = .ok report ∧
      readyService.WellFormed "node-1"
        ((subjectRows ⟨.current, seconds 200⟩ false insideAdverse "node-1").filter
          readyService.counted)
        (report.episodes.filter fun e => e.subjectKey = "node-1") := by
  obtain ⟨report, check, hok, hcheck, hsubject⟩ : ∃ report check,
      readyService.evaluate ⟨.current, seconds 200⟩ false insideAdverse = .ok report ∧
        check ∈ report.checks ∧ check.subjectKey = "node-1" :=
    ⟨_, _, rfl, List.mem_cons_self, rfl⟩
  obtain ⟨hepisodes, hperm⟩ := subject_episodes hok
  have hwellFormed := hepisodes check hcheck
  rw [hsubject] at hwellFormed
  exact ⟨report, hperm (by decide) _ (List.reverse_perm _), hwellFormed⟩

end LogRisk.ServerRisk
