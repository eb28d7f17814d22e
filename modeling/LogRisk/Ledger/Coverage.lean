import LogRisk.Ledger.RootStatus

/-!
# Completed roots cover each position once

Along every run of calls the ranges booked as covered for a source are disjoint
and hold the positions of the completed verified roots.  Rows of finished work are
not written again.
-/

namespace LogRisk.Ledger

open LogRisk.Library LogRisk.Library.Transaction

variable {env : LedgerEnv} {ledger ledger' : LedgerTables}

/-! ## Covered ranges -/

namespace LedgerTables

def coveredRanges (ledger : LedgerTables) (sourceId : String) : List Range :=
  rangeRows .covered sourceId ledger.sourceRanges

/-- The ranges of the completed verified roots in one source. -/
def completedRanges (ledger : LedgerTables) (sourceId : String) : List Range :=
  (ledger.roots.values.filter fun root =>
    decide (root.status = .completed ∧ root.provenance = .verified)).flatMap fun root =>
      root.rangesIn sourceId

end LedgerTables

theorem mem_points_completedRanges {sourceId : String} {x : (Option String × String) × ℕ} :
    x ∈ Keyed.points (ledger.completedRanges sourceId) ↔ ∃ id root,
      ledger.roots.get? id = some root ∧ (root.status = .completed ∧ root.provenance = .verified) ∧
        x ∈ Keyed.points (root.rangesIn sourceId) := by
  simp only [LedgerTables.completedRanges, Keyed.mem_points, List.mem_flatMap, List.mem_filter,
    Dict.mem_values, decide_eq_true_eq]
  constructor
  · rintro ⟨r, ⟨root, ⟨⟨id, hget⟩, hcompleted⟩, hr⟩, hx⟩
    exact ⟨id, root, hget, hcompleted, r, hr, hx⟩
  · rintro ⟨id, root, hget, hcompleted, r, hr, hx⟩
    exact ⟨r, ⟨root, ⟨⟨id, hget⟩, hcompleted⟩, hr⟩, hx⟩

/-- Writing a root that was not completed adds its ranges where it is completed
now. -/
theorem points_completedRanges_set {rootId : String} {root : Root}
    (hroots : ledger'.roots = ledger.roots.set rootId root)
    (hopen : ∀ old, ledger.roots.get? rootId = some old → old.status ≠ .completed)
    (sourceId : String) :
    Keyed.points (ledger'.completedRanges sourceId) =
      Keyed.points (ledger.completedRanges sourceId) ∪
        if root.status = .completed ∧ root.provenance = .verified then
          Keyed.points (root.rangesIn sourceId) else ∅ := by
  ext x
  rw [Finset.mem_union, mem_points_completedRanges, mem_points_completedRanges, hroots]
  constructor
  · rintro ⟨id, r, hget, hcompleted, hx⟩
    rw [Dict.get?_set] at hget
    split at hget
    · cases hget
      rw [if_pos hcompleted]
      exact .inr hx
    · exact .inl ⟨id, r, hget, hcompleted, hx⟩
  · rintro (⟨id, r, hget, hcompleted, hx⟩ | hx)
    · refine ⟨id, r, ?_, hcompleted, hx⟩
      rw [Dict.get?_set_of_ne, hget]
      rintro rfl
      exact hopen r hget hcompleted.1
    · split at hx
      · rename_i hcompleted
        exact ⟨rootId, root, Dict.get?_set_self .., hcompleted, hx⟩
      · cases hx

theorem key_of_mem_rangesIn {root : Root} {sourceId : String} :
    ∀ r ∈ root.rangesIn sourceId, r.key.1 = none := by
  intro r hr
  obtain ⟨row, _, rfl⟩ := List.mem_map.mp hr
  rfl

/-- A root has no ranges in a source that none of its ranges names. -/
theorem rangesIn_eq_nil {root : Root} {sourceId : String}
    (h : sourceId ∉ rangeSources root.ranges none) : root.rangesIn sourceId = [] := by
  rw [Root.rangesIn, List.map_eq_nil_iff, List.filter_eq_nil_iff]
  intro r hr hkey
  refine h ?_
  rw [rangeSources, List.mem_insertionSort, List.mem_dedup, Option.toList_none, List.append_nil]
  exact List.mem_filterMap.mpr ⟨r, hr, of_decide_eq_true hkey⟩

/-- Covering the sources of a verified root unites its ranges with those booked
before. -/
theorem coverSources_spec {root : Root} {completedAt : String} {sources : Dict String SourceRow}
    {rows rows' : List SourceRange} (h : coverSources env root completedAt sources rows = .ok rows')
    {sourceId : String} (hdisjoint : Keyed.DisjointList (rangeRows .covered sourceId rows)) :
    Keyed.DisjointList (rangeRows .covered sourceId rows') ∧
      Keyed.points (rangeRows .covered sourceId rows') =
        Keyed.points (rangeRows .covered sourceId rows) ∪
          if root.provenance = .verified then Keyed.points (root.rangesIn sourceId) else ∅ := by
  have hfold : ∀ {ids : List String} {rows : List SourceRange},
      ids.foldlM (coverSource env root completedAt sources) rows = .ok rows' →
        Keyed.DisjointList (rangeRows .covered sourceId rows) →
          Keyed.DisjointList (rangeRows .covered sourceId rows') ∧
            Keyed.points (rangeRows .covered sourceId rows') =
              Keyed.points (rangeRows .covered sourceId rows) ∪
                if sourceId ∈ ids then Keyed.points (root.rangesIn sourceId) else ∅ := by
    intro ids
    induction ids with
    | nil =>
        intro rows h hdisjoint
        rw [List.foldlM_nil] at h
        obtain rfl := pure_eq_ok.mp h
        exact ⟨hdisjoint, by simp⟩
    | cons id ids ih =>
        intro rows h hdisjoint
        rw [List.foldlM_cons] at h
        obtain ⟨next, hnext, h⟩ := bind_eq_ok.mp h
        obtain ⟨_, hnext⟩ := require_bind_eq_ok.mp hnext
        obtain ⟨uncovered, huncovered, hbook⟩ := bind_eq_ok.mp hnext
        by_cases hid : id = sourceId
        · subst hid
          obtain ⟨hdisjoint', hpoints, _⟩ :=
            booked_union hdisjoint key_of_mem_rangesIn huncovered hbook
          obtain ⟨hlast, hpoints'⟩ := ih h hdisjoint'
          refine ⟨hlast, ?_⟩
          rw [hpoints', hpoints, if_pos (List.mem_cons_self ..), Finset.union_assoc]
          congr 1
          split
          · exact Finset.union_self _
          · exact Finset.union_empty _
        · have hframe : rangeRows .covered sourceId next = rangeRows .covered sourceId rows :=
            booked_frame hbook fun hsame => hid hsame.2
          rw [← hframe] at hdisjoint
          obtain ⟨hlast, hpoints'⟩ := ih h hdisjoint
          refine ⟨hlast, ?_⟩
          rw [hpoints', hframe]
          simp [Ne.symm hid]
  unfold coverSources at h
  split at h
  · obtain ⟨hlast, hpoints⟩ := hfold h hdisjoint
    refine ⟨hlast, ?_⟩
    rename_i hverified
    rw [hpoints, if_pos hverified]
    by_cases hsource : sourceId ∈ rangeSources root.ranges none
    · rw [if_pos hsource]
    · rw [if_neg hsource, rangesIn_eq_nil hsource, Keyed.points_nil]
  · rename_i hverified
    cases h
    exact ⟨hdisjoint, by rw [if_neg hverified, Finset.union_empty]⟩

structure CoverageInv (ledger : LedgerTables) : Prop where
  disjoint : ∀ sourceId, Keyed.DisjointList (ledger.coveredRanges sourceId)
  points : ∀ sourceId, Keyed.points (ledger.coveredRanges sourceId) =
    Keyed.points (ledger.completedRanges sourceId)

/-- A root that is still open is written, and nothing is booked. -/
theorem CoverageInv.writeOpen (hinv : CoverageInv ledger) {rootId : String} {root : Root}
    (hroots : ledger'.roots = ledger.roots.set rootId root)
    (hopen : ∀ old, ledger.roots.get? rootId = some old → old.status ≠ .completed)
    (hstatus : root.status ≠ .completed)
    (hranges : ∀ sourceId, ledger'.coveredRanges sourceId = ledger.coveredRanges sourceId) :
    CoverageInv ledger' where
  disjoint sourceId := hranges sourceId ▸ hinv.disjoint sourceId
  points sourceId := by
    rw [hranges, hinv.points, points_completedRanges_set hroots hopen,
      if_neg fun h => hstatus h.1, Finset.union_empty]

theorem CoverageInv.congr (hinv : CoverageInv ledger) (hroots : ledger'.roots = ledger.roots)
    (hranges : ∀ sourceId, ledger'.coveredRanges sourceId = ledger.coveredRanges sourceId) :
    CoverageInv ledger' where
  disjoint sourceId := hranges sourceId ▸ hinv.disjoint sourceId
  points sourceId := by
    rw [hranges, hinv.points, LedgerTables.completedRanges, LedgerTables.completedRanges, hroots]

/-- Settling a root that is not completed keeps the covered ranges in step. -/
theorem CoverageInv.settles (hinv : CoverageInv ledger) {now rootId : String} {root : Root}
    (hopen : ∀ old, ledger.roots.get? rootId = some old → old.status ≠ .completed)
    (hsettles : Settles env now rootId root ledger ledger') : CoverageInv ledger' := by
  cases hsettles with
  | stays => exact hinv
  | settled hstatus hall hrows =>
      refine ⟨fun sourceId => (coverSources_spec hrows (hinv.disjoint sourceId)).1,
        fun sourceId => ?_⟩
      refine (coverSources_spec hrows (hinv.disjoint sourceId)).2.trans ?_
      rw [points_completedRanges_set rfl hopen, ← hinv.points]
      simp only [settledRoot, true_and]
      rfl

/-- Recording a batch books nothing as covered. -/
theorem NewBatch.covered {prepared : PreparedBatch} {receipt : Receipt}
    (hnew : NewBatch env prepared ledger ledger' receipt) (sourceId : String) :
    ledger'.coveredRanges sourceId = ledger.coveredRanges sourceId := by
  obtain ⟨uncovered, _, _, hbook⟩ := hnew.hranges
  unfold bookIngested at hbook
  split at hbook
  · exact booked_frame hbook fun h => by cases h.1
  · rw [LedgerTables.coveredRanges, ← Except.ok.inj hbook]
    rfl

theorem CoverageInv.step (hinv : CoverageInv ledger) (hroots : RootsInv ledger)
    (hstep : LedgerStep env ledger ledger') : CoverageInv ledger' := by
  cases hstep with
  | unchanged => exact hinv
  | recorded _ hnew => exact hinv.congr hnew.hroots hnew.covered
  | created hnone hstatus hexpected =>
      refine hinv.writeOpen rfl (fun old hget => ?_) (by rw [hstatus]; decide) fun _ => rfl
      rw [hnone] at hget
      cases hget
  | registered => exact hinv.congr rfl fun _ => rfl
  | bound => exact hinv.congr rfl fun _ => rfl
  | @finished rootId memberId root member at' target hroot _ _ hrootOpen _ htarget =>
      refine hinv.writeOpen rfl (fun old hget => ?_)
        (Root.afterMember_spec at' target hrootOpen (hroots.roots _ _ hroot).notFailed).1
        fun _ => rfl
      rw [← Option.some.inj (hroot.symm.trans hget)]
      exact hrootOpen.1
  | @completed rootId memberId root member at' now _ hroot _ _ hrootOpen _ hsettles =>
      have hstatus :=
        (Root.afterMember_spec at' .completed hrootOpen (hroots.roots _ _ hroot).notFailed).1
      have hwritten : CoverageInv (ledger.writeFinished at' .completed root rootId memberId member) := by
        refine hinv.writeOpen rfl (fun old hget => ?_) hstatus fun _ => rfl
        rw [← Option.some.inj (hroot.symm.trans hget)]
        exact hrootOpen.1
      refine hwritten.settles (fun old hget => ?_) hsettles
      rw [← Option.some.inj ((Dict.get?_set_self ..).symm.trans hget)]
      exact hstatus
  | settled hroot hsettles =>
      cases hsettles with
      | stays => exact hinv
      | settled hstatus hall =>
          exact absurd ((hroots.roots _ _ hroot).settled.mpr hall) (ne_completed_of_open hstatus)

theorem rootsInv_after (env : LedgerEnv) (calls : List LedgerCall) :
    RootsInv (ledgerAfter env calls) ∧ CoverageInv (ledgerAfter env calls) := by
  refine LedgerCall.run_invariant (fun ledger => RootsInv ledger ∧ CoverageInv ledger) ?_
    (fun _ _ hinv hstep => ⟨hinv.1.step hstep, hinv.2.step hinv.1 hstep⟩) calls
  exact ⟨⟨fun _ _ h => (by cases h), fun _ _ h => (by cases h)⟩, ⟨fun _ => .nil, fun _ => rfl⟩⟩

/-! ## Finished rows -/

/-- No operation changes the row of such a root. -/
def Root.closed (root : Root) : Prop := root.status = .completed ∨ root.status = .cancelled

theorem ne_closed {root : Root} (h : root.status ≠ .completed ∧ root.status ≠ .cancelled) :
    ¬root.closed := not_or.mpr h

theorem not_closed_of_open {root : Root} (h : root.status.terminalRoot = false) : ¬root.closed := by
  rintro (hstatus | hstatus) <;> rw [hstatus] at h <;> cases h

/-- A completed member later: the row it was, or bound to its first job. -/
structure Member.Kept (m m' : Member) : Prop where
  memberId : m'.memberId = m.memberId
  analysisRunId : m'.analysisRunId = m.analysisRunId
  status : m'.status = m.status
  createdAt : m'.createdAt = m.createdAt
  bound : m' = m ∨ m.featureJobId = none ∧ m'.featureJobId ≠ none

theorem Member.Kept.refl (m : Member) : m.Kept m := ⟨rfl, rfl, rfl, rfl, .inl rfl⟩

theorem Member.Kept.trans {a b c : Member} (hab : a.Kept b) (hbc : b.Kept c) : a.Kept c where
  memberId := hbc.memberId.trans hab.memberId
  analysisRunId := hbc.analysisRunId.trans hab.analysisRunId
  status := hbc.status.trans hab.status
  createdAt := hbc.createdAt.trans hab.createdAt
  bound := by
    rcases hab.bound with rfl | ⟨hunbound, hbound⟩
    · exact hbc.bound
    · rcases hbc.bound with rfl | ⟨hagain, _⟩
      · exact .inr ⟨hunbound, hbound⟩
      · exact absurd hagain hbound

/-- What later tables keep of earlier ones. -/
structure Frozen (ledger ledger' : LedgerTables) : Prop where
  roots : ∀ id root, ledger.roots.get? id = some root → root.closed →
    ledger'.roots.get? id = some root
  members : ∀ id m, ledger.members.get? id = some m → m.status = .completed →
    ∃ m', ledger'.members.get? id = some m' ∧ m.Kept m'
  closedMembers : ∀ id m root, ledger.members.get? id = some m →
    ledger.roots.get? m.analysisRunId = some root → root.closed →
      ledger'.members.get? id = some m

theorem Frozen.refl (ledger : LedgerTables) : Frozen ledger ledger where
  roots _ _ hget _ := hget
  members _ m hget _ := ⟨m, hget, .refl m⟩
  closedMembers _ _ _ hget _ _ := hget

theorem Frozen.trans {a b c : LedgerTables} (hab : Frozen a b) (hbc : Frozen b c) : Frozen a c where
  roots id root hget hclosed := hbc.roots id root (hab.roots id root hget hclosed) hclosed
  members id m hget hstatus := by
    obtain ⟨m', hget', hkept⟩ := hab.members id m hget hstatus
    obtain ⟨m'', hget'', hkept'⟩ := hbc.members id m' hget' (hkept.status.trans hstatus)
    exact ⟨m'', hget'', hkept.trans hkept'⟩
  closedMembers id m root hget hroot hclosed :=
    hbc.closedMembers id m root (hab.closedMembers id m root hget hroot hclosed)
      (hab.roots _ root hroot hclosed) hclosed

/-- A step that writes one open root, and members of open roots only. -/
theorem Frozen.write (rootId : String)
    (hroots : ∀ id, id ≠ rootId → ledger'.roots.get? id = ledger.roots.get? id)
    (hopen : ∀ root, ledger.roots.get? rootId = some root →
      ¬root.closed ∨ ledger'.roots.get? rootId = some root)
    (hmembers : ∀ id m, ledger.members.get? id = some m →
      ledger'.members.get? id = some m ∨
        (m.status = .completed → ∃ m', ledger'.members.get? id = some m' ∧ m.Kept m') ∧
          ∀ root, ledger.roots.get? m.analysisRunId = some root → ¬root.closed) :
    Frozen ledger ledger' where
  roots id root hget hclosed := by
    by_cases hid : id = rootId
    · subst hid
      exact (hopen root hget).resolve_left (not_not.mpr hclosed)
    · rw [hroots id hid, hget]
  members id m hget hstatus := by
    rcases hmembers id m hget with hsame | ⟨hkept, _⟩
    · exact ⟨m, hsame, .refl m⟩
    · exact hkept hstatus
  closedMembers id m root hget hroot hclosed := by
    rcases hmembers id m hget with hsame | ⟨_, hnot⟩
    · exact hsame
    · exact absurd hclosed (hnot root hroot)

/-- Settling writes the row of an open root only. -/
theorem Frozen.settles {now rootId : String} {root : Root}
    (hroot : ledger.roots.get? rootId = some root)
    (hsettles : Settles env now rootId root ledger ledger') : Frozen ledger ledger' := by
  cases hsettles with
  | stays => exact .refl ledger
  | settled hstatus =>
      refine .write _ (fun id hid => Dict.get?_set_of_ne (Ne.symm hid)) (fun old hget => .inl ?_)
        fun id m hget => .inl hget
      rw [← Option.some.inj (hroot.symm.trans hget)]
      exact not_closed_of_open hstatus

/-- Finishing a member writes that member and its open root. -/
theorem Frozen.writeFinished {rootId memberId at' : String} {root : Root} {member : Member}
    {target : Status} (hroot : ledger.roots.get? rootId = some root)
    (hmember : ledger.members.get? memberId = some member) (howner : member.analysisRunId = rootId)
    (hrootOpen : root.status ≠ .completed ∧ root.status ≠ .cancelled)
    (hmemberOpen : member.status ≠ .completed ∧ member.status ≠ .cancelled) :
    Frozen ledger (ledger.writeFinished at' target root rootId memberId member) := by
  refine .write _ (fun id hid => Dict.get?_set_of_ne (Ne.symm hid)) (fun old hget => .inl ?_)
    fun id m hget => ?_
  · rw [← Option.some.inj (hroot.symm.trans hget)]
    exact ne_closed hrootOpen
  · by_cases hid : id = memberId
    · subst hid
      obtain rfl := Option.some.inj (hmember.symm.trans hget)
      refine .inr ⟨fun hstatus => absurd hstatus hmemberOpen.1, fun r hr => ?_⟩
      rw [howner, hroot] at hr
      rw [← Option.some.inj hr]
      exact ne_closed hrootOpen
    · exact .inl ((Dict.get?_set_of_ne (Ne.symm hid)).trans hget)

theorem Frozen.step (hstep : LedgerStep env ledger ledger') : Frozen ledger ledger' := by
  cases hstep with
  | unchanged => exact .refl ledger
  | recorded _ hnew =>
      refine ⟨fun _ _ hget _ => ?_, fun _ m hget _ => ⟨m, ?_, .refl m⟩, fun _ _ _ hget _ _ => ?_⟩
      · rw [hnew.hroots, hget]
      · rw [hnew.hmembers, hget]
      · rw [hnew.hmembers, hget]
  | @created root hnone =>
      refine .write _ (fun id hid => Dict.get?_set_of_ne (Ne.symm hid)) (fun old hget => ?_)
        fun id m hget => .inl hget
      rw [hnone] at hget
      cases hget
  | @registered rootId memberId root created hroot hnone =>
      refine .write rootId (fun _ _ => rfl) (fun old hget => .inr hget)
        fun id m hget => .inl ((Dict.get?_set_of_ne ?_).trans hget)
      rintro rfl
      rw [hnone] at hget
      cases hget
  | @bound rootId memberId root member now jobId hroot hmember howner hunbound hstatus =>
      refine .write rootId (fun _ _ => rfl) (fun old hget => .inr hget)
        fun id m hget => ?_
      by_cases hid : id = memberId
      · subst hid
        obtain rfl := Option.some.inj (hmember.symm.trans hget)
        refine .inr ⟨fun _ => ⟨_, Dict.get?_set_self .., rfl, rfl, rfl, rfl, .inr ⟨hunbound, ?_⟩⟩,
          fun r hr => ?_⟩
        · exact Option.some_ne_none jobId
        · rw [howner, hroot] at hr
          rw [← Option.some.inj hr]
          exact not_closed_of_open hstatus
      · exact .inl ((Dict.get?_set_of_ne (Ne.symm hid)).trans hget)
  | finished hroot hmember howner hrootOpen hmemberOpen _ =>
      exact .writeFinished hroot hmember howner hrootOpen hmemberOpen
  | completed hroot hmember howner hrootOpen hmemberOpen hsettles =>
      exact (Frozen.writeFinished hroot hmember howner hrootOpen hmemberOpen).trans
        (.settles (Dict.get?_set_self ..) hsettles)
  | settled hroot hsettles => exact .settles hroot hsettles

theorem frozen_after (env : LedgerEnv) (calls later : List LedgerCall) :
    Frozen (ledgerAfter env calls) (ledgerAfter env (calls ++ later)) := by
  rw [ledgerAfter, ledgerAfter, exec_append]
  exact exec_mono (P := fun _ _ => True) Frozen.refl (fun _ _ _ => Frozen.trans)
    (fun ledger call _ => .step (call.step ledger)) (.of_forall (fun _ _ => trivial) _ _)

/-- After every run of calls: a root is completed exactly when the expected number
of members is registered and all of them are completed; the covered ranges of a
source are disjoint and hold the positions of the completed verified roots; and
whatever is called later, completed and cancelled roots and their members stay,
and a completed member of an open root stays but for being bound to its first
job. -/
theorem analysis_ledger_settled (env : LedgerEnv) (calls later : List LedgerCall) :
    (∀ rootId root, (ledgerAfter env calls).roots.get? rootId = some root →
      (root.status = .completed ↔
        ((ledgerAfter env calls).membersOf rootId).length = root.expectedMembers ∧
          ∀ m ∈ (ledgerAfter env calls).membersOf rootId, m.status = .completed)) ∧
    (∀ sourceId, Keyed.DisjointList ((ledgerAfter env calls).coveredRanges sourceId) ∧
      Keyed.points ((ledgerAfter env calls).coveredRanges sourceId) =
        Keyed.points ((ledgerAfter env calls).completedRanges sourceId)) ∧
    Frozen (ledgerAfter env calls) (ledgerAfter env (calls ++ later)) := by
  obtain ⟨hroots, hcoverage⟩ := rootsInv_after env calls
  refine ⟨fun rootId root hget => ?_,
    fun sourceId => ⟨hcoverage.disjoint sourceId, hcoverage.points sourceId⟩,
    frozen_after env calls later⟩
  rw [(hroots.roots rootId root hget).settled, allCompleted_iff]

/-- Timestamps as they are given, and texts for their own digests. -/
def plainEnv : LedgerEnv where
  sha256 text := text
  canonicalTimestamp := .ok

/-- A root that expects two members, one of them completed. -/
def halfFinished : List LedgerCall :=
  [.createAnalysisRun "1" "root"
      { requestKey := "request", environment := "local", scopeKey := "default"
        expectedMembers := 2 },
    .registerAnalysisMember "2" "root" "member" none,
    .finishAnalysisMember "3" "root" "member" .completed none]

/-- A completed member is bound to a job as long as its root is open. -/
theorem completed_member_bound_later :
    ¬∀ (calls later : List LedgerCall) (memberId : String) (m : Member),
      (ledgerAfter plainEnv calls).members.get? memberId = some m → m.status = .completed →
        (ledgerAfter plainEnv (calls ++ later)).members.get? memberId = some m := by
  intro h
  have hlater := h halfFinished [.bindAnalysisMember "4" "root" "member" "job"] "member"
    ⟨"member", "root", none, .completed, "2", "3"⟩ rfl rfl
  have hbound : (ledgerAfter plainEnv
      (halfFinished ++ [.bindAnalysisMember "4" "root" "member" "job"])).members.get? "member" =
        some ⟨"member", "root", some "job", .completed, "2", "4"⟩ := rfl
  rw [hbound] at hlater
  cases hlater

end LogRisk.Ledger
