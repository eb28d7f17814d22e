import LogRisk.Analytics.Complete

/-!
# Runs, calls and their exports

The views of the ledger have different positions in different rows, whatever the filters are.
`runs` and `calls` take a cursor back as a filter; an export keeps its cursors to itself.
-/

namespace LogRisk.Analytics

open LogRisk.Library LogRisk.Library.Transaction LogRisk.Library.Paging
open LogRisk.Library.Dict (assoc alterEntries assoc_alterEntries keys_alterEntries)

variable {host : Host} {ledger : Ledger} {f g : Filters}

/-! ## The views are keyed -/

theorem mem_selected {α : Type} {view : View α} {row : α} :
    row ∈ view.selected ↔ row ∈ view.rows ∧ ∀ clause ∈ view.clauses, clause row = true := by
  unfold View.selected
  rw [List.mem_filter, List.all_eq_true]

theorem completedAt_of_cohort {α : Type} {run : α → Option RunRow} {row : α}
    (h : ∀ clause ∈ cohortClauses run f, clause row = true) :
    ∃ r t, run row = some r ∧ r.completedAt = some t := by
  have hcompleted := h (fun row => ((run row).bind RunRow.completedAt).isSome) (by
    simp [cohortClauses])
  obtain ⟨t, ht⟩ := Option.isSome_iff_exists.mp hcompleted
  obtain ⟨r, hr, ht⟩ := Option.bind_eq_some_iff.mp ht
  exact ⟨r, t, hr, ht⟩

theorem keyed_runsView (ledger : Ledger) (f : Filters) : (runsView ledger f).Keyed := by
  refine .of_ids ledger.runs_nodup fun row hrow => ?_
  obtain ⟨hmem, hclauses⟩ := mem_selected.mp hrow
  obtain ⟨hid, hupdated, hcompleted⟩ := ledger.run_written row hmem
  refine ⟨?_, hid⟩
  cases hbasis : f.timeBasis with
  | activity =>
      have horder : (runsView ledger f).orderAt row = row.updatedAt := by
        simp only [runsView, hbasis]
        rfl
      rw [horder]
      exact hupdated
  | completedRunCohort =>
      have hcohort : ∀ clause ∈ cohortClauses some f, clause row = true := by
        intro clause hclause
        refine hclauses clause (List.mem_append_right _ ?_)
        rw [hbasis]
        exact hclause
      obtain ⟨r, t, hr, ht⟩ := completedAt_of_cohort hcohort
      cases hr
      have horder : (runsView ledger f).orderAt row = t := by
        simp only [runsView, hbasis, ht, Option.getD_some]
      rw [horder]
      rintro rfl
      exact hcompleted ht

theorem length_le_one {α κ : Type} {key : α → κ} {l : List α} (h : (l.map key).Nodup) {k : κ}
    (hk : ∀ a ∈ l, key a = k) : l.length ≤ 1 := by
  match l, h, hk with
  | [], _, _ => exact Nat.zero_le _
  | [_], _, _ => exact le_refl _
  | a :: b :: rest, h, hk =>
      have hsame : key a = key b := (hk a (by simp)).trans (hk b (by simp)).symm
      rw [List.map_cons, List.map_cons, List.nodup_cons] at h
      exact absurd (hsame ▸ List.mem_cons_self) h.1

theorem flatMap_sublist_map {α κ : Type} {rows : α → List κ} {key : α → κ} {l : List α}
    (h : ∀ a ∈ l, (rows a).Sublist [key a]) : (l.flatMap rows).Sublist (l.map key) := by
  induction l with
  | nil => exact .slnil
  | cons a l ih =>
      rw [List.flatMap_cons, List.map_cons]
      exact (h a List.mem_cons_self).append (ih fun b hb => h b (List.mem_cons_of_mem a hb))

/-- A call is joined with the one run that it names, if that exists. -/
theorem nodup_joined (ledger : Ledger) (basis : TimeBasis) :
    ((ledger.joined basis).map fun row => row.1.callId).Nodup := by
  cases basis with
  | activity =>
      rw [Ledger.joined, List.map_map]
      exact ledger.calls_nodup
  | completedRunCohort =>
      rw [Ledger.joined, List.map_flatMap]
      refine ledger.calls_nodup.sublist (flatMap_sublist_map fun call _ => ?_)
      set runs := ledger.runs.filter fun r => some r.analysisRunId = call.analysisRunId with hruns
      have hone : runs.length ≤ 1 := by
        have hnodup : (runs.map fun r => some r.analysisRunId).Nodup := by
          have hids : (runs.map RunRow.analysisRunId).Nodup :=
            ledger.runs_nodup.sublist (List.filter_sublist.map _)
          have hsome := hids.map (Option.some_injective String)
          rwa [List.map_map] at hsome
        exact length_le_one hnodup fun r hr => of_decide_eq_true (List.mem_filter.mp hr).2
      rw [List.map_map]
      have hids : runs.map ((fun row : JoinedCall => row.1.callId) ∘ fun r => (call, some r)) =
          List.replicate runs.length call.callId :=
        List.eq_replicate_iff.mpr ⟨List.length_map _, fun id hid => by
          obtain ⟨r, -, rfl⟩ := List.mem_map.mp hid
          rfl⟩
      rw [hids]
      exact (List.replicate_sublist_replicate call.callId).mpr hone

theorem keyed_callsView (ledger : Ledger) (f : Filters) : (callsView ledger f).Keyed := by
  refine .of_ids (nodup_joined ledger f.timeBasis) fun row hrow => ?_
  obtain ⟨hmem, hclauses⟩ := mem_selected.mp hrow
  have hcall : row.1 ∈ ledger.calls := by
    change row ∈ ledger.joined f.timeBasis at hmem
    cases hbasis : f.timeBasis with
    | activity =>
        rw [hbasis] at hmem
        obtain ⟨call, hcall, rfl⟩ := List.mem_map.mp hmem
        exact hcall
    | completedRunCohort =>
        rw [hbasis] at hmem
        obtain ⟨call, hcall, hjoined⟩ := List.mem_flatMap.mp hmem
        obtain ⟨r, -, rfl⟩ := List.mem_map.mp hjoined
        exact hcall
  obtain ⟨hid, hstarted⟩ := ledger.call_written row.1 hcall
  refine ⟨?_, hid⟩
  have hsome := hclauses (fun row => row.1.startedAt.isSome) (by simp [callsView])
  obtain ⟨t, ht⟩ := Option.isSome_iff_exists.mp hsome
  show row.1.startedAt.getD "" ≠ ""
  rw [ht, Option.getD_some]
  rintro rfl
  exact hstarted ht

/-! ## Queries without a condition -/

/-- Nothing is asked of a run. -/
def Unconditioned (f : Filters) : Prop :=
  f.environment = "all" ∧ f.scopeKey = none ∧ f.timeBasis = .activity ∧
    f.fromTime = none ∧ f.toTime = none

theorem clauses_runsView (ledger : Ledger) (f : Filters) :
    (runsView ledger f).clauses.isEmpty = false ↔ ¬ Unconditioned f := by
  unfold Unconditioned runsView environmentClause scopeClause activityClause cohortClauses
  cases f.scopeKey <;> cases f.timeBasis <;> by_cases henv : f.environment = "all" <;>
    by_cases htimes : f.fromTime = none ∧ f.toTime = none <;> simp [henv, htimes]

theorem clauses_callsView (ledger : Ledger) (f : Filters) :
    (callsView ledger f).clauses.isEmpty = false := rfl

/-! ## Cursors as filters -/

/-- A request with a cursor. -/
def withCursor (request : Entries) : Option String → Entries
  | none => request
  | some cursor => alterEntries "cursor" (fun _ => .str cursor) request

/-- A cursor that a request may hold. -/
def Sendable (cursor : String) : Prop := cursor ≠ "" ∧ cursor.length ≤ cursorLimit

theorem unknownKeys_eq_nil {source : Entries} :
    unknownKeys source = [] ↔ ∀ key ∈ source.map Prod.fst, key ∈ filterKeys := by
  unfold unknownKeys
  rw [← List.length_eq_zero_iff, List.length_mergeSort, List.length_eq_zero_iff,
    List.filter_eq_nil_iff]
  simp

theorem assoc_withCursor {request : Entries} {cursor key : String} (h : key ≠ "cursor") :
    assoc key (withCursor request (some cursor)) = assoc key request := by
  rw [withCursor, assoc_alterEntries, if_neg h.symm]

theorem assoc_cursor (request : Entries) (cursor : String) :
    assoc "cursor" (withCursor request (some cursor)) = some (.str cursor) := by
  rw [withCursor, assoc_alterEntries, if_pos rfl]

theorem unknownKeys_withCursor {request : Entries} (h : unknownKeys request = [])
    (cursor : Option String) : unknownKeys (withCursor request cursor) = [] := by
  cases cursor with
  | none => exact h
  | some cursor =>
      rw [unknownKeys_eq_nil] at h ⊢
      intro key hkey
      rw [withCursor, keys_alterEntries] at hkey
      split at hkey
      · exact h key hkey
      · rcases List.mem_append.mp hkey with hkey | hkey
        · exact h key hkey
        · rw [List.mem_singleton.mp hkey]
          decide

theorem cursorOf_sendable {cursor : String} (h : Sendable cursor) :
    cursorOf (some (.str cursor)) = .ok (some cursor) := by
  show (require (cursor ≠ "" ∧ cursor.length ≤ cursorLimit) invalidCursor >>= fun _ => _) = _
  have hboth : cursor ≠ "" ∧ cursor.length ≤ cursorLimit := h
  rw [require_of hboth]
  rfl

theorem cursorOf_refused {cursor : String} (h : ¬ Sendable cursor) :
    cursorOf (some (.str cursor)) = .error invalidCursor := by
  show (require (cursor ≠ "" ∧ cursor.length ≤ cursorLimit) invalidCursor >>= fun _ => _) = _
  have hboth : ¬(cursor ≠ "" ∧ cursor.length ≤ cursorLimit) := h
  rw [require_of_not hboth]
  rfl

/-- A cursor changes nothing else of a request. -/
theorem normalizeFilters_withCursor {request : Entries}
    (h : normalizeFilters host request = .ok ⟨f, none⟩) (cursor : String) :
    normalizeFilters host (withCursor request (some cursor)) =
      (cursorOf (some (.str cursor))).map fun cursor => ⟨f, cursor⟩ := by
  unfold normalizeFilters at h
  obtain ⟨hunknown, h⟩ := require_bind_eq_ok.mp h
  obtain ⟨environment, henvironment, h⟩ := bind_eq_ok.mp h
  obtain ⟨scopeKey, hscope, h⟩ := bind_eq_ok.mp h
  obtain ⟨timeBasis, hbasis, h⟩ := bind_eq_ok.mp h
  obtain ⟨provider, hprovider, h⟩ := bind_eq_ok.mp h
  obtain ⟨model, hmodel, h⟩ := bind_eq_ok.mp h
  obtain ⟨fromTime, hfrom, h⟩ := bind_eq_ok.mp h
  obtain ⟨toTime, hto, h⟩ := bind_eq_ok.mp h
  obtain ⟨hordered, h⟩ := require_bind_eq_ok.mp h
  obtain ⟨_, -, h⟩ := bind_eq_ok.mp h
  obtain ⟨size, hsize, h⟩ := bind_eq_ok.mp h
  cases pure_eq_ok.mp h
  have hkeys := unknownKeys_withCursor hunknown (some cursor)
  unfold normalizeFilters
  rw [assoc_cursor, assoc_withCursor (by decide), assoc_withCursor (by decide),
    assoc_withCursor (by decide), assoc_withCursor (by decide), assoc_withCursor (by decide),
    assoc_withCursor (by decide), assoc_withCursor (by decide), assoc_withCursor (by decide),
    require_of hkeys,
    henvironment, hscope, hbasis, hprovider, hmodel, hfrom, hto, hsize]
  simp only [bind, Except.bind, require_of hordered]
  cases cursorOf (some (.str cursor)) <;> rfl

/-- The filters of an accepted request have a page size. -/
theorem pageSize_pos {request : Entries} {cursor : Option String}
    (h : normalizeFilters host request = .ok ⟨f, cursor⟩) : 0 < f.pageSize := by
  unfold normalizeFilters at h
  obtain ⟨-, h⟩ := require_bind_eq_ok.mp h
  obtain ⟨environment, -, h⟩ := bind_eq_ok.mp h
  obtain ⟨scopeKey, -, h⟩ := bind_eq_ok.mp h
  obtain ⟨timeBasis, -, h⟩ := bind_eq_ok.mp h
  obtain ⟨provider, -, h⟩ := bind_eq_ok.mp h
  obtain ⟨model, -, h⟩ := bind_eq_ok.mp h
  obtain ⟨fromTime, -, h⟩ := bind_eq_ok.mp h
  obtain ⟨toTime, -, h⟩ := bind_eq_ok.mp h
  obtain ⟨-, h⟩ := require_bind_eq_ok.mp h
  obtain ⟨_, -, h⟩ := bind_eq_ok.mp h
  obtain ⟨size, hsize, h⟩ := bind_eq_ok.mp h
  cases pure_eq_ok.mp h
  have hbounded : ∀ n : ℤ, (do
      require (1 ≤ n ∧ n ≤ maxPageSize) (invalid "page_size 必须在 1 到 200 之间")
      return n.toNat : Outcome ℕ) = .ok size → 0 < size := by
    intro n hn
    obtain ⟨hrange, hn⟩ := require_bind_eq_ok.mp hn
    rw [← pure_eq_ok.mp hn]
    omega
  unfold pageSize at hsize
  dsimp only at hsize
  split at hsize
  · rw [← pure_eq_ok.mp hsize]
    show 0 < defaultPageSize
    decide
  · rw [← pure_eq_ok.mp hsize]
    show 0 < defaultPageSize
    decide
  · exact hbounded _ hsize
  · obtain ⟨n, -, hn⟩ := bind_eq_ok.mp hsize
    exact hbounded n hn
  · cases hsize

/-! ## Runs and calls -/

def fetchRuns (host : Host) (ledger : Ledger) (request : Entries) (cursor : Option String) :
    Outcome (List RunRow × Option (Option String)) :=
  (runs host ledger (withCursor request cursor)).map fun r => (r.items, r.nextCursor.map some)

def fetchCalls (host : Host) (ledger : Ledger) (request : Entries) (cursor : Option String) :
    Outcome (List CallRow × Option (Option String)) :=
  (calls host ledger (withCursor request cursor)).map fun r => (r.items, r.nextCursor.map some)

variable (ledger) in
theorem fetches_runs {request : Entries} (h : normalizeFilters host request = .ok ⟨f, none⟩) :
    Fetches (fetchRuns host ledger request) (runsView ledger f) host f id Sendable where
  start := by
    unfold fetchRuns runs
    rw [withCursor, h]
    show Except.map _ ((runsView ledger f).page host f none >>= fun _ => _) = _
    cases (runsView ledger f).page host f none with
    | error e => rfl
    | ok page =>
        show Except.ok (page.items, page.nextCursor.map some) =
          Except.ok (page.items.map id, page.nextCursor.map some)
        rw [List.map_id]
  accepted cursor hcursor := by
    unfold fetchRuns runs
    rw [normalizeFilters_withCursor h, cursorOf_sendable hcursor]
    show Except.map _ ((runsView ledger f).page host f (some cursor) >>= fun _ => _) = _
    cases (runsView ledger f).page host f (some cursor) with
    | error e => rfl
    | ok page =>
        show Except.ok (page.items, page.nextCursor.map some) =
          Except.ok (page.items.map id, page.nextCursor.map some)
        rw [List.map_id]
  refused cursor hcursor := by
    unfold fetchRuns runs
    rw [normalizeFilters_withCursor h, cursorOf_refused hcursor]
    exact ⟨_, rfl⟩

variable (ledger) in
theorem fetches_calls {request : Entries} (h : normalizeFilters host request = .ok ⟨f, none⟩) :
    Fetches (fetchCalls host ledger request) (callsView ledger f) host f Prod.fst Sendable where
  start := by
    unfold fetchCalls calls
    rw [withCursor, h]
    show Except.map _ ((callsView ledger f).page host f none >>= fun _ => _) = _
    cases (callsView ledger f).page host f none <;> rfl
  accepted cursor hcursor := by
    unfold fetchCalls calls
    rw [normalizeFilters_withCursor h, cursorOf_sendable hcursor]
    show Except.map _ ((callsView ledger f).page host f (some cursor) >>= fun _ => _) = _
    cases (callsView ledger f).page host f (some cursor) <;> rfl
  refused cursor hcursor := by
    unfold fetchCalls calls
    rw [normalizeFilters_withCursor h, cursorOf_refused hcursor]
    exact ⟨_, rfl⟩

/-! ## Exports -/

section

variable {α : Type} {view : View α}

/-- The pages of an export. -/
def fetchExport (view : View α) (host : Host) (f : Filters) (values : α → List Value)
    (cursor : Option String) : Outcome (List (List Value) × Option (Option String)) :=
  (view.page host f cursor).map fun page =>
    (page.items.map fun item => csvRow f (values item), page.nextCursor.map some)

theorem fetches_export (values : α → List Value) :
    Fetches (fetchExport view host f values) view host f (fun item => csvRow f (values item))
      fun _ => True where
  start := rfl
  accepted _ _ := rfl
  refused _ h := absurd trivial h

/-- More rows are announced exactly where a cursor is given. -/
theorem page_hasMore (hsize : 0 < f.pageSize) {cursor : Option String} {page : Page α}
    (h : view.page host f cursor = .ok page) :
    page.hasMore = page.nextCursor.isSome ∧ (page.items = [] → page.nextCursor = none) := by
  unfold View.page at h
  obtain ⟨continued, -, h⟩ := bind_eq_ok.mp h
  obtain ⟨selected, -, h⟩ := bind_eq_ok.mp h
  cases pure_eq_ok.mp h
  set rows := (ordered view.position selected).take (f.pageSize + 1) with hrows
  by_cases hmore : f.pageSize < rows.length
  · have hread : rows.take f.pageSize ≠ [] := by
      refine List.ne_nil_of_length_pos ?_
      rw [List.length_take]
      omega
    have hlast := List.getLast?_eq_getLast_of_ne_nil hread
    refine ⟨?_, fun hnil => absurd hnil hread⟩
    show decide (f.pageSize < rows.length) = Option.isSome (if f.pageSize < rows.length then _ else _)
    rw [if_pos hmore, hlast, decide_eq_true hmore]
    rfl
  · refine ⟨?_, fun _ => if_neg hmore⟩
    show decide (f.pageSize < rows.length) = Option.isSome (if f.pageSize < rows.length then _ else _)
    rw [if_neg hmore, decide_eq_false hmore]
    rfl

/-- An export follows its cursors. -/
theorem exportFrom_eq_follow (hsize : 0 < f.pageSize) (values : α → List Value) (fuel : ℕ)
    (cursor : Option String) :
    view.exportFrom host f values fuel cursor =
      follow (fetchExport view host f values) fuel cursor := by
  induction fuel generalizing cursor with
  | zero => rfl
  | succ fuel ih =>
      rw [View.exportFrom, follow, fetchExport]
      cases hpage : view.page host f cursor with
      | error e => rfl
      | ok page =>
          obtain ⟨hmore, hempty⟩ := page_hasMore hsize hpage
          obtain ⟨items, next, more⟩ := page
          change more = next.isSome at hmore
          change items = [] → next = none at hempty
          subst hmore
          cases items with
          | nil =>
              rw [hempty rfl]
              rfl
          | cons item rest =>
              cases next with
              | none => rfl
              | some next =>
                  show (view.exportFrom host f values fuel (some next) >>= fun rest => _) = _
                  rw [ih]
                  rfl

variable (host) in
theorem export_complete_iff (hkeyed : view.Keyed) (hsize : 0 < f.pageSize)
    (values : α → List Value) :
    Complete (fetchExport view host f values) view (fun item => csvRow f (values item)) ↔
      view.clauses.isEmpty = false := by
  rw [complete_iff (fetches_export values) hkeyed hsize]
  exact and_iff_left fun _ _ => trivial

end

/-! ## Runs, calls and exports together -/

/-- The answer is that the cursor is not valid. -/
def Rejected {β : Type} (answer : Outcome β) : Prop :=
  ∃ message, answer = .error (.analytics message "invalid_cursor")

/-- Every selected row is written once, newest first. -/
def ExportComplete {α : Type} (host : Host) (ledger : Ledger) (request : Entries) (kind : String)
    (f : Filters) (view : View α) (values : α → List Value) : Prop :=
  ∀ fuel, view.selected.length < fuel → ∃ written,
    exportCsv host ledger request kind fuel = .ok (some written) ∧
    Enumerates view.position view.selected (fun row cells => csvRow f (values row) = cells) written

/-- Pages and exports have every selected row once, newest first, and a cursor continues its own
query only. -/
structure AnalyticsComplete (host : Host) (ledger : Ledger) (request : Entries) (f : Filters) :
    Prop where
  runsRead : Complete (fetchRuns host ledger request) (runsView ledger f) id
  callsRead : Complete (fetchCalls host ledger request) (callsView ledger f) Prod.fst
  runsExported : ExportComplete host ledger request "runs" f (runsView ledger f) RunRow.values
  callsExported : ExportComplete host ledger request "calls" f (callsView ledger f)
    fun row => row.1.values
  foreign : ∀ request' g, normalizeFilters host request' = .ok ⟨g, none⟩ → g ≠ f →
    ∀ timestamp itemId,
      Rejected (runs host ledger (withCursor request' (some (makeCursor host f timestamp itemId)))) ∧
      Rejected (calls host ledger (withCursor request' (some (makeCursor host f timestamp itemId))))

theorem page_foreign {α : Type} (view : View α) (h : f ≠ g) (timestamp itemId : String) :
    view.page host g (some (makeCursor host f timestamp itemId)) = .error otherQuery := by
  have hcontinued : view.continued host g (some (makeCursor host f timestamp itemId)) =
      .error otherQuery := by
    rw [View.continued, cursorPayload_other host h]
    rfl
  rw [View.page, hcontinued]
  rfl

theorem rejected_of_page {request : Entries} (h : normalizeFilters host request = .ok ⟨g, none⟩)
    {cursor : String} (hruns : (runsView ledger g).page host g (some cursor) = .error otherQuery)
    (hcalls : (callsView ledger g).page host g (some cursor) = .error otherQuery) :
    Rejected (runs host ledger (withCursor request (some cursor))) ∧
      Rejected (calls host ledger (withCursor request (some cursor))) := by
  unfold runs calls
  rw [normalizeFilters_withCursor h]
  by_cases hsendable : Sendable cursor
  · rw [cursorOf_sendable hsendable]
    refine ⟨⟨"cursor 与当前筛选条件不匹配", ?_⟩, ⟨"cursor 与当前筛选条件不匹配", ?_⟩⟩
    · show ((runsView ledger g).page host g (some cursor) >>= fun _ => _) = _
      rw [hruns]
      rfl
    · show ((callsView ledger g).page host g (some cursor) >>= fun _ => _) = _
      rw [hcalls]
      rfl
  · rw [cursorOf_refused hsendable]
    exact ⟨⟨_, rfl⟩, ⟨_, rfl⟩⟩

theorem exportRuns_iff {request : Entries} (h : normalizeFilters host request = .ok ⟨f, none⟩) :
    ExportComplete host ledger request "runs" f (runsView ledger f) RunRow.values ↔
      ¬ Unconditioned f := by
  have hsize := pageSize_pos h
  rw [← clauses_runsView ledger f, ← export_complete_iff host (keyed_runsView ledger f) hsize]
  unfold ExportComplete Complete exportCsv
  rw [h]
  refine forall_congr' fun fuel => imp_congr_right fun _ => exists_congr fun written => ?_
  rw [← exportFrom_eq_follow hsize]
  rfl

theorem exportCalls_complete {request : Entries}
    (h : normalizeFilters host request = .ok ⟨f, none⟩) :
    ExportComplete host ledger request "calls" f (callsView ledger f) fun row => row.1.values := by
  have hsize := pageSize_pos h
  have hcomplete := (export_complete_iff host (keyed_callsView ledger f) hsize
    fun row => row.1.values).mpr (clauses_callsView ledger f)
  intro fuel hfuel
  obtain ⟨written, hwritten, henumerates⟩ := hcomplete fuel hfuel
  refine ⟨written, ?_, henumerates⟩
  rw [← exportFrom_eq_follow hsize] at hwritten
  unfold exportCsv
  rw [h]
  exact hwritten

/-- Pages and exports are complete exactly when the query of the runs has a condition, and no
cursor at the end of a page is longer than a request may send back. -/
theorem analytics_complete_iff (host : Host) (ledger : Ledger) {request : Entries} {f : Filters}
    (h : normalizeFilters host request = .ok ⟨f, none⟩) :
    AnalyticsComplete host ledger request f ↔ ¬ Unconditioned f ∧
      (∀ row, (runsView ledger f).Boundary f.pageSize row →
        Sendable ((runsView ledger f).cursor host f row)) ∧
      ∀ row, (callsView ledger f).Boundary f.pageSize row →
        Sendable ((callsView ledger f).cursor host f row) := by
  have hsize := pageSize_pos h
  have hruns := complete_iff (fetches_runs ledger h) (keyed_runsView ledger f) hsize
  have hcalls := complete_iff (fetches_calls ledger h) (keyed_callsView ledger f) hsize
  rw [clauses_runsView] at hruns
  constructor
  · intro hall
    obtain ⟨hcondition, hsendable⟩ := hruns.mp hall.runsRead
    exact ⟨hcondition, hsendable, (hcalls.mp hall.callsRead).2⟩
  · rintro ⟨hcondition, hsendable, hsendable'⟩
    exact {
      runsRead := hruns.mpr ⟨hcondition, hsendable⟩
      callsRead := hcalls.mpr ⟨clauses_callsView ledger f, hsendable'⟩
      runsExported := (exportRuns_iff h).mpr hcondition
      callsExported := exportCalls_complete h
      foreign := fun _ _ h' hne timestamp itemId => rejected_of_page h'
        (page_foreign _ hne.symm timestamp itemId) (page_foreign _ hne.symm timestamp itemId) }

/-! ## Runs that share a time -/

open Classical in
/-- `json.loads`, as the inverse of the writer. -/
noncomputable def readBack (s : String) : Option Json :=
  if h : ∃ j, Json.dumps j = s then some h.choose else none

theorem readBack_dumps (j : Json) : readBack (Json.dumps j) = some j := by
  have h : ∃ i, Json.dumps i = Json.dumps j := ⟨j, rfl⟩
  unfold readBack
  rw [dif_pos h]
  exact congrArg some (Json.chars_injective (String.ofList_injective h.choose_spec))

def oneAtATime : Entries := [("page_size", .int 1)]

def oneAtATimeFilters : Filters :=
  ⟨"production", none, none, none, .activity, none, none, 1⟩

def oneAtATimeDigest : String :=
  "9cd895a25bbe750a0a264abe1b45d41e5bd6a7b4c00b51889cd681dfb4fcd697"

/-- The digest of the filters of the example, and no times. -/
noncomputable def textHost : Host where
  sha256 := Equiv.swap (Json.canonical (.obj oneAtATimeFilters.fields)) oneAtATimeDigest
  loads := readBack
  parseTime _ := .invalid
  digits _ := none
  sha256_injective := Equiv.injective _
  loads_dumps fields _ _ := readBack_dumps (.obj fields)

def runAt (analysisRunId updatedAt : String) : RunRow where
  analysisRunId := analysisRunId
  environment := "production"
  scopeKey := "default"
  requestKey := analysisRunId
  inputJobId := none
  sourceId := none
  parentRunId := none
  provenance := "verified"
  status := "running"
  expectedMembers := 1
  inputCount := some 0
  reportedInputCount := none
  createdAt := updatedAt
  updatedAt := updatedAt
  completedAt := none
  settledAt := none

def threeRuns : Ledger where
  runs := [runAt "r1" "2026-01-01T00:00:00+00:00", runAt "r2" "2026-01-02T00:00:00+00:00",
    runAt "r3" "2026-01-01T00:00:00+00:00"]
  calls := []
  runs_nodup := by decide
  calls_nodup := by decide
  run_written := by decide
  call_written := by decide

theorem normalize_oneAtATime :
    normalizeFilters textHost oneAtATime = .ok ⟨oneAtATimeFilters, none⟩ := by
  unfold normalizeFilters
  rw [require_of (unknownKeys_eq_nil.mpr (by decide))]
  exact eq_ok_of_toOption (by decide +kernel)

theorem length_makeCursor (host : Host) (f : Filters) (timestamp itemId : String) :
    (makeCursor host f timestamp itemId).length = (Base64.encode ((Json.canonicalChars
      (.obj (cursorFields host f timestamp itemId))).flatMap String.utf8EncodeChar)).length := by
  simp [makeCursor, Base64.utf8, Json.canonical]

/-- Pages of one run, two of which have one time. -/
theorem analytics_complete_three :
    AnalyticsComplete textHost threeRuns oneAtATime oneAtATimeFilters := by
  refine (analytics_complete_iff textHost threeRuns normalize_oneAtATime).mpr ⟨?_, ?_, ?_⟩
  · exact fun h => absurd h.1 (by decide)
  · intro row hrow
    have hdigest : filterDigest textHost oneAtATimeFilters = oneAtATimeDigest :=
      Equiv.swap_apply_left _ _
    have hshort : ∀ row ∈ threeRuns.runs, let length := (Base64.encode ((Json.canonicalChars (.obj
        [("filter_digest", .str oneAtATimeDigest), ("id", .str row.analysisRunId),
          ("timestamp", .str row.updatedAt), ("version", .num cursorVersion)])).flatMap
            String.utf8EncodeChar)).length
        0 < length ∧ length ≤ cursorLimit := by
      decide +kernel
    obtain ⟨hpos, hle⟩ := hshort row (mem_selected.mp hrow.mem).1
    have hlength := length_makeCursor textHost oneAtATimeFilters row.updatedAt row.analysisRunId
    rw [cursorFields, hdigest] at hlength
    rw [← hlength] at hpos hle
    refine ⟨fun hempty => ?_, hle⟩
    change makeCursor textHost oneAtATimeFilters row.updatedAt row.analysisRunId = "" at hempty
    rw [hempty] at hpos
    exact absurd hpos (Nat.lt_irrefl 0)
  · intro row hrow
    exact absurd (mem_selected.mp hrow.mem).1 List.not_mem_nil

/-- Without a condition on the runs there is no query. -/
def everything : Entries := [("environment", .str "all")]

theorem everything_not_exported : ¬ ∀ (host : Host) (ledger : Ledger) (request : Entries)
    (f : Filters), normalizeFilters host request = .ok ⟨f, none⟩ →
      AnalyticsComplete host ledger request f := by
  intro h
  have hnormalized : normalizeFilters textHost everything =
      .ok ⟨⟨"all", none, none, none, .activity, none, none, 50⟩, none⟩ := by
    unfold normalizeFilters
    rw [require_of (unknownKeys_eq_nil.mpr (by decide))]
    exact eq_ok_of_toOption (by decide +kernel)
  have hexported := (h textHost threeRuns everything _ hnormalized).runsExported
  exact (exportRuns_iff hnormalized).mp hexported ⟨rfl, rfl, rfl, rfl, rfl⟩

end LogRisk.Analytics
