import LogRisk.Reports.Execute

/-!
# The life of a report

At most one executor ever holds a report.  What it may still do to the row and to the
published file depends on where it stands; that no other process does more to the row
than to cancel or to expire it carries the invariant through every interleaving.
-/

namespace LogRisk.Reports

open LogRisk.Library LogRisk.Library.Transaction

variable {sha256 : Body → String} {w : World}

/-! ## Rows -/

theorem get?_updateWhere (id : String) (cond : Report → Bool) (set : Report → Report) (rows : Table)
    (k : String) :
    (updateWhere id cond set rows).get? k =
      (rows.get? k).map fun row => if k = id ∧ cond row then set row else row :=
  Dict.get?_mapEntries _ _ _

theorem get?_updateWhere_of_ne {id k : String} (h : k ≠ id) (cond : Report → Bool)
    (set : Report → Report) (rows : Table) :
    (updateWhere id cond set rows).get? k = rows.get? k := by
  rw [get?_updateWhere]
  simp [h]

theorem get?_updateWhere_of_matched {id : String} {cond : Report → Bool} (set : Report → Report)
    {rows : Table} {row : Report} (hrow : rows.get? id = some row) (hcond : matched id cond rows) :
    (updateWhere id cond set rows).get? id = some (set row) ∧ cond row = true := by
  unfold matched at hcond
  rw [hrow, Option.any_some] at hcond
  rw [get?_updateWhere, hrow]
  simp [hcond]

/-- A row behind the update of another process. -/
theorem get?_updateWhere_some {id k : String} {cond : Report → Bool} {set : Report → Report}
    {rows : Table} {row : Report} (hrow : rows.get? k = some row) :
    (updateWhere id cond set rows).get? k = some (if k = id ∧ cond row then set row else row) := by
  rw [get?_updateWhere, hrow]
  rfl

/-- What a step may make of the rows: each changes as a transaction may change it, and a
row that appears is a new report. -/
def Evolves (now : ℤ) (rows rows' : Table) : Prop :=
  ∀ id, (∀ row, rows.get? id = some row → ∃ row', rows'.get? id = some row' ∧ Change now row row') ∧
    (rows.get? id = none → rows'.get? id = none ∨
      ∃ new : NewReport, new.reportId = id ∧ rows'.get? id = some new.row)

theorem evolves_refl (now : ℤ) (rows : Table) : Evolves now rows rows :=
  fun _ => ⟨fun row h => ⟨row, h, .keep row⟩, fun h => .inl h⟩

theorem evolves_updateWhere {now : ℤ} {id : String} {cond : Report → Bool} {set : Report → Report}
    (hset : ∀ row, cond row → Change now row (set row)) (rows : Table) :
    Evolves now rows (updateWhere id cond set rows) := by
  refine fun k => ⟨fun row hrow => ⟨_, get?_updateWhere_some hrow, ?_⟩, fun hnone => .inl ?_⟩
  · split
    · rename_i h
      exact hset row h.2
    · exact .keep row
  · rw [get?_updateWhere, hnone]
    rfl

theorem evolves_failReport (now : ℤ) (id code : String) (rows : Table) :
    Evolves now rows (failReport id code rows) :=
  evolves_updateWhere (fun row h => .fail row code h) rows

theorem evolves_raiseAt (now : ℤ) (e : Executor) (code : String) (outside : Outside) :
    Evolves now w.rows (raiseAt w e code outside).1.rows := by
  unfold raiseAt
  split <;> exact evolves_refl now w.rows

variable (sha256) in
/-- An executor's step changes rows as transactions do. -/
theorem evolves_advance (w : World) (e : Executor) (outside : Outside) :
    Evolves w.clock w.rows (advance sha256 w e outside).1.rows := by
  unfold advance
  split
  · exact evolves_raiseAt w.clock e _ outside
  · split
    · split
      · exact evolves_updateWhere (fun row h => .take row e.claim h) w.rows
      · exact evolves_refl w.clock w.rows
    · split
      · exact evolves_refl w.clock w.rows
      · split <;> exact evolves_refl w.clock w.rows
    · split <;> exact evolves_refl w.clock w.rows
    · exact evolves_failReport w.clock e.reportId _ w.rows
    · split <;> exact evolves_refl w.clock w.rows
    · split
      · exact evolves_updateWhere (fun row h => .reserve row e.claim h) w.rows
      · exact evolves_refl w.clock w.rows
    · split <;> exact evolves_refl w.clock w.rows
    · exact evolves_refl w.clock w.rows
    · split <;> exact evolves_refl w.clock w.rows
    · split <;> exact evolves_refl w.clock w.rows
    · split <;> exact evolves_refl w.clock w.rows
    · split <;> exact evolves_refl w.clock w.rows
    · split
      · exact evolves_updateWhere (fun row h => .complete row e.claim _ _ _ h) w.rows
      · exact evolves_refl w.clock w.rows
    · split <;> exact evolves_refl w.clock w.rows
    · exact evolves_failReport w.clock e.reportId _ w.rows
    · split <;> exact evolves_refl w.clock w.rows
    · split
      · split
        · exact evolves_refl w.clock w.rows
        · split <;> exact evolves_refl w.clock w.rows
      · exact evolves_refl w.clock w.rows
    · exact evolves_refl w.clock w.rows
    · exact evolves_refl w.clock w.rows

theorem evolves_create (now : ℤ) (new : NewReport) (rows : Table) :
    Evolves now rows (settled rows (create new rows)) := by
  unfold create
  split
  · split <;> exact evolves_refl now rows
  · split
    · exact evolves_refl now rows
    · rename_i hfree
      intro id
      by_cases hid : new.reportId = id
      · subst hid
        refine ⟨fun row hrow => ?_, fun _ => .inr ⟨new, rfl, Dict.get?_set_self rows _ _⟩⟩
        rw [hfree] at hrow
        cases hrow
      · have hsame : (rows.set new.reportId new.row).get? id = rows.get? id :=
          Dict.get?_set_of_ne hid
        exact ⟨fun row hrow => ⟨row, hsame.trans hrow, .keep row⟩, fun hnone =>
          .inl (hsame.trans hnone)⟩

theorem get?_recoverInterrupted (now : ℤ) (rows : Table) (id : String) :
    (recoverInterrupted now rows).get? id =
      (rows.get? id).map fun row => if row.expired now then row.expire else row :=
  Dict.get?_mapEntries _ _ _

theorem evolves_recover (now : ℤ) (rows : Table) : Evolves now rows (recoverInterrupted now rows) := by
  intro id
  rw [get?_recoverInterrupted]
  refine ⟨fun row hrow => ⟨if row.expired now then row.expire else row, by rw [hrow]; rfl, ?_⟩,
    fun hnone => .inl (by rw [hnone]; rfl)⟩
  split
  · rename_i h
    exact .expire row h
  · exact .keep row

/-! ## What a step leaves alone -/

/-- A step of an executor stays within its report. -/
structure Within (w w' : World) (e e' : Executor) : Prop where
  clock : w'.clock = w.clock
  executors : w'.executors = w.executors
  reportId : e'.reportId = e.reportId
  claim : e'.claim = e.claim
  rows : ∀ id, id ≠ e.reportId → w'.rows.get? id = w.rows.get? id
  html : ∀ id, id ≠ e.reportId → w'.html id = w.html id
  calls : ∀ id, id ≠ e.reportId → w'.calls id = w.calls id
  temps : ∀ id claim, id ≠ e.reportId → w'.temps (id, claim) = w.temps (id, claim)

theorem within_self (w : World) {e e' : Executor} (hid : e'.reportId = e.reportId)
    (hclaim : e'.claim = e.claim) : Within w w e e' :=
  ⟨rfl, rfl, hid, hclaim, fun _ _ => rfl, fun _ _ => rfl, fun _ _ => rfl, fun _ _ _ => rfl⟩

theorem within_rows (w : World) {e e' : Executor} (cond : Report → Bool) (set : Report → Report)
    (hid : e'.reportId = e.reportId) (hclaim : e'.claim = e.claim) :
    Within w { w with rows := updateWhere e.reportId cond set w.rows } e e' :=
  ⟨rfl, rfl, hid, hclaim, fun _ hne => get?_updateWhere_of_ne hne cond set w.rows, fun _ _ => rfl,
    fun _ _ => rfl, fun _ _ _ => rfl⟩

theorem within_calls (w : World) {e e' : Executor} (n : ℕ) (hid : e'.reportId = e.reportId)
    (hclaim : e'.claim = e.claim) :
    Within w { w with calls := Function.update w.calls e.reportId n } e e' :=
  ⟨rfl, rfl, hid, hclaim, fun _ _ => rfl, fun _ _ => rfl,
    fun _ hne => Function.update_of_ne hne n w.calls, fun _ _ _ => rfl⟩

theorem within_files (w : World) {e e' : Executor} (html temp : Option Body)
    (hid : e'.reportId = e.reportId) (hclaim : e'.claim = e.claim) :
    Within w { w with
      html := Function.update w.html e.reportId html
      temps := Function.update w.temps (e.reportId, e.claim) temp } e e' := by
  refine ⟨rfl, rfl, hid, hclaim, fun _ _ => rfl, fun _ hne => Function.update_of_ne hne _ _,
    fun _ _ => rfl, fun id claim hne => Function.update_of_ne (fun heq => hne ?_) _ _⟩
  exact (Prod.mk.inj heq).1

theorem within_html (w : World) {e e' : Executor} (html : Option Body)
    (hid : e'.reportId = e.reportId) (hclaim : e'.claim = e.claim) :
    Within w { w with html := Function.update w.html e.reportId html } e e' := by
  have h := within_files w html (w.temps (e.reportId, e.claim)) hid hclaim
  rwa [Function.update_eq_self] at h

theorem within_temps (w : World) {e e' : Executor} (temp : Option Body)
    (hid : e'.reportId = e.reportId) (hclaim : e'.claim = e.claim) :
    Within w { w with temps := Function.update w.temps (e.reportId, e.claim) temp } e e' := by
  have h := within_files w (w.html e.reportId) temp hid hclaim
  rwa [Function.update_eq_self] at h

theorem within_raiseAt (w : World) (e : Executor) (code : String) (outside : Outside) :
    Within w (raiseAt w e code outside).1 e (raiseAt w e code outside).2 := by
  unfold raiseAt
  split
  · exact within_self w rfl rfl
  · exact within_self w rfl rfl
  · exact within_self w rfl rfl
  · exact within_self w rfl rfl
  · exact within_self w rfl rfl
  · exact within_self w rfl rfl
  · exact within_calls w _ rfl rfl
  · exact within_temps w _ rfl rfl
  · exact within_self w rfl rfl

variable (sha256) in
theorem within_advance (w : World) (e : Executor) (outside : Outside) :
    Within w (advance sha256 w e outside).1 e (advance sha256 w e outside).2 := by
  unfold advance
  split
  · exact within_raiseAt w e _ outside
  · split
    · split
      · exact within_rows w _ _ rfl rfl
      · exact within_self w rfl rfl
    · split
      · exact within_self w rfl rfl
      · split <;> exact within_self w rfl rfl
    · split <;> exact within_self w rfl rfl
    · exact within_rows w _ _ rfl rfl
    · split <;> exact within_self w rfl rfl
    · split
      · exact within_rows w _ _ rfl rfl
      · exact within_self w rfl rfl
    · split <;> exact within_self w rfl rfl
    · exact within_calls w _ rfl rfl
    · split <;> exact within_self w rfl rfl
    · split
      · exact within_self w rfl rfl
      · exact within_temps w _ rfl rfl
    · split <;> exact within_self w rfl rfl
    · split
      · exact within_self w rfl rfl
      · exact within_files w _ _ rfl rfl
    · split
      · exact within_rows w _ _ rfl rfl
      · exact within_self w rfl rfl
    · split
      · exact within_self w rfl rfl
      · exact within_html w _ rfl rfl
    · exact within_rows w _ _ rfl rfl
    · split
      · exact within_temps w _ rfl rfl
      · exact within_self w rfl rfl
    · split
      · split
        · exact within_self w rfl rfl
        · split <;> exact within_self w rfl rfl
      · exact within_self w rfl rfl
    · exact within_html w _ rfl rfl
    · exact within_self w rfl rfl

variable (sha256) in
/-- The rows of any step. -/
theorem evolves_act (w : World) (action : Action) :
    (w.act sha256 action).clock = w.clock + action.elapsed ∧
      Evolves (w.clock + action.elapsed) w.rows (w.act sha256 action).rows := by
  obtain ⟨elapsed, event⟩ := action
  unfold World.act World.event
  cases event with
  | create new => exact ⟨rfl, evolves_create _ new w.rows⟩
  | cancel id => exact ⟨rfl, evolves_updateWhere (fun row h => .cancel row h) w.rows⟩
  | fail id code => exact ⟨rfl, evolves_failReport _ id code w.rows⟩
  | recover => exact ⟨rfl, evolves_recover _ w.rows⟩
  | execute worker id claim =>
      dsimp only
      split <;> exact ⟨rfl, evolves_refl _ w.rows⟩
  | step worker outside =>
      dsimp only
      split
      · exact ⟨rfl, evolves_refl _ w.rows⟩
      · rename_i e _
        have hwithin := within_advance sha256 { w with clock := w.clock + elapsed } e outside
        have hevolves := evolves_advance sha256 { w with clock := w.clock + elapsed } e outside
        exact ⟨hwithin.clock, hevolves⟩
  | crash worker => exact ⟨rfl, evolves_refl _ w.rows⟩

/-! ## What holds of a row -/

structure RowOk (sha256 : Body → String) (id : String) (row : Report) (html : Option Body)
    (calls : ℕ) : Prop where
  modelCalls : row.modelCalls ≤ 1
  calls : calls ≤ row.modelCalls
  queued : row.status = .queued → html = none
  /-- The published file is the one the row describes. -/
  completed : row.status = .completed → row.cancelRequested = false ∧
    ∃ body, html = some body ∧ body.length ≤ htmlLimit ∧
      row.artifactPath = some (id ++ "/report.html") ∧ row.artifactDigest = some (sha256 body) ∧
        row.artifactBytes = some body.length

/-- What another process than the executor may make of a row. -/
structure Outer (row row' : Report) : Prop where
  modelCalls : row'.modelCalls = row.modelCalls
  queued : row'.status = .queued → row.status = .queued
  completed : row'.status = .completed → row' = row

theorem outer_refl (row : Report) : Outer row row := ⟨rfl, id, fun _ => rfl⟩

theorem outer_cancel (row : Report) (h : row.isLive) : Outer row row.cancel := by
  refine ⟨rfl, fun hstatus => ?_, fun hstatus => ?_⟩
  · have hcases : (if row.status = .queued then Status.cancelled else row.status) = .queued := hstatus
    split at hcases
    · cases hcases
    · exact hcases
  · have hcases : (if row.status = .queued then Status.cancelled else row.status) = .completed :=
      hstatus
    split at hcases
    · cases hcases
    · unfold Report.isLive at h
      rw [hcases] at h
      cases h

/-- A row that is ended is neither queued nor completed. -/
theorem outer_of_ended {row row' : Report} (hcalls : row'.modelCalls = row.modelCalls)
    (h : row'.status = if row.cancelRequested then .cancelled else .failed) : Outer row row' := by
  refine ⟨hcalls, fun hstatus => ?_, fun hstatus => ?_⟩
  · rw [h] at hstatus
    split at hstatus <;> cases hstatus
  · rw [h] at hstatus
    split at hstatus <;> cases hstatus

theorem outer_ite {p : Prop} [Decidable p] {row row' : Report} (h : p → Outer row row') :
    Outer row (if p then row' else row) := by
  split
  · rename_i hp
    exact h hp
  · exact outer_refl row

theorem RowOk.outer {id : String} {row row' : Report} {html : Option Body} {calls : ℕ}
    (h : RowOk sha256 id row html calls) (houter : Outer row row') :
    RowOk sha256 id row' html calls := by
  refine ⟨?_, ?_, fun hstatus => h.queued (houter.queued hstatus), fun hstatus => ?_⟩
  · rw [houter.modelCalls]
    exact h.modelCalls
  · rw [houter.modelCalls]
    exact h.calls
  · have hsame := houter.completed hstatus
    subst hsame
    exact h.completed hstatus

/-- The file of a report that is neither queued nor completed may change. -/
theorem RowOk.html {id : String} {row : Report} {html : Option Body} {calls : ℕ}
    (h : RowOk sha256 id row html calls) (hqueued : row.status ≠ .queued)
    (hcompleted : row.status ≠ .completed) (html' : Option Body) : RowOk sha256 id row html' calls :=
  ⟨h.modelCalls, h.calls, fun hstatus => absurd hstatus hqueued, fun hstatus =>
    absurd hstatus hcompleted⟩

/-! ## What holds of an executor -/

/-- The file has not been published yet. -/
def Pc.early : Pc → Bool
  | .check point | .deadline point _ | .cancelled point => point ≠ .withdrawn
  | .prepare | .reserve _ | .ready _ | .invoke | .render | .writeTemporary | .stat | .replace => true
  | _ => false

/-- The temporary file holds the page. -/
def Pc.written : Pc → Bool
  | .check .written | .deadline .written _ | .stat | .replace => true
  | _ => false

/-- The call is reserved and has not been made. -/
def Pc.calling : Pc → Bool
  | .ready _ | .invoke => true
  | _ => false

/-- The executor only cleans up. -/
def Pc.cleaning : Pc → Bool
  | .cleanTemporary | .cleanPublished => true
  | _ => false

/-- The executor holds the report. -/
def Executor.active (e : Executor) : Prop := e.pc ≠ .take ∧ e.pc ≠ .closed

structure Stage (w : World) (e : Executor) (row : Report) : Prop where
  started : row.status ≠ .queued
  incomplete : e.pc.cleaning = false → row.status ≠ .completed
  unpublished : e.pc.early = true → w.html e.reportId = none
  written : e.pc.written = true → w.temps (e.reportId, e.claim) = some e.body
  published : e.pc = .complete → w.html e.reportId = some e.body
  calling : e.pc.calling = true → row.modelCalls = 1 ∧ w.calls e.reportId = 0

/-- A step to a place that asks for no more. -/
theorem Stage.goto {e : Executor} {row : Report} (h : Stage w e row) {pc : Pc}
    (hcleaning : pc.cleaning = false → e.pc.cleaning = false) (hearly : pc.early = true → e.pc.early = true)
    (hwritten : pc.written = true → e.pc.written = true)
    (hcalling : pc.calling = true → e.pc.calling = true) (hcomplete : pc ≠ .complete) :
    Stage w (e.goto pc) row :=
  ⟨h.started, fun hpc => h.incomplete (hcleaning hpc), fun hpc => h.unpublished (hearly hpc),
    fun hpc => h.written (hwritten hpc), fun hpc => absurd hpc hcomplete,
    fun hpc => h.calling (hcalling hpc)⟩

/-- An executor that cleans up asks for nothing but a report that was taken. -/
theorem stage_cleaning {e : Executor} {row : Report} (hstarted : row.status ≠ .queued)
    (hcleaning : e.pc.cleaning = true) : Stage w e row := by
  cases hpc : e.pc with
  | cleanTemporary | cleanPublished =>
      constructor <;> simp [hpc, hstarted, Pc.cleaning, Pc.early, Pc.written, Pc.calling]
  | _ =>
      rw [hpc] at hcleaning
      cases hcleaning

/-- Steps of others leave the stage as it is. -/
theorem Stage.congr {w' : World} {e : Executor} {row row' : Report} (h : Stage w e row)
    (houter : Outer row row') (hhtml : w'.html e.reportId = w.html e.reportId)
    (htemps : w'.temps (e.reportId, e.claim) = w.temps (e.reportId, e.claim))
    (hcalls : w'.calls e.reportId = w.calls e.reportId) : Stage w' e row' := by
  refine ⟨fun hstatus => h.started (houter.queued hstatus), fun hpc hstatus => ?_, fun hpc => ?_,
    fun hpc => ?_, fun hpc => ?_, fun hpc => ?_⟩
  · have hsame := houter.completed hstatus
    subst hsame
    exact h.incomplete hpc hstatus
  · rw [hhtml]
    exact h.unpublished hpc
  · rw [htemps]
    exact h.written hpc
  · rw [hhtml]
    exact h.published hpc
  · rw [houter.modelCalls, hcalls]
    exact h.calling hpc

/-- What an executor leaves behind a step on its report. -/
structure Left (sha256 : Body → String) (w' : World) (e e' : Executor) : Prop where
  row : ∃ row, w'.rows.get? e.reportId = some row ∧
    RowOk sha256 e.reportId row (w'.html e.reportId) (w'.calls e.reportId) ∧
      (e'.active → Stage w' e' row)
  body : e'.body.length ≤ htmlLimit

section Step

variable {e : Executor} {row : Report}

theorem left_quiet (hrow : w.rows.get? e.reportId = some row)
    (hok : RowOk sha256 e.reportId row (w.html e.reportId) (w.calls e.reportId))
    (hbody : e.body.length ≤ htmlLimit) {pc : Pc} (hstage : (e.goto pc).active → Stage w (e.goto pc) row) :
    Left sha256 w e (e.goto pc) :=
  ⟨⟨row, hrow, hok, hstage⟩, hbody⟩

theorem left_closed (hrow : w.rows.get? e.reportId = some row)
    (hok : RowOk sha256 e.reportId row (w.html e.reportId) (w.calls e.reportId))
    (hbody : e.body.length ≤ htmlLimit) : Left sha256 w e (e.goto .closed) :=
  left_quiet hrow hok hbody fun hactive => absurd rfl hactive.2

/-- The row is failed, and what is left is to clean up. -/
theorem left_failReport (hrow : w.rows.get? e.reportId = some row)
    (hok : RowOk sha256 e.reportId row (w.html e.reportId) (w.calls e.reportId))
    (hbody : e.body.length ≤ htmlLimit) (hstage : Stage w e row) (code : String) :
    Left sha256 { w with rows := failReport e.reportId code w.rows } e (e.goto .cleanTemporary) := by
  have houter : Outer row (if e.reportId = e.reportId ∧ row.isLive then row.fail code else row) :=
    outer_ite fun _ => outer_of_ended rfl rfl
  refine ⟨⟨_, get?_updateWhere_some hrow, hok.outer houter, fun _ => ?_⟩, hbody⟩
  exact stage_cleaning (fun hstatus => hstage.started (houter.queued hstatus)) rfl

/-- The model is called. -/
theorem left_invoked (hrow : w.rows.get? e.reportId = some row)
    (hok : RowOk sha256 e.reportId row (w.html e.reportId) (w.calls e.reportId))
    (hbody : e.body.length ≤ htmlLimit) (hstage : Stage w e row) (hpc : e.pc = .invoke) {pc : Pc}
    (hcleaning : pc.cleaning = false) (hwritten : pc.written = false) (hcalling : pc.calling = false)
    (hcomplete : pc ≠ .complete) :
    Left sha256 { w with calls := Function.update w.calls e.reportId (w.calls e.reportId + 1) } e
      (e.goto pc) := by
  obtain ⟨hmodel, hcalls⟩ := hstage.calling (by rw [hpc]; rfl)
  refine ⟨⟨row, hrow, ⟨hok.modelCalls, ?_, hok.queued, hok.completed⟩, fun _ => ?_⟩, hbody⟩
  · show Function.update w.calls e.reportId (w.calls e.reportId + 1) e.reportId ≤ row.modelCalls
    rw [Function.update_self, hcalls, hmodel]
  · refine ⟨hstage.started, fun _ => hstage.incomplete (by rw [hpc]; rfl),
      fun _ => hstage.unpublished (by rw [hpc]; rfl), fun h => ?_, fun h => absurd h hcomplete,
      fun h => ?_⟩
    · exact absurd (hwritten.symm.trans h) Bool.false_ne_true
    · exact absurd (hcalling.symm.trans h) Bool.false_ne_true

/-- An exception outside of the cleaning leads to its handler. -/
theorem left_raised (hrow : w.rows.get? e.reportId = some row)
    (hok : RowOk sha256 e.reportId row (w.html e.reportId) (w.calls e.reportId))
    (hbody : e.body.length ≤ htmlLimit) (hstage : Stage w e row) (hcleaning : e.pc.cleaning = false)
    (code : String) : Left sha256 w e (e.goto (.fail code)) :=
  left_quiet hrow hok hbody fun _ => hstage.goto (fun _ => hcleaning) (fun h => by cases h)
    (fun h => by cases h) (fun h => by cases h) (fun h => by cases h)

/-- The temporary file is written, wholly or in part. -/
theorem left_temps (hrow : w.rows.get? e.reportId = some row)
    (hok : RowOk sha256 e.reportId row (w.html e.reportId) (w.calls e.reportId))
    (hbody : e.body.length ≤ htmlLimit) (temp : Option Body) {e' : Executor}
    (hsame : e'.body = e.body)
    (hstage : Stage { w with temps := Function.update w.temps (e.reportId, e.claim) temp } e' row) :
    Left sha256 { w with temps := Function.update w.temps (e.reportId, e.claim) temp } e e' :=
  ⟨⟨row, hrow, hok, fun _ => hstage⟩, hsame ▸ hbody⟩

theorem left_raiseAt (hrow : w.rows.get? e.reportId = some row)
    (hok : RowOk sha256 e.reportId row (w.html e.reportId) (w.calls e.reportId))
    (hbody : e.body.length ≤ htmlLimit) (hstage : Stage w e row) (code : String) (outside : Outside) :
    Left sha256 (raiseAt w e code outside).1 e (raiseAt w e code outside).2 := by
  cases hpc : e.pc with
  | take | cleanTemporary | cleanPublished | unlinkPublished | closed =>
      simp only [raiseAt, hpc]
      exact left_closed hrow hok hbody
  | fail code' =>
      simp only [raiseAt, hpc]
      exact left_quiet hrow hok hbody fun _ => stage_cleaning hstage.started rfl
  | invoke =>
      simp only [raiseAt, hpc]
      exact left_invoked hrow hok hbody hstage hpc rfl rfl rfl (by simp)
  | writeTemporary =>
      simp only [raiseAt, hpc]
      refine left_temps hrow hok hbody outside.leftover rfl
        ⟨hstage.started, fun _ => hstage.incomplete (by rw [hpc]; rfl), ?_, ?_, ?_, ?_⟩ <;> simp [Pc.early, Pc.written, Pc.calling]
  | check point | deadline point d | cancelled point | prepare | reserve d | ready d | render | stat
  | replace | complete | withdraw =>
      simp only [raiseAt, hpc]
      exact left_raised hrow hok hbody hstage (by rw [hpc]; rfl) code

/-- Where `check_cancel` lets the execution go on. -/
theorem left_next (hrow : w.rows.get? e.reportId = some row)
    (hok : RowOk sha256 e.reportId row (w.html e.reportId) (w.calls e.reportId))
    (hbody : e.body.length ≤ htmlLimit) (hstage : Stage w e row) {point : CheckPoint} {d : ℤ}
    (hpc : e.pc = .deadline point d) : Left sha256 w e (e.goto point.next) := by
  refine left_quiet hrow hok hbody fun _ => ?_
  cases point with
  | unreserved | withdrawn => exact stage_cleaning hstage.started rfl
  | taken | prepared | answered | rendered | written =>
      exact hstage.goto (by rw [hpc]; simp [Pc.cleaning]) (by rw [hpc]; simp [Pc.early])
        (by rw [hpc]; simp [Pc.written, CheckPoint.next])
        (by rw [hpc]; simp [Pc.calling, CheckPoint.next]) (by simp [CheckPoint.next])

/-- The call is reserved: the row counts one call, and none has been made. -/
theorem left_reserved (hrow : w.rows.get? e.reportId = some row)
    (hok : RowOk sha256 e.reportId row (w.html e.reportId) (w.calls e.reportId))
    (hbody : e.body.length ≤ htmlLimit) (hstage : Stage w e row) {d : ℤ} (hpc : e.pc = .reserve d)
    (hmatched : matched e.reportId (Report.reservable e.claim) w.rows) :
    Left sha256 { w with
      rows := updateWhere e.reportId (Report.reservable e.claim) Report.reserve w.rows } e
        (e.goto (.ready d)) := by
  obtain ⟨hget, hcond⟩ := get?_updateWhere_of_matched Report.reserve hrow hmatched
  have hnone : row.modelCalls = 0 := by
    unfold Report.reservable at hcond
    simp only [Bool.and_eq_true, decide_eq_true_eq] at hcond
    exact hcond.1.2
  have hcalls : w.calls e.reportId = 0 := Nat.le_zero.mp (hnone ▸ hok.calls)
  refine ⟨⟨_, hget, ⟨le_refl 1, ?_, hok.queued, hok.completed⟩, fun _ => ?_⟩, hbody⟩
  · show w.calls e.reportId ≤ 1
    omega
  · refine ⟨hstage.started, fun _ => hstage.incomplete (by rw [hpc]; rfl),
      fun _ => hstage.unpublished (by rw [hpc]; rfl), fun h => ?_, fun h => ?_, fun _ => ⟨rfl, hcalls⟩⟩
    · cases h
    · cases h

/-- The report is completed with the file that was published. -/
theorem left_completed (hrow : w.rows.get? e.reportId = some row)
    (hok : RowOk sha256 e.reportId row (w.html e.reportId) (w.calls e.reportId))
    (hbody : e.body.length ≤ htmlLimit) (hstage : Stage w e row) (hpc : e.pc = .complete)
    (hmatched : matched e.reportId (Report.completable e.claim w.clock) w.rows) :
    Left sha256 { w with
      rows := updateWhere e.reportId (Report.completable e.claim w.clock)
        (Report.complete (e.reportId ++ "/report.html") (sha256 e.body) e.body.length) w.rows } e
          (e.goto .cleanTemporary) := by
  obtain ⟨hget, hcond⟩ := get?_updateWhere_of_matched
    (Report.complete (e.reportId ++ "/report.html") (sha256 e.body) e.body.length) hrow hmatched
  have hcancel : row.cancelRequested = false := by
    unfold Report.completable at hcond
    simp only [Bool.and_eq_true, Bool.not_eq_true'] at hcond
    exact hcond.1.2
  refine ⟨⟨_, hget, ⟨hok.modelCalls, hok.calls, fun h => ?_, fun _ => ?_⟩, fun _ => ?_⟩, hbody⟩
  · cases h
  · exact ⟨hcancel, e.body, hstage.published hpc, hbody, rfl, rfl, rfl⟩
  · exact stage_cleaning (fun h => by cases h) rfl

/-- An executor that holds a report leaves it in order. -/
theorem left_advance (hrow : w.rows.get? e.reportId = some row)
    (hok : RowOk sha256 e.reportId row (w.html e.reportId) (w.calls e.reportId))
    (hbody : e.body.length ≤ htmlLimit) (hstage : Stage w e row) (hactive : e.active)
    (outside : Outside) :
    Left sha256 (advance sha256 w e outside).1 e (advance sha256 w e outside).2 := by
  unfold advance
  split
  · exact left_raiseAt hrow hok hbody hstage _ outside
  · cases hpc : e.pc with
    | take => exact absurd hpc hactive.1
    | closed => exact absurd hpc hactive.2
    | check point =>
        simp only [hrow]
        have hcleaning : e.pc.cleaning = false := by rw [hpc]; rfl
        split
        · refine left_quiet hrow hok hbody fun _ => hstage.goto (fun _ => hcleaning) ?_ ?_ ?_ ?_ <;>
            simp [hpc, Pc.early, Pc.written, Pc.calling]
        · refine left_quiet hrow hok hbody fun _ => hstage.goto (fun _ => hcleaning) ?_ ?_ ?_ ?_
          · simp [hpc, Pc.early]
          · cases point <;> simp [hpc, Pc.written]
          · simp [Pc.calling]
          · simp
    | deadline point d =>
        dsimp only
        split
        · exact left_raised hrow hok hbody hstage (by rw [hpc]; rfl) _
        · exact left_next hrow hok hbody hstage hpc
    | cancelled point => exact left_failReport hrow hok hbody hstage _
    | prepare =>
        simp only [hrow]
        refine left_quiet hrow hok hbody fun _ => hstage.goto ?_ ?_ ?_ ?_ ?_ <;>
          simp [hpc, Pc.cleaning, Pc.early, Pc.written, Pc.calling]
    | reserve d =>
        dsimp only
        split
        · rename_i hmatched
          exact left_reserved hrow hok hbody hstage hpc hmatched
        · refine left_quiet hrow hok hbody fun _ => hstage.goto ?_ ?_ ?_ ?_ ?_ <;>
            simp [hpc, Pc.cleaning, Pc.early, Pc.written, Pc.calling]
    | ready d =>
        dsimp only
        split
        · exact left_raised hrow hok hbody hstage (by rw [hpc]; rfl) _
        · refine left_quiet hrow hok hbody fun _ => hstage.goto ?_ ?_ ?_ ?_ ?_ <;>
            simp [hpc, Pc.cleaning, Pc.early, Pc.written, Pc.calling]
    | invoke => exact left_invoked hrow hok hbody hstage hpc rfl rfl rfl (by simp)
    | render =>
        dsimp only
        split
        · exact left_raised hrow hok hbody hstage (by rw [hpc]; rfl) _
        · rename_i hlimit
          refine ⟨⟨row, hrow, hok, fun _ => ?_⟩, Nat.le_of_not_lt hlimit⟩
          refine ⟨hstage.started, fun _ => hstage.incomplete (by rw [hpc]; rfl),
            fun _ => hstage.unpublished (by rw [hpc]; rfl), ?_, ?_, ?_⟩ <;>
              simp [Pc.written, Pc.calling]
    | writeTemporary =>
        dsimp only
        split
        · refine ⟨⟨row, hrow, hok, fun _ => ?_⟩, hbody⟩
          refine ⟨hstage.started, fun _ => hstage.incomplete (by rw [hpc]; rfl), ?_, ?_, ?_, ?_⟩ <;>
            simp [Pc.early, Pc.written, Pc.calling]
        · refine left_temps hrow hok hbody (some e.body) rfl ⟨hstage.started,
            fun _ => hstage.incomplete (by rw [hpc]; rfl),
            fun _ => hstage.unpublished (by rw [hpc]; rfl), fun _ => ?_, ?_, ?_⟩
          · exact Function.update_self ..
          · simp
          · simp [Pc.calling]
    | stat =>
        dsimp only
        split
        · exact left_raised hrow hok hbody hstage (by rw [hpc]; rfl) _
        · refine left_quiet hrow hok hbody fun _ => hstage.goto ?_ ?_ ?_ ?_ ?_ <;>
            simp [hpc, Pc.cleaning, Pc.early, Pc.written, Pc.calling]
    | replace =>
        have htemp := hstage.written (by rw [hpc]; rfl)
        simp only [htemp]
        refine ⟨⟨row, hrow, ?_, fun _ => ?_⟩, hbody⟩
        · exact hok.html hstage.started (hstage.incomplete (by rw [hpc]; rfl)) _
        · refine ⟨hstage.started, fun _ => hstage.incomplete (by rw [hpc]; rfl), ?_, ?_,
            fun _ => Function.update_self .., ?_⟩ <;> simp [Pc.early, Pc.written, Pc.calling]
    | complete =>
        dsimp only
        split
        · rename_i hmatched
          exact left_completed hrow hok hbody hstage hpc hmatched
        · refine left_quiet hrow hok hbody fun _ => hstage.goto ?_ ?_ ?_ ?_ ?_ <;>
            simp [hpc, Pc.cleaning, Pc.early, Pc.written, Pc.calling]
    | withdraw =>
        dsimp only
        split
        · exact left_raised hrow hok hbody hstage (by rw [hpc]; rfl) _
        · refine ⟨⟨row, hrow, ?_, fun _ => ?_⟩, hbody⟩
          · exact hok.html hstage.started (hstage.incomplete (by rw [hpc]; rfl)) _
          · refine ⟨hstage.started, fun _ => hstage.incomplete (by rw [hpc]; rfl), ?_, ?_, ?_, ?_⟩ <;>
              simp [Pc.early, Pc.written, Pc.calling]
    | fail code => exact left_failReport hrow hok hbody hstage code
    | cleanTemporary =>
        dsimp only
        split
        · exact left_temps hrow hok hbody none rfl (stage_cleaning hstage.started rfl)
        · exact left_quiet hrow hok hbody fun _ => stage_cleaning hstage.started rfl
    | cleanPublished =>
        simp only [hrow]
        split
        · split
          · exact left_closed hrow hok hbody
          · rename_i hstatus
            refine left_quiet hrow hok hbody fun _ => ⟨hstage.started, fun _ => hstatus, ?_, ?_, ?_, ?_⟩
              <;> simp [Executor.goto, Pc.early, Pc.written, Pc.calling]
        · exact left_closed hrow hok hbody
    | unlinkPublished =>
        refine ⟨⟨row, hrow, ?_, fun hactive => absurd rfl hactive.2⟩, hbody⟩
        exact hok.html hstage.started (hstage.incomplete (by rw [hpc]; rfl)) _

/-- An executor takes a queued report, whose file does not exist yet. -/
theorem left_taken (hrow : w.rows.get? e.reportId = some row)
    (hok : RowOk sha256 e.reportId row (w.html e.reportId) (w.calls e.reportId))
    (hbody : e.body.length ≤ htmlLimit)
    (hmatched : matched e.reportId Report.claimable w.rows) :
    row.status = .queued ∧ Left sha256 { w with
      rows := updateWhere e.reportId Report.claimable (Report.take e.claim) w.rows } e
        (e.goto (.check .taken)) := by
  obtain ⟨hget, hcond⟩ := get?_updateWhere_of_matched (Report.take e.claim) hrow hmatched
  have hqueued : row.status = .queued := by
    unfold Report.claimable at hcond
    simp only [Bool.and_eq_true, decide_eq_true_eq] at hcond
    exact hcond.1
  refine ⟨hqueued, ⟨_, hget, ⟨hok.modelCalls, hok.calls, ?_, ?_⟩, fun _ => ⟨?_, ?_, ?_, ?_, ?_, ?_⟩⟩,
    hbody⟩
  · exact fun h => by cases h
  · exact fun h => by cases h
  · exact fun h => by cases h
  · exact fun _ h => by cases h
  · exact fun _ => hok.queued hqueued
  · exact fun h => by cases h
  · exact fun h => by cases h
  · exact fun h => by cases h

end Step

/-! ## Every interleaving -/

/-- `uuid4().hex`. -/
def HexId (id : String) : Prop := id.length = 32 ∧ ∀ c ∈ id.toList, isHexDigit c = true

structure Sound (sha256 : Body → String) (w : World) : Prop where
  row : ∀ id row, w.rows.get? id = some row → RowOk sha256 id row (w.html id) (w.calls id)
  absent : ∀ id, w.rows.get? id = none → w.html id = none ∧ w.calls id = 0
  stage : ∀ worker e, w.executors worker = some e → e.active →
    ∃ row, w.rows.get? e.reportId = some row ∧ Stage w e row
  /-- One executor at most holds a report. -/
  unique : ∀ worker worker' e e', w.executors worker = some e → w.executors worker' = some e' →
    e.active → e'.active → e.reportId = e'.reportId → worker = worker'
  body : ∀ worker e, w.executors worker = some e → e.body.length ≤ htmlLimit
  hexId : ∀ id row, w.rows.get? id = some row → HexId id

theorem sound_start (sha256 : Body → String) : Sound sha256 {} := by
  constructor <;> intros <;> simp_all

/-- Other processes do no more than `Outer` allows. -/
theorem Sound.outer (h : Sound sha256 w) (clock : ℤ) {rows : Table}
    (houter : ∀ id row, w.rows.get? id = some row →
      ∃ row', rows.get? id = some row' ∧ Outer row row')
    (hnone : ∀ id, w.rows.get? id = none → rows.get? id = none) :
    Sound sha256 { w with rows, clock } := by
  have hback : ∀ id row', rows.get? id = some row' →
      ∃ row, w.rows.get? id = some row ∧ Outer row row' := by
    intro id row' hrow'
    cases hrow : w.rows.get? id with
    | none =>
        rw [hnone id hrow] at hrow'
        cases hrow'
    | some row =>
        obtain ⟨row'', hget, hout⟩ := houter id row hrow
        obtain rfl := Option.some.inj (hget.symm.trans hrow')
        exact ⟨row, rfl, hout⟩
  refine ⟨fun id row' hrow' => ?_, fun id hid => ?_, fun worker e he hactive => ?_, h.unique, h.body,
    fun id row' hrow' => ?_⟩
  · obtain ⟨row, hrow, hout⟩ := hback id row' hrow'
    exact (h.row id row hrow).outer hout
  · cases hrow : w.rows.get? id with
    | none => exact h.absent id hrow
    | some row =>
        obtain ⟨row', hget, -⟩ := houter id row hrow
        rw [hget] at hid
        cases hid
  · obtain ⟨row, hrow, hstage⟩ := h.stage worker e he hactive
    obtain ⟨row', hget, hout⟩ := houter _ row hrow
    exact ⟨row', hget, hstage.congr hout rfl rfl rfl⟩
  · obtain ⟨row, hrow, -⟩ := hback id row' hrow'
    exact h.hexId id row hrow

theorem Sound.clock (h : Sound sha256 w) (clock : ℤ) : Sound sha256 { w with clock } :=
  h.outer clock (fun _ row hrow => ⟨row, hrow, outer_refl row⟩) fun _ hnone => hnone

/-- An executor that holds nothing starts, ends or dies. -/
theorem Sound.put (h : Sound sha256 w) (worker : ℕ) {e : Option Executor}
    (hinactive : ∀ e', e = some e' → ¬e'.active ∧ e'.body.length ≤ htmlLimit) :
    Sound sha256 (w.put worker e) := by
  have hother : ∀ other e', (w.put worker e).executors other = some e' → e'.active →
      w.executors other = some e' := by
    intro other e' he' hactive
    unfold World.put at he'
    dsimp only at he'
    by_cases heq : other = worker
    · subst heq
      rw [Function.update_self] at he'
      exact absurd hactive (hinactive e' he').1
    · rwa [Function.update_of_ne heq] at he'
  refine ⟨h.row, h.absent, fun other e' he' hactive => ?_, ?_, fun other e' he' => ?_, h.hexId⟩
  · obtain ⟨row, hrow, hstage⟩ := h.stage other e' (hother other e' he' hactive) hactive
    exact ⟨row, hrow, hstage.congr (outer_refl row) rfl rfl rfl⟩
  · intro a b ea eb hea heb hactive hactive' hid
    exact h.unique a b ea eb (hother a ea hea hactive) (hother b eb heb hactive') hactive hactive' hid
  · unfold World.put at he'
    dsimp only at he'
    by_cases heq : other = worker
    · subst heq
      rw [Function.update_self] at he'
      exact (hinactive e' he').2
    · rw [Function.update_of_ne heq] at he'
      exact h.body other e' he'

/-- The only executor of a report takes a step on it. -/
theorem Sound.left (h : Sound sha256 w) {w' : World} {worker : ℕ} {e e' : Executor} {row : Report}
    (hrow : w.rows.get? e.reportId = some row) (hwithin : Within w w' e e')
    (hleft : Left sha256 w' e e')
    (hsole : ∀ other e₂, other ≠ worker → w.executors other = some e₂ → e₂.active →
      e₂.reportId ≠ e.reportId) :
    Sound sha256 (w'.put worker (some e')) := by
  obtain ⟨⟨row', hrow', hok, hstage⟩, hbody⟩ := hleft
  have hothers : ∀ other e₂, other ≠ worker → (w'.put worker (some e')).executors other = some e₂ →
      w.executors other = some e₂ := by
    intro other e₂ hne he₂
    unfold World.put at he₂
    dsimp only at he₂
    rwa [Function.update_of_ne hne, hwithin.executors] at he₂
  have hself : ∀ e₂, (w'.put worker (some e')).executors worker = some e₂ → e₂ = e' := by
    intro e₂ he₂
    unfold World.put at he₂
    dsimp only at he₂
    rw [Function.update_self] at he₂
    exact (Option.some.inj he₂).symm
  refine ⟨fun id r hr => ?_, fun id hid => ?_, fun other e₂ he₂ hactive => ?_, ?_,
    fun other e₂ he₂ => ?_, fun id r hr => ?_⟩
  · by_cases heq : id = e.reportId
    · subst heq
      obtain rfl := Option.some.inj (hrow'.symm.trans hr)
      exact hok
    · have hr' : w.rows.get? id = some r := (hwithin.rows id heq).symm.trans hr
      have hsame := h.row id r hr'
      rwa [← hwithin.html id heq, ← hwithin.calls id heq] at hsame
  · by_cases heq : id = e.reportId
    · subst heq
      cases hrow'.symm.trans hid
    · have hid' : w.rows.get? id = none := (hwithin.rows id heq).symm.trans hid
      have hsame := h.absent id hid'
      rwa [← hwithin.html id heq, ← hwithin.calls id heq] at hsame
  · by_cases heq : other = worker
    · subst heq
      obtain rfl := hself e₂ he₂
      refine ⟨row', ?_, (hstage hactive).congr (outer_refl row') rfl rfl rfl⟩
      rw [hwithin.reportId]
      exact hrow'
    · have he := hothers other e₂ heq he₂
      have hne := hsole other e₂ heq he hactive
      obtain ⟨r, hr, hst⟩ := h.stage other e₂ he hactive
      exact ⟨r, (hwithin.rows _ hne).trans hr, hst.congr (outer_refl r) (hwithin.html _ hne)
        (hwithin.temps _ _ hne) (hwithin.calls _ hne)⟩
  · intro a b ea eb hea heb hactive hactive' hid
    by_cases ha : a = worker
    · by_cases hb : b = worker
      · rw [ha, hb]
      · subst ha
        obtain rfl := hself ea hea
        have hne := hsole b eb hb (hothers b eb hb heb) hactive'
        exact absurd (hid.symm.trans hwithin.reportId) hne
    · by_cases hb : b = worker
      · subst hb
        obtain rfl := hself eb heb
        have hne := hsole a ea ha (hothers a ea ha hea) hactive
        exact absurd (hid.trans hwithin.reportId) hne
      · exact h.unique a b ea eb (hothers a ea ha hea) (hothers b eb hb heb) hactive hactive' hid
  · by_cases heq : other = worker
    · subst heq
      obtain rfl := hself e₂ he₂
      exact hbody
    · exact h.body other e₂ (hothers other e₂ heq he₂)
  · by_cases heq : id = e.reportId
    · subst heq
      exact h.hexId _ row hrow
    · exact h.hexId id r ((hwithin.rows id heq).symm.trans hr)

/-- Any step of an executor. -/
theorem Sound.advance (h : Sound sha256 w) {worker : ℕ} {e : Executor}
    (he : w.executors worker = some e) (outside : Outside) :
    Sound sha256 ((advance sha256 w e outside).1.put worker (some (advance sha256 w e outside).2)) := by
  have hbody := h.body worker e he
  by_cases hactive : e.active
  · obtain ⟨row, hrow, hstage⟩ := h.stage worker e he hactive
    refine h.left hrow (within_advance sha256 w e outside)
      (left_advance hrow (h.row _ row hrow) hbody hstage hactive outside) ?_
    intro other e₂ hne he₂ hactive₂ hid
    exact hne (h.unique other worker e₂ e he₂ he hactive₂ hactive hid)
  · have hclosed : Sound sha256 (w.put worker (some (e.goto .closed))) :=
      h.put worker fun e' he' => by
        obtain rfl := Option.some.inj he'
        exact ⟨fun hactive => hactive.2 rfl, hbody⟩
    have hpc : e.pc = .take ∨ e.pc = .closed := by
      by_contra hno
      rw [not_or] at hno
      exact hactive hno
    rcases hpc with hpc | hpc
    · unfold Reports.advance
      split
      · simpa only [raiseAt, hpc] using hclosed
      · simp only [hpc]
        split
        · rename_i hmatched
          cases hrow : w.rows.get? e.reportId with
          | none => simp [matched, hrow] at hmatched
          | some row =>
              obtain ⟨hqueued, hleft⟩ := left_taken hrow (h.row _ row hrow) hbody hmatched
              refine h.left hrow (within_rows w _ _ rfl rfl) hleft ?_
              intro other e₂ _ he₂ hactive₂ hid
              obtain ⟨r, hr, hst⟩ := h.stage other e₂ he₂ hactive₂
              rw [hid, hrow] at hr
              exact hst.started (Option.some.inj hr ▸ hqueued)
        · exact hclosed
    · have hsame : e.goto .closed = e := by
        unfold Executor.goto
        rw [← hpc]
      rw [hsame] at hclosed
      unfold Reports.advance
      split
      · simpa only [raiseAt, hpc, hsame] using hclosed
      · simpa only [hpc] using hclosed

theorem Sound.updateWhere (h : Sound sha256 w) (id : String) {cond : Report → Bool}
    {set : Report → Report} (hset : ∀ row, cond row → Outer row (set row)) :
    Sound sha256 { w with rows := updateWhere id cond set w.rows } := by
  refine h.outer w.clock (fun k row hrow => ⟨_, get?_updateWhere_some hrow, ?_⟩) fun k hnone => ?_
  · exact outer_ite fun hk => hset row hk.2
  · rw [get?_updateWhere, hnone]
    rfl

theorem Sound.recover (h : Sound sha256 w) :
    Sound sha256 { w with rows := recoverInterrupted w.clock w.rows } := by
  refine h.outer w.clock (fun k row hrow =>
    ⟨if row.expired w.clock then row.expire else row, ?_, ?_⟩) fun k hnone => ?_
  · rw [get?_recoverInterrupted, hrow]
    rfl
  · exact outer_ite fun _ => outer_of_ended rfl rfl
  · rw [get?_recoverInterrupted, hnone]
    rfl

/-- A new report has no file and no call yet. -/
theorem Sound.create (h : Sound sha256 w) (new : NewReport) :
    Sound sha256 { w with rows := settled w.rows (create new w.rows) } := by
  unfold Reports.create
  split
  · split <;> exact h
  · split
    · exact h
    · rename_i hfree
      obtain ⟨hhtml, hcalls⟩ := h.absent _ hfree
      have hget : ∀ id, id ≠ new.reportId →
          (w.rows.set new.reportId new.row).get? id = w.rows.get? id :=
        fun id hne => Dict.get?_set_of_ne (Ne.symm hne)
      have hself : (w.rows.set new.reportId new.row).get? new.reportId = some new.row :=
        Dict.get?_set_self w.rows _ _
      refine ⟨fun id row hrow => ?_, fun id hid => ?_, fun worker e he hactive => ?_, h.unique, h.body,
        fun id row hrow => ?_⟩
      · by_cases heq : id = new.reportId
        · subst heq
          obtain rfl := Option.some.inj (hself.symm.trans hrow)
          refine ⟨Nat.zero_le 1, hcalls.le, fun _ => hhtml, fun hstatus => ?_⟩
          cases hstatus
        · exact h.row id row ((hget id heq).symm.trans hrow)
      · by_cases heq : id = new.reportId
        · subst heq
          cases hself.symm.trans hid
        · exact h.absent id ((hget id heq).symm.trans hid)
      · obtain ⟨row, hrow, hstage⟩ := h.stage worker e he hactive
        have hne : e.reportId ≠ new.reportId := by
          intro heq
          rw [heq, hfree] at hrow
          cases hrow
        exact ⟨row, (hget _ hne).trans hrow, hstage.congr (outer_refl row) rfl rfl rfl⟩
      · by_cases heq : id = new.reportId
        · subst heq
          exact ⟨new.length, new.hex⟩
        · exact h.hexId id row ((hget id heq).symm.trans hrow)

theorem Sound.act (h : Sound sha256 w) (action : Action) : Sound sha256 (w.act sha256 action) := by
  have hclock := h.clock (w.clock + action.elapsed)
  unfold World.act World.event
  cases action.event with
  | create new => exact hclock.create new
  | cancel id => exact hclock.updateWhere id outer_cancel
  | fail id code => exact hclock.updateWhere id fun _ _ => outer_of_ended rfl rfl
  | recover => exact hclock.recover
  | execute worker id claim =>
      dsimp only
      split
      · exact hclock
      · refine hclock.put worker fun e' he' => ?_
        obtain rfl := Option.some.inj he'
        exact ⟨fun hactive => hactive.1 rfl, Nat.zero_le _⟩
  | step worker outside =>
      dsimp only
      split
      · exact hclock
      · rename_i e he
        exact hclock.advance he outside
  | crash worker => exact hclock.put worker fun e' he' => by cases he'

/-- Every state that processes can reach together. -/
theorem sound_run (sha256 : Body → String) (actions : List Action) :
    Sound sha256 (exec (World.act sha256) {} actions) :=
  exec_invariant' (fun _ action h => h.act action) (sound_start sha256) actions

/-! ## Downloads -/

theorem splitSlash_cons {c : Char} (hc : c ≠ '/') (rest : List Char) :
    ∃ piece pieces, splitSlash rest = piece :: pieces ∧
      splitSlash (c :: rest) = (c :: piece) :: pieces := by
  have hne : splitSlash rest ≠ [] := by
    cases rest with
    | nil => simp [splitSlash]
    | cons d rest =>
        unfold splitSlash
        split
        · exact List.cons_ne_nil _ _
        · split <;> exact List.cons_ne_nil _ _
  obtain ⟨piece, pieces, hsplit⟩ := List.exists_cons_of_ne_nil hne
  refine ⟨piece, pieces, hsplit, ?_⟩
  rw [splitSlash, if_neg hc, hsplit]

/-- A piece without slashes ends at the next one. -/
theorem splitSlash_append {cs : List Char} (hcs : ∀ c ∈ cs, c ≠ '/') (rest : List Char) :
    splitSlash (cs ++ '/' :: rest) = cs :: splitSlash rest := by
  induction cs with
  | nil => simp [splitSlash]
  | cons c cs ih =>
      obtain ⟨piece, pieces, hpiece, hsplit⟩ :=
        splitSlash_cons (hcs c List.mem_cons_self) (cs ++ '/' :: rest)
      rw [ih fun d hd => hcs d (List.mem_cons_of_mem _ hd)] at hpiece
      obtain ⟨rfl, rfl⟩ := List.cons.inj hpiece
      rw [List.cons_append, hsplit]

theorem hexDigit_spec {c : Char} (h : isHexDigit c = true) :
    c ≠ '/' ∧ c ≠ '.' ∧ 32 ≤ c.toNat ∧ Text.isSpace c = false := by
  have hrange : (48 ≤ c.toNat ∧ c.toNat ≤ 57) ∨ (97 ≤ c.toNat ∧ c.toNat ≤ 102) := by
    unfold isHexDigit at h
    simpa only [Bool.or_eq_true, Bool.and_eq_true, decide_eq_true_eq] using h
  refine ⟨?_, ?_, by omega, ?_⟩
  · rintro rfl
    revert hrange
    decide
  · rintro rfl
    revert hrange
    decide
  · unfold Text.isSpace
    simp only [Bool.or_eq_false_iff, Bool.and_eq_false_iff, decide_eq_false_iff_not, beq_eq_false_iff_ne]
    omega

theorem HexId.ne_nil {id : String} (h : HexId id) : id.toList ≠ [] := by
  intro hnil
  have hlength := h.1
  rw [← String.length_toList, hnil] at hlength
  cases hlength

theorem HexId.isIdentifier {id : String} (h : HexId id) : isIdentifier id = true := by
  obtain ⟨c, cs, hcs⟩ := List.exists_cons_of_ne_nil h.ne_nil
  have hc : c ∈ id.toList := by
    rw [hcs]
    exact List.mem_cons_self
  have hstrip := Text.strip_ne_empty hc (hexDigit_spec (h.2 c hc)).2.2.2
  unfold Reports.isIdentifier
  rw [Bool.and_eq_true, Bool.and_eq_true, decide_eq_true_eq, decide_eq_true_eq, h.1,
    List.all_eq_true]
  exact ⟨⟨hstrip, by decide⟩, fun d hd => decide_eq_true (hexDigit_spec (h.2 d hd)).2.2.1⟩

theorem HexId.relativeParts {id : String} (h : HexId id) :
    relativeParts (id ++ "/report.html") = some [id, "report.html"] := by
  have hlist : (id ++ "/report.html").toList = id.toList ++ '/' :: "report.html".toList := by
    rw [String.toList_append]
    rfl
  have hslash : ∀ c ∈ id.toList, c ≠ '/' := fun c hc => (hexDigit_spec (h.2 c hc)).1
  have hpieces : splitSlash "report.html".toList = ["report.html".toList] := by decide
  obtain ⟨c, cs, hcs⟩ := List.exists_cons_of_ne_nil h.ne_nil
  have hc : c ∈ id.toList := by
    rw [hcs]
    exact List.mem_cons_self
  have hhead : (id ++ "/report.html").toList.head? ≠ some '/' := by
    rw [hlist, hcs]
    intro hsome
    exact hslash c hc (Option.some.inj hsome)
  have hdot : id.toList ≠ ['.'] := by
    intro heq
    rw [heq, List.mem_singleton] at hc
    exact (hexDigit_spec (h.2 c (by rw [heq, hc]; exact List.mem_singleton_self _))).2.1 hc
  unfold Reports.relativeParts
  rw [if_neg hhead, hlist, splitSlash_append hslash, hpieces]
  have hfilter : [id.toList, "report.html".toList].filter (fun piece =>
      decide (piece ≠ [] ∧ piece ≠ ['.'])) = [id.toList, "report.html".toList] := by
    rw [List.filter_eq_self]
    intro piece hpiece
    rcases List.mem_pair.mp hpiece with rfl | rfl
    · exact decide_eq_true ⟨h.ne_nil, hdot⟩
    · decide
  rw [hfilter, List.map_cons, List.map_cons, List.map_nil, String.ofList_toList,
    String.ofList_toList]

/-- A download succeeds on completed reports alone, and returns the published file. -/
theorem Sound.download (h : Sound sha256 w) (id : String) (body : Body) :
    download sha256 w id = .ok body ↔
      (∃ row, w.rows.get? id = some row ∧ row.status = .completed) ∧ w.html id = some body := by
  unfold Reports.download
  simp only [require_bind_eq_ok, orFail_bind_eq_ok, pure_eq_ok]
  constructor
  · rintro ⟨-, row, hrow, hstatus, path, -, -, -, content, hcontent, -, rfl⟩
    obtain ⟨-, body, hbody, hlimit, -⟩ := (h.row id row hrow).completed hstatus
    obtain rfl := Option.some.inj (hbody.symm.trans hcontent)
    refine ⟨⟨row, hrow, hstatus⟩, ?_⟩
    rw [List.take_of_length_le (Nat.le_succ_of_le hlimit)]
    exact hbody
  · rintro ⟨⟨row, hrow, hstatus⟩, hhtml⟩
    have hid := h.hexId id row hrow
    obtain ⟨-, body', hbody, hlimit, hpath, hdigest, hbytes⟩ := (h.row id row hrow).completed hstatus
    obtain rfl := Option.some.inj (hbody.symm.trans hhtml)
    have htake := List.take_of_length_le (Nat.le_succ_of_le hlimit)
    refine ⟨hid.isIdentifier, row, hrow, hstatus, _, hpath, ?_, hid.relativeParts, body', hhtml, ?_, htake⟩
    · intro hempty
      have hlength := congrArg String.length hempty
      rw [String.length_append, hid.1] at hlength
      cases hlength
    · rw [htake]
      exact ⟨hbytes.symm, hdigest.symm⟩

/-! ## The life of a report -/

/-- What every run keeps of a report, from the state `w` that it has reached on. -/
structure Lives (sha256 : Body → String) (w : World) (id : String) : Prop where
  /-- A report that has ended never changes again. -/
  terminal : ∀ row, w.rows.get? id = some row → row.status.Terminal →
    ∀ later, (exec (World.act sha256) w later).rows.get? id = some row
  /-- One model call is reserved at most, and made at most. -/
  modelCalls : ∀ row, w.rows.get? id = some row → row.modelCalls ≤ 1 ∧ w.calls id ≤ row.modelCalls
  calls : w.calls id ≤ 1
  /-- A step that completes a report finds it uncancelled and within its deadline. -/
  completes : ∀ action row', (w.act sha256 action).rows.get? id = some row' →
    row'.status = .completed → (∀ row, w.rows.get? id = some row → row.status ≠ .completed) →
      ∃ row, w.rows.get? id = some row ∧ row.cancelRequested = false ∧
        (w.act sha256 action).clock < row.deadline
  /-- A report whose cancel was accepted is never completed. -/
  cancelled : ∀ row, w.rows.get? id = some row → row.status.live = true → ∀ elapsed later row',
    (exec (World.act sha256) (w.act sha256 ⟨elapsed, .cancel id⟩) later).rows.get? id = some row' →
      row'.status ≠ .completed
  /-- The file of a completed report is the recorded one. -/
  published : ∀ row, w.rows.get? id = some row → row.status = .completed →
    ∃ body, w.html id = some body ∧ row.artifactDigest = some (sha256 body) ∧
      row.artifactBytes = some body.length ∧ download sha256 w id = .ok body
  /-- No other report can be downloaded. -/
  download : ∀ body, download sha256 w id = .ok body →
    ∃ row, w.rows.get? id = some row ∧ row.status = .completed

variable (sha256) in
/-- What every change keeps of a row is kept by every run. -/
theorem exists_row_of_run (P : Report → Prop)
    (hP : ∀ (now : ℤ) row row', Change now row row' → P row → P row') {id : String}
    (hrow : ∃ row, w.rows.get? id = some row ∧ P row) (later : List Action) :
    ∃ row, (exec (World.act sha256) w later).rows.get? id = some row ∧ P row := by
  have hstep : ∀ (w : World) (action : Action), (∃ row, w.rows.get? id = some row ∧ P row) →
      ∃ row, (w.act sha256 action).rows.get? id = some row ∧ P row := by
    rintro w action ⟨row, hget, hp⟩
    obtain ⟨row', hget', hchange⟩ := ((evolves_act sha256 w action).2 id).1 row hget
    exact ⟨row', hget', hP _ row row' hchange hp⟩
  induction later generalizing w with
  | nil => exact hrow
  | cons action later ih => exact ih (hstep w action hrow)

theorem get?_cancel {id : String} {row : Report} (hrow : w.rows.get? id = some row)
    (hlive : row.status.live = true) (elapsed : ℕ) :
    (w.act sha256 ⟨elapsed, .cancel id⟩).rows.get? id = some row.cancel :=
  (get?_updateWhere_some hrow).trans (congrArg some (if_pos ⟨rfl, hlive⟩))

/-- Whatever processes create, execute, cancel and recover together, in any order of their
steps: every report lives as described. -/
theorem report_lives (sha256 : Body → String) (actions : List Action) (id : String) :
    Lives sha256 (exec (World.act sha256) {} actions) id := by
  have hsound := sound_run sha256 actions
  generalize exec (World.act sha256) {} actions = w at hsound
  constructor
  · intro row hrow hterminal later
    obtain ⟨row', hget, hsame, -⟩ := exists_row_of_run sha256
      (fun r => r = row ∧ r.status.Terminal) (fun now r r' hchange hr => by
        obtain rfl := hchange.eq_of_terminal hr.2
        exact hr) ⟨row, hrow, rfl, hterminal⟩ later
    rwa [hsame] at hget
  · exact fun row hrow => ⟨(hsound.row id row hrow).modelCalls, (hsound.row id row hrow).calls⟩
  · cases hrow : w.rows.get? id with
    | none => rw [(hsound.absent id hrow).2]; exact Nat.zero_le 1
    | some row => exact (hsound.row id row hrow).calls.trans (hsound.row id row hrow).modelCalls
  · intro action row' hrow' hdone hnot
    obtain ⟨hclock, hevolves⟩ := evolves_act sha256 w action
    rw [hclock]
    cases hrow : w.rows.get? id with
    | none =>
        rcases (hevolves id).2 hrow with hnone | ⟨new, -, hnew⟩
        · cases hnone.symm.trans hrow'
        · obtain rfl := Option.some.inj (hnew.symm.trans hrow')
          cases hdone
    | some row =>
        obtain ⟨r, hr, hchange⟩ := (hevolves id).1 row hrow
        obtain rfl := Option.some.inj (hr.symm.trans hrow')
        obtain ⟨hcancel, hdeadline⟩ := hchange.of_completed (hnot row hrow) hdone
        exact ⟨row, rfl, hcancel, hdeadline⟩
  · intro row hrow hlive elapsed later row' hrow' hdone
    obtain ⟨r, hr, hcancel⟩ := exists_row_of_run sha256
      (fun r => r.cancelRequested = true) (fun _ _ _ hchange h => hchange.cancelRequested h)
      ⟨row.cancel, get?_cancel hrow hlive elapsed, rfl⟩ later
    obtain rfl := Option.some.inj (hr.symm.trans hrow')
    have hlater : Sound sha256 (exec (World.act sha256) (w.act sha256 ⟨elapsed, .cancel id⟩) later) :=
      exec_invariant' (fun _ action h => h.act action) (hsound.act _) later
    have hnone := ((hlater.row id r hr).completed hdone).1
    rw [hnone] at hcancel
    cases hcancel
  · intro row hrow hdone
    obtain ⟨-, body, hbody, -, -, hdigest, hbytes⟩ := (hsound.row id row hrow).completed hdone
    exact ⟨body, hbody, hdigest, hbytes, (hsound.download id body).mpr ⟨⟨row, hrow, hdone⟩, hbody⟩⟩
  · exact fun body hdownload => ((hsound.download id body).mp hdownload).1

end LogRisk.Reports
