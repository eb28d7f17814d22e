import LogRisk.Agentic.System
import Mathlib.Algebra.GroupWithZero.Nat
import Mathlib.Data.List.Nodup

/-!
# Accounting of tool calls

With one execution at a time the recorded calls of a run add up to its counter, which
stays within the budget, they belong to steps of the plan, and a completed step is not
executed again.  `resume` reads the steps and writes the status in two transactions: a
run that has got steps in between is queued all the same and is planned anew, and the
new plan deletes the steps with their calls.  All this holds where `resume` puts only
runs without steps back into the queue.
-/

namespace LogRisk.Agentic

open LogRisk.Library Program LogRisk.Agentic.Runtime

variable {V α β : Type}

def RunDb.maxCalls (db : RunDb V) : ℕ := db.run.maxToolCalls

/-- The recorded calls account for the counter of the run. -/
structure Accounted (db : RunDb V) : Prop where
  used : db.used = (db.toolCalls.map (·.costUnits)).sum
  bounded : db.used ≤ db.maxCalls
  steps : ∀ call ∈ db.toolCalls, call.stepId ∈ db.stepIds

def Dispatch.isTool (stepId : String) : Dispatch V → Prop
  | .tool stepId' _ _ _ _ => stepId' = stepId
  | _ => False

/-- A step completed before is there after, and no tool was executed for it in between. -/
def CompletedOnce (w w' : World V) : Prop :=
  ∀ row ∈ w.db.steps, row.status = .completed → row ∈ w'.db.steps ∧
    ∀ d, w'.log = w.log ++ [d] → ¬ d.isTool row.stepId

/-- An execution starts where none is at work. -/
def oneExecution (k : Caller) (others : List Caller) (_ : World V) : Prop :=
  k.isExecution = true → ∀ j ∈ others, j.isExecution = false

/-- Only a run without steps is put back into the queue. -/
def requeuesEmpty (_ : Caller) (a : Action V) (w : World V) : Prop :=
  match a with
  | .transition status allowedFrom _ key =>
      status = .queued → key.any w.db.hasKey = false → w.db.status ∈ allowedFrom → w.db.steps = []
  | _ => True

abbrev soleSystem (rt : Runtime V) : System Caller (Action V) Action.Answer Exn Unit (World V) :=
  agentSystem rt oneExecution fun _ _ _ => True

abbrev settledSystem (rt : Runtime V) : System Caller (Action V) Action.Answer Exn Unit (World V) :=
  agentSystem rt oneExecution requeuesEmpty

/-! ## The invariant -/

/-- Nothing has been executed for the steps. -/
def Untouched (db : RunDb V) : Prop :=
  db.toolCalls = [] ∧ ∀ row ∈ db.steps, row.status ≠ .completed

structure AccountInv (w : World V) : Prop where
  accounted : Accounted w.db
  ids : w.db.stepIds.Nodup
  queued : w.db.status = .queued → Untouched w.db

/-- There are steps, and they will not be planned anew. -/
def Live (db : RunDb V) : Prop := db.steps ≠ [] ∧ db.status ≠ .queued

/-- No row of the step is completed. -/
def Fresh (stepId : String) (db : RunDb V) : Prop :=
  ∀ row ∈ db.steps, row.stepId = stepId → row.status ≠ .completed

/-- A change that neither completes steps nor loses any. -/
structure KeepsSteps (db db' : RunDb V) : Prop where
  ids : db'.stepIds = db.stepIds
  fresh : ∀ row' ∈ db'.steps, row'.status = .completed → row' ∈ db.steps
  kept : ∀ row ∈ db.steps, row.status = .completed → row ∈ db'.steps
  queued : db'.status = .queued → db.status = .queued ∨ db.steps = []

structure KeepsCalls (db db' : RunDb V) : Prop where
  used : db'.used = db.used
  maxCalls : db'.maxCalls = db.maxCalls
  calls : db'.toolCalls = db.toolCalls

structure Leaves (db db' : RunDb V) : Prop extends KeepsSteps db db', KeepsCalls db db'

variable {db db' db'' : RunDb V}

theorem RunDb.steps_eq_nil_iff : db.steps = [] ↔ db.stepIds = [] := by
  simp [RunDb.stepIds]

theorem KeepsSteps.refl (db : RunDb V) : KeepsSteps db db :=
  ⟨rfl, fun _ h _ => h, fun _ h _ => h, .inl⟩

theorem KeepsSteps.trans (h : KeepsSteps db db') (h' : KeepsSteps db' db'') :
    KeepsSteps db db'' where
  ids := h'.ids.trans h.ids
  fresh row hrow hdone := h.fresh row (h'.fresh row hrow hdone) hdone
  kept row hrow hdone := h'.kept row (h.kept row hrow hdone) hdone
  queued hq := by
    rcases h'.queued hq with hq | hnil
    · exact h.queued hq
    · right
      rw [RunDb.steps_eq_nil_iff, h.ids] at hnil
      exact RunDb.steps_eq_nil_iff.mpr hnil

theorem KeepsCalls.refl (db : RunDb V) : KeepsCalls db db := ⟨rfl, rfl, rfl⟩

theorem KeepsCalls.trans (h : KeepsCalls db db') (h' : KeepsCalls db' db'') :
    KeepsCalls db db'' :=
  ⟨h'.used.trans h.used, h'.maxCalls.trans h.maxCalls, h'.calls.trans h.calls⟩

theorem Leaves.refl (db : RunDb V) : Leaves db db := ⟨.refl db, .refl db⟩

theorem Leaves.trans (h : Leaves db db') (h' : Leaves db' db'') : Leaves db db'' :=
  ⟨h.toKeepsSteps.trans h'.toKeepsSteps, h.toKeepsCalls.trans h'.toKeepsCalls⟩

theorem Live.keep (h : Live db) (hk : KeepsSteps db db') : Live db' := by
  refine ⟨fun hnil => h.1 ?_, fun hq => ?_⟩
  · rw [RunDb.steps_eq_nil_iff, hk.ids] at hnil
    exact RunDb.steps_eq_nil_iff.mpr hnil
  · rcases hk.queued hq with hq | hnil
    · exact h.2 hq
    · exact h.1 hnil

theorem Fresh.keep {stepId : String} (h : Fresh stepId db) (hk : KeepsSteps db db') :
    Fresh stepId db' :=
  fun row hrow hid hdone => h row (hk.fresh row hrow hdone) hid hdone

theorem Untouched.leave (h : Untouched db) (hk : Leaves db db') : Untouched db' :=
  ⟨hk.calls.trans h.1, fun row hrow hdone => h.2 row (hk.fresh row hrow hdone) hdone⟩

theorem Accounted.leave (h : Accounted db) (hk : Leaves db db') : Accounted db' where
  used := by rw [hk.used, hk.calls, h.used]
  bounded := by
    rw [hk.used, hk.maxCalls]
    exact h.bounded
  steps call hcall := by
    rw [hk.ids]
    exact h.steps call (by rw [← hk.calls]; exact hcall)

theorem Accounted.untouched (h : Accounted db) (hnil : db.steps = []) : Untouched db := by
  refine ⟨List.eq_nil_iff_forall_not_mem.mpr fun call hcall => ?_, by simp [hnil]⟩
  have hmem := h.steps call hcall
  rw [RunDb.steps_eq_nil_iff.mp hnil] at hmem
  exact List.not_mem_nil hmem

/-! ## The transactions -/

theorem leaves_appendEvent (type : EventType) (key : Option String) :
    Leaves db (db.appendEvent type key) :=
  ⟨⟨rfl, fun _ h _ => h, fun _ h _ => h, .inl⟩, ⟨rfl, rfl, rfl⟩⟩

theorem leaves_setStatus {status : RunStatus} (errorCode : Option ErrorCode)
    (h : status = .queued → db.steps = []) : Leaves db (db.setStatus status errorCode) :=
  ⟨⟨rfl, fun _ h _ => h, fun _ h _ => h, fun hq => .inr (h hq)⟩, ⟨rfl, rfl, rfl⟩⟩

/-- Rows change without being completed or losing their completion. -/
theorem leaves_mapSteps {f : StepRow V → StepRow V} (hid : ∀ row, (f row).stepId = row.stepId)
    (hfresh : ∀ row ∈ db.steps, (f row).status = .completed → f row = row)
    (hkept : ∀ row, row.status = .completed → f row = row) : Leaves db (db.mapSteps f) := by
  refine ⟨⟨?_, fun row' hrow' hdone => ?_, fun row hrow hdone => ?_, .inl⟩, ⟨rfl, rfl, rfl⟩⟩
  · simp [RunDb.stepIds, hid]
  · obtain ⟨row, hrow, rfl⟩ := List.mem_map.mp hrow'
    rw [hfresh row hrow hdone]
    exact hrow
  · exact List.mem_map.mpr ⟨row, hrow, hkept row hdone⟩

theorem leaves_resetRunning : Leaves db (db.mapSteps RunDb.resetRunning) := by
  refine leaves_mapSteps (fun row => ?_) (fun row _ hdone => ?_) fun row hdone => ?_
  · unfold RunDb.resetRunning
    split <;> rfl
  · unfold RunDb.resetRunning at hdone ⊢
    split at hdone
    · cases hdone
    · rename_i h
      rw [if_neg h]
  · unfold RunDb.resetRunning
    rw [if_neg (by rw [hdone]; decide)]

theorem leaves_updateStep {stepId : String} {guard : StepStatus} {f : StepRow V → StepRow V}
    (h : db.updateStep stepId guard f = .ok db') (hid : ∀ row, (f row).stepId = row.stepId)
    (hguard : guard ≠ .completed) (hf : ∀ row, (f row).status ≠ .completed) :
    Leaves db db' := by
  obtain ⟨_, rfl⟩ := RunDb.updateStep_ok h
  refine leaves_mapSteps (fun row => ?_) (fun row _ hdone => ?_) fun row hdone => ?_
  · split
    · exact hid row
    · rfl
  · split at hdone
    · exact absurd hdone (hf row)
    · rename_i hn
      rw [if_neg hn]
  · rw [if_neg]
    rintro ⟨_, hg⟩
    exact hguard (hg.symm.trans hdone)

theorem leaves_blockUncertainPlanning : Leaves db db.blockUncertainPlanning := by
  rcases db.blockUncertainPlanning_cases with h | h
  · rw [h]
    exact .refl db
  · rw [h]
    exact (leaves_setStatus _ fun h => by cases h).trans (leaves_appendEvent _ _)

/-- The actions that neither touch the calls nor complete or add steps. -/
def Mild : Action V → Prop
  | .recordToolCall _ | .addContextStep _ | .replacePlan _ _ | .execute .. => False
  | .finishStep _ status => status ≠ .completed
  | _ => True

theorem Commits.leaves {a : Action V} (h : Commits a db db') (hmild : Mild a) {k : Caller}
    {w : World V} (hw : w.db = db) (hempty : requeuesEmpty k a w) : Leaves db db' := by
  cases h with
  | @transition _ _ s f e key h =>
      unfold RunDb.transition at h
      split at h
      · rw [← Except.ok.inj h]
        exact .refl db
      · rename_i hkey
        split at h
        · rename_i hallowed
          rw [← Except.ok.inj h]
          refine (leaves_setStatus e fun hq => ?_).trans (leaves_appendEvent _ _)
          subst hw
          exact hempty hq (Bool.eq_false_iff.mpr hkey) hallowed
        · cases h
  | reserve h =>
      obtain ⟨_, _, rfl⟩ := RunDb.reserveModelPlanning_ok h
      exact leaves_appendEvent _ _
  | addContextStep _ => exact hmild.elim
  | replacePlan _ => exact hmild.elim
  | appendEvent => exact leaves_appendEvent _ _
  | startStep h =>
      unfold RunDb.startStep at h
      exact leaves_updateStep h (fun _ => rfl) (by decide) fun _ h => by cases h
  | finishStep h =>
      unfold RunDb.finishStep at h
      exact leaves_updateStep h (fun _ => rfl) (by decide) fun _ => hmild
  | recordToolCall _ => exact hmild.elim
  | addArtifact h =>
      rw [RunDb.addArtifact_ok h]
      exact ⟨⟨rfl, fun _ h _ => h, fun _ h _ => h, .inl⟩, ⟨rfl, rfl, rfl⟩⟩
  | recoverRun h =>
      obtain ⟨_, rfl⟩ := RunDb.recoverRun_ok h
      refine Leaves.trans ?_ (leaves_appendEvent _ _)
      split
      · exact leaves_blockUncertainPlanning
      · exact leaves_blockUncertainPlanning.trans leaves_resetRunning
  | recoverActiveRuns =>
      unfold RunDb.recoverActiveRuns
      split
      · split
        · exact leaves_blockUncertainPlanning
        · exact leaves_resetRunning.trans (leaves_appendEvent _ _)
      · exact .refl db

theorem perform_leaves {k : Caller} {a : Action V} {w w' : World V} {r : Except Exn a.Answer}
    (h : perform k a w r w') (hmild : Mild a) (hempty : requeuesEmpty k a w) :
    Leaves w.db w'.db := by
  rcases perform_db h with hsame | hcommit
  · rw [hsame]
    exact .refl _
  · exact hcommit.leaves hmild rfl hempty

/-- What an action of an execution guarantees. -/
def executionGuar : (a : Action V) → World V → Prop
  | .recordToolCall call, w => w.db.used + call.costUnits ≤ w.db.maxCalls ∧ Live w.db
  | .finishStep _ status, w => status = .completed → Live w.db
  | .replacePlan _ preserveContext, w => preserveContext = false → Untouched w.db
  | .execute stepId _ _ _, w => Fresh stepId w.db
  | _, _ => True

/-- The actions of a call of the service. -/
def IsCall : Action V → Prop
  | .getRun | .transition .. | .recoverRun | .recoverActiveRuns => True
  | _ => False

def accountContract : Contract Caller (Action V) Action.Answer Exn Unit (World V) where
  inv := AccountInv
  beside k j := k.isExecution = true → j.isExecution = false
  rely k w w' := k.isExecution = true → Leaves w.db w'.db
  guar k a w _ _ := if k.isExecution then executionGuar a w else IsCall a
  good _ _ _ := True
  bad _ _ _ := True

theorem AccountInv.leave {w w' : World V} (hw : AccountInv w) (h : Leaves w.db w'.db) :
    AccountInv w' where
  accounted := hw.accounted.leave h
  ids := by
    rw [h.ids]
    exact hw.ids
  queued hq := by
    rcases h.queued hq with hq | hnil
    · exact (hw.queued hq).leave h
    · exact (hw.accounted.untouched hnil).leave h

theorem AccountInv.addContextStep {w w' : World V} (hw : AccountInv w) {step : AgentStepPlan V}
    (h : w.db.addContextStep step = .ok w'.db) : AccountInv w' := by
  obtain ⟨hstatus, _, hfresh, hdb⟩ := RunDb.addContextStep_ok h
  have hids : w'.db.stepIds = w.db.stepIds ++ [step.stepId] := by
    rw [hdb]
    simp [RunDb.stepIds, RunDb.newStep]
  refine ⟨⟨?_, ?_, fun call hcall => ?_⟩, ?_, fun hq => ?_⟩
  · rw [hdb]
    exact hw.accounted.used
  · rw [hdb]
    exact hw.accounted.bounded
  · rw [hids]
    rw [hdb] at hcall
    exact List.mem_append_left _ (hw.accounted.steps call hcall)
  · rw [hids]
    exact List.nodup_append.mpr ⟨hw.ids, List.pairwise_singleton _ _, fun x hx y hy => by
      rw [List.mem_singleton.mp hy]
      exact fun h => hfresh (h ▸ hx)⟩
  · rw [hdb] at hq
    exact absurd (hstatus.symm.trans hq) (by decide)

theorem AccountInv.recordToolCall {w w' : World V} (hw : AccountInv w) {call : ToolCallRow}
    (hbudget : w.db.used + call.costUnits ≤ w.db.maxCalls) (hlive : Live w.db)
    (h : w.db.recordToolCall call = .ok w'.db) : AccountInv w' := by
  rcases RunDb.recordToolCall_ok h with hdb | ⟨hstep, hdb⟩
  · exact hw.leave (by rw [hdb]; exact .refl _)
  · refine ⟨⟨?_, ?_, fun call' hcall => ?_⟩, ?_, fun hq => ?_⟩
    · rw [hdb]
      simp only [List.map_append, List.sum_append, List.map_cons, List.map_nil, List.sum_cons,
        List.sum_nil, Nat.add_zero]
      rw [← hw.accounted.used]
      rfl
    · rw [hdb]
      exact hbudget
    · rw [hdb] at hcall ⊢
      rcases List.mem_append.mp hcall with hcall | hcall
      · exact hw.accounted.steps call' hcall
      · rw [List.mem_singleton.mp hcall]
        exact hstep
    · rw [hdb]
      exact hw.ids
    · rw [hdb] at hq
      exact absurd hq hlive.2

theorem AccountInv.completeStep {w w' : World V} (hw : AccountInv w) {stepId : String}
    {status : StepStatus} (hlive : Live w.db) (h : w.db.finishStep stepId status = .ok w'.db) :
    AccountInv w' := by
  obtain ⟨_, hdb⟩ := RunDb.updateStep_ok h
  have hids : w'.db.stepIds = w.db.stepIds := by
    rw [hdb]
    simp only [RunDb.stepIds, RunDb.mapSteps_steps, List.map_map]
    refine List.map_congr_left fun row _ => ?_
    simp only [Function.comp_apply]
    split <;> rfl
  refine ⟨⟨?_, ?_, fun call hcall => ?_⟩, ?_, fun hq => ?_⟩
  · rw [hdb]
    exact hw.accounted.used
  · rw [hdb]
    exact hw.accounted.bounded
  · rw [hids]
    rw [hdb] at hcall
    exact hw.accounted.steps call hcall
  · rw [hids]
    exact hw.ids
  · rw [hdb] at hq
    exact absurd hq hlive.2

theorem AccountInv.replacePlan {w w' : World V} (hw : AccountInv w) {plan : AgentPlan V}
    {preserveContext : Bool} (huntouched : preserveContext = false → Untouched w.db)
    (h : w.db.replacePlan plan preserveContext = .ok w'.db) : AccountInv w' := by
  obtain ⟨hnodup, hdb, hkept⟩ := RunDb.replacePlan_ok h
  have hcalls : w'.db.toolCalls = w.db.toolCalls := by
    rw [hdb]
    cases preserveContext with
    | true => simp [RunDb.storePlan, RunDb.deletedSteps]
    | false =>
        have hnil := (huntouched rfl).1
        simp [RunDb.storePlan, hnil]
  have hnew : ∀ row ∈ plan.steps.map RunDb.newStep, row.status = .pending := by
    intro row hrow
    obtain ⟨step, _, rfl⟩ := List.mem_map.mp hrow
    rfl
  have hsteps : w'.db.steps = w.db.keptSteps preserveContext ++ plan.steps.map RunDb.newStep := by
    rw [hdb]
    rfl
  have hids : w'.db.stepIds =
      (w.db.keptSteps preserveContext).map (·.stepId) ++ plan.steps.map (·.stepId) := by
    unfold RunDb.stepIds
    rw [hsteps, List.map_append, List.map_map]
    rfl
  have hstatus : w'.db.status = w.db.status := by
    rw [hdb]
    rfl
  refine ⟨⟨?_, ?_, fun call hcall => ?_⟩, ?_, fun hq => ⟨?_, fun row hrow => ?_⟩⟩
  · rw [hcalls, hdb]
    exact hw.accounted.used
  · rw [hdb]
    exact hw.accounted.bounded
  · rw [hcalls] at hcall
    cases preserveContext with
    | true =>
        rw [hids]
        exact List.mem_append_left _ (hw.accounted.steps call hcall)
    | false =>
        rw [(huntouched rfl).1] at hcall
        exact absurd hcall List.not_mem_nil
  · rw [hids]
    refine List.nodup_append.mpr ⟨?_, hnodup, fun x hx y hy hxy => ?_⟩
    · cases preserveContext with
      | true => exact hw.ids
      | false => exact List.nodup_nil
    · obtain ⟨row, hrow, rfl⟩ := List.mem_map.mp hx
      exact (hkept row hrow).2 (hxy ▸ hy)
  · rw [hcalls]
    exact (hw.queued (hstatus ▸ hq)).1
  · rw [hsteps] at hrow
    rcases List.mem_append.mp hrow with hrow | hrow
    · cases preserveContext with
      | true => exact (hw.queued (hstatus ▸ hq)).2 row hrow
      | false => exact absurd hrow List.not_mem_nil
    · rw [hnew row hrow]
      decide

/-! ## Parts of an execution -/

theorem mild_quiet : Quiet (Mild (V := V)) where
  getRun := trivial
  monotonic := trivial
  parentStatus := trivial
  currentEvidenceHash := trivial
  check _ := trivial
  transition _ _ _ _ := trivial
  startStep _ := trivial
  failStep _ := by
    change StepStatus.failed ≠ .completed
    decide
  appendEvent _ := trivial
  addArtifact _ _ _ := trivial

theorem Mild.guar {a : Action V} (h : Mild a) (w : World V) : executionGuar a w := by
  cases a with
  | finishStep _ status => exact fun hdone => absurd hdone h
  | recordToolCall _ => exact h.elim
  | replacePlan _ _ => exact h.elim
  | execute _ _ _ _ => exact h.elim
  | _ => trivial

/-- What the execution upholds while the service is called. -/
abbrev Accounts (n : ℕ) (good : α → World V → Prop) (bad : Exn → World V → Prop) (p : Exec V α)
    (w : World V) : Prop :=
  p.Upholds (fun w w' : World V => true = true → Leaves w.db w'.db)
    (fun a w r w' => AccountInv w ∧ requeuesEmpty (.execute n) a w ∧ perform (.execute n) a w r w')
    (fun a w _ _ => executionGuar a w) good bad w

def whatever {α : Type} (_ : α) (_ : World V) : Prop := True

variable {n : ℕ} {w : World V} {good : β → World V → Prop}

theorem accounts_refl (w : World V) : true = true → Leaves w.db w.db := fun _ => .refl _

theorem mild_accounts {p : Exec V α} (hp : p.Uses Mild) :
    Accounts n (fun _ t => Leaves w.db t.db) (fun _ t => Leaves w.db t.db) p w :=
  hp.upholds (fun _ _ h hs => hs.trans (h rfl))
    (fun a t _ _ ha hs h => ⟨ha.guar t, hs.trans (perform_leaves h.2.2 ha h.2.1)⟩) (.refl _)

theorem accounts_bind {p : Exec V α} {f : α → Exec V β} {mid : α → World V → Prop}
    (hp : Accounts n mid whatever p w)
    (hf : ∀ x t, mid x t → Accounts n good whatever (f x) t) :
    Accounts n good whatever (p >>= f) w :=
  Upholds.bind accounts_refl (hp.mono hf fun _ _ h => h)

/-- A mild part and what follows it. -/
theorem mild_bind {p : Exec V α} {f : α → Exec V β} (hp : p.Uses Mild)
    (hf : ∀ x t, Leaves w.db t.db → Accounts n good whatever (f x) t) :
    Accounts n good whatever (p >>= f) w :=
  accounts_bind ((mild_accounts hp).mono (fun _ _ h => h) fun _ _ _ => trivial) hf

theorem accounts_pure {x : β} (h : ∀ t : World V, Leaves w.db t.db → good x t) :
    Accounts n good whatever (pure x) w :=
  upholds_pure fun t ht => h t (ht rfl)

theorem accounts_throw {e : Exn} : Accounts n good whatever (throw e : Exec V β) w :=
  upholds_throw fun _ _ => trivial

/-- A run as it was read, up to what the others do. -/
theorem accounts_getRun : Accounts n (fun run t => Leaves w.db run ∧ Leaves run t.db) whatever
    (getRun : Exec V (RunDb V)) w := by
  intro t ht r t' hr
  obtain ⟨hr, hw⟩ : r = .ok t.db ∧ t' = t := hr.2.2
  subst hr hw
  exact ⟨trivial, fun u hu => ⟨ht rfl, hu rfl⟩⟩

theorem accounts_startStep {stepId : String} :
    Accounts n (fun _ t => Leaves w.db t.db ∧ Fresh stepId t.db) whatever
      (Runtime.startStep stepId : Exec V (StepRow V)) w := by
  refine upholds_call_bind fun t ht r t' hr => ⟨trivial, ?_⟩
  have hleaves := perform_leaves hr.2.2 trivial hr.2.1
  obtain ⟨db, hdb, rfl, rfl⟩ | ⟨e, _, rfl, _⟩ := World.commit_cases hr.2.2
  · -- its one row is running now
    have hfresh : Fresh stepId db := by
      obtain ⟨⟨row, hrow, hid, hpending⟩, rfl⟩ := RunDb.updateStep_ok hdb
      intro row' hrow' hid' hdone
      obtain ⟨old, hold, rfl⟩ := List.mem_map.mp hrow'
      split at hdone
      · cases hdone
      · rename_i hother
        rw [if_neg hother] at hid'
        have hsame := List.inj_on_of_nodup_map hr.1.ids hold hrow (hid'.trans hid.symm)
        rw [hsame] at hother
        exact hother ⟨hid, hpending⟩
    refine (mild_accounts (mild_quiet.uses_stepRow stepId)).mono (fun _ u hu => ?_)
      fun _ _ _ => trivial
    exact ⟨((ht rfl).trans hleaves).trans hu, hfresh.keep hu.toKeepsSteps⟩
  · exact fun _ _ => trivial

theorem accounts_record {call : ToolCallRow}
    (hbudget : w.db.used + call.costUnits ≤ w.db.maxCalls) (hlive : Live w.db) :
    Accounts n (fun _ t => KeepsSteps w.db t.db) whatever
      (Runtime.recordToolCall call : Exec V Unit) w := by
  refine upholds_call_bind fun t ht r t' hr => ?_
  have hleaves := ht rfl
  refine ⟨⟨?_, hlive.keep hleaves.toKeepsSteps⟩, ?_⟩
  · rw [hleaves.used, hleaves.maxCalls]
    exact hbudget
  have hkeeps : KeepsSteps t.db t'.db := by
    rcases perform_db hr.2.2 with hsame | hcommit
    · rw [hsame]
      exact .refl _
    · cases hcommit with
      | recordToolCall h =>
          rcases RunDb.recordToolCall_ok h with hdb | ⟨_, hdb⟩
          · rw [hdb]
            exact .refl _
          · rw [hdb]
            exact ⟨rfl, fun _ h _ => h, fun _ h _ => h, .inl⟩
  cases r with
  | error e => exact fun _ _ => trivial
  | ok existing =>
      have hafter : ∀ u : World V, Leaves t'.db u.db → KeepsSteps w.db u.db := fun u hu =>
        (hleaves.toKeepsSteps.trans hkeeps).trans hu.toKeepsSteps
      dsimp only
      split
      · exact accounts_pure hafter
      · refine accounts_bind accounts_getRun fun run u hu => ?_
        split
        · exact accounts_pure fun v hv => hafter v ((hu.1.trans hu.2).trans hv)
        · exact accounts_throw

theorem accounts_completeStep {stepId : String} (hlive : Live w.db) :
    Accounts n (fun _ t => Live t.db) whatever
      (Runtime.finishStep stepId .completed : Exec V Unit) w := by
  refine upholds_call_bind fun t ht r t' hr => ?_
  have hlive := hlive.keep (ht rfl).toKeepsSteps
  refine ⟨fun _ => hlive, ?_⟩
  have hlive' : Live t'.db := by
    rcases perform_db hr.2.2 with hsame | hcommit
    · rw [hsame]
      exact hlive
    · cases hcommit with
      | finishStep h =>
          obtain ⟨_, hdb⟩ := RunDb.updateStep_ok h
          rw [hdb]
          exact ⟨by simpa using hlive.1, hlive.2⟩
  cases r with
  | error e => exact fun _ _ => trivial
  | ok _ =>
      refine mild_bind (mild_quiet.uses_stepRow stepId) fun _ u hu => ?_
      exact accounts_pure fun v hv => hlive'.keep (hu.trans hv).toKeepsSteps

variable {rt : Runtime V} {allowedTools : List String} {evidenceHash : String} {started : ℤ}

theorem accounts_executeTool {stepId toolName : String} {arguments : Arguments V}
    (hfresh : Fresh stepId w.db) :
    Accounts n (fun _ t => Leaves w.db t.db) (fun _ t => Leaves w.db t.db)
      (rt.executeTool allowedTools stepId toolName arguments evidenceHash) w := by
  unfold Runtime.executeTool
  split
  · exact upholds_throw fun _ ht => ht rfl
  split
  · exact upholds_throw fun _ ht => ht rfl
  intro t ht r t' hr
  refine ⟨hfresh.keep (ht rfl).toKeepsSteps, ?_⟩
  have hw : t' = t.record (.tool stepId toolName arguments evidenceHash r) := hr.2.2
  have hdb : t'.db = t.db := by
    rw [hw]
    rfl
  cases r with
  | ok output => exact fun u hu => (ht rfl).trans (hdb ▸ hu rfl)
  | error e => exact fun u hu => (ht rfl).trans (hdb ▸ hu rfl)

/-! ## Steps -/

/-- A step whose tool may be called. -/
def Callable (stepId : String) (db : RunDb V) : Prop := Live db ∧ Fresh stepId db

theorem Callable.keep {stepId : String} (h : Callable stepId db) (hk : KeepsSteps db db') :
    Callable stepId db' :=
  ⟨h.1.keep hk, h.2.keep hk⟩

/-- The run is live and has room for one more call. -/
def Affords (cost : ℕ) (db : RunDb V) : Prop := Live db ∧ db.used + cost ≤ db.maxCalls

theorem Affords.leave {cost : ℕ} (h : Affords cost db) (hk : Leaves db db') : Affords cost db' := by
  refine ⟨h.1.keep hk.toKeepsSteps, ?_⟩
  rw [hk.used, hk.maxCalls]
  exact h.2

variable {step : StepRow V} {tool : AgentTool}

/-- The room seen in a run that was read is there. -/
theorem Affords.of_read {run : RunDb V} (hlive : Live db)
    (hroom : ¬ run.run.maxToolCalls < run.used + tool.costUnits) (hrun : KeepsCalls run db) :
    Affords tool.costUnits db := by
  refine ⟨hlive, ?_⟩
  rw [hrun.used, hrun.maxCalls]
  exact Nat.le_of_not_lt hroom

theorem accounts_attemptTool {attempt retryIndex : ℕ} {again : Exec V (Output V × ℕ)}
    (h : Callable step.stepId w.db)
    (hagain : ∀ t : World V, Callable step.stepId t.db →
      Accounts n (fun _ t => Affords tool.costUnits t.db) whatever again t) :
    Accounts n (fun _ t => Affords tool.costUnits t.db) whatever
      (rt.attemptTool allowedTools evidenceHash started step tool attempt retryIndex again) w := by
  have hq := mild_quiet (V := V)
  have hfail : ∀ (code : Exn) (t : World V), Accounts n (fun (_ : Output V × ℕ) t =>
      Affords tool.costUnits t.db) whatever (do
        Runtime.finishStep step.stepId .failed
        throw code) t :=
    fun code t => mild_bind (hq.uses_finishStep (hq.failStep _)) fun _ _ _ => accounts_throw
  unfold Runtime.attemptTool
  refine accounts_bind accounts_getRun fun latest t₁ hread => ?_
  split
  · exact hfail _ _
  rename_i hroom
  refine mild_bind (uses_isLate hq _ _ _) fun late t₂ h₂ => ?_
  split
  · exact hfail _ _
  refine mild_bind (uses_ask hq.monotonic) fun _ t₃ h₃ => ?_
  refine mild_bind (uses_ask (hq.appendEvent _)) fun _ t₄ h₄ => ?_
  have hleaves := (h₂.trans h₃).trans h₄
  have hcall : Callable step.stepId t₄.db :=
    h.keep (((hread.1.trans hread.2).trans hleaves).toKeepsSteps)
  have hafford : Affords tool.costUnits t₄.db :=
    .of_read hcall.1 hroom (hread.2.trans hleaves).toKeepsCalls
  refine Upholds.tryCatch accounts_refl ?_
  refine Upholds.bind accounts_refl ((accounts_executeTool hcall.2).mono ?_ ?_)
  · intro output t ht
    exact upholds_pure fun u hu => hafford.leave (ht.trans (hu rfl))
  · intro e t ht
    have hthere := hafford.leave ht
    refine accounts_bind (accounts_record hthere.2 hthere.1) fun _ t₅ h₅ => ?_
    refine mild_bind (uses_ask (hq.appendEvent _)) fun _ t₆ h₆ => ?_
    split
    · refine mild_bind (uses_ask (hq.appendEvent _)) fun _ t₇ h₇ => ?_
      refine hagain t₇ (hcall.keep ?_)
      exact (ht.toKeepsSteps.trans h₅).trans (h₆.trans h₇).toKeepsSteps
    · exact hfail e _

theorem accounts_performStep {current : RunDb V} {passed : List String} (hlive : Live w.db) :
    Accounts n (fun _ t => Live t.db) whatever
      (rt.performStep allowedTools evidenceHash started current step tool passed) w := by
  have hq := mild_quiet (V := V)
  unfold Runtime.performStep
  refine accounts_bind accounts_startStep fun row t₁ h₁ => ?_
  have hcall : Callable step.stepId t₁.db := ⟨hlive.keep h₁.1.toKeepsSteps, h₁.2⟩
  refine accounts_bind (accounts_attemptTool hcall fun t ht =>
    accounts_attemptTool ht fun _ _ => accounts_throw) fun found t₂ hafford => ?_
  refine mild_bind (uses_ask hq.monotonic) fun now t₃ h₃ => ?_
  have hafford := hafford.leave h₃
  split
  · refine accounts_bind (accounts_record hafford.2 hafford.1) fun _ _ _ => ?_
    refine mild_bind (hq.uses_finishStep (hq.failStep _)) fun _ _ _ => ?_
    exact mild_bind (uses_ask (hq.appendEvent _)) fun _ _ _ => accounts_throw
  · refine accounts_bind (accounts_record hafford.2 hafford.1) fun _ t₄ h₄ => ?_
    have hlive := hafford.1.keep h₄
    refine mild_bind (hq.uses_settle rt _ _ _ _ _ fun _ => trivial) fun passed t₅ h₅ => ?_
    refine accounts_bind (accounts_completeStep (hlive.keep h₅.toKeepsSteps)) fun _ t₆ hlive => ?_
    refine mild_bind (uses_ask (hq.appendEvent _)) fun _ t₇ h₇ => ?_
    exact accounts_pure fun t ht => hlive.keep (h₇.trans ht).toKeepsSteps

theorem accounts_executeStep {current : RunDb V} {passed : List String} (hlive : Live w.db) :
    Accounts n (fun _ t => Live t.db) whatever
      (rt.executeStep allowedTools evidenceHash started current step passed) w := by
  have hq := mild_quiet (V := V)
  unfold Runtime.executeStep
  refine mild_bind (uses_ask hq.monotonic) fun now t₁ h₁ => ?_
  have hlive := hlive.keep h₁.toKeepsSteps
  split
  · exact accounts_throw
  split
  · exact accounts_throw
  split
  · exact accounts_throw
  split
  · split
    · exact accounts_throw
    · refine mild_bind (uses_ask hq.currentEvidenceHash) fun _ t₂ h₂ => ?_
      refine mild_bind (uses_ask (hq.check _)) fun _ t₃ h₃ => ?_
      exact accounts_performStep (hlive.keep (h₂.trans h₃).toKeepsSteps)
  · exact accounts_performStep hlive

theorem accounts_executeSteps {steps : List (StepRow V)} {passed : List String}
    (hlive : steps ≠ [] → Live w.db) :
    Accounts n whatever whatever
      (rt.executeSteps allowedTools evidenceHash started steps passed) w := by
  have hq := mild_quiet (V := V)
  induction steps generalizing passed w with
  | nil =>
      exact (mild_accounts (hq.uses_transition (by decide) _ _)).mono
        (fun _ _ _ => trivial) fun _ _ _ => trivial
  | cons step rest ih =>
      have hlive := hlive (by simp)
      unfold Runtime.executeSteps
      refine mild_bind (uses_ask hq.getRun) fun current t₁ h₁ => ?_
      have hlive := hlive.keep h₁.toKeepsSteps
      split
      · exact accounts_pure fun _ _ => trivial
      · split
        · exact ih fun _ => hlive
        · exact accounts_bind (accounts_executeStep hlive) fun passed t₂ hlive => ih fun _ => hlive

/-! ## The context of an expert -/

theorem accounts_checkActive : Accounts n (fun run t => KeepsCalls run t.db ∧ Leaves w.db t.db)
    whatever (checkActive started : Exec V (RunDb V)) w := by
  have hq := mild_quiet (V := V)
  unfold checkActive
  refine accounts_bind accounts_getRun fun read t₁ h₁ => ?_
  have hfollow : Accounts n (fun run t => KeepsCalls run t.db ∧ Leaves t₁.db t.db) whatever
      (followParent read) t₁ := by
    have hsame : Accounts n (fun run t => KeepsCalls run t.db ∧ Leaves t₁.db t.db) whatever
        (pure read : Exec V (RunDb V)) t₁ :=
      accounts_pure fun t ht => ⟨(h₁.2.trans ht).toKeepsCalls, ht⟩
    unfold followParent
    split
    · refine mild_bind (uses_ask hq.parentStatus) fun parent t₂ h₂ => ?_
      have hsame : Accounts n (fun run t => KeepsCalls run t.db ∧ Leaves t₁.db t.db) whatever
          (pure read : Exec V (RunDb V)) t₂ :=
        accounts_pure fun t ht => ⟨((h₁.2.trans h₂).trans ht).toKeepsCalls, h₂.trans ht⟩
      split
      · split
        · refine mild_bind (uses_ask trivial) fun _ t₃ h₃ => ?_
          exact accounts_getRun.mono (fun run t h => ⟨h.2.toKeepsCalls,
            (h₂.trans h₃).trans (h.1.trans h.2)⟩) fun _ _ h => h
        · exact hsame
      · exact hsame
    · exact hsame
  refine accounts_bind hfollow fun run t₂ h₂ => ?_
  have hleaves := (h₁.1.trans h₁.2).trans h₂.2
  split
  · exact accounts_throw
  · refine mild_bind (uses_ask hq.monotonic) fun now t₃ h₃ => ?_
    split
    · exact accounts_throw
    · exact accounts_pure fun t ht => ⟨(h₂.1.trans (h₃.trans ht).toKeepsCalls),
        hleaves.trans (h₃.trans ht)⟩

theorem accounts_addContextStep {contextStep : AgentStepPlan V} :
    Accounts n (fun _ t => Live t.db ∧ KeepsCalls w.db t.db) whatever
      (ask (.addContextStep contextStep) : Exec V Unit) w := by
  intro t ht r t' hr
  refine ⟨trivial, ?_⟩
  obtain ⟨db, hdb, rfl, rfl⟩ | ⟨e, _, rfl, _⟩ := World.commit_cases hr.2.2
  · obtain ⟨hstatus, _, _, rfl⟩ := RunDb.addContextStep_ok hdb
    intro u hu
    have hlive : Live { t.db with steps := t.db.steps ++ [RunDb.newStep contextStep] } := by
      refine ⟨by simp, ?_⟩
      change t.db.status ≠ .queued
      rw [hstatus]
      decide
    exact ⟨hlive.keep (hu rfl).toKeepsSteps,
      (ht rfl).toKeepsCalls.trans ⟨(hu rfl).used, (hu rfl).maxCalls, (hu rfl).calls⟩⟩
  · exact fun _ _ => trivial

theorem accounts_readContext {index : ℕ} {toolName : String} :
    Accounts n whatever whatever
      (rt.readContext allowedTools evidenceHash started index toolName) w := by
  have hq := mild_quiet (V := V)
  unfold Runtime.readContext
  refine accounts_bind accounts_checkActive fun latest t₁ h₁ => ?_
  split
  · exact accounts_throw
  rename_i tool _
  split
  · exact accounts_throw
  split
  · exact accounts_throw
  rename_i hroom
  dsimp only
  refine accounts_bind accounts_addContextStep fun _ t₂ h₂ => ?_
  refine accounts_bind accounts_startStep fun row t₃ h₃ => ?_
  have hafford : Affords tool.costUnits t₃.db :=
    .of_read (h₂.1.keep h₃.1.toKeepsSteps) hroom
      ((h₁.1.trans h₂.2).trans h₃.1.toKeepsCalls)
  refine mild_bind (uses_ask hq.monotonic) fun _ t₄ h₄ => ?_
  refine mild_bind (uses_ask (hq.appendEvent _)) fun _ t₅ h₅ => ?_
  have hfresh := h₃.2.keep (h₄.trans h₅).toKeepsSteps
  have hafford := hafford.leave (h₄.trans h₅)
  have hcall : Accounts n (fun _ t => Affords tool.costUnits t.db) whatever
      (rt.callContextTool allowedTools evidenceHash (contextStep index toolName) tool) t₅ := by
    unfold Runtime.callContextTool
    refine Upholds.tryCatch accounts_refl ((accounts_executeTool hfresh).mono ?_ ?_)
    · exact fun _ t ht => hafford.leave ht
    · intro e t ht
      have hafford := hafford.leave ht
      refine accounts_bind (accounts_record hafford.2 hafford.1) fun _ _ _ => ?_
      exact mild_bind (hq.uses_finishStep (hq.failStep _)) fun _ _ _ => accounts_throw
  refine accounts_bind hcall fun output t₆ hafford => ?_
  refine mild_bind (uses_ask hq.monotonic) fun _ t₇ h₇ => ?_
  have hafford := hafford.leave h₇
  refine accounts_bind (accounts_record hafford.2 hafford.1) fun _ t₈ h₈ => ?_
  have hlive := hafford.1.keep h₈
  refine mild_bind (uses_ask (hq.check _)) fun _ t₉ h₉ => ?_
  refine mild_bind (uses_ask trivial) fun _ t₁₀ h₁₀ => ?_
  have hlive := hlive.keep (h₉.trans h₁₀).toKeepsSteps
  refine accounts_bind (accounts_completeStep hlive) fun _ t₁₁ _ => ?_
  refine mild_bind (uses_ask (hq.appendEvent _)) fun _ t₁₂ _ => ?_
  exact accounts_bind accounts_checkActive fun _ _ _ => accounts_pure fun _ _ => trivial

theorem accounts_check {c : Check} : Accounts n whatever whatever (check c : Exec V Unit) w :=
  (mild_accounts (uses_ask (mild_quiet.check c))).mono (fun _ _ _ => trivial) fun _ _ _ => trivial

theorem accounts_expertContext {run : RunDb V} :
    Accounts n whatever whatever (rt.expertContext run evidenceHash started) w := by
  have hq := mild_quiet (V := V)
  unfold Runtime.expertContext
  refine accounts_bind accounts_readContext fun _ _ _ => ?_
  refine mild_bind (uses_ask (hq.check _)) fun _ _ _ => ?_
  split
  · refine accounts_bind accounts_readContext fun rules _ _ => ?_
    split
    · exact accounts_throw
    · exact accounts_check
  · exact accounts_check

/-! ## Planning -/

/-- A run as it was read: where it was running with steps, it is live. -/
def Seen (run : RunDb V) (w : World V) : Prop :=
  run.status = .running → run.steps ≠ [] → Live w.db

theorem Seen.of_read {run : RunDb V} (h : Leaves run w.db) : Seen run w := by
  intro hstatus hsteps
  have hlive : Live run := by
    refine ⟨hsteps, ?_⟩
    rw [hstatus]
    decide
  exact hlive.keep h.toKeepsSteps

theorem Seen.leave {run : RunDb V} {t : World V} (h : Seen run w) (hk : Leaves w.db t.db) :
    Seen run t :=
  fun hstatus hsteps => (h hstatus hsteps).keep hk.toKeepsSteps

theorem accounts_replacePlan {plan : AgentPlan V} {preserveContext : Bool}
    (h : preserveContext = false → Untouched w.db) :
    Accounts n Seen whatever (Runtime.replacePlan plan preserveContext) w := by
  refine upholds_call_bind fun t ht r t' hr => ⟨fun hp => (h hp).leave (ht rfl), ?_⟩
  cases r with
  | error e => exact fun _ _ => trivial
  | ok _ => exact accounts_getRun.mono (fun run t h => .of_read h.2) fun _ _ h => h

theorem accounts_expertPlan {run : RunDb V} :
    Accounts n Seen whatever (rt.expertPlan run evidenceHash started) w := by
  have hq := mild_quiet (V := V)
  unfold Runtime.expertPlan
  refine accounts_bind accounts_expertContext fun _ _ _ => ?_
  refine mild_bind (uses_ask (hq.check _)) fun _ _ _ => ?_
  refine mild_bind (hq.uses_checkActive _) fun _ _ _ => ?_
  refine mild_bind (uses_ask trivial) fun plan _ _ => ?_
  refine mild_bind (hq.uses_checkActive _) fun _ _ _ => ?_
  refine mild_bind (uses_ask hq.currentEvidenceHash) fun _ _ _ => ?_
  refine mild_bind (uses_ask (hq.check _)) fun _ _ _ => ?_
  refine mild_bind (uses_ask (hq.check _)) fun _ _ _ => ?_
  refine accounts_bind (accounts_replacePlan fun h => by cases h) fun run t₁ hseen => ?_
  refine mild_bind (uses_ask trivial) fun _ t₂ h₂ => ?_
  refine mild_bind (uses_ask (hq.appendEvent _)) fun _ t₃ h₃ => ?_
  exact accounts_pure fun t ht => hseen.leave ((h₂.trans h₃).trans ht)

theorem accounts_plainPlan (h : Untouched w.db) :
    Accounts n Seen whatever (plainPlan : Exec V (RunDb V)) w := by
  have hq := mild_quiet (V := V)
  unfold plainPlan
  refine mild_bind (uses_ask trivial) fun plan t₁ h₁ => ?_
  refine accounts_bind (accounts_replacePlan fun _ => h.leave h₁) fun run t₂ hseen => ?_
  refine mild_bind (uses_ask (hq.appendEvent _)) fun _ t₃ h₃ => ?_
  exact accounts_pure fun t ht => hseen.leave (h₃.trans ht)

/-- A run taken from the queue has not been touched. -/
theorem accounts_enterPlanning {run : RunDb V}
    (h : run.status ≠ .queued → Untouched w.db) :
    Accounts n (fun _ t => Untouched t.db) whatever (enterPlanning run) w := by
  unfold enterPlanning
  split
  · refine upholds_call_bind fun t ht r t' hr => ⟨trivial, ?_⟩
    have hleaves := perform_leaves hr.2.2 trivial hr.2.1
    obtain ⟨db, hdb, rfl, rfl⟩ | ⟨e, _, rfl, _⟩ := World.commit_cases hr.2.2
    · have hqueued : t.db.status = .queued := by
        unfold RunDb.transition at hdb
        split at hdb
        · rename_i hkey
          cases hkey
        · split at hdb
          · rename_i hallowed
            exact List.mem_singleton.mp hallowed
          · cases hdb
      have huntouched := (hr.1.queued hqueued).leave hleaves
      exact accounts_getRun.mono (fun run u hu => huntouched.leave (hu.1.trans hu.2))
        fun _ _ h => h
    · exact fun _ _ => trivial
  · rename_i hstatus
    exact accounts_pure fun t ht => (h hstatus).leave ht

theorem accounts_planning {expert : Bool} {run : RunDb V} (hseen : Seen run w)
    (hnil : run.steps = [] → Untouched w.db) :
    Accounts n (fun ready t => ∀ run, ready = some run → Seen run t) whatever
      (rt.planning expert run evidenceHash started) w := by
  have hsome : ∀ {p : Exec V (RunDb V)} {t : World V}, Accounts n Seen whatever p t →
      Accounts n (fun ready t => ∀ run, ready = some run → Seen run t) whatever (some <$> p) t :=
    fun hp => accounts_bind hp fun run t hrun => accounts_pure fun u hu _ h =>
      Option.some.inj h ▸ hrun.leave hu
  unfold Runtime.planning
  split
  · rename_i henters
    cases expert with
    | true =>
        have hentered : Accounts n whatever whatever (enterPlanning run) w := by
          unfold enterPlanning
          split
          · exact (mild_accounts (mild_quiet.uses_transition (by decide) _ _)).mono
              (fun _ _ _ => trivial) fun _ _ _ => trivial
          · exact accounts_pure fun _ _ => trivial
        refine accounts_bind hentered fun run t₁ _ => ?_
        refine mild_bind (uses_ask trivial) fun reserved t₂ _ => ?_
        split
        · exact hsome accounts_expertPlan
        · exact accounts_pure fun _ _ _ h => by cases h
    | false =>
        -- a run in planning is planned again only while it has no steps
        have huntouched : run.status ≠ .queued → Untouched w.db := by
          intro hstatus
          unfold entersPlanning at henters
          rw [decide_eq_false hstatus] at henters
          simp only [Bool.false_or, Bool.false_eq_true, if_false, Bool.and_eq_true,
            List.isEmpty_iff] at henters
          exact hnil henters.2
        exact accounts_bind (accounts_enterPlanning huntouched)
          fun run t₁ h => hsome (accounts_plainPlan h)
  · exact accounts_pure fun t ht _ h => Option.some.inj h ▸ hseen.leave ht

/-! ## Executions -/

theorem accounts_executePlan {expert : Bool} {run : RunDb V} (hseen : Seen run w) :
    Accounts n whatever whatever (rt.executePlan expert run evidenceHash started) w := by
  have hq := mild_quiet (V := V)
  have hread : ∀ {t : World V}, Accounts n Seen whatever (getRun : Exec V (RunDb V)) t :=
    accounts_getRun.mono (fun run t h => .of_read h.2) fun _ _ h => h
  have hopinion : Accounts n Seen whatever (checkOpinion expert run) w := by
    unfold checkOpinion
    split
    · have hreload : Accounts n Seen whatever (reloaded run) w := by
        unfold reloaded
        split
        · exact hread
        · exact accounts_pure fun t ht => hseen.leave ht
      unfold withOpinion
      refine accounts_bind hreload fun run t₁ hseen => ?_
      split
      · exact accounts_throw
      · refine mild_bind (uses_ask (hq.check _)) fun _ t₂ h₂ => ?_
        exact accounts_pure fun t ht => hseen.leave (h₂.trans ht)
    · exact accounts_pure fun t ht => hseen.leave ht
  have hrunning : ∀ {run : RunDb V} {t : World V}, Seen run t →
      Accounts n (fun run t => run.steps ≠ [] → Live t.db) whatever (enterRunning run) t := by
    intro run t hseen
    unfold enterRunning
    split
    · -- committed to running: with steps it stays out of the queue
      refine upholds_call_bind fun t ht r t' hr => ⟨trivial, ?_⟩
      obtain ⟨db, hdb, rfl, rfl⟩ | ⟨e, _, rfl, _⟩ := World.commit_cases hr.2.2
      · have hstatus : db.status = .running := by
          unfold RunDb.transition at hdb
          split at hdb
          · rename_i hkey
            cases hkey
          · split at hdb
            · rw [← Except.ok.inj hdb]
              rfl
            · cases hdb
        refine accounts_getRun.mono (fun run u hu hsteps => ?_) fun _ _ h => h
        have hlive : Live db := by
          refine ⟨fun hnil => hsteps ?_, ?_⟩
          · rw [RunDb.steps_eq_nil_iff, hu.1.ids]
            exact RunDb.steps_eq_nil_iff.mp hnil
          · rw [hstatus]
            decide
        exact hlive.keep (hu.1.trans hu.2).toKeepsSteps
      · exact fun _ _ => trivial
    · rename_i hstatus
      exact accounts_pure fun u hu hsteps =>
        (hseen (not_not.mp hstatus) hsteps).keep hu.toKeepsSteps
  unfold Runtime.executePlan
  refine accounts_bind hopinion fun run t₁ hseen => ?_
  exact accounts_bind (hrunning hseen) fun run t₂ hlive => accounts_executeSteps hlive

/-- The first read of an execution. -/
theorem accounts_readRun :
    Accounts n (fun run t => Seen run t ∧ (run.steps = [] → Untouched t.db)) whatever
      (getRun : Exec V (RunDb V)) w := by
  intro t ht r t' hr
  have hinv := hr.1
  obtain ⟨hr, hw⟩ : r = .ok t.db ∧ t' = t := hr.2.2
  subst hr hw
  refine ⟨trivial, fun u hu => ⟨.of_read (hu rfl), fun hnil => ?_⟩⟩
  exact (hinv.accounted.untouched hnil).leave (hu rfl)

theorem accounts_executeBody {run : RunDb V} (hseen : Seen run w)
    (hnil : run.steps = [] → Untouched w.db) :
    Accounts n whatever whatever (rt.executeBody run started) w := by
  have hq := mild_quiet (V := V)
  unfold Runtime.executeBody
  refine mild_bind (uses_ask (hq.check _)) fun _ t₁ h₁ => ?_
  refine mild_bind (uses_ask hq.currentEvidenceHash) fun _ t₂ h₂ => ?_
  refine mild_bind (uses_ask (hq.check _)) fun _ t₃ h₃ => ?_
  have hleaves := (h₁.trans h₂).trans h₃
  dsimp only
  split
  · exact accounts_throw
  refine accounts_bind (accounts_planning (hseen.leave hleaves) fun h => (hnil h).leave hleaves)
    fun ready t₄ hready => ?_
  cases ready with
  | none =>
      exact (mild_accounts (uses_ask hq.getRun)).mono (fun _ _ _ => trivial) fun _ _ _ => trivial
  | some run => exact accounts_executePlan (hready run rfl)

theorem accounts_execute : Accounts n whatever whatever rt.execute w := by
  have hq := mild_quiet (V := V)
  unfold Runtime.execute
  refine accounts_bind accounts_readRun fun run t₁ hread => ?_
  split
  · exact accounts_pure fun _ _ => trivial
  refine mild_bind (uses_ask hq.monotonic) fun now t₂ h₂ => ?_
  refine Upholds.tryCatch accounts_refl ((accounts_executeBody (hread.1.leave h₂)
    fun hnil => (hread.2 hnil).leave h₂).mono (fun _ _ h => h) fun e t _ => ?_)
  exact (mild_accounts (hq.uses_failureHandler e)).mono (fun _ _ _ => trivial)
    fun _ _ _ => trivial

/-! ## Calls of the service -/

theorem uses_entry (rt : Runtime V) {k : Caller} (hk : k.isExecution = false) :
    (entry rt k).Uses IsCall := by
  cases k with
  | execute n => cases hk
  | resume key =>
      refine Uses.bind ?_ fun _ => uses_pure _
      exact (uses_ask trivial).bind fun _ => (uses_ask trivial).bind fun _ => uses_ask trivial
  | pause key | cancel key | markDispatchFailed code | recoverRun =>
      refine Uses.bind ?_ fun _ => uses_pure _
      exact (uses_ask trivial).bind fun _ => uses_ask trivial
  | recoverActiveRuns => exact uses_ask trivial

theorem IsCall.mild {a : Action V} (h : IsCall a) : Mild a := by
  cases a <;> first | exact trivial | exact h.elim

theorem AccountInv.perform {k : Caller} {a : Action V} {w w' : World V} {r : Except Exn a.Answer}
    (hw : AccountInv w) (h : perform k a w r w') (hempty : requeuesEmpty k a w)
    (hguar : executionGuar a w) : AccountInv w' := by
  rcases perform_db h with hsame | hcommit
  · exact hw.leave (by rw [hsame]; exact .refl _)
  by_cases hmild : Mild a
  · exact hw.leave (perform_leaves h hmild hempty)
  cases a with
  | recordToolCall call =>
      cases hcommit with
      | recordToolCall h => exact hw.recordToolCall hguar.1 hguar.2 h
  | addContextStep step =>
      cases hcommit with
      | addContextStep h => exact hw.addContextStep h
  | replacePlan plan preserveContext =>
      cases hcommit with
      | replacePlan h => exact hw.replacePlan hguar h
  | finishStep stepId status =>
      cases hcommit with
      | finishStep h => exact hw.completeStep (hguar (not_not.mp hmild)) h
  | execute _ _ _ _ => cases hcommit
  | _ => exact absurd trivial hmild

theorem accountContract_sound (rt : Runtime V) :
    (accountContract (V := V)).Sound (settledSystem rt) where
  refl _ w _ := .refl _
  trans _ _ _ _ h h' hk := (h hk).trans (h' hk)
  start k ks w w' hinv h := by
    have hdb := (start_same h).1
    have hleaves : Leaves w.db w'.db := by
      rw [hdb]
      exact .refl _
    refine ⟨hinv.leave hleaves, fun j hj => ⟨fun hjx => ?_, fun hk => h.1 hk j hj, fun _ => hleaves⟩, ?_⟩
    · cases hk : k.isExecution with
      | false => rfl
      | true =>
          have hother := h.1 hk j hj
          rw [hjx] at hother
          cases hother
    · cases hk : k.isExecution with
      | true =>
          cases k with
          | execute n =>
              exact accounts_bind accounts_execute fun _ _ _ => accounts_pure fun _ _ => trivial
          | _ => cases hk
      | false =>
          refine (uses_entry rt hk).upholds (fun _ _ _ _ => trivial)
            (fun a _ _ _ ha _ _ => ⟨?_, trivial⟩) trivial
          change if k.isExecution then _ else IsCall a
          rw [hk]
          exact ha
  act k a w r w' hinv h hguar := by
    change if k.isExecution then executionGuar a w else IsCall a at hguar
    cases hk : k.isExecution with
    | true =>
        rw [hk] at hguar
        refine ⟨hinv.perform h.2 h.1 hguar, fun j hj hjx => ?_⟩
        rw [hj hk] at hjx
        cases hjx
    | false =>
        rw [hk] at hguar
        have hleaves := perform_leaves h.2 (IsCall.mild hguar) h.1
        exact ⟨hinv.leave hleaves, fun _ _ _ => hleaves⟩
  finish k r w next w' hinv h _ := by
    obtain ⟨rfl, rfl⟩ := h
    exact ⟨hinv, fun _ _ _ => .refl _, fun _ h => by cases h⟩
  die gone w w' hinv h := by
    subst h
    exact ⟨hinv, fun _ _ _ => .refl _⟩

theorem created_accountInv (request : AgentRunRequest) :
    AccountInv ({ db := createRun request } : World V) where
  accounted := ⟨rfl, Nat.zero_le _, fun _ h => absurd h List.not_mem_nil⟩
  ids := List.nodup_nil
  queued _ := ⟨rfl, fun _ h => absurd h List.not_mem_nil⟩

/-! ## Completed steps -/

/-- What an action does to the completed steps. -/
theorem completedOnce_perform {k : Caller} {a : Action V} {w w' : World V}
    {r : Except Exn a.Answer} (hinv : AccountInv w) (h : perform k a w r w')
    (hempty : requeuesEmpty k a w) (hguar : executionGuar a w) : CompletedOnce w w' := by
  intro row hrow hdone
  constructor
  · rcases perform_db h with hsame | hcommit
    · rw [hsame]
      exact hrow
    by_cases hmild : Mild a
    · exact (perform_leaves h hmild hempty).kept row hrow hdone
    cases a with
    | recordToolCall call =>
        cases hcommit with
        | recordToolCall h =>
            rcases RunDb.recordToolCall_ok h with hdb | ⟨_, hdb⟩
            · rw [hdb]
              exact hrow
            · rw [hdb]
              exact hrow
    | addContextStep step =>
        cases hcommit with
        | addContextStep h =>
            obtain ⟨_, _, _, hdb⟩ := RunDb.addContextStep_ok h
            rw [hdb]
            exact List.mem_append_left _ hrow
    | replacePlan plan preserveContext =>
        cases hcommit with
        | replacePlan h =>
            obtain ⟨_, hdb, _⟩ := RunDb.replacePlan_ok h
            rw [hdb]
            cases preserveContext with
            | true => exact List.mem_append_left _ hrow
            | false => exact absurd hdone ((hguar rfl).2 row hrow)
    | finishStep stepId status =>
        cases hcommit with
        | finishStep h =>
            obtain ⟨_, hdb⟩ := RunDb.updateStep_ok h
            rw [hdb]
            refine List.mem_map.mpr ⟨row, hrow, if_neg fun hother => ?_⟩
            exact absurd (hother.2.symm.trans hdone) (by decide)
    | execute _ _ _ _ => cases hcommit
    | _ => exact absurd trivial hmild
  · intro d hd htool
    rcases perform_log h with hsame | ⟨d', hrec, hlog⟩
    · rw [hsame] at hd
      exact absurd hd (by simp)
    · have hdd : d' = d := List.singleton_inj.mp (List.append_cancel_left (hlog.symm.trans hd))
      subst hdd
      cases a <;> cases d' <;> simp only [Action.Records, Dispatch.isTool] at hrec htool
      exact hguar row hrow (htool.symm.trans hrec.1).symm.symm hdone

theorem completedOnce_refl {w w' : World V} (hdb : w'.db = w.db) (hlog : w'.log = w.log) :
    CompletedOnce w w' := by
  refine fun row hrow _ => ⟨hdb ▸ hrow, fun d hd => ?_⟩
  rw [hlog] at hd
  exact absurd hd (by simp)

theorem completedOnce_step {rt : Runtime V}
    {c c' : Pool Caller (Action V) Action.Answer Exn Unit (World V)}
    (hc : accountContract.Holds (settledSystem rt) c) (hstep : (settledSystem rt).Step c c') :
    CompletedOnce c.state c'.state := by
  cases hstep with
  | start k h => exact completedOnce_refl (start_same h).1 (start_same h).2
  | @act w w' before after k a next r h =>
      have hguar := (hc.guar (accountContract_sound rt) h).1
      refine completedOnce_perform hc.inv h.2 h.1 ?_
      change if k.isExecution then executionGuar a w else IsCall a at hguar
      split at hguar
      · exact hguar
      · exact (IsCall.mild hguar).guar w
  | leave h => exact completedOnce_refl (by rw [h.2]) (by rw [h.2])
  | again h => exact completedOnce_refl (by rw [h.2]) (by rw [h.2])
  | die gone h => exact completedOnce_refl (by rw [h]) (by rw [h])

/-- Where `resume` puts only runs without steps back into the queue, the calls are accounted
for and no completed step is executed again, in every pool that a run reaches. -/
theorem steps_accounted (rt : Runtime V) (request : AgentRunRequest)
    (c : (settledSystem rt).Reachable (createdPool request)) :
    Accounted c.val.state.db ∧
      ∀ c' : { c' // (settledSystem rt).Step c.val c' }, CompletedOnce c.val.state c'.val.state := by
  have hholds : accountContract.Holds (settledSystem rt) c.val :=
    (Contract.holds_idle (created_accountInv request)).reachable (accountContract_sound rt) c
  exact ⟨hholds.inv.accounted, fun c' => completedOnce_step hholds c'.property⟩

/-! ## A run that is planned anew over its steps -/

theorem not_accounted {db : RunDb V} (hused : db.used = 1) (hcalls : db.toolCalls = []) :
    ¬ Accounted db := by
  intro h
  have hsum := h.used
  rw [hused, hcalls] at hsum
  exact absurd hsum (by decide)

namespace PlannedAnew

def anyTool : ToolRegistry where
  get _ := some { costUnits := 1 }
  readOnly _ _ _ h := by
    cases h
    rfl

def runtime : Runtime Unit where
  canonicalFingerprint _ := ""
  tools := anyTool
  requiresContext := false
  summaryHash := ""

def answers : Answers Unit where
  plan := ⟨[{ stepId := "a", toolName := "t" }, { stepId := "b", toolName := "t" }]⟩

def request : AgentRunRequest where
  maxSteps := 2
  maxToolCalls := 2
  timeoutSeconds := 0
  allowedTools := ["t"]

/-- One execution beside a pause, a resume and another pause. -/
def joinedPool : Pool Caller (Action Unit) Action.Answer Exn Unit (World Unit) :=
  [.execute 0, .pause "1", .resume "2", .pause "3"].foldl (joined runtime) (createdPool request)

/-- The run is paused while it is planned, and `resume` reads no steps.  The execution goes on
through its first step and ends at the second pause, and `resume` queues the run. -/
def queuedPool : Pool Caller (Action Unit) Action.Answer Exn Unit (World Unit) :=
  System.turns answers.ask joinedPool
    (List.replicate 7 0 ++ [1, 1, 2] ++ List.replicate 20 0 ++ [3, 3, 0, 2, 2])

def secondPool : Pool Caller (Action Unit) Action.Answer Exn Unit (World Unit) :=
  joined runtime (widowed queuedPool) (.execute 1)

/-- The second execution has replaced the plan. -/
def replannedPool : Pool Caller (Action Unit) Action.Answer Exn Unit (World Unit) :=
  System.turns answers.ask secondPool (List.replicate 9 3)

theorem run_turns (c : Pool Caller (Action Unit) Action.Answer Exn Unit (World Unit))
    (order : List ℕ) : (soleSystem runtime).Run c (System.turns answers.ask c order) := by
  have hasks : ∀ k a w, (soleSystem runtime).does k a w (answers.ask k a w).1
      (answers.ask k a w).2 := fun k a w => ⟨trivial, answers.performs k a w⟩
  exact System.run_turns hasks c order

theorem run_joinedPool : (soleSystem runtime).Run (createdPool request) joinedPool := by
  refine (run_joined (k := .execute 0) (fun _ j hj => absurd hj List.not_mem_nil)
    fun _ => rfl).trans ?_
  refine (run_joined (k := .pause "1") (fun h => (by cases h)) (fun h => (by cases h))).trans ?_
  refine (run_joined (k := .resume "2") (fun h => (by cases h)) (fun h => (by cases h))).trans ?_
  exact run_joined (k := .pause "3") (fun h => (by cases h)) (fun h => (by cases h))

theorem run_secondPool : (soleSystem runtime).Run queuedPool secondPool := by
  refine (run_widowed queuedPool).trans (run_joined (fun _ j hj => ?_) fun _ => by rfl)
  obtain ⟨x, hx, rfl⟩ := List.mem_map.mp hj
  simpa using (List.mem_filter.mp hx).2

theorem run_replannedPool : (soleSystem runtime).Run (createdPool request) replannedPool :=
  ((run_joinedPool.trans (run_turns joinedPool _)).trans run_secondPool).trans
    (run_turns secondPool _)

set_option maxRecDepth 4000 in
theorem replannedPool_used : replannedPool.state.db.used = 1 := by rfl

set_option maxRecDepth 4000 in
theorem replannedPool_toolCalls : replannedPool.state.db.toolCalls = [] := by rfl

end PlannedAnew

set_option maxRecDepth 4000 in
theorem used_without_calls : ∃ c : (soleSystem PlannedAnew.runtime).Reachable
    (createdPool PlannedAnew.request), ¬ Accounted c.val.state.db :=
  ⟨⟨PlannedAnew.replannedPool, PlannedAnew.run_replannedPool⟩,
    not_accounted PlannedAnew.replannedPool_used PlannedAnew.replannedPool_toolCalls⟩

end LogRisk.Agentic
