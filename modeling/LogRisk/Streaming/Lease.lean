import LogRisk.Streaming.Run

/-!
# The lease of a task

Several workers share a store.  Each claim draws a token that was never issued
before and hands it to the worker, whose later calls carry it.  Besides the
workers there are operators that interrupt tasks without a token, one by one or
all those that a listing showed running.  Every transaction is one step.
-/

namespace LogRisk.Streaming

open LogRisk.Library LogRisk.Library.Transaction

variable {ω Λ ρ : Type}

/-- The task and the token of a call that a worker makes under its lease. -/
def Call.lease? : Call ω ρ → Option (String × String)
  | .markClaimStage _ taskId leaseToken _ => some (taskId, leaseToken)
  | .commitWindow _ taskId request => request.fencingToken.map (Prod.mk taskId)
  | .saveResult _ taskId _ expectedLeaseToken _ => expectedLeaseToken.map (Prod.mk taskId)
  | .clearPendingExternalCommit _ taskId _ expectedLeaseToken =>
      expectedLeaseToken.map (Prod.mk taskId)
  | .finishClaim _ taskId leaseToken _ _ _ _ => some (taskId, leaseToken)
  | .completeClaim _ taskId leaseToken _ _ => some (taskId, leaseToken)
  | .createOrLoad .. | .claimTask .. | .markInterrupted .. => none

/-! ## A call under a lease -/

theorem TaskStep.unheld {env : Env ω Λ ρ} {call : Call ω ρ} {taskId token other : String}
    {o o' : Option (TaskTables ω)} (hlease : call.lease? = some (taskId, token))
    (hunheld : other = taskId → ∀ t, o = some t → ¬t.task.heldBy token)
    (h : TaskStep env call other o o') : o' = o := by
  cases h with
  | unchanged => rfl
  | created hcall =>
      subst hcall
      cases hlease
  | claim hcall h =>
      subst hcall
      cases hlease
  | markClaimStage hcall h =>
      subst hcall
      cases hlease
      exact absurd (TaskTables.markClaimStage_cases h).1 (hunheld rfl _ rfl)
  | @commit now request prepared t t' ledger ledger' hcall _ h =>
      subst hcall
      obtain ⟨fencing, hfencing, hpair⟩ := Option.map_eq_some_iff.mp hlease
      cases hpair
      have hheld := (TaskTables.commitWindow_cases h).1
      rw [hfencing] at hheld
      exact absurd hheld (hunheld rfl _ rfl)
  | @saveResult now result expected reference t t' a hcall h =>
      subst hcall
      obtain ⟨fencing, hfencing, hpair⟩ := Option.map_eq_some_iff.mp hlease
      cases hpair
      have hheld := (TaskTables.saveResult_cases h).1
      rw [hfencing] at hheld
      exact absurd hheld (hunheld rfl _ rfl)
  | @clearPending now cursor expected t t' a hcall h =>
      subst hcall
      obtain ⟨fencing, hfencing, hpair⟩ := Option.map_eq_some_iff.mp hlease
      cases hpair
      have hheld := (TaskTables.clearPendingExternalCommit_cases h).1
      rw [hfencing] at hheld
      exact absurd hheld (hunheld rfl _ rfl)
  | finishClaim hcall h =>
      subst hcall
      cases hlease
      obtain ⟨_, rfl⟩ | ⟨hheld, _⟩ := TaskTables.finishClaim_cases h
      · rfl
      · exact absurd hheld (hunheld rfl _ rfl)
  | completeClaim hcall h =>
      subst hcall
      cases hlease
      exact absurd (TaskTables.completeClaim_cases h).1 (hunheld rfl _ rfl)
  | markInterrupted hcall h =>
      subst hcall
      cases hlease

/-- A call whose token does not hold its task changes no row of any task. -/
theorem unheld_call_unchanged (env : Env ω Λ ρ) {store : Store ω Λ} {call : Call ω ρ}
    {taskId token : String} (hlease : call.lease? = some (taskId, token))
    (hunheld : ∀ t, store.tasks.get? taskId = some t → ¬t.task.heldBy token) (other : String) :
    (call.apply env store).tasks.get? other = store.tasks.get? other := by
  refine (call.taskStep env store other).unheld hlease ?_
  rintro rfl t ht
  exact hunheld t ht

/-! ## What holds of every task -/

/-- The columns beside the payload repeat it, and a completed task has its
result. -/
structure TaskInv (t : TaskTables ω) : Prop where
  status : t.row.status = t.task.status
  stage : t.row.stage = t.task.stage
  cursor : t.row.cursor = t.task.cursor
  completed : t.task.status = .completed → t.ReadyResult

theorem TaskInv.newTables (task : Task) (hstatus : task.status = .queued) :
    TaskInv (newTables task : TaskTables ω) :=
  ⟨rfl, rfl, rfl, fun h => by cases hstatus.symm.trans h⟩

/-- A step of a task keeps what holds of it. -/
theorem TaskStep.taskInv {env : Env ω Λ ρ} {call : Call ω ρ} {taskId : String}
    {o o' : Option (TaskTables ω)} (h : TaskStep env call taskId o o')
    (hinv : ∀ t, o = some t → TaskInv t) : ∀ t, o' = some t → TaskInv t := by
  rintro u hu
  cases h with
  | unchanged => exact hinv u hu
  | created hcall =>
      cases hu
      exact .newTables _ rfl
  | claim _ h =>
      cases hu
      obtain ⟨_, _, rfl⟩ := TaskTables.claim_cases h
      exact ⟨rfl, rfl, (hinv _ rfl).cursor, fun hstatus => by cases hstatus⟩
  | markClaimStage _ h =>
      cases hu
      obtain ⟨_, rfl⟩ := TaskTables.markClaimStage_cases h
      exact ⟨rfl, rfl, (hinv _ rfl).cursor, fun hstatus => by cases hstatus⟩
  | commit _ _ h =>
      cases hu
      obtain ⟨_, _, ⟨hfalse, _⟩ | ⟨_, _, hwritten⟩⟩ := TaskTables.commitWindow_cases h
      · cases hfalse
      · obtain ⟨_, _, _, _, rfl⟩ := TaskTables.commitNew_cases hwritten
        exact ⟨rfl, rfl, rfl, fun hstatus => by cases hstatus⟩
  | saveResult _ h =>
      cases hu
      obtain ⟨_, rfl⟩ := TaskTables.saveResult_cases h
      have h := hinv _ rfl
      exact ⟨h.status, h.stage, h.cursor, h.completed⟩
  | clearPending _ h =>
      cases hu
      obtain ⟨_, rfl | rfl⟩ := TaskTables.clearPendingExternalCommit_cases h
      · exact hinv _ rfl
      · have h := hinv _ rfl
        exact ⟨h.status, h.stage, h.cursor, h.completed⟩
  | finishClaim _ h =>
      cases hu
      obtain ⟨_, rfl⟩ | ⟨_, _, _, rfl⟩ := TaskTables.finishClaim_cases h
      · exact hinv _ rfl
      · exact ⟨rfl, rfl, (hinv _ rfl).cursor,
          fun hstatus => absurd hstatus (TaskTables.finishOutcome_ne_completed _ _)⟩
  | completeClaim _ h =>
      cases hu
      obtain ⟨_, hready, rfl⟩ := TaskTables.completeClaim_cases h
      exact ⟨rfl, rfl, (hinv _ rfl).cursor, fun _ => hready⟩
  | markInterrupted _ h =>
      cases hu
      obtain rfl := TaskTables.markInterrupted_cases h
      exact ⟨rfl, rfl, (hinv _ rfl).cursor, fun hstatus => by cases hstatus⟩

/-! ## The system -/

/-- The store, the tokens issued so far with their tasks, and for every listing
of running tasks still being worked off the tasks left on it. -/
structure LeaseState (ω Λ : Type) where
  store : Store ω Λ
  issued : List (String × String)
  listings : List (List String)

/-- The running tasks an operator lists before interrupting them. -/
def Store.runningTasks (store : Store ω Λ) : List String :=
  ((store.listTasks 500).filter fun task => decide (task.status = .running)).map Task.taskId

inductive LeaseStep (env : Env ω Λ ρ) : LeaseState ω Λ → LeaseState ω Λ → Prop
  | create {s} (now generatedId descriptor configHash taskId) :
      LeaseStep env s { s with
        store := Call.apply env s.store
          (.createOrLoad now generatedId descriptor configHash taskId) }
  | claim {s} (now token taskId) (hfresh : ∀ other, (other, token) ∉ s.issued) :
      LeaseStep env s { s with
        store := Call.apply env s.store (.claimTask now token taskId)
        issued := (taskId, token) :: s.issued }
  | worker {s} (call : Call ω ρ) {lease} (hlease : call.lease? = some lease)
      (hissued : lease ∈ s.issued) :
      LeaseStep env s { s with store := call.apply env s.store }
  /-- A transaction of a result build: it looks at the lease and writes result
  generations only. -/
  | build {s taskId token t} (hissued : (taskId, token) ∈ s.issued)
      (ht : s.store.tasks.get? taskId = some t) (hheld : t.task.heldBy token) (generations) :
      LeaseStep env s { s with
        store := { s.store with
          tasks := s.store.tasks.set taskId { t with generations := generations } } }
  | markInterrupted {s} (now taskId) :
      LeaseStep env s { s with store := Call.apply env s.store (.markInterrupted now taskId) }
  | listRunning {s} : LeaseStep env s { s with listings := s.store.runningTasks :: s.listings }
  | interruptListed {s} (now taskId) {before rest after}
      (hlisting : s.listings = before ++ (taskId :: rest) :: after) :
      LeaseStep env s { s with
        store := Call.apply env s.store (.markInterrupted now taskId)
        listings := before ++ rest :: after }

/-- Workers and operators start with an empty store. -/
def leaseSystem (env : Env ω Λ ρ) : System (LeaseState ω Λ) where
  Init s := s.store.tasks = ∅ ∧ s.issued = [] ∧ s.listings = []
  Step := LeaseStep env

variable {env : Env ω Λ ρ}

def StoreInv (store : Store ω Λ) : Prop :=
  ∀ taskId t, store.tasks.get? taskId = some t → TaskInv t

theorem StoreInv.apply {store : Store ω Λ} (hinv : StoreInv store) (call : Call ω ρ) :
    StoreInv (call.apply env store) := fun taskId =>
  (call.taskStep env store taskId).taskInv (hinv taskId)

/-- A task that is held is not completed, so its result may still change. -/
theorem StoreInv.build {store : Store ω Λ} {taskId token : String} {t : TaskTables ω}
    (hinv : StoreInv store) (ht : store.tasks.get? taskId = some t) (hheld : t.task.heldBy token)
    (generations : Dict String Generation) :
    StoreInv { store with
      tasks := store.tasks.set taskId { t with generations := generations } } := by
  intro other u hu
  by_cases hid : taskId = other
  · subst hid
    rw [Dict.get?_set_self] at hu
    cases hu
    have h := hinv taskId t ht
    exact ⟨h.status, h.stage, h.cursor, fun hstatus => by cases hheld.1.symm.trans hstatus⟩
  · rw [Dict.get?_set_of_ne hid] at hu
    exact hinv other u hu

theorem storeInv_of_reachable {s : LeaseState ω Λ} (hs : (leaseSystem env).Reachable s) :
    StoreInv s.store := by
  refine hs.invariant (I := fun s => StoreInv s.store) ?_ ?_
  · rintro s ⟨hempty, _⟩ taskId t ht
    rw [hempty] at ht
    cases ht
  · intro s s' hinv hstep
    cases hstep with
    | create => exact hinv.apply _
    | claim => exact hinv.apply _
    | worker => exact hinv.apply _
    | build _ ht hheld => exact hinv.build ht hheld _
    | markInterrupted => exact hinv.apply _
    | listRunning => exact hinv
    | interruptListed => exact hinv.apply _

/-- In every reachable state: a call whose token is not the current one, or that
finds its task not running in the row or in the payload, changes no row; two calls
that change the same task carry the same token; and a completed task has a ready
result that ends at its cursor and counts its commits. -/
theorem lease_protects_task (env : Env ω Λ ρ) (s : LeaseState ω Λ)
    (hs : (leaseSystem env).Reachable s) (taskId : String) (t : TaskTables ω)
    (ht : s.store.tasks.get? taskId = some t) :
    (∀ (call : Call ω ρ) (token : String), call.lease? = some (taskId, token) →
      t.task.leaseToken.getD "" ≠ token ∨ t.row.status ≠ .running ∨ t.task.status ≠ .running →
        ∀ other, (call.apply env s.store).tasks.get? other = s.store.tasks.get? other) ∧
    (∀ (call₁ call₂ : Call ω ρ) (token₁ token₂ : String),
      call₁.lease? = some (taskId, token₁) → call₂.lease? = some (taskId, token₂) →
        (call₁.apply env s.store).tasks.get? taskId ≠ some t →
          (call₂.apply env s.store).tasks.get? taskId ≠ some t → token₁ = token₂) ∧
    (t.row.status = .completed ∨ t.task.status = .completed → t.ReadyResult) := by
  have hinv : TaskInv t := storeInv_of_reachable hs taskId t ht
  have hunheld : ∀ (call : Call ω ρ) (token : String), call.lease? = some (taskId, token) →
      ¬t.task.heldBy token →
        ∀ other, (call.apply env s.store).tasks.get? other = s.store.tasks.get? other := by
    intro call token hlease hheld
    refine unheld_call_unchanged env hlease fun u hu => ?_
    obtain rfl := Option.some.inj (ht.symm.trans hu)
    exact hheld
  have hholder : ∀ (call : Call ω ρ) (token : String), call.lease? = some (taskId, token) →
      (call.apply env s.store).tasks.get? taskId ≠ some t → t.task.leaseToken.getD "" = token := by
    intro call token hlease hchanged
    by_contra hne
    exact hchanged ((hunheld call token hlease (fun h => hne h.2) taskId).trans ht)
  refine ⟨fun call token hlease hstale => hunheld call token hlease fun hheld => ?_, ?_, ?_⟩
  · rcases hstale with htoken | hrow | htask
    · exact htoken hheld.2
    · exact hrow (hinv.status.trans hheld.1)
    · exact htask hheld.1
  · intro call₁ call₂ token₁ token₂ h₁ h₂ hchanged₁ hchanged₂
    exact (hholder call₁ token₁ h₁ hchanged₁).symm.trans (hholder call₂ token₂ h₂ hchanged₂)
  · rintro (hrow | htask)
    · exact hinv.completed (hinv.status.symm.trans hrow)
    · exact hinv.completed htask

/-- A created and claimed task. -/
def claimedCalls : List (Call Unit Unit) :=
  [.createOrLoad "now" "" ⟨"file", [], []⟩ "config" (some "task"),
    .claimTask "now" "token" "task"]

theorem claimed_task_keeps_stale_worker_out :
    ∃ t, (exec (Call.apply bareEnv) ⟨∅, ()⟩ claimedCalls).tasks.get? "task" = some t ∧
      (Call.apply bareEnv (exec (Call.apply bareEnv) ⟨∅, ()⟩ claimedCalls)
        (.finishClaim "later" "task" "stale" "error" false false none)).tasks.get? "task" =
          some t := by
  have hinit : (leaseSystem bareEnv).Reachable ⟨⟨∅, ()⟩, [], []⟩ := .init ⟨rfl, rfl, rfl⟩
  have hcreated := hinit.step
    (.create "now" "" ⟨"file", [], []⟩ "config" (some "task"))
  have hclaimed := hcreated.step (.claim "now" "token" "task" fun _ h => by cases h)
  refine ⟨_, rfl, ?_⟩
  exact (lease_protects_task bareEnv _ hclaimed "task" _ rfl).1
    (.finishClaim "later" "task" "stale" "error" false false none) "stale" rfl
    (.inl (by decide)) "task"

end LogRisk.Streaming
