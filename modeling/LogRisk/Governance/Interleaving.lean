import LogRisk.Governance.Validity

/-!
# Interleaved governance

A change of status and a rollback read the rule before the transaction that commits the
next version.  The transaction looks at the number of the version only, so what a reuse
or another commit wrote after the read is kept as long as the snapshot would be the same
if it were made of the rule as it is now.
-/

namespace LogRisk.Governance

open LogRisk.Library LogRisk.Library.Text LogRisk.Library.Transaction LogRisk.Approval

variable {μ : Type}

/-! ## Reads and commits -/

section Parts

variable (R : RuleResolver μ)

/-- `change_status`, up to the commit. -/
def readStatus (change : StatusChange) (db : Database) : Result Rule := do
  require (change.status ∈ ruleStatuses) (.governance "规则状态无效" "invalid_request" 422)
  require (strip change.operator ≠ "") (.governance "字段 operator 不能为空" "invalid_request" 422)
  require (strip change.reason ≠ "") (.governance "字段 reason 不能为空" "invalid_request" 422)
  orFail (getRule R db change.ruleId) (.governance "规则不存在" "rule_not_found" 404)

def commitStatus (change : StatusChange) (current : Rule) (db : Database) :
    Result (Rule × Database) :=
  commitVersion R (statusSnapshot change.status current)
    { expectedVersion := change.expectedVersion
      changeType := "status_changed"
      reason := strip change.reason
      operator := strip change.operator
      createdAt := change.createdAt } db

/-- `rollback`, up to the read of the versions. -/
def readRollback (request : Rollback) (db : Database) : Result Rule := do
  require (request.confirmed = true) (.governance "回滚必须显式确认" "confirmation_required" 400)
  require (strip request.operator ≠ "") (.governance "字段 operator 不能为空" "invalid_request" 422)
  require (strip request.reason ≠ "") (.governance "字段 reason 不能为空" "invalid_request" 422)
  orFail (getRule R db request.ruleId) (.governance "规则不存在" "rule_not_found" 404)

/-- `rollback`, from the read of the versions up to the commit. -/
def readTarget (request : Rollback) (db : Database) : Result Rule := do
  let target ← orFail (db.ruleVersions.get? (request.ruleId, request.targetVersion))
    (.governance "目标规则版本不存在" "version_not_found" 404)
  let snapshot ← normalizeLegacyRuleVersion R target.ruleJson
  require (hasFormat R .malformedV2 snapshot = false)
    (.governance "目标规则快照损坏，无法回滚" "malformed_rule_snapshot" 409)
  return snapshot

def commitRollback (request : Rollback) (current snapshot : Rule) (db : Database) :
    Result (Rule × Database) :=
  commitVersion R (rollbackSnapshot snapshot current)
    { expectedVersion := request.expectedVersion
      changeType := "rolled_back"
      reason := strip request.reason
      operator := strip request.operator
      createdAt := request.createdAt } db

/-- A change of status that nothing comes between. -/
theorem changeStatus_eq (change : StatusChange) (db : Database) :
    changeStatus R change db =
      readStatus R change db >>= fun current => commitStatus R change current db := by
  unfold changeStatus readStatus commitStatus
  simp only [bind_assoc]

/-- A rollback that nothing comes between. -/
theorem rollback_eq (request : Rollback) (db : Database) :
    rollback R request db =
      readRollback R request db >>= fun current => readTarget R request db >>= fun snapshot =>
        commitRollback R request current snapshot db := by
  unfold rollback readRollback readTarget commitRollback
  simp only [bind_assoc, pure_bind]

end Parts

/-! ## Workers -/

/-- What a worker has read for its request. -/
inductive Pending where
  | changeStatus (change : StatusChange) (current : Rule)
  | rollback (request : Rollback) (current : Rule)
  | rollbackTo (request : Rollback) (current snapshot : Rule)

structure World where
  db : Database
  pending : ℕ → Option Pending

def World.initial : World := ⟨∅, fun _ => none⟩

inductive Action (μ : Type) where
  | upsertFeature (moment : Moment) (feature : Feature μ)
  | recordReuse (ruleId now : String)
  | changeStatus (worker : ℕ) (change : StatusChange)
  | rollback (worker : ℕ) (request : Rollback)
  | readTarget (worker : ℕ)
  | commit (worker : ℕ)

def World.hold (world : World) (worker : ℕ) (pending : Option Pending) : World :=
  { world with pending := Function.update world.pending worker pending }

/-- The worker commits what it made of its reads, and is done. -/
def commitPending (R : RuleResolver μ) (db : Database) : Pending → Database
  | .changeStatus change current => settled db (commitStatus R change current db)
  | .rollback _ _ => db
  | .rollbackTo request current snapshot => settled db (commitRollback R request current snapshot db)

def World.act (R : RuleResolver μ) (world : World) : Action μ → World
  | .upsertFeature moment feature =>
      { world with db := settled world.db (Governance.upsertFeature R moment feature world.db) }
  | .recordReuse ruleId now =>
      { world with db := settled world.db (Governance.recordReuse R ruleId now world.db) }
  | .changeStatus worker change =>
      match readStatus R change world.db with
      | .ok current => world.hold worker (some (.changeStatus change current))
      | .error _ => world
  | .rollback worker request =>
      match readRollback R request world.db with
      | .ok current => world.hold worker (some (.rollback request current))
      | .error _ => world
  | .readTarget worker =>
      match world.pending worker with
      | some (.rollback request current) =>
          match Governance.readTarget R request world.db with
          | .ok snapshot => world.hold worker (some (.rollbackTo request current snapshot))
          | .error _ => world.hold worker none
      | _ => world
  | .commit worker =>
      match world.pending worker with
      | some pending => { world with db := commitPending R world.db pending }.hold worker none
      | none => world

/-! ## Lost updates -/

/-- The reuses a rule counts are those recorded for it. -/
def ReuseCounted (db : Database) : Prop :=
  ∀ ruleId row, db.approvedRules.get? ruleId = some row →
    row.ruleJson.reuseCount = db.ruleReuseEvents.countP (·.1 = ruleId)

/-- The next version as the operation alone makes it of the version before. -/
def OwnChange (R : RuleResolver μ) (world : World) (before after : Rule) : Action μ → Prop
  | .upsertFeature moment feature =>
      ∃ signature, content after = content (updatedRule R moment feature before signature)
  | .commit worker =>
      match world.pending worker with
      | some (.changeStatus change _) => content after =
          content (committedRule (statusSnapshot change.status before) (before.currentVersion + 1)
            change.createdAt)
      | some (.rollbackTo request _ snapshot) =>
          (∃ target, world.db.ruleVersions.get? (request.ruleId, request.targetVersion) = some target ∧
            normalizeLegacyRuleVersion R target.ruleJson = .ok snapshot) ∧
          content after = content (committedRule (rollbackSnapshot snapshot before)
            (before.currentVersion + 1) request.createdAt)
      | _ => False
  | _ => False

/-- No update is lost: reuses are counted, and a new version is the one directly before with
the change of the operation. -/
structure NothingLost (R : RuleResolver μ) (world : World) (action : Action μ) : Prop where
  reuses : ReuseCounted (world.act R action).db
  versions : ∀ ruleId n before after, world.db.ruleVersions.get? (ruleId, n) = some before →
    world.db.ruleVersions.get? (ruleId, n + 1) = none →
    (world.act R action).db.ruleVersions.get? (ruleId, n + 1) = some after →
    OwnChange R world before.ruleJson after.ruleJson action

/-- Two snapshots say the same, but for version and times. -/
structure SameSnapshot (a b : Rule) : Prop where
  reuseCount : a.reuseCount = b.reuseCount
  content : content { a with currentVersion := 0 } = content { b with currentVersion := 0 }

/-- The snapshot a worker commits is the one it would make of the rule as it is now. -/
def Timely (R : RuleResolver μ) (db : Database) : Pending → Prop
  | .changeStatus change current => ∀ now, getRule R db change.ruleId = some now →
      SameSnapshot (statusSnapshot change.status current) (statusSnapshot change.status now)
  | .rollback _ _ => True
  | .rollbackTo request current snapshot => ∀ now, getRule R db request.ruleId = some now →
      SameSnapshot (rollbackSnapshot snapshot current) (rollbackSnapshot snapshot now)

/-- Approvals are orderly and commits timely. -/
def Undisturbed (R : RuleResolver μ) (world : World) : Action μ → Prop
  | .upsertFeature moment feature => Orderly R world.db (.upsertFeature moment feature)
  | .commit worker => ∀ pending, world.pending worker = some pending → Timely R world.db pending
  | _ => True

/-! ## Snapshots -/

/-- A snapshot takes id, dates and reuses from the rule it is made of, and no more than its
content. -/
structure Snapshots (make : Rule → Rule) : Prop where
  ruleId : ∀ rule, (make rule).ruleId = rule.ruleId
  approvedAt : ∀ rule, (make rule).approvedAt = rule.approvedAt
  createdAt : ∀ rule, (make rule).createdAt = rule.createdAt
  reuseCount : ∀ rule, (make rule).reuseCount = rule.reuseCount
  congr : ∀ a b, content a = content b → content (make a) = content (make b)

theorem snapshots_status (status : String) : Snapshots (statusSnapshot status) where
  ruleId _ := rfl
  approvedAt _ := rfl
  createdAt _ := rfl
  reuseCount _ := rfl
  congr a b h := by
    have hstatus (rule : Rule) :
        content (statusSnapshot status rule) = { content rule with status := status } := rfl
    rw [hstatus, hstatus, h]

theorem snapshots_rollback (target : Rule) : Snapshots (rollbackSnapshot target) where
  ruleId _ := rfl
  approvedAt _ := rfl
  createdAt _ := rfl
  reuseCount _ := rfl
  congr a b h := by
    have hrollback (rule : Rule) : content (rollbackSnapshot target rule) =
        { content target with
          ruleId := (content rule).ruleId
          signature := (content rule).signature
          approvedAt := (content rule).approvedAt
          createdAt := (content rule).createdAt } := rfl
    rw [hrollback, hrollback, h]

theorem content_committedRule (rule : Rule) (version : ℕ) (createdAt : String) :
    content (committedRule rule version createdAt) =
      { content { rule with currentVersion := 0 } with currentVersion := version } := rfl

/-- What an update of a rule takes from it. -/
theorem content_updatedContent (R : RuleResolver μ) (moment : Moment) (feature : Feature μ)
    (existing : Rule) (signature : String) :
    content (updatedContent R moment feature existing signature) =
      { content (newRule R moment feature none "" "" signature) with
        ruleId := existing.ruleId
        approvalKey := firstGiven existing.approvalKey
          (approvalIdentity R.toResolver feature).approvalKey
        approvedAt := existing.approvedAt
        createdAt := firstGiven (firstGiven existing.createdAt existing.approvedAt) moment.now
        nextReviewAt := existing.nextReviewAt
        lineage := if lineageOf feature = [] then existing.lineage else lineageOf feature
        predecessorRuleId := existing.predecessorRuleId
        canonicalApprovalKey := existing.canonicalApprovalKey } := by
  unfold updatedContent newRule content
  rfl

theorem versionedFields_content (rule : Rule) : versionedFields (content rule) = versionedFields rule :=
  rfl

theorem content_updatedRule {R : RuleResolver μ} {moment : Moment} {feature : Feature μ}
    {a b : Rule} (signature : String) (h : content a = content b) :
    content (updatedRule R moment feature a signature) =
      content (updatedRule R moment feature b signature) := by
  have hfields : a.ruleId = b.ruleId ∧ a.approvalKey = b.approvalKey ∧ a.approvedAt = b.approvedAt ∧
      a.createdAt = b.createdAt ∧ a.nextReviewAt = b.nextReviewAt ∧ a.lineage = b.lineage ∧
      a.predecessorRuleId = b.predecessorRuleId ∧
      a.canonicalApprovalKey = b.canonicalApprovalKey ∧ a.currentVersion = b.currentVersion := by
    simp only [content, Rule.mk.injEq] at h
    simp only [h, and_self]
  obtain ⟨hid, hkey, happroved, hcreated, hreview, hlineage, hpredecessor, hcanonical, hversion⟩ :=
    hfields
  have hcontent : content (updatedContent R moment feature a signature) =
      content (updatedContent R moment feature b signature) := by
    rw [content_updatedContent, content_updatedContent, hid, hkey, happroved, hcreated, hreview,
      hlineage, hpredecessor, hcanonical]
  have hsame : versionedFields a = versionedFields b := by
    rw [← versionedFields_content a, h, versionedFields_content]
  have hsameUpdated : versionedFields (updatedContent R moment feature a signature) =
      versionedFields (updatedContent R moment feature b signature) := by
    rw [← versionedFields_content, hcontent, versionedFields_content]
  rw [updatedRule_eq, updatedRule_eq, hsame, hsameUpdated, hversion]
  generalize updatedContent R moment feature a signature = updated at *
  generalize updatedContent R moment feature b signature = other at *
  have hversioned (version : ℕ) :=
    congrArg (fun rule : Rule => { rule with currentVersion := version }) hcontent
  exact hversioned _

/-! ## Runs -/

/-- What a worker holds is about the rule of its request; a version to go back to is
stored. -/
def HeldFor (R : RuleResolver μ) (db : Database) : Pending → Prop
  | .changeStatus change current => current.ruleId = change.ruleId
  | .rollback request current => current.ruleId = request.ruleId
  | .rollbackTo request current snapshot => current.ruleId = request.ruleId ∧
      ∃ target, db.ruleVersions.get? (request.ruleId, request.targetVersion) = some target ∧
        normalizeLegacyRuleVersion R target.ruleJson = .ok snapshot

/-- The reuses are counted, and recorded for stored rules only. -/
structure Counted (db : Database) : Prop where
  counted : ReuseCounted db
  owned : ∀ event ∈ db.ruleReuseEvents, event.1 ∈ db.approvedRules.keys

structure Coherent (R : RuleResolver μ) (world : World) : Prop where
  consistent : Consistent R world.db
  counted : Counted world.db
  pending : ∀ worker pending, world.pending worker = some pending → HeldFor R world.db pending

theorem coherent_initial (R : RuleResolver μ) : Coherent R World.initial where
  consistent := consistent_empty R
  counted := ⟨fun _ _ h => (by cases h), fun _ h => absurd h List.not_mem_nil⟩
  pending _ _ h := by cases h

section Tables

variable {R : RuleResolver μ} {db next : Database} {rule returned : Rule} {row : Row}

/-- A row is written and no reuse is recorded. -/
theorem Counted.write (h : Counted db) {ruleId : String}
    (hrows : next.approvedRules = db.approvedRules.set ruleId row)
    (hevents : next.ruleReuseEvents = db.ruleReuseEvents)
    (hcount : row.ruleJson.reuseCount = db.ruleReuseEvents.countP (·.1 = ruleId)) : Counted next := by
  constructor
  · intro other found hfound
    rw [hevents]
    rw [hrows, Dict.get?_set] at hfound
    split at hfound
    · rename_i heq
      rw [← heq, ← Option.some.inj hfound]
      exact hcount
    · exact h.counted other found hfound
  · intro event hevent
    rw [hevents] at hevent
    rw [hrows]
    exact Dict.mem_keys_alter.mpr (.inl (h.owned event hevent))

/-- No reuse is recorded for a rule that is not stored. -/
theorem Counted.countP_eq_zero (h : Counted db) {ruleId : String}
    (hnone : db.approvedRules.get? ruleId = none) :
    db.ruleReuseEvents.countP (·.1 = ruleId) = 0 := by
  rw [List.countP_eq_zero]
  intro event hevent heq
  rw [decide_eq_true_eq] at heq
  exact Dict.get?_eq_none.mp hnone (heq ▸ h.owned event hevent)

theorem Counted.reused (h : Counted db) {ruleId now : String}
    (hreused : Reused R ruleId now db next row) : Counted next := by
  constructor
  · intro other found hfound
    rw [hreused.rows, Dict.get?_set] at hfound
    rw [hreused.events, List.countP_append, List.countP_singleton]
    split at hfound
    · rename_i heq
      rw [← heq, ← Option.some.inj hfound, if_pos (decide_eq_true rfl)]
      show row.ruleJson.reuseCount + 1 = _
      rw [h.counted ruleId row hreused.found]
    · rename_i hne
      rw [if_neg (by rw [decide_eq_true_eq]; exact hne), Nat.add_zero]
      exact h.counted other found hfound
  · intro event hevent
    rw [hreused.events, List.mem_append, List.mem_singleton] at hevent
    rw [hreused.rows]
    rcases hevent with hevent | rfl
    · exact Dict.mem_keys_alter.mpr (.inl (h.owned event hevent))
    · exact Dict.mem_keys_alter.mpr (.inr rfl)

/-- An approval saves a new rule under a free id, or one that counts the reuses of the rule
it was matched with. -/
theorem Counted.saved (h : Counted db) (hconsistent : Consistent R db) {moment : Moment}
    {feature : Feature μ} (horderly : Orderly R db (.upsertFeature moment feature))
    (happroving : Approving R moment feature (readLocked R db) rule true)
    (hsaved : Saved R rule db next row) : Counted next := by
  have hjson : row.ruleJson.reuseCount = rule.reuseCount := by
    rw [hsaved.row_eq]
    rfl
  refine h.write hsaved.rows hsaved.events (hjson.trans ?_)
  cases happroving with
  | updated baseSignature hsignature hexisting hformat =>
      rename_i existing
      obtain ⟨old, hold, hread⟩ := hconsistent.get?_of_mem (mem_of_existingRule hexisting)
      have hupdates := updates_updatedRule R moment feature existing (chosenSignature R
        (readLocked R db) baseSignature (firstGiven existing.approvalKey
          (approvalIdentity R.toResolver feature).approvalKey) (some existing))
      rw [hupdates.reuseCount, hupdates.ruleId, ← h.counted existing.ruleId old hold, ← hread]
      rfl
  | created baseSignature hsignature hfree hnone =>
      have hnew : db.approvedRules.get?
          (createdRule R moment feature (readLocked R db) baseSignature).ruleId = none :=
        hconsistent.get?_eq_none (newRuleId_notMem_iff.mpr (horderly.1 hnone))
      rw [h.countP_eq_zero hnew]
      rfl

/-- A version an approval adds is the one before, brought up to date. -/
theorem ownChange_of_saved (h : Consistent R db) {moment : Moment} {feature : Feature μ}
    (horderly : Orderly R db (.upsertFeature moment feature))
    (happroving : Approving R moment feature (readLocked R db) rule true)
    (hsaved : Saved R rule db next row) {ruleId : String} {n : ℕ} {before after : Version}
    (hbefore : db.ruleVersions.get? (ruleId, n) = some before)
    (hnone : db.ruleVersions.get? (ruleId, n + 1) = none)
    (hafter : next.ruleVersions.get? (ruleId, n + 1) = some after) :
    ∃ signature, content after.ruleJson =
      content (updatedRule R moment feature before.ruleJson signature) := by
  obtain ⟨version, hjson, hversions⟩ := hsaved.versions
  have hkey : (rule.ruleId, row.currentVersion) = (ruleId, n + 1) ∧ version = after := by
    split at hversions
    · rw [hversions, hnone] at hafter
      cases hafter
    · rw [hversions, Dict.get?_set] at hafter
      split at hafter
      · rename_i heq
        exact ⟨heq, Option.some.inj hafter⟩
      · rw [hnone] at hafter
        cases hafter
  obtain ⟨hkey, rfl⟩ := hkey
  obtain ⟨rfl, hcurrent⟩ := Prod.mk.inj hkey
  rw [hjson, content_publicRule]
  have hmem := Dict.mem_keys_of_get? hbefore
  cases happroving with
  | updated baseSignature hsignature hexisting hformat =>
      rename_i existing
      obtain ⟨old, hold, hread⟩ := h.get?_of_mem (mem_of_existingRule hexisting)
      refine ⟨_, content_updatedRule _ ?_⟩
      have hcontiguous := h.contiguous existing.ruleId old hold
      have hn : n = old.currentVersion := by
        have hle := ((hcontiguous n).mp hmem).2
        have hfresh : ¬ (1 ≤ n + 1 ∧ n + 1 ≤ old.currentVersion) := fun hno =>
          Dict.get?_eq_none.mp hnone ((hcontiguous (n + 1)).mpr hno)
        omega
      subst hn
      rw [h.latest existing.ruleId old before hold hbefore, hread]
  | created baseSignature hsignature hfree hexisting =>
      have hnew : db.approvedRules.get?
          (createdRule R moment feature (readLocked R db) baseSignature).ruleId = none :=
        h.get?_eq_none (newRuleId_notMem_iff.mpr (horderly.1 hexisting))
      exact absurd (h.owned _ n hmem) (Dict.get?_eq_none.mp hnew)

/-- A commit of a snapshot that is the one of the rule as it is now. -/
structure CommitsNow (R : RuleResolver μ) (make : Rule → Rule) (rule : Rule) (change : Change)
    (db next : Database) (row : Row) : Prop where
  committed : Committed R rule change db next row
  snapshots : Snapshots make
  same : SameSnapshot rule (make (hydratePersistedRule R rule.ruleId row))

section Commit

variable {make : Rule → Rule} {change : Change}

theorem CommitsNow.fields (h : CommitsNow R make rule change db next row) :
    rule.approvedAt = row.approvedAt ∧ rule.createdAt =
      (hydratePersistedRule R rule.ruleId row).createdAt := by
  have hcontent := h.same.content
  have happroved := h.snapshots.approvedAt (hydratePersistedRule R rule.ruleId row)
  have hcreated := h.snapshots.createdAt (hydratePersistedRule R rule.ruleId row)
  generalize make (hydratePersistedRule R rule.ruleId row) = snapshot at *
  simp only [content, Rule.mk.injEq] at hcontent
  have hsame : rule.approvedAt = snapshot.approvedAt ∧ rule.createdAt = snapshot.createdAt := by
    simp only [hcontent, and_self]
  exact ⟨hsame.1.trans happroved, hsame.2.trans hcreated⟩

theorem CommitsNow.consistent (h : CommitsNow R make rule change db next row)
    (hconsistent : Consistent R db) : Consistent R next :=
  hconsistent.committed h.committed (dated_hydrate h.fields.1 h.fields.2)

theorem CommitsNow.counted (h : CommitsNow R make rule change db next row) (hcounted : Counted db) :
    Counted next := by
  refine hcounted.write h.committed.rows h.committed.events ?_
  show rule.reuseCount = _
  rw [h.same.reuseCount, h.snapshots.reuseCount, reuseCount_hydrate,
    hcounted.counted _ row h.committed.found]

theorem CommitsNow.ownChange (h : CommitsNow R make rule change db next row)
    (hconsistent : Consistent R db) {ruleId : String} {n : ℕ} {before after : Version}
    (hbefore : db.ruleVersions.get? (ruleId, n) = some before)
    (hnone : db.ruleVersions.get? (ruleId, n + 1) = none)
    (hafter : next.ruleVersions.get? (ruleId, n + 1) = some after) :
    content after.ruleJson = content (committedRule (make before.ruleJson)
      (before.ruleJson.currentVersion + 1) change.createdAt) := by
  obtain ⟨version, hjson, hversions⟩ := h.committed.versions
  have hkey : (rule.ruleId, row.currentVersion + 1) = (ruleId, n + 1) ∧ version = after := by
    rw [hversions, Dict.get?_set] at hafter
    split at hafter
    · rename_i heq
      exact ⟨heq, Option.some.inj hafter⟩
    · rw [hnone] at hafter
      cases hafter
  obtain ⟨hkey, rfl⟩ := hkey
  obtain ⟨rfl, hn⟩ := Prod.mk.inj hkey
  have hn : row.currentVersion = n := Nat.add_right_cancel hn
  subst hn
  have hlatest := hconsistent.latest rule.ruleId row before h.committed.found hbefore
  have hversion : before.ruleJson.currentVersion = row.currentVersion := by
    have hfields := congrArg Rule.currentVersion hlatest
    exact hfields
  have hmade := h.snapshots.congr _ _ hlatest.symm
  have hsame := h.same.content
  generalize make (hydratePersistedRule R rule.ruleId row) = now at *
  have hzero (a b : Rule) (hab : content a = content b) :
      content { a with currentVersion := 0 } = content { b with currentVersion := 0 } := by
    have hboth := congrArg (fun rule : Rule => { rule with currentVersion := 0 }) hab
    exact hboth
  rw [hjson, content_committedRule, content_committedRule, hversion, hsame, hzero now _ hmade]

end Commit

end Tables

section Steps

variable {R : RuleResolver μ} {world : World}

/-- What a timely commit does to the tables: nothing, or it commits the snapshot of the rule
as it is now. -/
theorem commitPending_cases (h : Coherent R world) {pending : Pending}
    (hheld : HeldFor R world.db pending) (htimely : Timely R world.db pending) :
    commitPending R world.db pending = world.db ∨
      ∃ make rule change row, CommitsNow R make rule change world.db
          (commitPending R world.db pending) row ∧
        ((∃ request current, pending = .changeStatus request current ∧
            make = statusSnapshot request.status ∧ change.createdAt = request.createdAt) ∨
          ∃ request current snapshot, pending = .rollbackTo request current snapshot ∧
            make = rollbackSnapshot snapshot ∧ change.createdAt = request.createdAt) := by
  have hread {ruleId : String} {row : Row} (hrow : world.db.approvedRules.get? ruleId = some row) :
      getRule R world.db ruleId = some (hydratePersistedRule R ruleId row) :=
    getRule_eq_some.mpr ⟨row, hrow, rfl⟩
  cases pending with
  | rollback request current => exact .inl rfl
  | changeStatus request current =>
      have hid : (statusSnapshot request.status current).ruleId = request.ruleId := hheld
      have hpending : commitPending R world.db (.changeStatus request current) =
        settled world.db (commitStatus R request current world.db) := rfl
      rw [hpending]
      cases hcommit : commitStatus R request current world.db with
      | error error => exact .inl (settled_error _ _)
      | ok result =>
          rw [settled_ok]
          unfold commitStatus at hcommit
          obtain ⟨row, hcommitted⟩ := committed_of_commitVersion hcommit
          refine .inr ⟨statusSnapshot request.status, _, _, row, ⟨hcommitted, snapshots_status request.status, ?_⟩,
            .inl ⟨request, current, rfl, rfl, by dsimp only⟩⟩
          rw [hid]
          exact htimely _ (hread (hid ▸ hcommitted.found))
  | rollbackTo request current snapshot =>
      have hid : (rollbackSnapshot snapshot current).ruleId = request.ruleId := hheld.1
      have hpending : commitPending R world.db (.rollbackTo request current snapshot) =
        settled world.db (commitRollback R request current snapshot world.db) := rfl
      rw [hpending]
      cases hcommit : commitRollback R request current snapshot world.db with
      | error error => exact .inl (settled_error _ _)
      | ok result =>
          rw [settled_ok]
          unfold commitRollback at hcommit
          obtain ⟨row, hcommitted⟩ := committed_of_commitVersion hcommit
          refine .inr ⟨rollbackSnapshot snapshot, _, _, row, ⟨hcommitted, snapshots_rollback snapshot, ?_⟩,
            .inr ⟨request, current, snapshot, rfl, rfl, by dsimp only⟩⟩
          rw [hid]
          exact htimely _ (hread (hid ▸ hcommitted.found))

theorem HeldFor.mono {db next : Database} {pending : Pending} (h : HeldFor R db pending)
    (hkept : ∀ key version, db.ruleVersions.get? key = some version →
      next.ruleVersions.get? key = some version) : HeldFor R next pending := by
  cases pending with
  | changeStatus change current => exact h
  | rollback request current => exact h
  | rollbackTo request current snapshot =>
      obtain ⟨hid, target, htarget, hsnapshot⟩ := h
      exact ⟨hid, target, hkept _ target htarget, hsnapshot⟩

/-- Only the tables change. -/
theorem Coherent.tables (h : Coherent R world) {next : Database} (hconsistent : Consistent R next)
    (hcounted : Counted next) (hkept : ∀ key version, world.db.ruleVersions.get? key = some version →
      next.ruleVersions.get? key = some version) : Coherent R { world with db := next } :=
  ⟨hconsistent, hcounted, fun worker pending hpending => (h.pending worker pending hpending).mono hkept⟩

/-- Only what one worker holds changes. -/
theorem Coherent.hold (h : Coherent R world) {worker : ℕ} {held : Option Pending}
    (hheld : ∀ pending, held = some pending → HeldFor R world.db pending) :
    Coherent R (world.hold worker held) := by
  refine ⟨h.consistent, h.counted, fun other pending hpending => ?_⟩
  unfold World.hold at hpending
  dsimp only at hpending
  rw [Function.update_apply] at hpending
  split at hpending
  · exact hheld pending hpending
  · exact h.pending other pending hpending

theorem readStatus_eq_ok {change : StatusChange} {db : Database} {current : Rule}
    (h : readStatus R change db = .ok current) : getRule R db change.ruleId = some current := by
  unfold readStatus at h
  obtain ⟨-, h⟩ := require_bind_eq_ok.mp h
  obtain ⟨-, h⟩ := require_bind_eq_ok.mp h
  obtain ⟨-, h⟩ := require_bind_eq_ok.mp h
  exact orFail_eq_ok.mp h

theorem readRollback_eq_ok {request : Rollback} {db : Database} {current : Rule}
    (h : readRollback R request db = .ok current) : getRule R db request.ruleId = some current := by
  unfold readRollback at h
  obtain ⟨-, h⟩ := require_bind_eq_ok.mp h
  obtain ⟨-, h⟩ := require_bind_eq_ok.mp h
  obtain ⟨-, h⟩ := require_bind_eq_ok.mp h
  exact orFail_eq_ok.mp h

theorem readTarget_eq_ok {request : Rollback} {db : Database} {snapshot : Rule}
    (h : readTarget R request db = .ok snapshot) :
    ∃ target, db.ruleVersions.get? (request.ruleId, request.targetVersion) = some target ∧
      normalizeLegacyRuleVersion R target.ruleJson = .ok snapshot := by
  unfold readTarget at h
  obtain ⟨target, htarget, h⟩ := orFail_bind_eq_ok.mp h
  obtain ⟨found, hfound, h⟩ := bind_eq_ok.mp h
  obtain ⟨-, h⟩ := require_bind_eq_ok.mp h
  rw [← pure_eq_ok.mp h]
  exact ⟨target, htarget, hfound⟩

/-- The tables after an approval. -/
theorem upsert_step (h : Coherent R world) {moment : Moment} {feature : Feature μ}
    (horderly : Orderly R world.db (.upsertFeature moment feature)) :
    Coherent R (world.act R (.upsertFeature moment feature)) ∧
      ∀ ruleId n before after, world.db.ruleVersions.get? (ruleId, n) = some before →
        world.db.ruleVersions.get? (ruleId, n + 1) = none →
        (world.act R (.upsertFeature moment feature)).db.ruleVersions.get? (ruleId, n + 1) =
          some after →
        ∃ signature, content after.ruleJson =
          content (updatedRule R moment feature before.ruleJson signature) := by
  have hact : world.act R (.upsertFeature moment feature) =
      { world with db := Governance.act R world.db (.upsertFeature moment feature) } := rfl
  rw [hact]
  cases hcall : perform R world.db (.upsertFeature moment feature) with
  | error error =>
      have hsame : Governance.act R world.db (.upsertFeature moment feature) = world.db := by
        unfold Governance.act
        rw [hcall, settled_error]
      rw [hsame]
      refine ⟨h, fun ruleId n before after _ hnone hafter => ?_⟩
      rw [hnone] at hafter
      cases hafter
  | ok result =>
      have hnext : Governance.act R world.db (.upsertFeature moment feature) = result.2 := by
        unfold Governance.act
        rw [hcall, settled_ok]
      rw [hnext]
      have hconsistent := consistent_perform h.consistent horderly hcall
      have hkept (key : String × ℕ) (version : Version)
          (hversion : world.db.ruleVersions.get? key = some version) :
          result.2.ruleVersions.get? key = some version := kept_perform hcall hversion
      rcases saved_of_upsertFeature hcall with hsame | ⟨rule, row, happroving, hsaved⟩
      · rw [hsame] at hconsistent hkept ⊢
        refine ⟨h, fun ruleId n before after _ hnone hafter => ?_⟩
        rw [hnone] at hafter
        cases hafter
      · refine ⟨h.tables hconsistent (h.counted.saved h.consistent horderly happroving hsaved) hkept,
          fun ruleId n before after hbefore hnone hafter => ?_⟩
        exact ownChange_of_saved h.consistent horderly happroving hsaved hbefore hnone hafter

theorem reuse_step (h : Coherent R world) (ruleId now : String) :
    Coherent R (world.act R (.recordReuse ruleId now)) ∧
      (world.act R (.recordReuse ruleId now)).db.ruleVersions = world.db.ruleVersions := by
  have hact : world.act R (.recordReuse ruleId now) =
      { world with db := Governance.act R world.db (.recordReuse ruleId now) } := rfl
  rw [hact]
  cases hcall : perform R world.db (.recordReuse ruleId now) with
  | error error =>
      have hsame : Governance.act R world.db (.recordReuse ruleId now) = world.db := by
        unfold Governance.act
        rw [hcall, settled_error]
      rw [hsame]
      exact ⟨h, rfl⟩
  | ok result =>
      have hnext : Governance.act R world.db (.recordReuse ruleId now) = result.2 := by
        unfold Governance.act
        rw [hcall, settled_ok]
      rw [hnext]
      obtain ⟨row, hreused⟩ := reused_of_recordReuse hcall
      refine ⟨h.tables (h.consistent.reused hreused) (h.counted.reused hreused) ?_, hreused.versions⟩
      intro key version hversion
      rw [hreused.versions]
      exact hversion

theorem commit_step (h : Coherent R world) {worker : ℕ}
    (htimely : ∀ pending, world.pending worker = some pending → Timely R world.db pending) :
    Coherent R (world.act R (.commit worker)) ∧
      ∀ ruleId n before after, world.db.ruleVersions.get? (ruleId, n) = some before →
        world.db.ruleVersions.get? (ruleId, n + 1) = none →
        (world.act R (.commit worker)).db.ruleVersions.get? (ruleId, n + 1) = some after →
        OwnChange R world before.ruleJson after.ruleJson (.commit worker : Action μ) := by
  cases hpending : world.pending worker with
  | none =>
      have hact : world.act R (.commit worker) = world := by
        unfold World.act
        dsimp only
        rw [hpending]
      rw [hact]
      refine ⟨h, fun ruleId n before after _ hnone hafter => ?_⟩
      rw [hnone] at hafter
      cases hafter
  | some pending =>
      have hact : world.act R (.commit worker) =
          { world with db := commitPending R world.db pending }.hold worker none := by
        unfold World.act
        dsimp only
        rw [hpending]
      have hheld := h.pending worker pending hpending
      rw [hact]
      rcases commitPending_cases h hheld (htimely pending hpending) with
        hsame | ⟨make, rule, change, row, hcommits, hmake⟩
      · rw [hsame]
        refine ⟨h.hold fun _ hnone => (by cases hnone), fun ruleId n before after _ hnone hafter => ?_⟩
        rw [show (World.hold { world with db := world.db } worker none).db = world.db from rfl,
          hnone] at hafter
        cases hafter
      · have htables : Coherent R { world with db := commitPending R world.db pending } :=
          h.tables (hcommits.consistent h.consistent) (hcommits.counted h.counted)
            fun key version hversion => kept_of_committed hcommits.committed hversion
        refine ⟨htables.hold fun _ hnone => (by cases hnone),
          fun ruleId n before after hbefore hnone hafter => ?_⟩
        have hchange := hcommits.ownChange h.consistent hbefore hnone hafter
        unfold OwnChange
        dsimp only
        rw [hpending]
        rcases hmake with ⟨request, current, rfl, rfl, hat⟩ | ⟨request, current, snapshot, rfl, rfl, hat⟩
        · rw [hat] at hchange
          exact hchange
        · rw [hat] at hchange
          exact ⟨hheld.2, hchange⟩

/-- A step that leaves the tables alone. -/
theorem nothingLost_of_db (h : Coherent R world) {action : Action μ}
    (hdb : (world.act R action).db = world.db) : NothingLost R world action := by
  refine ⟨?_, fun ruleId n before after _ hnone hafter => ?_⟩
  · rw [hdb]
    exact h.counted.counted
  · rw [hdb, hnone] at hafter
    cases hafter

/-- A read keeps what is known of the rule. -/
theorem read_step (h : Coherent R world) {action : Action μ} (worker : ℕ) (held : Option Pending)
    (hact : world.act R action = world.hold worker held)
    (hheld : ∀ pending, held = some pending → HeldFor R world.db pending) :
    Coherent R (world.act R action) ∧ NothingLost R world action := by
  refine ⟨?_, nothingLost_of_db h (by rw [hact]; rfl)⟩
  rw [hact]
  exact h.hold hheld

theorem idle_step (h : Coherent R world) {action : Action μ} (hact : world.act R action = world) :
    Coherent R (world.act R action) ∧ NothingLost R world action :=
  ⟨hact.symm ▸ h, nothingLost_of_db h (by rw [hact])⟩

theorem undisturbed_step (h : Coherent R world) {action : Action μ}
    (hundisturbed : Undisturbed R world action) :
    Coherent R (world.act R action) ∧ NothingLost R world action := by
  cases action with
  | upsertFeature moment feature =>
      obtain ⟨hcoherent, hversions⟩ := upsert_step h hundisturbed
      exact ⟨hcoherent, hcoherent.counted.counted, hversions⟩
  | recordReuse ruleId now =>
      obtain ⟨hcoherent, hversions⟩ := reuse_step h ruleId now
      refine ⟨hcoherent, hcoherent.counted.counted, fun id n before after _ hnone hafter => ?_⟩
      rw [hversions, hnone] at hafter
      cases hafter
  | commit worker =>
      obtain ⟨hcoherent, hversions⟩ := commit_step h hundisturbed
      exact ⟨hcoherent, hcoherent.counted.counted, hversions⟩
  | changeStatus worker change =>
      cases hread : readStatus R change world.db with
      | error error =>
          refine idle_step h ?_
          unfold World.act
          dsimp only
          rw [hread]
      | ok current =>
          refine read_step h worker (some (.changeStatus change current)) ?_ ?_
          · unfold World.act
            dsimp only
            rw [hread]
          · rintro pending ⟨⟩
            exact h.consistent.ruleId_of_getRule (readStatus_eq_ok hread)
  | rollback worker request =>
      cases hread : readRollback R request world.db with
      | error error =>
          refine idle_step h ?_
          unfold World.act
          dsimp only
          rw [hread]
      | ok current =>
          refine read_step h worker (some (.rollback request current)) ?_ ?_
          · unfold World.act
            dsimp only
            rw [hread]
          · rintro pending ⟨⟩
            exact h.consistent.ruleId_of_getRule (readRollback_eq_ok hread)
  | readTarget worker =>
      cases hpending : world.pending worker with
      | none =>
          refine idle_step h ?_
          unfold World.act
          dsimp only
          rw [hpending]
      | some pending =>
          cases pending with
          | changeStatus change current =>
              refine idle_step h ?_
              unfold World.act
              dsimp only
              rw [hpending]
          | rollbackTo request current snapshot =>
              refine idle_step h ?_
              unfold World.act
              dsimp only
              rw [hpending]
          | rollback request current =>
              have hid : current.ruleId = request.ruleId := h.pending worker _ hpending
              cases hread : Governance.readTarget R request world.db with
              | error error =>
                  refine read_step h worker none ?_ fun _ hnone => (by cases hnone)
                  unfold World.act
                  dsimp only
                  rw [hpending]
                  dsimp only
                  rw [hread]
              | ok snapshot =>
                  refine read_step h worker
                    (some (.rollbackTo request current snapshot)) ?_ ?_
                  · unfold World.act
                    dsimp only
                    rw [hpending]
                    dsimp only
                    rw [hread]
                  · rintro pending ⟨⟩
                    exact ⟨hid, readTarget_eq_ok hread⟩

end Steps

/-! ## A reuse between read and commit -/

def disableCni : StatusChange where
  ruleId := cniRuleId
  status := "disabled"
  expectedVersion := 1
  operator := "operator"
  reason := "noise"
  createdAt := "2026-01-03T00:00:00+00:00"

/-- A rule is approved and disabled, with nothing in between. -/
def approvedThenDisabled : List (Action Unit) :=
  [.upsertFeature firstOfJanuary (cniFeature "cni_network_failure"), .changeStatus 1 disableCni,
    .commit 1]

theorem sameSnapshot_refl (rule : Rule) : SameSnapshot rule rule := ⟨rfl, rfl⟩

theorem orderly_on_empty {R : RuleResolver μ} (moment : Moment) (feature : Feature μ) :
    Orderly R ∅ (.upsertFeature moment feature) := by
  refine ⟨fun _ => .inl List.not_mem_nil, fun existing hexisting => ?_⟩
  exact absurd (mem_of_existingRule hexisting) List.not_mem_nil

/-- The rule is reused after it was read to be disabled. -/
def reusedBeforeDisabled : List (Action Unit) :=
  [.upsertFeature firstOfJanuary (cniFeature "cni_network_failure"), .changeStatus 1 disableCni,
    .recordReuse cniRuleId "2026-01-02T00:00:00+00:00", .commit 1]

section Lost

variable {db : Database} {rule : Rule} {row : Row}

theorem AfterOneType.get? (h : AfterOneType db rule row) :
    db.approvedRules.get? cniRuleId = some row := by
  rw [h.saved.rows, h.ruleId, Dict.get?_set_self]

theorem AfterOneType.only (h : AfterOneType db rule row) (other : String) (found : Row)
    (hfound : db.approvedRules.get? other = some found) : other = cniRuleId := by
  rw [h.saved.rows, Dict.get?_set] at hfound
  split at hfound
  · rename_i heq
    exact heq.symm.trans h.ruleId
  · cases hfound

theorem AfterOneType.fresh (h : AfterOneType db rule row) :
    (cniRuleId, 2) ∉ db.ruleVersions.keys := by
  obtain ⟨first, -, hfirst⟩ := h.saved.versions
  have hnew : (rule.ruleId, row.currentVersion) ∉ (∅ : Database).ruleVersions.keys := List.not_mem_nil
  rw [if_neg hnew, h.ruleId, h.currentVersion] at hfirst
  rw [hfirst]
  intro hmem
  rcases Dict.mem_keys_alter.mp hmem with hmem | hmem
  · exact absurd hmem List.not_mem_nil
  · exact absurd (Prod.mk.inj hmem).2 (by decide)

/-- The reuse of the rule just approved is counted. -/
theorem AfterOneType.recordReuse (h : AfterOneType db rule row) (now : String) :
    ∃ returned next, recordReuse ipExhaustion cniRuleId now db = .ok (returned, next) := by
  have hsound := h.sound.rows _ row h.get?
  have hactive : isActive (hydratePersistedRule ipExhaustion cniRuleId row) = true :=
    isActive_of_status h.status
  unfold Governance.recordReuse
  exact ⟨_, _, orFail_bind_eq_ok.mpr ⟨row, h.get?, require_bind_eq_ok.mpr
    ⟨not_malformed_of_valid (hsound.valid lawful_ipExhaustion),
      require_bind_eq_ok.mpr ⟨hactive, rfl⟩⟩⟩⟩

theorem AfterOneType.readStatus (h : AfterOneType db rule row) :
    readStatus ipExhaustion disableCni db = .ok (hydratePersistedRule ipExhaustion cniRuleId row) := by
  have hread : getRule ipExhaustion db cniRuleId =
      some (hydratePersistedRule ipExhaustion cniRuleId row) := getRule_eq_some.mpr ⟨row, h.get?, rfl⟩
  unfold Governance.readStatus
  exact require_bind_eq_ok.mpr ⟨by decide, require_bind_eq_ok.mpr ⟨by decide +kernel,
    require_bind_eq_ok.mpr ⟨by decide +kernel, orFail_eq_ok.mpr hread⟩⟩⟩

theorem valid_statusSnapshot {R : RuleResolver μ} (hlaws : Lawful R) (status : String) {current : Rule}
    (hvalid : hasFormat R .validV2 current = true) (hstatus : status ∈ ruleStatuses) :
    hasFormat R .validV2 (statusSnapshot status current) = true := by
  have hformed := wellFormed_of_validV2 hvalid
  refine valid_of_wellFormed ?_ (hasFormat_validV2_iff.mp hvalid).1
  exact hformed.sameIdentity hlaws ⟨⟨rfl, rfl, rfl, rfl, rfl, rfl, rfl⟩, rfl, rfl, rfl, rfl, rfl, rfl⟩
    hformed.ruleId hformed.signature hstatus hformed.currentVersion

/-- The commit goes through after the reuse, since the version is still the first. -/
theorem AfterOneType.commitStatus (h : AfterOneType db rule row) {next : Database} {now : String}
    (hreused : Reused ipExhaustion cniRuleId now db next row) :
    ∃ returned last, commitStatus ipExhaustion disableCni
      (hydratePersistedRule ipExhaustion cniRuleId row) next = .ok (returned, last) := by
  have hsound := h.sound.rows _ row h.get?
  have hvalid := hsound.valid lawful_ipExhaustion
  have hid : (hydratePersistedRule ipExhaustion cniRuleId row).ruleId = cniRuleId := hsound.ruleId
  have hsnapshot := not_malformed_of_valid (valid_statusSnapshot lawful_ipExhaustion
    disableCni.status hvalid (by decide))
  have honly (other : String) (found : Row) (hfound : next.approvedRules.get? other = some found) :
      other = cniRuleId := by
    rw [hreused.rows, Dict.get?_set] at hfound
    split at hfound
    · rename_i heq
      exact heq.symm
    · exact h.only other found hfound
  have hafter : ∃ after, next.approvedRules.get? cniRuleId = some after ∧ after.currentVersion = 1 := by
    rw [hreused.rows]
    exact ⟨_, Dict.get?_set_self _ _ _, h.currentVersion⟩
  obtain ⟨after, hafter, hversion⟩ := hafter
  have hfresh : (cniRuleId, after.currentVersion + 1) ∉ next.ruleVersions.keys := by
    rw [hreused.versions, hversion]
    exact h.fresh
  generalize hydratePersistedRule ipExhaustion cniRuleId row = current at *
  have hstatus : (statusSnapshot disableCni.status current).ruleId = cniRuleId := hid
  unfold Governance.commitStatus
  generalize statusSnapshot disableCni.status current = snapshot at *
  unfold commitVersion
  refine ⟨_, _, orFail_bind_eq_ok.mpr ⟨after, by rw [hstatus, hafter],
    require_bind_eq_ok.mpr ⟨hversion, require_bind_eq_ok.mpr ⟨hsnapshot,
      require_bind_eq_ok.mpr ⟨.inr (takenBy_of_only ?_), require_bind_eq_ok.mpr ⟨?_, rfl⟩⟩⟩⟩⟩⟩
  · rw [hstatus]
    exact honly
  · rw [hstatus]
    exact hfresh

theorem exists_row_of_committed {R : RuleResolver μ} {change : Change} {next : Database}
    (h : Committed R rule change db next row) :
    ∃ final, next.approvedRules.get? rule.ruleId = some final ∧
      final.ruleJson.reuseCount = rule.reuseCount := by
  rw [h.rows]
  exact ⟨_, Dict.get?_set_self _ _ _, rfl⟩

/-- The commit writes the count of the rule it has read. -/
theorem AfterOneType.overwritten (h : AfterOneType db rule row) (hzero : row.ruleJson.reuseCount = 0)
    {next last : Database} {now : String} {returned : Rule}
    (hreused : Reused ipExhaustion cniRuleId now db next row)
    (hcommit : Governance.commitStatus ipExhaustion disableCni
      (hydratePersistedRule ipExhaustion cniRuleId row) next = .ok (returned, last)) :
    ¬ ReuseCounted last := by
  have hid : (statusSnapshot disableCni.status
      (hydratePersistedRule ipExhaustion cniRuleId row)).ruleId = cniRuleId :=
    (h.sound.rows _ row h.get?).ruleId
  have hsnapshot : (statusSnapshot disableCni.status
      (hydratePersistedRule ipExhaustion cniRuleId row)).reuseCount = row.ruleJson.reuseCount := rfl
  unfold Governance.commitStatus at hcommit
  generalize statusSnapshot disableCni.status (hydratePersistedRule ipExhaustion cniRuleId row) =
    snapshot at *
  obtain ⟨before, hcommitted⟩ := committed_of_commitVersion hcommit
  obtain ⟨final, hfinal, hcount⟩ := exists_row_of_committed hcommitted
  have hevents : last.ruleReuseEvents = [(cniRuleId, now)] := by
    rw [hcommitted.events, hreused.events, h.saved.events]
    rfl
  intro hcounted
  rw [hid] at hfinal
  have hone := hcounted cniRuleId final hfinal
  rw [hcount, hsnapshot, hzero, hevents, List.countP_singleton, if_pos (decide_eq_true rfl)] at hone
  exact absurd hone (by decide)

end Lost

section Steps

variable {R : RuleResolver μ} {db next : Database} {pending : ℕ → Option Pending}

theorem act_changeStatus {worker : ℕ} {change : StatusChange} {current : Rule}
    (h : readStatus R change db = .ok current) :
    World.act R ⟨db, pending⟩ (.changeStatus worker change) =
      ⟨db, Function.update pending worker (some (.changeStatus change current))⟩ := by
  unfold World.act
  dsimp only
  rw [h]
  rfl

theorem act_recordReuse {ruleId now : String} {returned : Rule}
    (h : recordReuse R ruleId now db = .ok (returned, next)) :
    World.act R ⟨db, pending⟩ (.recordReuse ruleId now) = ⟨next, pending⟩ := by
  unfold World.act
  dsimp only
  rw [h, settled_ok]

theorem db_act_commit {worker : ℕ} {change : StatusChange} {current returned : Rule}
    (hpending : pending worker = some (.changeStatus change current))
    (h : commitStatus R change current db = .ok (returned, next)) :
    (World.act R ⟨db, pending⟩ (.commit worker)).db = next := by
  unfold World.act commitPending
  dsimp only
  rw [hpending]
  dsimp only
  rw [h, settled_ok]
  rfl

end Steps

end LogRisk.Governance
