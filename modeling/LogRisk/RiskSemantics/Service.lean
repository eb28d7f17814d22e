import LogRisk.RiskSemantics.Rules
import LogRisk.Library.Dict
import LogRisk.Library.Pool
import LogRisk.Library.Transaction

/-!
# The service of risk semantics

The table of rules with their versions, the transactions on it, and the calls of the
service as programs that read first and then commit one transaction.  A rule that the
service has created cannot be deleted: its audit event still refers to it.
-/

namespace LogRisk.RiskSemantics

open LogRisk.Library LogRisk.Library.Transaction

structure Row where
  source : Source
  overrideOf : Option String
  status : Status
  enabled : Bool
  currentVersion : ℤ
  content : Rule
  /-- What `content_hash` is the digest of. -/
  hashed : Rule
deriving DecidableEq

/-- `_row`: the content under the columns. -/
def Row.rule (row : Row) (id : String) : Rule :=
  { row.content with
    id, source := row.source, overrideOf := row.overrideOf, status := row.status,
    enabled := row.enabled, version := row.currentVersion }

/-- The row of a rule that is inserted; its content may name another version. -/
def Row.inserted (snapshot : Rule) : Row where
  source := snapshot.source
  overrideOf := snapshot.overrideOf
  status := snapshot.status
  enabled := snapshot.enabled
  currentVersion := 1
  content := snapshot
  hashed := snapshot

def Row.update (row : Row) (updated : Rule) : Row :=
  { row with
    status := .draft, enabled := updated.enabled, currentVersion := updated.version,
    content := updated, hashed := updated }

def seedContent (rule : Rule) : Rule := { rule with status := .published, enabled := true }

def Row.seeded (rule : Rule) : Row where
  source := .builtin
  overrideOf := none
  status := .published
  enabled := true
  currentVersion := 1
  content := { seedContent rule with version := 1 }
  hashed := seedContent rule

/-- The row of a rule of the catalogue that has changed; whose rule it is stays. -/
def Row.reseed (row : Row) (rule : Rule) : Row :=
  { row with
    status := .published, enabled := true, currentVersion := row.currentVersion + 1,
    content := { seedContent rule with version := row.currentVersion + 1 }
    hashed := seedContent rule }

structure Db where
  rules : Dict String Row := ∅
  /-- The contents of all versions. -/
  versions : String → ℤ → Option Rule := fun _ _ => none

def semanticConflict : Exn :=
  { message := "语义 ID 已存在", code := "semantic_conflict", statusCode := 409 }

def versionConflict : Exn :=
  { message := "语义版本冲突", code := "version_conflict", statusCode := 409 }

def semanticNotFound : Exn :=
  { message := "风险语义不存在", code := "semantic_not_found", statusCode := 404 }

def noOverride : Exn :=
  { message := "没有生效中的覆盖语义", code := "semantic_not_found", statusCode := 404 }

def versionNotFound : Exn :=
  { message := "目标语义版本不存在", code := "version_not_found", statusCode := 404 }

def confirmationRequired (message : String) : Exn :=
  { message, code := "confirmation_required", statusCode := 400 }

def foreignKey : Exn := { message := "FOREIGN KEY constraint failed" }

namespace Db

variable (db : Db)

def addVersion (id : String) (version : ℤ) (content : Rule) : Db :=
  { db with versions := fun id' version' =>
      if id' = id ∧ version' = version then some content else db.versions id' version' }

def setRow (id : String) (row : Row) : Db := { db with rules := db.rules.set id row }

/-- The reference of `override_of` to a rule. -/
def refers (id : String) (overrideOf : Option String) : Bool :=
  overrideOf.all fun target => target == id || (db.rules.get? target).isSome

/-- A row is written together with its version. -/
def write (id : String) (row : Row) : Db :=
  (db.setRow id row).addVersion id row.currentVersion row.content

/-- The transaction of `_insert`. -/
def insert (snapshot : Rule) : Except Exn Db :=
  if (db.rules.get? snapshot.id).isSome then throw semanticConflict
  else if ¬ db.refers snapshot.id snapshot.overrideOf then throw foreignKey
  else return db.write snapshot.id (.inserted snapshot)

/-- The transaction of `update_rule`. -/
def update (id : String) (expected : ℤ) (updated : Rule) : Except Exn Db :=
  match db.rules.get? id with
  | none => throw versionConflict
  | some row =>
      if row.currentVersion ≠ expected then throw versionConflict
      else return db.write id (row.update updated)

def setStatus (id : String) (status : Status) (enabled : Bool) : Db :=
  match db.rules.get? id with
  | none => db
  | some row => db.setRow id { row with status, enabled }

/-- The transaction of `publish`, which does not look at the version. -/
def publish (id : String) : Db := db.setStatus id .published true

/-- The transaction of `disable` and of `restore_default`. -/
def disable (id : String) : Db := db.setStatus id .disabled false

def delete (id : String) : Except Exn Db :=
  match db.rules.get? id with
  | none => return db
  | some _ => throw foreignKey

/-- `_seed_builtins` for one rule of the catalogue. -/
def seed (rule : Rule) : Db :=
  match db.rules.get? rule.id with
  | none => db.write rule.id (.seeded rule)
  | some row => if row.hashed = seedContent rule then db else db.write rule.id (row.reseed rule)

/-- The transaction of `_seed_builtins`. -/
def seedBuiltins (rules : List Rule) : Db := rules.foldl Db.seed db

/-- The rule that a published override of a built-in rule is read from. -/
def overrideRow (builtinId : String) : Option String :=
  (db.rules.entries.find? fun kv =>
    kv.2.overrideOf = some builtinId ∧ kv.2.status = .published).map Prod.fst

end Db

section Transactions

variable {db db' : Db} {id : String}

theorem write_versions (db : Db) (id : String) (row : Row) (id' : String) (v : ℤ) :
    (db.write id row).versions id' v =
      if id' = id ∧ v = row.currentVersion then some row.content else db.versions id' v := rfl

theorem get?_write (db : Db) (id : String) (row : Row) (id' : String) :
    (db.write id row).rules.get? id' = if id = id' then some row else db.rules.get? id' :=
  Dict.get?_set ..

theorem get?_setRow (db : Db) (id : String) (row : Row) (id' : String) :
    (db.setRow id row).rules.get? id' = if id = id' then some row else db.rules.get? id' :=
  Dict.get?_set ..

theorem insert_ok {snapshot : Rule} (h : db.insert snapshot = .ok db') :
    db.rules.get? snapshot.id = none ∧ db.refers snapshot.id snapshot.overrideOf = true ∧
      db' = db.write snapshot.id (.inserted snapshot) := by
  unfold Db.insert at h
  split at h
  · cases h
  · rename_i hnew
    split at h
    · cases h
    · rename_i hrefers
      exact ⟨Option.not_isSome_iff_eq_none.mp hnew, not_not.mp hrefers, (pure_eq_ok.mp h).symm⟩

theorem update_ok {expected : ℤ} {updated : Rule} (h : db.update id expected updated = .ok db') :
    ∃ row, db.rules.get? id = some row ∧ row.currentVersion = expected ∧
      db' = db.write id (row.update updated) := by
  unfold Db.update at h
  split at h
  · cases h
  · rename_i row hrow
    split at h
    · cases h
    · rename_i hversion
      exact ⟨row, hrow, not_not.mp hversion, (pure_eq_ok.mp h).symm⟩

/-- A change of status, where the rule exists. -/
theorem setStatus_cases (db : Db) (id : String) (status : Status) (enabled : Bool) :
    (db.rules.get? id = none ∧ db.setStatus id status enabled = db) ∨
      ∃ row, db.rules.get? id = some row ∧
        db.setStatus id status enabled = db.setRow id { row with status, enabled } := by
  unfold Db.setStatus
  split
  · rename_i hnone
    exact .inl ⟨hnone, rfl⟩
  · rename_i row hrow
    exact .inr ⟨row, hrow, rfl⟩

/-- A deletion never removes a row. -/
theorem delete_ok (h : db.delete id = .ok db') : db' = db := by
  unfold Db.delete at h
  split at h
  · exact (pure_eq_ok.mp h).symm
  · cases h

end Transactions

/-! ## The calls -/

inductive Action where
  | getRule (id : String)
  | getVersion (id : String) (version : ℤ)
  | overrideRow (builtinId : String)
  | insert (snapshot : Rule)
  | update (id : String) (expected : ℤ) (updated : Rule)
  | publish (id : String) (current : Rule)
  | disable (id : String)
  | delete (id : String)
  | seedBuiltins (rules : List Rule)

def Action.Answer : Action → Type
  | .getRule _ => Option Rule
  | .getVersion _ _ => Option Rule
  | .overrideRow _ => Option String
  | _ => Unit

abbrev Exec (α : Type) : Type := Program Action Action.Answer Exn α

namespace Service

variable (host : Host)

def ask (a : Action) : Exec a.Answer := .call a

def getRule (id : String) : Exec Rule := do
  let row : Option Rule ← ask (.getRule id)
  match row with
  | none => throw semanticNotFound
  | some rule => return rule

def insert (rule : Rule) : Exec Rule :=
  match validateRule host rule with
  | .error e => throw e
  | .ok snapshot => do
      ask (.insert snapshot)
      getRule snapshot.id

def createRule (payload : Rule) : Exec Rule :=
  insert host { payload with status := .draft, enabled := true, version := 1 }

/-- `"user." + builtin_id.removeprefix("builtin.")`. -/
def overrideId (builtinId : String) : String :=
  "user." ++ if "builtin.".toList.isPrefixOf builtinId.toList then
    String.ofList (builtinId.toList.drop 8) else builtinId

def overrideOf (builtin : Rule) (builtinId : String) (changes : Changes) : Rule :=
  { deepMerge builtin changes with
    id := overrideId builtinId, source := .user, overrideOf := some builtinId, status := .draft,
    enabled := true, version := 1 }

def createOverride (builtinId : String) (changes : Changes) : Exec Rule := do
  let builtin ← getRule builtinId
  if builtin.source ≠ .builtin then throw { message := "只能覆盖内置语义" }
  else insert host (overrideOf builtin builtinId changes)

/-- One rule of `import_bundle`. -/
def importRule (item : Rule) : Exec Rule :=
  insert host { item with source := .imported, status := .draft, enabled := true }

def nextVersion (current : Rule) (changes : Changes) (id : String) : Rule :=
  { deepMerge current changes with id, version := current.version + 1, status := .draft }

def updateRule (id : String) (changes : Changes) (expected : ℤ) : Exec Rule := do
  let current ← getRule id
  if current.source = .builtin then throw { message := "内置语义只读，请创建覆盖条目" }
  else if current.version ≠ expected then throw versionConflict
  else match validateRule host (nextVersion current changes id) with
  | .error e => throw e
  | .ok updated => do
      ask (.update id expected updated)
      getRule id

def publish (id : String) (expected : ℤ) (confirmed : Bool) : Exec Rule :=
  if ¬ confirmed then throw (confirmationRequired "发布需要人工确认")
  else do
    let current ← getRule id
    if current.version ≠ expected then throw versionConflict
    else match validateRule host current with
    | .error e => throw e
    | .ok rule =>
      if ¬ (test host rule).valid then
        throw { message := "发布前验证失败: " ++ "；".intercalate (test host rule).errors }
      else do
        ask (.publish id current)
        getRule id

def restoreDefault (builtinId : String) (expected : ℤ) (confirmed : Bool) : Exec Rule :=
  if ¬ confirmed then throw (confirmationRequired "恢复默认需要人工确认")
  else do
    let row : Option String ← ask (.overrideRow builtinId)
    match row with
    | none => throw noOverride
    | some id => do
      let current ← getRule id
      if current.version ≠ expected then throw versionConflict
      else do
        ask (.disable current.id)
        getRule current.id

def rollback (id : String) (target expected : ℤ) (confirmed : Bool) : Exec Rule :=
  if ¬ confirmed then throw (confirmationRequired "回滚需要人工确认")
  else do
    let current ← getRule id
    if current.version ≠ expected then throw versionConflict
    else do
      let _ ← getRule id
      let content : Option Rule ← ask (.getVersion id target)
      match content with
      | none => throw versionNotFound
      | some content => updateRule host id (.ofRule content) current.version

def disable (id : String) (expected : ℤ) (confirmed : Bool) : Exec Rule :=
  if ¬ confirmed then throw (confirmationRequired "停用需要人工确认")
  else do
    let current ← getRule id
    if current.source = .builtin then throw { message := "内置语义不可直接停用，请创建覆盖条目" }
    else if current.version ≠ expected then throw versionConflict
    else do
      ask (.disable id)
      getRule id

def delete (id : String) (confirmed : Bool) (operator reason : String) : Exec Unit := do
  let current ← getRule id
  if current.source = .builtin then throw { message := "内置语义不可删除" }
  else if ¬ confirmed ∨ (Text.strip operator).isEmpty ∨ (Text.strip reason).isEmpty then
    throw (confirmationRequired "删除需要人工确认、操作人和原因")
  else do
    ask (.delete id)
    return ()

/-- `_load_builtins` and `_seed_builtins`, when a service starts. -/
def start (catalogue : List Rule) : Exec Unit :=
  match catalogue.mapM (validateRule host) with
  | .error e => throw e
  | .ok rules => ask (.seedBuiltins rules)

end Service

/-! ## Workers -/

def commit (db : Db) (t : Except Exn Db) : Except Exn Unit × Db :=
  match t with
  | .ok db' => (.ok (), db')
  | .error e => (.error e, db)

theorem commit_cases {db db' : Db} {t : Except Exn Db} {r : Except Exn Unit} (h : (r, db') = commit db t) :
    db' = db ∨ t = .ok db' := by
  unfold commit at h
  split at h
  · exact .inr (by rw [(Prod.mk.inj h).2])
  · exact .inl (Prod.mk.inj h).2

/-- What an action answers and leaves. -/
def ask (a : Action) (db : Db) : Except Exn a.Answer × Db :=
  match a with
  | .getRule id => (.ok ((db.rules.get? id).map fun row => row.rule id), db)
  | .getVersion id version => (.ok (db.versions id version), db)
  | .overrideRow builtinId => (.ok (db.overrideRow builtinId), db)
  | .insert snapshot => commit db (db.insert snapshot)
  | .update id expected updated => commit db (db.update id expected updated)
  | .publish id _ => (.ok (), db.publish id)
  | .disable id => (.ok (), db.disable id)
  | .delete id => commit db (db.delete id)
  | .seedBuiltins rules => (.ok (), db.seedBuiltins rules)

inductive Caller where
  | createRule (payload : Rule)
  | createOverride (builtinId : String) (changes : Changes)
  | importRule (item : Rule)
  | updateRule (id : String) (changes : Changes) (expected : ℤ)
  | publish (id : String) (expected : ℤ) (confirmed : Bool)
  | restoreDefault (builtinId : String) (expected : ℤ) (confirmed : Bool)
  | rollback (id : String) (target expected : ℤ) (confirmed : Bool)
  | disable (id : String) (expected : ℤ) (confirmed : Bool)
  | delete (id : String) (confirmed : Bool) (operator reason : String)
  | start (catalogue : List Rule)

def entry (host : Host) : Caller → Exec Unit
  | .createRule payload => do let _ ← Service.createRule host payload
  | .createOverride builtinId changes => do let _ ← Service.createOverride host builtinId changes
  | .importRule item => do let _ ← Service.importRule host item
  | .updateRule id changes expected => do let _ ← Service.updateRule host id changes expected
  | .publish id expected confirmed => do let _ ← Service.publish host id expected confirmed
  | .restoreDefault builtinId expected confirmed => do
      let _ ← Service.restoreDefault builtinId expected confirmed
  | .rollback id target expected confirmed => do
      let _ ← Service.rollback host id target expected confirmed
  | .disable id expected confirmed => do let _ ← Service.disable id expected confirmed
  | .delete id confirmed operator reason => Service.delete id confirmed operator reason
  | .start catalogue => Service.start host catalogue

/-- Any number of calls at work; `permits` tells which actions are considered in a state. -/
abbrev workers (host : Host) (permits : Action → Db → Prop) :
    System Caller Action Action.Answer Exn Unit Db :=
  .unrestricted (entry host) fun _ a db r db' => permits a db ∧ (r, db') = ask a db

/-- The service with its built-in rules, before the first call. -/
def started (builtins : List Rule) : Pool Caller Action Action.Answer Exn Unit Db :=
  ⟨Db.seedBuiltins {} builtins, []⟩

end LogRisk.RiskSemantics
