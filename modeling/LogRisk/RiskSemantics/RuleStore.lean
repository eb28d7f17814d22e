import LogRisk.RiskSemantics.Documents
import LogRisk.RiskSemantics.Service

/-!
# The store of rules as documents

The rows of the rules with their columns, the contents of all versions, and the calls of the
service on whole documents, one after the other.  A call that fails leaves the store alone,
and an import is one transaction for each rule.
-/

namespace LogRisk.RiskSemantics.Documents

open LogRisk.Library LogRisk.Library.Value LogRisk.Library.Transaction
open LogRisk.Library.Dict (assoc)

structure Row where
  source : String
  overrideOf : Option String
  status : String
  enabled : Bool
  currentVersion : ℤ
  content : Entries
  contentHash : String
  createdAt : String
  updatedAt : String

def optional : Option String → Value
  | some s => .str s
  | none => .null

def Row.columns (row : Row) (id : String) : Entries :=
  [("id", .str id), ("source", .str row.source), ("override_of", optional row.overrideOf),
    ("status", .str row.status), ("enabled", .bool row.enabled),
    ("version", .int row.currentVersion), ("content_hash", .str row.contentHash),
    ("created_at", .str row.createdAt), ("updated_at", .str row.updatedAt)]

/-- `_row`: the content under the columns. -/
def Row.rule (row : Row) (id : String) : Entries := update row.content (row.columns id)

structure Db where
  rules : Dict String Row := ∅
  /-- The contents of all versions. -/
  versions : String → ℤ → Option Entries := fun _ _ => none

def truthyAt (key : String) (d : Entries) : Bool := ((assoc key d).getD .null).truthy

namespace Db

variable (db : Db)

def setRow (id : String) (row : Row) : Db := { db with rules := db.rules.set id row }

/-- A row is written together with its version. -/
def write (id : String) (row : Row) : Db :=
  { rules := db.rules.set id row
    versions := fun id' v =>
      if id' = id ∧ v = row.currentVersion then some row.content else db.versions id' v }

def getRow (id : String) : Except Failure Row := orFail (db.rules.get? id) (.semantic semanticNotFound)

/-- The reference of `override_of`, which the table checks. -/
def reference (id : String) (snapshot : Entries) : Except Failure (Option String) :=
  match assoc "override_of" snapshot with
  | none => return none
  | some .null => return none
  | some (.str s) =>
      if s = id ∨ (db.rules.get? s).isSome then return some s else raise "IntegrityError"
  | some _ => raise "IntegrityError"

end Db

variable (host : Host) (now : String)

/-! ## Creating -/

def Row.inserted (overrideOf : Option String) (snapshot : Entries) : Row where
  source := textAt "source" snapshot
  overrideOf := overrideOf
  status := textAt "status" snapshot
  enabled := truthyAt "enabled" snapshot
  currentVersion := 1
  content := snapshot
  contentHash := host.digest snapshot
  createdAt := now
  updatedAt := now

/-- `_insert`. -/
def insert (rule : Entries) (db : Db) : Except Failure Db := do
  let snapshot ← validateRule host (.dict rule)
  require ((db.rules.get? (ruleId snapshot)).isNone) (.semantic semanticConflict)
  let overrideOf ← db.reference (ruleId snapshot) snapshot
  return db.write (ruleId snapshot) (.inserted host now overrideOf snapshot)

def createRule (payload : Entries) (db : Db) : Except Failure Db :=
  insert host now (update payload [("source", .str (textOf host "source" "user" payload)),
    ("status", .str "draft"), ("enabled", .bool true), ("version", .int 1)]) db

def overrideId (builtinId : String) : String :=
  "user." ++ if "builtin.".toList.isPrefixOf builtinId.toList
    then String.ofList (builtinId.toList.drop 8) else builtinId

def createOverride (builtinId : String) (changes : Entries) (db : Db) : Except Failure Db := do
  let builtin ← db.getRow builtinId
  require (builtin.source = "builtin") (.semantic { message := "只能覆盖内置语义" })
  insert host now (update (deepMerge (builtin.rule builtinId) changes)
    [("id", .str (overrideId builtinId)), ("source", .str "user"), ("override_of", .str builtinId),
      ("status", .str "draft"), ("enabled", .bool true), ("version", .int 1)]) db

/-! ## Updating -/

def Row.updated (row : Row) (version : ℤ) (updated : Entries) : Row :=
  { row with
    status := "draft", enabled := truthyAt "enabled" updated, currentVersion := version,
    content := updated, contentHash := host.digest updated, updatedAt := now }

/-- What an update makes of the rule and the changes. -/
def draft (row : Row) (id : String) (changes : Entries) : Entries :=
  update (deepMerge (row.rule id) changes)
    [("id", .str id), ("version", .int (row.currentVersion + 1)), ("status", .str "draft")]

def updateRule (id : String) (changes : Entries) (expected : ℤ) (db : Db) : Except Failure Db := do
  let row ← db.getRow id
  require (row.source ≠ "builtin") (.semantic { message := "内置语义只读，请创建覆盖条目" })
  require (row.currentVersion = expected) (.semantic versionConflict)
  let updated ← validateRule host (.dict (draft row id changes))
  return db.write id (row.updated host now (row.currentVersion + 1) updated)

/-- The content of the target, to be laid over the current rule. -/
def restoration (row : Row) (id : String) (target : Entries) : Entries :=
  update target
    [("id", .str id), ("version", .int (row.currentVersion + 1)), ("status", .str "draft")]

def rollback (id : String) (target expected : ℤ) (confirmed : Bool) (db : Db) :
    Except Failure Db := do
  require confirmed (.semantic (confirmationRequired "回滚需要人工确认"))
  let row ← db.getRow id
  require (row.currentVersion = expected) (.semantic versionConflict)
  let content ← orFail (db.versions id target) (.semantic versionNotFound)
  updateRule host now id (restoration row id content) row.currentVersion db

/-! ## Status -/

def publish (id : String) (expected : ℤ) (confirmed : Bool) (db : Db) : Except Failure Db := do
  require confirmed (.semantic (confirmationRequired "发布需要人工确认"))
  let row ← db.getRow id
  require (row.currentVersion = expected) (.semantic versionConflict)
  let report ← test host (← validateRule host (.dict (row.rule id)))
  require report.valid (.semantic { message := "发布前验证失败: " ++ "；".intercalate report.errors })
  return db.setRow id { row with status := "published", enabled := true, updatedAt := now }

def Row.disabled (row : Row) : Row :=
  { row with status := "disabled", enabled := false, updatedAt := now }

def disable (id : String) (expected : ℤ) (confirmed : Bool) (db : Db) : Except Failure Db := do
  require confirmed (.semantic (confirmationRequired "停用需要人工确认"))
  let row ← db.getRow id
  require (row.source ≠ "builtin") (.semantic { message := "内置语义不可直接停用，请创建覆盖条目" })
  require (row.currentVersion = expected) (.semantic versionConflict)
  return db.setRow id (row.disabled now)

def restoreDefault (builtinId : String) (expected : ℤ) (confirmed : Bool) (db : Db) :
    Except Failure Db := do
  require confirmed (.semantic (confirmationRequired "恢复默认需要人工确认"))
  let (id, row) ← orFail (db.rules.entries.find? fun e =>
    decide (e.2.overrideOf = some builtinId ∧ e.2.status = "published")) (.semantic noOverride)
  require (row.currentVersion = expected) (.semantic versionConflict)
  return db.setRow id (row.disabled now)

/-- The audit events of a rule still refer to it, so that its row cannot be deleted. -/
def delete (id : String) (confirmed : Bool) (operator reason : String) (db : Db) :
    Except Failure Db := do
  let row ← db.getRow id
  require (row.source ≠ "builtin") (.semantic { message := "内置语义不可删除" })
  require (confirmed ∧ Text.strip operator ≠ "" ∧ Text.strip reason ≠ "")
    (.semantic (confirmationRequired "删除需要人工确认、操作人和原因"))
  raise "IntegrityError"

/-! ## Bundles -/

def erase (keys : List String) (d : Entries) : Entries := d.filter fun e => !keys.contains e.1

/-- The rule that is made of an item of a bundle. -/
def importedRule (item : Value) : Except Failure Entries := do
  let rule ← toDict host item
  return erase ["content_hash", "created_at", "updated_at"]
    (update rule [("source", .str "imported"), ("status", .str "draft"), ("enabled", .bool true)])

def importItem (item : Value) (db : Db) : Except Failure Db := do
  let rule ← importedRule host item
  insert host now rule db

/-- Every item is a transaction of its own; the first failure ends the import. -/
def importItems : List Value → Db → Db × Option Failure
  | [], db => (db, none)
  | item :: rest, db =>
      match importItem host now item db with
      | .ok db' => importItems rest db'
      | .error e => (db, some e)

/-- The items of a bundle, where the payload is one. -/
def bundleRules : Value → Option (List Value)
  | .dict d =>
      match assoc "rules" d with
      | some (.list items) => some items
      | _ => none
  | _ => none

/-- `import_bundle`: the store after it, and what it raises. -/
def importBundle (payload : Value) (db : Db) : Db × Option Failure :=
  match bundleRules payload with
  | some items => importItems host now items db
  | none => (db, some (.semantic { message := "导入包缺少 rules 数组" }))

/-- `ORDER BY source, rule_id`. -/
def rowsInOrder (db : Db) : List (String × Row) :=
  db.rules.entries.mergeSort fun a b =>
    decide (a.2.source < b.2.source ∨ a.2.source = b.2.source ∧ a.1 ≤ b.1)

def exportedRows (db : Db) : List (String × Row) :=
  (rowsInOrder db).filter fun e => decide (e.2.source ≠ "builtin")

def exportBundle (db : Db) : Value :=
  .dict [("schema_version", .str "risk_semantic_bundle_v1"), ("exported_at", .str now),
    ("rules", .list ((exportedRows db).map fun e => .dict (e.2.rule e.1)))]

/-! ## Built-in rules -/

def seedContent (rule : Entries) : Entries :=
  update rule [("status", .str "published"), ("enabled", .bool true)]

def seedSnapshot (rule : Entries) (version : ℤ) : Entries :=
  update (seedContent rule) [("version", .int version)]

def Row.seeded (rule : Entries) : Row where
  source := "builtin"
  overrideOf := none
  status := "published"
  enabled := true
  currentVersion := 1
  content := seedSnapshot rule 1
  contentHash := host.digest (seedContent rule)
  createdAt := now
  updatedAt := now

/-- The row of a rule of the catalogue that has changed; whose rule it is stays. -/
def Row.reseeded (row : Row) (rule : Entries) : Row :=
  { row with
    status := "published", enabled := true, currentVersion := row.currentVersion + 1,
    content := seedSnapshot rule (row.currentVersion + 1)
    contentHash := host.digest (seedContent rule), updatedAt := now }

/-- `_seed_builtins` for one rule of the catalogue. -/
def seedBuiltin (db : Db) (rule : Entries) : Db :=
  match db.rules.get? (ruleId rule) with
  | none => db.write (ruleId rule) (.seeded host now rule)
  | some row =>
      if row.contentHash = host.digest (seedContent rule) then db
      else db.write (ruleId rule) (row.reseeded host now rule)

def seedBuiltins (rules : List Entries) (db : Db) : Db := rules.foldl (seedBuiltin host now) db

/-! ## Runs -/

inductive Request where
  | createRule (payload : Entries)
  | createOverride (builtinId : String) (changes : Entries)
  | updateRule (id : String) (changes : Entries) (expected : ℤ)
  | publish (id : String) (expected : ℤ) (confirmed : Bool)
  | restoreDefault (builtinId : String) (expected : ℤ) (confirmed : Bool)
  | rollback (id : String) (target expected : ℤ) (confirmed : Bool)
  | disable (id : String) (expected : ℤ) (confirmed : Bool)
  | delete (id : String) (confirmed : Bool) (operator reason : String)
  | importBundle (payload : Value)
  | seedBuiltins (rules : List Entries)

/-- The mappings of a request have no key twice; a catalogue has been validated. -/
def Request.WellFormed : Request → Prop
  | .createRule payload => DistinctEntries payload
  | .createOverride _ changes => DistinctEntries changes
  | .updateRule _ changes _ => DistinctEntries changes
  | .importBundle payload => Distinct payload
  | .seedBuiltins rules => ∀ rule ∈ rules, ∃ raw, Distinct raw ∧ validateRule host raw = .ok rule
  | _ => True

def committed (db : Db) : Except Failure Db → Db
  | .ok db' => db'
  | .error _ => db

/-- The store after a request, whether it is granted or not. -/
def handle (db : Db) : Request → Db
  | .createRule payload => committed db (createRule host now payload db)
  | .createOverride builtinId changes => committed db (createOverride host now builtinId changes db)
  | .updateRule id changes expected => committed db (updateRule host now id changes expected db)
  | .publish id expected confirmed => committed db (publish host now id expected confirmed db)
  | .restoreDefault builtinId expected confirmed =>
      committed db (restoreDefault now builtinId expected confirmed db)
  | .rollback id target expected confirmed =>
      committed db (rollback host now id target expected confirmed db)
  | .disable id expected confirmed => committed db (disable now id expected confirmed db)
  | .delete id confirmed operator reason => committed db (delete id confirmed operator reason db)
  | .importBundle payload => (importBundle host now payload db).1
  | .seedBuiltins rules => seedBuiltins host now rules db

/-- All runs of the service. -/
def service : System Db where
  Init db := db = {}
  Step db db' := ∃ now request, request.WellFormed host ∧ db' = handle host now db request

end LogRisk.RiskSemantics.Documents
