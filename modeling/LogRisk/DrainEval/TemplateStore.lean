import LogRisk.Library.Dict
import LogRisk.Library.Text

/-!
# The store of templates

The catalogue of governed templates with its audit events.  An import records the new
templates one by one and writes the catalogue at its end, so that an import that fails
leaves events of templates that are not in the catalogue.
-/

namespace LogRisk.DrainEval

open LogRisk.Library

inductive Status where
  | active | ignored | deleted | merged
deriving DecidableEq

/-- Members that an import copies as they are. -/
inductive Field where
  | templateFingerprint | semanticFields | semanticTags | typedParameters
  | semanticDictionaryVersions | semanticExtractorVersion
deriving DecidableEq

structure Item where
  templateHash : String
  originalTemplate : String
  effectiveTemplate : String
  component : String
  count : ℤ
  riskLevels : List String
  copied : Field → String
  status : Status
  mergedInto : Option String
  version : ℤ
  createdAt : String
  updatedAt : String

inductive EventKind where
  | imported | edit | ignore | restore | merge | delete | rollback
deriving DecidableEq

structure Event where
  templateHash : String
  action : EventKind
  operator : String
  before : Option Item
  after : Item

structure Store where
  items : Dict String Item := ∅
  events : List Event := []

/-- An item of an import; texts that are absent or of another type are missing. -/
structure Template where
  templateHash : Option String := none
  template : Option String := none
  component : Option String := none
  /-- A count that is present may not be a number. -/
  count : Option (Option ℤ) := none
  riskLevels : Option (List String) := none
  /-- JSON texts. -/
  copied : Field → Option String := fun _ => none

inductive Change where
  | edit (template : Option String)
  | ignore
  | restore
  | merge (target : Option String)
  | delete

def Change.kind : Change → EventKind
  | .edit _ => .edit
  | .ignore => .ignore
  | .restore => .restore
  | .merge _ => .merge
  | .delete => .delete

structure Payload where
  confirmed : Bool
  /-- The action with its arguments, where it is one of the actions. -/
  action : Option Change
  expectedVersion : ℤ
  operator : String := "local-operator"

abbrev Exn := String

def Field.default : Field → String
  | .semanticFields => "\x7b\x7d"
  | .semanticTags => "[]"
  | .typedParameters => "[]"
  | .semanticDictionaryVersions => "\x7b\x7d"
  | _ => "null"

namespace Item

/-- A template keeps its text, its status and its version when it is imported again. -/
def refresh (current : Item) (source : Template) (count : ℤ) (now : String) : Item :=
  { current with
    count
    riskLevels := source.riskLevels.getD current.riskLevels
    copied := fun field => (source.copied field).getD (current.copied field)
    updatedAt := now }

/-- JSON values that `or` passes over. -/
def isFalsy (json : String) : Bool := json ∈ ["null", "false", "0", "\"\"", "[]", "\x7b\x7d"]

def copiedOr (source : Template) (field : Field) : String :=
  match field, source.copied field with
  | _, none => Field.default field
  | .templateFingerprint, some json => json
  | .semanticExtractorVersion, some json => json
  | _, some json => if isFalsy json then Field.default field else json

def imported (hash template : String) (source : Template) (count : ℤ) (now : String) : Item where
  templateHash := hash
  originalTemplate := template
  effectiveTemplate := template
  component := source.component.getD "unknown"
  count := count
  riskLevels := source.riskLevels.getD []
  copied := copiedOr source
  status := .active
  mergedInto := none
  version := 1
  createdAt := now
  updatedAt := now

end Item

namespace Store

variable (s : Store)

def record (hash : String) (action : EventKind) (operator : String) (before : Option Item)
    (after : Item) : Store :=
  { s with events := s.events ++ [⟨hash, action, operator, before, after⟩] }

def setItem (hash : String) (item : Item) : Store := { s with items := s.items.set hash item }

/-- `int(source.get("count") or … or 0)`. -/
def countOf (source : Template) (current : ℤ) : Except Exn ℤ :=
  match source.count with
  | none => return current
  | some none => throw "invalid literal for int()"
  | some (some n) => return n

/-- The texts of a template that an import requires. -/
def texts (source : Template) : Option (String × String) :=
  match source.templateHash, source.template with
  | some hash, some template => if hash.isEmpty ∨ template.isEmpty then none else some (hash, template)
  | _, _ => none

def importTemplate (now : String) (source : Template) : Except Exn Store :=
  match texts source with
  | none => throw "模板必须包含 template_hash 和 template"
  | some (hash, template) =>
    match s.items.get? hash with
    | some current => do
        let count ← countOf source current.count
        return s.setItem hash (current.refresh source count now)
    | none => do
        let count ← countOf source 0
        let item := Item.imported hash template source count now
        return (s.setItem hash item).record hash .imported "system" none item

/-- The loop of an import, up to the first template that fails. -/
def importEach (now : String) : Store → List Template → Store × Option Exn
  | s, [] => (s, none)
  | s, source :: rest =>
      match s.importTemplate now source with
      | .error e => (s, some e)
      | .ok s' => importEach now s' rest

/-- The catalogue is written at the end, the events are written on the way. -/
def importTemplates (templates : List Template) (now : String) : Except Exn (List Item) × Store :=
  match importEach now s templates with
  | (s', none) =>
      (.ok (templates.filterMap fun source => (texts source).bind fun t => s'.items.get? t.1), s')
  | (s', some e) => (.error e, { s with events := s'.events })

def changed (hash : String) (current : Item) : Change → Except Exn Item
  | .edit template =>
      match template with
      | none => throw "有效模板不能为空"
      | some template =>
          if (Text.strip template).isEmpty then throw "有效模板不能为空"
          else return { current with effectiveTemplate := Text.strip template, status := .active }
  | .ignore => return { current with status := .ignored }
  | .delete => return { current with status := .deleted }
  | .restore => return { current with
      effectiveTemplate := current.originalTemplate, status := .active, mergedInto := none }
  | .merge target =>
      match target with
      | none => throw "合并目标模板无效"
      | some target =>
        if target = hash then throw "合并目标模板无效"
        else match s.items.get? target with
        | none => throw "合并目标模板无效"
        | some other => return { current with
            status := .merged, mergedInto := some target,
            effectiveTemplate := other.effectiveTemplate }

/-- A new version of a template, with its event. -/
def advance (hash : String) (action : EventKind) (operator : String) (current item : Item)
    (now : String) : Item × Store :=
  let next := { item with version := current.version + 1, updatedAt := now }
  (next, (s.setItem hash next).record hash action operator (some current) next)

def change (hash : String) (payload : Payload) (now : String) : Except Exn (Item × Store) :=
  if ¬ payload.confirmed then throw "模板变更需要人工确认"
  else match payload.action with
  | none => throw "模板 action 无效"
  | some action =>
    match s.items.get? hash with
    | none => throw "模板不存在"
    | some current =>
      if payload.expectedVersion ≠ current.version then throw "模板版本冲突，请刷新后重试"
      else do
        let item ← s.changed hash current action
        return s.advance hash action.kind payload.operator current item now

def history (hash : String) : List Event := s.events.filter fun e => decide (e.templateHash = hash)

def recorded (hash : String) (version : ℤ) : Option Item :=
  ((s.history hash).find? fun e => decide (e.after.version = version)).map (·.after)

def rollback (hash : String) (target expected : ℤ) (confirmed : Bool) (operator now : String) :
    Except Exn (Item × Store) :=
  if ¬ confirmed then throw "模板回滚需要人工确认"
  else match s.items.get? hash with
  | none => throw "模板不存在"
  | some current =>
    if current.version ≠ expected then throw "模板版本冲突，请刷新后重试"
    else match s.recorded hash target with
    | none => throw "目标模板版本不存在"
    | some item => return s.advance hash .rollback operator current item now

end Store

/-! ## Runs -/

inductive Call where
  | importTemplates (templates : List Template) (now : String)
  | change (hash : String) (payload : Payload) (now : String)
  | rollback (hash : String) (target expected : ℤ) (confirmed : Bool) (operator now : String)

/-- The store after a call, whether it succeeds or fails. -/
def Store.step (s : Store) : Call → Store
  | .importTemplates templates now => (s.importTemplates templates now).2
  | .change hash payload now =>
      match s.change hash payload now with
      | .ok r => r.2
      | .error _ => s
  | .rollback hash target expected confirmed operator now =>
      match s.rollback hash target expected confirmed operator now with
      | .ok r => r.2
      | .error _ => s

/-! ## Events of a job -/

end LogRisk.DrainEval
