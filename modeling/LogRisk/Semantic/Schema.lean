import LogRisk.Library.Text
import Mathlib.Data.List.Sort

/-!
# Semantic dictionaries

Rules, their validation, and the extraction of semantic fields that the core cases of a
dictionary version are checked with.  Regular expressions, `int` of a text and the digest
of the canonical JSON are taken from the host.
-/

namespace LogRisk.Semantic

open LogRisk.Library

structure Rule where
  ruleId : String
  field : String
  pattern : String
  group : String
  valueType : String
  typedMask : String
  tags : List String
  priority : ℤ
  sourceTypes : List String := []
  components : List String := []
deriving DecidableEq

structure Payload where
  dictionaryId : String
  name : String
  version : ℤ
  rules : List Rule

structure Host where
  /-- The named groups of a pattern, or why it cannot be compiled. -/
  compile : String → Except String (List String)
  /-- `re.search`, with the text of each named group. -/
  search : String → String → Option (String → Option String)
  int : String → Option ℤ
  digest : Payload → String

structure Dictionary extends Payload where
  contentHash : String

abbrev Exn := String

def allowedFields : List String :=
  ["http_status", "http_status_class", "errno", "errno_name", "exit_code", "signal", "xid_code",
    "k8s_reason", "oom_process", "device", "filesystem_type"]

def allowedValueTypes : List String := ["integer", "string"]

/-- One character of a class, then between one and `most` of another. -/
def fullmatch (first rest : Char → Bool) (most : ℕ) (s : String) : Bool :=
  match s.toList with
  | [] => false
  | c :: cs => first c && cs.all rest && decide (1 ≤ cs.length ∧ cs.length ≤ most)

def isRuleId : String → Bool :=
  fullmatch (fun c => c.isLower || c.isDigit)
    (fun c => c.isLower || c.isDigit || c == '_' || c == '-') 63

def isTypedMask : String → Bool :=
  fullmatch Char.isUpper (fun c => c.isUpper || c.isDigit || c == '_') 31

def isDictionaryId : String → Bool :=
  fullmatch Char.isLower (fun c => c.isLower || c.isDigit || c == '_' || c == '-') 31

def strings (value : List String) (label : String) : Except Exn (List String) :=
  if value.all (fun item => !(Text.strip item).isEmpty) then return value.map Text.strip
  else throw (label ++ " 必须是字符串数组")

def labelled (rule : Rule) (text : String) : Exn := "规则 " ++ rule.ruleId ++ text

section Validation

variable (host : Host)

/-- The checks on the texts of a rule. -/
def checkRule (rule : Rule) (index : ℕ) : Except Exn Unit :=
  if ¬ isRuleId rule.ruleId then throw ("规则 " ++ toString (index + 1) ++ " rule_id 无效")
  else if rule.field ∉ allowedFields then throw (labelled rule " field 不在白名单")
  else if rule.pattern.isEmpty then throw (labelled rule " pattern 不能为空")
  else match host.compile rule.pattern with
  | .error e => throw (labelled rule (" 正则无效: " ++ e))
  | .ok groups =>
    if rule.group ∉ groups then
      throw (labelled rule (" 缺少命名组 " ++ if rule.group.isEmpty then "value" else rule.group))
    else if rule.valueType ∉ allowedValueTypes then throw (labelled rule " value_type 无效")
    else if ¬ isTypedMask rule.typedMask then throw (labelled rule " typed_mask 无效")
    else return ()

def validateRule (rule : Rule) (index : ℕ) : Except Exn Rule := do
  checkRule host rule index
  let tags ← strings rule.tags (labelled rule " tags")
  if tags.isEmpty then throw (labelled rule " tags 不能为空")
  let sourceTypes ← strings rule.sourceTypes (labelled rule " source_types")
  let components ← strings rule.components (labelled rule " components")
  return { rule with tags := tags.take 4, sourceTypes, components }

structure Scope where
  field : String
  priority : ℤ
  sourceTypes : List String
  components : List String
deriving DecidableEq

def Rule.scope (rule : Rule) : Scope where
  field := rule.field
  priority := rule.priority
  sourceTypes := rule.sourceTypes.insertionSort (· ≤ ·)
  components := rule.components.insertionSort (· ≤ ·)

/-- The loop over the rules; `seen` are those before. -/
def checkDistinct (seen : List Rule) : List Rule → Except Exn Unit
  | [] => return ()
  | rule :: rest =>
      if seen.any (·.ruleId = rule.ruleId) then throw ("rule_id 重复: " ++ rule.ruleId)
      else if seen.any (·.scope = rule.scope) then
        throw ("字段 " ++ rule.field ++ " 存在同优先级冲突")
      else checkDistinct (rule :: seen) rest

/-- `sorted` by `(-priority, rule_id)`. -/
def sortRules (rules : List Rule) : List Rule :=
  rules.insertionSort fun r r' =>
    r'.priority < r.priority ∨ r.priority = r'.priority ∧ r.ruleId ≤ r'.ruleId

def validateDictionary (payload : Payload) (expectedId : Option String := none) :
    Except Exn Dictionary := do
  if ¬ isDictionaryId payload.dictionaryId then throw "dictionary_id 无效"
  if expectedId.any (fun id => !id.isEmpty && id != payload.dictionaryId) then
    throw "dictionary_id 与目标词典不一致"
  if payload.version < 1 then throw "version 必须是正整数"
  let rules ← payload.rules.zipIdx.mapM fun (rule, index) => validateRule host rule index
  checkDistinct [] rules
  let name := if payload.name.isEmpty then payload.dictionaryId else payload.name
  let result := { payload with name, rules := sortRules rules }
  return { result with contentHash := host.digest result }

end Validation

/-! ## Extraction -/

inductive Value where
  | int (n : ℤ)
  | string (s : String)
  /-- A group that took no part in the match. -/
  | none
deriving DecidableEq

def maxFields : ℕ := 32

section Extraction

variable (host : Host)

def applies (rule : Rule) (sourceType component : String) : Bool :=
  let sources := rule.sourceTypes.map Text.lower
  let components := rule.components.map Text.lower
  (sources.isEmpty || sources.contains (Text.lower sourceType)) &&
    (components.isEmpty || components.contains (Text.lower component))

def valueOf (rule : Rule) (text : Option String) : Except Exn Value :=
  if rule.valueType = "integer" then
    match text.bind host.int with
    | some n => return .int n
    | none => throw "invalid literal for int()"
  else match text with
  | some s => return .string s
  | none => return .none

/-- `int(value)` of a value that is a number or a text. -/
def intOf : Value → Except Exn ℤ
  | .int n => return n
  | .string s => match host.int s with
    | some n => return n
    | none => throw "invalid literal for int()"
  | .none => throw "int() argument must be a string"

def setField (fields : List (String × Value)) (field : String) (value : Value) :
    List (String × Value) :=
  if fields.any (·.1 = field) then fields.map fun kv => if kv.1 = field then (field, value) else kv
  else fields ++ [(field, value)]

def addValue (fields : List (String × Value)) (rule : Rule) (value : Value) :
    Except Exn (List (String × Value)) :=
  let fields := setField fields rule.field value
  if rule.field = "http_status" then do
    let status ← intOf host value
    return setField fields "http_status_class" (.string (toString (status / 100) ++ "xx"))
  else return fields

/-- One pass of the loop over the rules. -/
def extractRule (message sourceType component : String) (fields : List (String × Value))
    (rule : Rule) : Except Exn (List (String × Value)) :=
  if maxFields ≤ fields.length ∨ fields.any (·.1 = rule.field) ∨
      ¬ applies rule sourceType component then return fields
  else match host.search rule.pattern message with
  | none => return fields
  | some groups => do
    let value ← valueOf host rule (groups rule.group)
    addValue host fields rule value

/-- `semantic_fields` of a message under the dictionaries of a snapshot. -/
def extract (dictionaries : List Payload) (message sourceType component : String) :
    Except Exn (List (String × Value)) := do
  let validated ← dictionaries.mapM fun item => validateDictionary host item
  let rules := sortRules (validated.flatMap (·.rules))
  rules.foldlM (extractRule host message sourceType component) []

end Extraction

end LogRisk.Semantic
