import LogRisk.Library.Text
import Mathlib.Data.List.Sort
import Mathlib.Data.Rat.Defs

/-!
# Rules of risk semantics

Validation of a rule, its test on its samples, the merge of changes into it, and the
classification of a record.  Regular expressions and `int` of a text are taken from the
host.
-/

namespace LogRisk.RiskSemantics

open LogRisk.Library

inductive Source where
  | builtin | user | imported | aiCandidate
deriving DecidableEq

inductive Status where
  | draft | published | disabled | deprecated
deriving DecidableEq

structure Exn where
  message : String
  code : String := "invalid_semantic_rule"
  statusCode : ℕ := 422
deriving DecidableEq

/-- How a field is extracted; absent members are empty. -/
structure ExtractSpec where
  type : String := ""
  fromGroup : String := ""
  regex : String := ""
  normalize : String := ""
deriving DecidableEq

structure Rule where
  id : String
  displayName : String
  domain : String
  category : String
  riskType : String
  riskSubtype : Option String := none
  source : Source
  status : Status
  enabled : Bool
  version : ℤ
  overrideOf : Option String := none
  sourceTypes : List String := []
  components : List String := []
  messageRegex : List String
  extract : List (String × ExtractSpec) := []
  defaultSeverity : String
  baseScore : ℚ
  confidence : ℚ
  keyFields : List String
  windowSeconds : ℤ
  positives : List String := []
  negatives : List String := []
  tags : List String := []
  priority : ℤ := 100
  /-- Lifecycle, hard override and recommendation, which are copied. -/
  copied : String := ""
deriving DecidableEq

/-- A match, with the texts of its named groups and of its first group. -/
structure Match where
  group : String → Option String := fun _ => none
  first : Except String (Option String) := .ok none

structure Host where
  /-- Why a pattern cannot be compiled. -/
  compileError : String → Option String
  search : String → String → Option Match
  int : String → Option ℤ

variable (host : Host)

/-! ## Validation -/

/-- `[a-z][a-z0-9_.-]{2,127}`. -/
def isRuleId (s : String) : Bool :=
  match s.toList with
  | [] => false
  | c :: cs => c.isLower && decide (2 ≤ cs.length ∧ cs.length ≤ 127) &&
      cs.all fun c => c.isLower || c.isDigit || c == '_' || c == '.' || c == '-'

/-- `[a-z][a-z0-9_]*`, one part of a risk type. -/
def isPart (s : List Char) : Bool :=
  match s with
  | [] => false
  | c :: cs => c.isLower && cs.all fun c => c.isLower || c.isDigit || c == '_'

def isRiskType (s : String) : Bool :=
  let parts := s.toList.splitOn '.'
  decide (2 ≤ parts.length) && parts.all isPart

def severities : List String := ["low", "medium", "high", "critical"]

def requiredFields (rule : Rule) : List (String × String) :=
  [("display_name", rule.displayName), ("domain", rule.domain), ("category", rule.category),
    ("risk_type", rule.riskType)]

def checkPattern (pattern : String) : Except Exn Unit :=
  if 2000 < pattern.length then throw { message := "匹配正则长度超过限制" }
  else match host.compileError pattern with
  | some e => throw { message := "匹配正则无效: " ++ e }
  | none => return ()

def checkRule (rule : Rule) : Except Exn Unit := do
  if ¬ isRuleId rule.id then throw { message := "语义 ID 无效" }
  (requiredFields rule).forM fun field =>
    if (Text.strip field.2).isEmpty then throw { message := "字段 " ++ field.1 ++ " 不能为空" }
    else return ()
  if ¬ isRiskType rule.riskType then throw { message := "risk_type 格式无效" }
  if rule.messageRegex.isEmpty || rule.messageRegex.any (·.isEmpty) then
    throw { message := "match.message_regex 必须是非空字符串数组" }
  rule.messageRegex.forM (checkPattern host)
  if rule.defaultSeverity ∉ severities then
    throw { message := "classification.default_severity 无效" }
  if ¬ (0 ≤ rule.baseScore ∧ rule.baseScore ≤ 100 ∧ 0 ≤ rule.confidence ∧ rule.confidence ≤ 1) then
    throw { message := "分类分数或置信度超出范围" }
  if rule.windowSeconds ≤ 0 then throw { message := "dedup 配置无效" }

/-- The members that validation fills in. -/
def normalized (rule : Rule) : Rule :=
  { rule with
    version := if rule.version = 0 then 1 else rule.version
    tags := (rule.tags.filter fun tag => !tag.isEmpty).take 16
    priority := if rule.priority = 0 then 100 else rule.priority }

def validateRule (rule : Rule) : Except Exn Rule := do
  checkRule host rule
  return normalized rule

/-! ## Samples -/

structure TestReport where
  errors : List String
deriving DecidableEq

def TestReport.valid (report : TestReport) : Bool := report.errors.isEmpty

def found (rule : Rule) (sample : String) : Bool :=
  rule.messageRegex.any fun pattern => (host.search pattern sample).isSome

/-- `_test`. -/
def test (rule : Rule) : TestReport where
  errors :=
    (if rule.positives.isEmpty then ["至少需要一条正样例"] else []) ++
      (rule.positives.filter fun sample => !found host rule sample).map (fun _ => "正样例未命中") ++
      (rule.negatives.filter fun sample => found host rule sample).map fun _ => "负样例错误命中"

/-! ## Changes -/

/-- The members of a request that `_deep_merge` lays over a rule. -/
structure Changes where
  displayName : Option String := none
  domain : Option String := none
  category : Option String := none
  riskType : Option String := none
  riskSubtype : Option (Option String) := none
  enabled : Option Bool := none
  overrideOf : Option (Option String) := none
  sourceTypes : Option (List String) := none
  components : Option (List String) := none
  messageRegex : Option (List String) := none
  extract : List (String × ExtractSpec) := []
  defaultSeverity : Option String := none
  baseScore : Option ℚ := none
  confidence : Option ℚ := none
  keyFields : Option (List String) := none
  windowSeconds : Option ℤ := none
  positives : Option (List String) := none
  negatives : Option (List String) := none
  tags : Option (List String) := none
  priority : Option ℤ := none
  copied : Option String := none

/-- The members of one dictionary over those of another. -/
def mergeExtract (base changes : List (String × ExtractSpec)) : List (String × ExtractSpec) :=
  base.map (fun kv => (kv.1, (changes.lookup kv.1).getD kv.2)) ++
    changes.filter fun kv => (base.lookup kv.1).isNone

def deepMerge (base : Rule) (changes : Changes) : Rule :=
  { base with
    displayName := changes.displayName.getD base.displayName
    domain := changes.domain.getD base.domain
    category := changes.category.getD base.category
    riskType := changes.riskType.getD base.riskType
    riskSubtype := changes.riskSubtype.getD base.riskSubtype
    enabled := changes.enabled.getD base.enabled
    overrideOf := changes.overrideOf.getD base.overrideOf
    sourceTypes := changes.sourceTypes.getD base.sourceTypes
    components := changes.components.getD base.components
    messageRegex := changes.messageRegex.getD base.messageRegex
    extract := mergeExtract base.extract changes.extract
    defaultSeverity := changes.defaultSeverity.getD base.defaultSeverity
    baseScore := changes.baseScore.getD base.baseScore
    confidence := changes.confidence.getD base.confidence
    keyFields := changes.keyFields.getD base.keyFields
    windowSeconds := changes.windowSeconds.getD base.windowSeconds
    positives := changes.positives.getD base.positives
    negatives := changes.negatives.getD base.negatives
    tags := changes.tags.getD base.tags
    priority := changes.priority.getD base.priority
    copied := changes.copied.getD base.copied }

/-- A whole rule as changes. -/
def Changes.ofRule (rule : Rule) : Changes where
  displayName := some rule.displayName
  domain := some rule.domain
  category := some rule.category
  riskType := some rule.riskType
  riskSubtype := some rule.riskSubtype
  enabled := some rule.enabled
  overrideOf := some rule.overrideOf
  sourceTypes := some rule.sourceTypes
  components := some rule.components
  messageRegex := some rule.messageRegex
  extract := rule.extract
  defaultSeverity := some rule.defaultSeverity
  baseScore := some rule.baseScore
  confidence := some rule.confidence
  keyFields := some rule.keyFields
  windowSeconds := some rule.windowSeconds
  positives := some rule.positives
  negatives := some rule.negatives
  tags := some rule.tags
  priority := some rule.priority
  copied := some rule.copied

/-! ## Classification -/

/-- `semantic_fields.unit`: a text, or a list of values with their counts. -/
inductive UnitField where
  | text (unit : String)
  | counted (items : List (Option String × Option ℤ))

structure Record where
  messageCore : String := ""
  template : String := ""
  sourceType : String := ""
  component : String := ""
  count : Option ℤ := none
  unit : Option UnitField := none

/-- The value of an extracted field. -/
inductive FieldValue where
  | int (n : ℤ)
  | text (s : String)
deriving DecidableEq

structure SemanticEvent where
  ruleId : String
  ruleVersion : ℤ
  domain : String
  category : String
  riskType : String
  riskSubtype : Option String
  severity : String
  baseScore : ℚ
  confidence : ℚ
  fields : List (String × FieldValue)
  keyFields : List String
  windowSeconds : ℤ
  copied : String
  tags : List String
deriving DecidableEq

def unitSuffixes : List String :=
  [".service", ".socket", ".target", ".mount", ".automount", ".swap", ".timer", ".path", ".scope",
    ".slice"]

def isUnitChar (c : Char) : Bool :=
  c.isAlphanum || c == '_' || c == '@' || c == '.' || c == '-'

/-- `[A-Za-z0-9_@.-]+\.(?:service|…)`. -/
def isUnitName (unit : String) : Bool :=
  unit.toList.all isUnitChar && unitSuffixes.any fun suffix =>
    decide (suffix.length < unit.length) && suffix.toList.isSuffixOf unit.toList

def unitMarker : String := "<SYSTEMD_UNIT>"

/-- The unit that a record names, unless it stands for several. -/
def unitOf (record : Record) : Option String :=
  match record.unit with
  | some (.text unit) => some unit
  | some (.counted [(value, count)]) => if count = record.count then value else none
  | _ => none

def matchingMessage (record : Record) : String :=
  let message := if record.messageCore.isEmpty then record.template else record.messageCore
  if record.component ≠ "systemd" ∨ (message.splitOn unitMarker).length ≠ 2 then message
  else match unitOf record with
  | some unit => if isUnitName unit then message.replace unitMarker unit else message
  | none => message

def applies (rule : Rule) (record : Record) : Bool :=
  let sources := rule.sourceTypes.map Text.lower
  let components := rule.components.map Text.lower
  let source := if record.sourceType.isEmpty then "unknown" else record.sourceType
  let component := if record.component.isEmpty then "unknown" else record.component
  (sources.isEmpty || sources.contains (Text.lower source)) &&
    (components.isEmpty || components.contains (Text.lower component))

/-- The text of a field, from a group of the match or from a pattern of its own. -/
def fieldText (spec : ExtractSpec) (m : Match) (message : String) : Except Exn (Option String) :=
  match m.group spec.fromGroup with
  | some text => return some text
  | none =>
      if spec.regex.isEmpty then return none
      else match host.search spec.regex message with
      | none => return none
      | some own => match own.first with
        | .ok text => return text
        | .error e => throw { message := e }

def fieldValue (spec : ExtractSpec) (text : String) : Except Exn FieldValue :=
  if spec.type = "integer" then
    match host.int text with
    | some n => return .int n
    | none => throw { message := "invalid literal for int()" }
  else if spec.normalize = "pci_bdf" then return .text (Text.lower (Text.strip text))
  else return .text text

def fieldOf (m : Match) (message : String) (field : String × ExtractSpec) :
    Except Exn (List (String × FieldValue)) := do
  let text ← fieldText host field.2 m message
  match text with
  | none => return []
  | some text => do
    let value ← fieldValue host field.2 text
    return [(field.1, value)]

/-- `_fields`. -/
def fields (rule : Rule) (m : Match) (message : String) : Except Exn (List (String × FieldValue)) :=
  return (← rule.extract.mapM (fieldOf host m message)).flatten

def event (rule : Rule) (m : Match) (message : String) : Except Exn SemanticEvent := do
  let fields ← fields host rule m message
  return {
    ruleId := rule.id, ruleVersion := rule.version, domain := rule.domain,
    category := rule.category, riskType := rule.riskType, riskSubtype := rule.riskSubtype,
    severity := rule.defaultSeverity, baseScore := rule.baseScore, confidence := rule.confidence,
    fields, keyFields := rule.keyFields, windowSeconds := rule.windowSeconds,
    copied := rule.copied, tags := rule.tags }

/-- The first pattern of a rule that is found. -/
def firstMatch (rule : Rule) (message : String) : Option Match :=
  rule.messageRegex.findSome? fun pattern => host.search pattern message

def unclassified : Exn :=
  { message := "未命中风险语义", code := "semantic_unclassified", statusCode := 404 }

/-- `match` over the effective rules. -/
def matchRules (record : Record) : List Rule → Except Exn SemanticEvent
  | [] => throw unclassified
  | rule :: rest =>
      if ¬ applies rule record then matchRules record rest
      else match firstMatch host rule (matchingMessage record) with
      | none => matchRules record rest
      | some m => event host rule m (matchingMessage record)

end LogRisk.RiskSemantics
