import LogRisk.Library.Checks
import LogRisk.Library.Value
import LogRisk.RiskSemantics.Rules

/-!
# Rules as documents

A rule as it is sent, stored and read: a mapping of untyped values.  Validation looks at some
of the members, fills in others and keeps the rest as they are.
-/

namespace LogRisk.RiskSemantics.Documents

open LogRisk.Library LogRisk.Library.Value LogRisk.Library.Transaction
open LogRisk.Library.Dict (assoc assoc_alterEntries)

inductive Failure where
  /-- `RiskSemanticError`. -/
  | semantic (e : Exn)
  /-- An exception of the language or of the database. -/
  | raised (type : String)
deriving DecidableEq

structure Host extends RiskSemantics.Host where
  float : String → Option Floating
  floatText : Floating → String
  /-- The text of a list or of a mapping between its brackets. -/
  listText : List Value → String
  dictText : Entries → String
  /-- How a key that is no text is written. -/
  keyText : Value → Option String
  lower : String → String
  /-- `==` of two values that may be missing. -/
  equal : Option Value → Option Value → Bool
  digest : Entries → String

def refuse {α : Type} (message : String) : Except Failure α := .error (.semantic { message })

def demand (p : Prop) [Decidable p] (message : String) : Except Failure Unit :=
  require p (.semantic { message })

def raise {α : Type} (type : String) : Except Failure α := .error (.raised type)

variable (host : Host)

/-! ## Conversions -/

/-- `str(value)`. -/
def text : Value → String
  | .null => "None"
  | .bool b => if b then "True" else "False"
  | .int n => toString n
  | .float x => host.floatText x
  | .str s => s
  | .list items => "[" ++ host.listText items ++ "]"
  | .dict entries => "\x7b" ++ host.dictText entries ++ "\x7d"

/-- `str(rule.get(key) or fallback)`. -/
def textOf (key fallback : String) (rule : Entries) : String :=
  text host (orElse (assoc key rule) (.str fallback))

/-- Towards zero. -/
def truncate (q : ℚ) : ℤ := q.num.tdiv q.den

/-- `int(value)`. -/
def toInt : Value → Except Failure ℤ
  | .bool b => return if b then 1 else 0
  | .int n => return n
  | .float (.finite q) => return truncate q
  | .float (.infinite _) => raise "OverflowError"
  | .float .nan => raise "ValueError"
  | .str s =>
      match host.int s with
      | some n => return n
      | none => raise "ValueError"
  | _ => raise "TypeError"

/-- `float(value)`; an integer is too large from half a unit above the largest number on. -/
def toFloat : Value → Except Failure Floating
  | .bool b => return .finite (if b then 1 else 0)
  | .int n => if 2 ^ 1024 - 2 ^ 970 ≤ n.natAbs then raise "OverflowError" else return .finite n
  | .float x => return x
  | .str s =>
      match host.float s with
      | some x => return x
      | none => raise "ValueError"
  | _ => raise "TypeError"

def between (low high : ℚ) : Floating → Bool
  | .finite q => decide (low ≤ q ∧ q ≤ high)
  | _ => false

/-- What a loop over a value runs through. -/
def items : Value → Except Failure (List Value)
  | .list items => return items
  | .str s => return s.toList.map fun c => .str (String.singleton c)
  | .dict entries => return entries.map fun e => .str e.1
  | _ => raise "TypeError"

def keyOf (key : Value) : Except Failure String :=
  match key with
  | .str s => return s
  | key => (host.keyText key).elim (raise "TypeError") pure

/-- An item that `dict` reads as a key with its value. -/
def pairOf : Value → Except Failure (String × Value)
  | .list [key, value] => return (← keyOf host key, value)
  | .str s =>
      match s.toList with
      | [a, b] => return (String.singleton a, .str (String.singleton b))
      | _ => raise "ValueError"
  | .dict [(a, _), (b, _)] => return (a, .str b)
  | _ => raise "ValueError"

/-- `dict(value)`. -/
def toDict : Value → Except Failure Entries
  | .dict entries => return entries
  | .list items => return update [] (← items.mapM (pairOf host))
  | .str s => if s.isEmpty then return [] else raise "ValueError"
  | _ => raise "TypeError"

/-! ## Checks -/

def sources : List String := ["builtin", "user", "imported", "ai_candidate"]

def statuses : List String := ["draft", "published", "disabled", "deprecated"]

/-- A rule is known by a text. -/
def ruleId (rule : Entries) : String := textAt "id" rule

def sourceOf (rule : Entries) : String :=
  textOf host "source" (if "builtin.".toList.isPrefixOf (ruleId rule).toList then "builtin" else "user")
    rule

def statusOf (rule : Entries) : String :=
  textOf host "status" (if sourceOf host rule = "builtin" then "published" else "draft") rule

def requiredNames : List String := ["display_name", "domain", "category", "risk_type"]

def checkName (rule : Entries) (field : String) : Except Failure Unit :=
  demand (Text.strip (textOf host field "" rule) ≠ "") ("字段 " ++ field ++ " 不能为空")

def checkNames (rule : Entries) : Except Failure Unit := do
  demand (isRuleId (ruleId rule)) "语义 ID 无效"
  requiredNames.forM (checkName host rule)
  demand (isRiskType (textOf host "risk_type" "" rule)) "risk_type 格式无效"

def checkOrigin (rule : Entries) : Except Failure Unit := do
  demand (sourceOf host rule ∈ sources) "source 无效"
  demand (statusOf host rule ∈ statuses) "status 无效"

def patternOf : Value → Option String
  | .str s => if s.isEmpty then none else some s
  | _ => none

/-- `match.message_regex`, where it is a list of texts that are not empty. -/
def patternsOf (rule : Entries) : Option (List String) :=
  match assoc "match" rule with
  | some (.dict m) =>
      match assoc "message_regex" m with
      | some (.list (item :: rest)) => (item :: rest).mapM patternOf
      | _ => none
  | _ => none

def checkPatterns (rule : Entries) : Except Failure Unit :=
  match patternsOf rule with
  | none => refuse "match.message_regex 必须是非空字符串数组"
  | some patterns => patterns.forM fun pattern =>
      (checkPattern host.toHost pattern).mapError .semantic

def checkSeverity : Option Value → Except Failure Unit
  | some (.str s) =>
      demand (s ∈ severities) "classification.default_severity 无效"
  | some (.list _) => raise "TypeError"
  | some (.dict _) => raise "TypeError"
  | _ => refuse "classification.default_severity 无效"

def checkClassification (rule : Entries) : Except Failure Unit :=
  match assoc "classification" rule with
  | some (.dict c) => do
      checkSeverity (assoc "default_severity" c)
      let score ← toFloat host ((assoc "base_score" c).getD (.int (-1)))
      let confidence ← toFloat host ((assoc "confidence" c).getD (.int (-1)))
      demand (between 0 100 score ∧ between 0 1 confidence) "分类分数或置信度超出范围"
  | _ => refuse "classification.default_severity 无效"

def checkDedup (rule : Entries) : Except Failure Unit :=
  match assoc "dedup" rule with
  | some (.dict d) =>
      match assoc "key_fields" d with
      | some (.list _) => do
          let window ← toInt host (orElse (assoc "window_seconds" d) (.int 0))
          demand (0 < window) "dedup 配置无效"
      | _ => refuse "dedup 配置无效"
  | _ => refuse "dedup 配置无效"

def checkRule (rule : Entries) : Except Failure Unit := do
  checkNames host rule
  checkOrigin host rule
  checkPatterns host rule
  checkClassification host rule
  checkDedup host rule

/-! ## Members that validation fills in -/

abbrev Normalizer := Option Value → Except Failure Value

/-- `bool(rule.get(key, True))`. -/
def normalBool : Normalizer := fun v => return .bool (v.getD (.bool true)).truthy

/-- `int(rule.get(key) or fallback)`. -/
def normalInt (fallback : ℤ) : Normalizer := fun v =>
  return .int (← toInt host (orElse v (.int fallback)))

/-- `str(rule.get(key) or "")`. -/
def normalText : Normalizer := fun v => return .str (text host (orElse v (.str "")))

/-- `rule.get(key)`. -/
def normalValue : Normalizer := fun v => return v.getD .null

/-- `dict(rule.get(key) or {})`. -/
def normalDict : Normalizer := fun v => return .dict (← toDict host (orElse v (.dict [])))

def normalTags : Normalizer := fun v => do
  let tags ← items (orElse v (.list []))
  return .list ((((tags.map (text host)).filter fun tag => !tag.isEmpty).take 16).map .str)

def normalizers : List (String × Normalizer) :=
  [("enabled", normalBool), ("version", normalInt host 1), ("description", normalText host),
    ("risk_subtype", normalValue), ("extract", normalDict host), ("lifecycle", normalDict host),
    ("recommendation", normalDict host), ("test_samples", normalDict host),
    ("tags", normalTags host), ("priority", normalInt host 100)]

def normalMember (rule : Entries) (e : String × Normalizer) : Except Failure (String × Value) :=
  return (e.1, ← e.2 (assoc e.1 rule))

def origin (rule : Entries) : Entries :=
  [("schema_version", .str "risk_semantic_rule_v1"), ("source", .str (sourceOf host rule)),
    ("status", .str (statusOf host rule))]

def additions (rule : Entries) : Except Failure Entries :=
  return origin host rule ++ (← (normalizers host).mapM (normalMember rule))

def validateRule (raw : Value) : Except Failure Entries :=
  match raw with
  | .dict rule => do
      checkRule host rule
      return update rule (← additions host rule)
  | _ => refuse "风险语义条目必须是 object"

/-! ## Samples -/

/-- `list((rule.get("test_samples") or {}).get(key) or [])`. -/
def samples (key : String) (rule : Entries) : Except Failure (List Value) :=
  match orElse (assoc "test_samples" rule) (.dict []) with
  | .dict d => items (orElse (assoc key d) (.list []))
  | _ => raise "AttributeError"

def isFound (rule : Entries) (sample : Value) : Bool :=
  ((patternsOf rule).getD []).any fun pattern => (host.search pattern (text host sample)).isSome

/-- `_test`. -/
def test (rule : Entries) : Except Failure TestReport := do
  let positives ← samples "positive" rule
  let negatives ← samples "negative" rule
  return { errors :=
    (if positives.isEmpty then ["至少需要一条正样例"] else []) ++
      (positives.filter fun sample => !isFound host rule sample).map (fun _ => "正样例未命中") ++
      (negatives.filter fun sample => isFound host rule sample).map fun _ => "负样例错误命中" }

/-! ## Changes -/

/-- The keys that `_deep_merge` leaves, in every mapping it goes into. -/
def skipped (key : String) : Bool :=
  key == "id" || key == "source" || key == "version" || key == "created_at"

/-- `_deep_merge`. -/
def deepMerge (base changes : Entries) : Entries := merge skipped changes base

/-! ## What the checks ask for -/

variable {host}

theorem demand_eq_ok {p : Prop} [Decidable p] {message : String} :
    demand p message = .ok () ↔ p := require_eq_ok

theorem checkRule_ok {rule : Entries} :
    checkRule host rule = .ok () ↔ checkNames host rule = .ok () ∧ checkOrigin host rule = .ok () ∧
      checkPatterns host rule = .ok () ∧ checkClassification host rule = .ok () ∧
        checkDedup host rule = .ok () := by
  unfold checkRule
  simp only [check_bind_eq_ok]

theorem checkNames_ok {rule : Entries} :
    checkNames host rule = .ok () ↔ isRuleId (ruleId rule) = true ∧
      (∀ field ∈ requiredNames, Text.strip (textOf host field "" rule) ≠ "") ∧
        isRiskType (textOf host "risk_type" "" rule) = true := by
  unfold checkNames
  simp only [check_bind_eq_ok, demand_eq_ok, forM_eq_ok, checkName]

theorem checkPattern_ok {pattern : String} :
    (checkPattern host.toHost pattern).mapError Failure.semantic = .ok () ↔
      pattern.length ≤ 2000 ∧ host.compileError pattern = none := by
  unfold checkPattern
  by_cases hlength : 2000 < pattern.length
  · rw [if_pos hlength]
    exact ⟨fun h => (nomatch h), fun h => absurd h.1 (by omega)⟩
  · rw [if_neg hlength]
    cases host.compileError pattern with
    | none => exact ⟨fun _ => ⟨by omega, rfl⟩, fun _ => rfl⟩
    | some e => exact ⟨fun h => (nomatch h), fun h => (nomatch h.2)⟩

theorem checkPatterns_ok {rule : Entries} :
    checkPatterns host rule = .ok () ↔ ∃ patterns, patternsOf rule = some patterns ∧
      ∀ pattern ∈ patterns, pattern.length ≤ 2000 ∧ host.compileError pattern = none := by
  unfold checkPatterns
  cases patternsOf rule with
  | none =>
      constructor
      · intro h
        cases h
      · rintro ⟨_, h, -⟩
        cases h
  | some patterns => simp only [forM_eq_ok, checkPattern_ok, Option.some.injEq, exists_eq_left']

theorem checkClassification_ok {rule : Entries} :
    checkClassification host rule = .ok () ↔ ∃ c, assoc "classification" rule = some (.dict c) ∧
      checkSeverity (assoc "default_severity" c) = .ok () ∧
      ∃ score, toFloat host ((assoc "base_score" c).getD (.int (-1))) = .ok score ∧
      ∃ confidence, toFloat host ((assoc "confidence" c).getD (.int (-1))) = .ok confidence ∧
        between 0 100 score = true ∧ between 0 1 confidence = true := by
  unfold checkClassification
  split
  · rename_i c hc
    rw [check_bind_eq_ok]
    simp only [bind_eq_ok, demand_eq_ok, hc, Option.some.injEq, Value.dict.injEq,
      exists_eq_left']
  · rename_i hother
    constructor
    · intro h
      cases h
    · rintro ⟨c, hc, -⟩
      exact absurd hc (hother c)

theorem checkDedup_ok {rule : Entries} :
    checkDedup host rule = .ok () ↔ ∃ d, assoc "dedup" rule = some (.dict d) ∧
      (∃ fields, assoc "key_fields" d = some (.list fields)) ∧
      ∃ window, toInt host (orElse (assoc "window_seconds" d) (.int 0)) = .ok window ∧
        0 < window := by
  unfold checkDedup
  split
  · rename_i d hd
    split
    · rename_i fields hfields
      simp only [bind_eq_ok, demand_eq_ok, hd, hfields, Option.some.injEq, Value.dict.injEq,
        exists_eq_left', Value.list.injEq, exists_eq', true_and]
    · rename_i hother
      constructor
      · intro h
        cases h
      · rintro ⟨d', hd', ⟨fields, hfields⟩, -⟩
        rw [hd] at hd'
        cases hd'
        exact absurd hfields (hother fields)
  · rename_i hother
    constructor
    · intro h
      cases h
    · rintro ⟨d, hd, -⟩
      exact absurd hd (hother d)

/-- A score that lies within bounds was given. -/
theorem given_of_between {o : Option Value} {score : Floating} {high : ℚ}
    (hscore : toFloat host (o.getD (.int (-1))) = .ok score) (hbetween : between 0 high score = true) :
    ∃ v x, o = some v ∧ toFloat host v = .ok x := by
  cases o with
  | some v => exact ⟨v, score, rfl, hscore⟩
  | none =>
      have hsmall : ¬ 2 ^ 1024 - 2 ^ 970 ≤ (-1 : ℤ).natAbs := by decide +kernel
      have hminus : toFloat host (.int (-1)) = .ok (.finite ((-1 : ℤ) : ℚ)) := by
        simp only [toFloat]
        rw [if_neg hsmall]
        rfl
      rw [Option.getD_none, hminus] at hscore
      cases hscore
      simp only [between, decide_eq_true_eq] at hbetween
      exact absurd hbetween.1 (by decide)

theorem checkSeverity_ok {o : Option Value} (h : checkSeverity o = .ok ()) :
    ∃ s, o = some (.str s) ∧ s ∈ severities := by
  unfold checkSeverity at h
  split at h
  · rename_i s
    exact ⟨s, rfl, demand_eq_ok.mp h⟩
  · cases h
  · cases h
  · cases h

/-! ## What validation yields -/

theorem validateRule_ok {raw : Value} {c : Entries} (h : validateRule host raw = .ok c) :
    ∃ rule added, raw = .dict rule ∧ checkRule host rule = .ok () ∧
      additions host rule = .ok added ∧ c = update rule added := by
  unfold validateRule at h
  split at h
  · rename_i rule
    obtain ⟨_, hcheck, h⟩ := bind_eq_ok.mp h
    obtain ⟨added, hadded, h⟩ := bind_eq_ok.mp h
    exact ⟨rule, added, rfl, hcheck, hadded, (pure_eq_ok.mp h).symm⟩
  · cases h

theorem validateRule_dict {rule added : Entries} (hcheck : checkRule host rule = .ok ())
    (hadded : additions host rule = .ok added) :
    validateRule host (.dict rule) = .ok (update rule added) := by
  have hvalidate : validateRule host (.dict rule) =
      (checkRule host rule >>= fun _ => additions host rule >>= fun added =>
        pure (update rule added)) := rfl
  rw [hvalidate, hcheck, hadded]
  rfl

/-- The keys that validation writes. -/
def writtenKeys : List String :=
  ["schema_version", "source", "status", "enabled", "version", "description", "risk_subtype",
    "extract", "lifecycle", "recommendation", "test_samples", "tags", "priority"]

theorem nodup_writtenKeys : writtenKeys.Nodup := by
  simp [writtenKeys]

theorem additions_ok {rule added : Entries} (h : additions host rule = .ok added) :
    ∃ filled, added = origin host rule ++ filled ∧
      List.Forall₂ (fun e f => normalMember rule e = .ok f) (normalizers host) filled := by
  unfold additions at h
  obtain ⟨filled, hfilled, h⟩ := bind_eq_ok.mp h
  exact ⟨filled, (pure_eq_ok.mp h).symm, mapM_eq_ok.mp hfilled⟩

theorem normalMember_ok {rule : Entries} {e : String × Normalizer} {f : String × Value} :
    normalMember rule e = .ok f ↔ ∃ w, e.2 (assoc e.1 rule) = .ok w ∧ f = (e.1, w) := by
  unfold normalMember
  rw [bind_eq_ok]
  refine exists_congr fun w => and_congr_right fun _ => ?_
  rw [pure_eq_ok]
  exact eq_comm

theorem keys_additions {rule added : Entries} (h : additions host rule = .ok added) :
    added.map Prod.fst = writtenKeys := by
  obtain ⟨filled, rfl, hfilled⟩ := additions_ok h
  have hkeys : filled.map Prod.fst = (normalizers host).map Prod.fst := by
    refine List.forall₂_eq_eq_eq ▸ ?_
    rw [List.forall₂_map_left_iff, List.forall₂_map_right_iff]
    refine hfilled.flip.imp fun f e hf => ?_
    obtain ⟨w, -, rfl⟩ := normalMember_ok.mp hf
    rfl
  rw [List.map_append, hkeys]
  rfl

theorem nodup_additions {rule added : Entries} (h : additions host rule = .ok added) :
    (added.map Prod.fst).Nodup := by
  rw [keys_additions h]
  exact nodup_writtenKeys

/-- A key that validation does not write. -/
theorem assoc_validated_other {rule added : Entries} (h : additions host rule = .ok added)
    {k : String} (hk : k ∉ writtenKeys) : assoc k (update rule added) = assoc k rule := by
  rw [assoc_update (nodup_additions h), Dict.assoc_eq_none.mpr]
  · rfl
  · rwa [keys_additions h]

/-- A member that validation fills in. -/
theorem assoc_validated {rule added : Entries} (h : additions host rule = .ok added)
    {e : String × Normalizer} (he : e ∈ normalizers host) :
    ∃ w, e.2 (assoc e.1 rule) = .ok w ∧ assoc e.1 (update rule added) = some w := by
  obtain ⟨filled, hadded, hfilled⟩ := additions_ok h
  obtain ⟨f, hf, hmember⟩ := exists_of_mem_results hfilled.flip he
  obtain ⟨w, hw, rfl⟩ := normalMember_ok.mp hmember
  refine ⟨w, hw, ?_⟩
  have hmem : (e.1, w) ∈ added := by
    rw [hadded]
    exact List.mem_append_right _ (List.of_mem_zip hf).1
  rw [assoc_update (nodup_additions h), (Dict.assoc_eq_some (nodup_additions h)).mpr hmem]
  rfl

/-- Where the rule comes from and what state it is in. -/
theorem assoc_validated_origin {rule added : Entries} (h : additions host rule = .ok added)
    {f : String × Value} (hf : f ∈ origin host rule) :
    assoc f.1 (update rule added) = some f.2 := by
  obtain ⟨filled, hadded, -⟩ := additions_ok h
  have hmem : (f.1, f.2) ∈ added := by
    rw [hadded]
    exact List.mem_append_left _ hf
  rw [assoc_update (nodup_additions h), (Dict.assoc_eq_some (nodup_additions h)).mpr hmem]
  rfl

/-! ## Members that are filled in again -/

/-- What the normalizers of a rule put out, for each key. -/
def Normal (host : Host) (c : Entries) : Prop :=
  ∀ e ∈ normalizers host, ∃ o w, e.2 o = .ok w ∧ assoc e.1 c = some w

theorem normal_validated {rule added : Entries} (h : additions host rule = .ok added) :
    Normal host (update rule added) := by
  intro e he
  obtain ⟨w, hw, hsome⟩ := assoc_validated h he
  exact ⟨_, w, hw, hsome⟩

theorem normalBool_again {o : Option Value} {w : Value} (h : normalBool o = .ok w) :
    normalBool (some w) = .ok w := by
  cases pure_eq_ok.mp h
  rfl

theorem normalText_again {o : Option Value} {w : Value} (h : normalText host o = .ok w) :
    normalText host (some w) = .ok w := by
  cases pure_eq_ok.mp h
  unfold normalText
  rw [pure_eq_ok, orElse]
  split
  · rfl
  · rename_i hempty
    have hnil : text host (orElse o (.str "")) = "" := by
      simpa [truthy] using hempty
    rw [hnil]
    rfl

theorem normalDict_again {o : Option Value} {w : Value} (h : normalDict host o = .ok w) :
    ∃ d, w = .dict d := by
  obtain ⟨d, -, hd⟩ := bind_eq_ok.mp h
  exact ⟨d, (pure_eq_ok.mp hd).symm⟩

theorem normalDict_dict (d : Entries) : normalDict host (some (.dict d)) = .ok (.dict d) := by
  unfold normalDict
  rw [orElse]
  split
  · rfl
  · rename_i hempty
    have hnil : d = [] := by simpa [truthy] using hempty
    rw [hnil]
    rfl

theorem normalTags_again {o : Option Value} {w : Value} (h : normalTags host o = .ok w) :
    normalTags host (some w) = .ok w := by
  obtain ⟨tags, -, htags⟩ := bind_eq_ok.mp h
  cases pure_eq_ok.mp htags
  generalize hkept : ((tags.map (text host)).filter fun tag => !tag.isEmpty).take 16 = kept
  have hnonempty : ∀ tag ∈ kept, tag.isEmpty = false := by
    intro tag htag
    rw [← hkept] at htag
    simpa using (List.mem_filter.mp (List.mem_of_mem_take htag)).2
  have hlength : kept.length ≤ 16 := by
    rw [← hkept]
    exact List.length_take_le 16 _
  have hitems : items (orElse (some (.list (kept.map .str))) (.list [])) = .ok (kept.map .str) := by
    rw [orElse]
    split
    · rfl
    · rename_i hempty
      have hnil : kept = [] := by simpa [truthy] using hempty
      rw [hnil]
      rfl
  have htexts : (kept.map Value.str).map (text host) = kept := by
    rw [List.map_map]
    exact List.map_id kept
  refine bind_eq_ok.mpr ⟨kept.map .str, hitems, ?_⟩
  rw [htexts, List.filter_eq_self.mpr fun tag htag => by rw [hnonempty tag htag]; rfl,
    List.take_of_length_le hlength]
  rfl

theorem normalInt_again {fallback : ℤ} {o : Option Value} {w : Value}
    (h : normalInt host fallback o = .ok w) (hw : w ≠ .int 0) :
    normalInt host fallback (some w) = .ok w := by
  obtain ⟨n, -, hn⟩ := bind_eq_ok.mp h
  cases pure_eq_ok.mp hn
  have hne : n ≠ 0 := fun hzero => hw (by rw [hzero])
  unfold normalInt
  rw [orElse, if_pos (by simpa [truthy] using hne)]
  rfl

/-- What a normalizer has put out it puts out again, but for a version or a priority of zero. -/
theorem normalizer_again {e : String × Normalizer} (he : e ∈ normalizers host) {o : Option Value}
    {w : Value} (h : e.2 o = .ok w) (hw : e.1 = "version" ∨ e.1 = "priority" → w ≠ .int 0) :
    e.2 (some w) = .ok w := by
  simp only [normalizers, List.mem_cons, List.not_mem_nil, or_false] at he
  rcases he with rfl | rfl | rfl | rfl | rfl | rfl | rfl | rfl | rfl | rfl
  · exact normalBool_again h
  · exact normalInt_again h (hw (.inl rfl))
  · exact normalText_again h
  · rfl
  · obtain ⟨d, rfl⟩ := normalDict_again h
    exact normalDict_dict d
  · obtain ⟨d, rfl⟩ := normalDict_again h
    exact normalDict_dict d
  · obtain ⟨d, rfl⟩ := normalDict_again h
    exact normalDict_dict d
  · obtain ⟨d, rfl⟩ := normalDict_again h
    exact normalDict_dict d
  · exact normalTags_again h
  · exact normalInt_again h (hw (.inr rfl))

/-- A normalizer that puts out a mapping puts out any mapping. -/
theorem normalizer_dict {e : String × Normalizer} (he : e ∈ normalizers host) {o : Option Value}
    {c : Entries} (h : e.2 o = .ok (.dict c)) (d : Entries) :
    e.2 (some (.dict d)) = .ok (.dict d) := by
  simp only [normalizers, List.mem_cons, List.not_mem_nil, or_false] at he
  rcases he with rfl | rfl | rfl | rfl | rfl | rfl | rfl | rfl | rfl | rfl
  · cases pure_eq_ok.mp h
  · obtain ⟨n, -, hn⟩ := bind_eq_ok.mp h
    cases pure_eq_ok.mp hn
  · cases pure_eq_ok.mp h
  · rfl
  · exact normalDict_dict d
  · exact normalDict_dict d
  · exact normalDict_dict d
  · exact normalDict_dict d
  · obtain ⟨l, -, hl⟩ := bind_eq_ok.mp h
    cases pure_eq_ok.mp hl
  · obtain ⟨n, -, hn⟩ := bind_eq_ok.mp h
    cases pure_eq_ok.mp hn

end LogRisk.RiskSemantics.Documents
