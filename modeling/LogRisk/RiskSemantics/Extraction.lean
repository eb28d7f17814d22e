import LogRisk.RiskSemantics.Documents

/-!
# Extraction on log records

Classification as it runs on a record: which rules apply, the first pattern that is found and
the fields that the rule extracts.  Validation does not look into a specification of a field,
so that what it says is only met here; `Safe` says when none of it raises.
-/

namespace LogRisk.RiskSemantics.Documents

open LogRisk.Library LogRisk.Library.Value LogRisk.Library.Transaction
open LogRisk.Library.Dict (assoc)

variable (host : Host)

/-! ## The message of a record -/

/-- The message before a unit is put in. -/
def plainMessage (record : Entries) : String :=
  text host (orElse (assoc "message_core" record) (orElse (assoc "template" record) (.str "")))

def isText (s : String) : Option Value → Bool
  | some (.str t) => t == s
  | _ => false

/-- The record is about one unit that its message does not name. -/
def namesUnit (record : Entries) : Bool :=
  isText "systemd" (assoc "component" record) &&
    decide (((plainMessage host record).splitOn unitMarker).length = 2)

/-- The unit that the fields of a record name, unless it stands for several. -/
def unitText (record : Entries) : Except Failure (Option String) :=
  match orElse (assoc "semantic_fields" record) (.dict []) with
  | .dict fields =>
      match assoc "unit" fields with
      | some (.list [.dict unit]) =>
          return if host.equal (assoc "count" unit) (assoc "count" record) then
            match assoc "value" unit with
            | some (.str s) => some s
            | _ => none
          else none
      | some (.str s) => return some s
      | _ => return none
  | _ => raise "AttributeError"

/-- `_matching_message`. -/
def matchingMessage (record : Entries) : Except Failure String :=
  if namesUnit host record then do
    let unit ← unitText host record
    return match unit with
    | some unit =>
        if isUnitName unit then (plainMessage host record).replace unitMarker unit
        else plainMessage host record
    | none => plainMessage host record
  else return plainMessage host record

/-! ## The rules that apply -/

/-- The names under a key of `match`. -/
def names (key : String) (rule : Entries) : Except Failure (List String) :=
  match assoc "match" rule with
  | some (.dict m) =>
      return (← items (orElse (assoc key m) (.list []))).map fun name => host.lower (text host name)
  | some _ => raise "AttributeError"
  | none => raise "KeyError"

/-- `_applies`. -/
def applies (rule record : Entries) : Except Failure Bool := do
  let sources ← names host "source_types" rule
  let components ← names host "components" rule
  let source := host.lower (textOf host "source_type" "unknown" record)
  let component := host.lower (textOf host "component" "unknown" record)
  return (sources.isEmpty || sources.contains source) &&
    (components.isEmpty || components.contains component)

/-- `re.search`. -/
def search (pattern message : String) : Except Failure (Option Match) :=
  match host.compileError pattern with
  | some _ => raise "re.error"
  | none => return host.search pattern message

def firstFound (message : String) : List String → Except Failure (Option Match)
  | [] => return none
  | pattern :: rest => do
      match ← search host pattern message with
      | some m => return some m
      | none => firstFound message rest

/-! ## Fields -/

/-- `found.group(1) if found else None`. -/
def groupOf : Option Match → Except Failure (Option String)
  | none => return none
  | some own =>
      match own.first with
      | .ok group => return group
      | .error _ => raise "IndexError"

/-- The text of a field, from a group of the match or from a pattern of its own. -/
def textIn (spec : Entries) (m : Match) (message : String) : Except Failure (Option String) :=
  match m.group (textOf host "from_group" "" spec) with
  | some s => return some s
  | none =>
      match orElse (assoc "regex" spec) .null with
      | .null => return none
      | pattern => search host (text host pattern) message >>= groupOf

def valueOf (spec : Entries) (s : String) : Except Failure Value :=
  if isText "integer" (assoc "type" spec) then
    match host.int s with
    | some n => return .int n
    | none => raise "ValueError"
  else if isText "pci_bdf" (assoc "normalize" spec) then return .str (host.lower (Text.strip s))
  else return .str s

/-- A field without a text is left out. -/
def entryOf (name : String) (spec : Entries) : Option String → Except Failure Entries
  | none => return []
  | some s => return [(name, ← valueOf host spec s)]

def fieldIn (m : Match) (message : String) (e : String × Value) : Except Failure Entries :=
  match e.2 with
  | .dict spec => textIn host spec m message >>= entryOf host e.1 spec
  | _ => raise "AttributeError"

/-- `_fields`. -/
def fieldsIn (rule : Entries) (m : Match) (message : String) : Except Failure Entries :=
  match (assoc "extract" rule).getD (.dict []) with
  | .dict specs => return (← specs.mapM (fieldIn host m message)).flatten
  | _ => raise "AttributeError"

/-! ## Classification -/

/-- `d[key]`. -/
def member (key : String) (d : Entries) : Except Failure Value :=
  orFail (assoc key d) (.raised "KeyError")

/-- `d[key]`, where it is looked into. -/
def mapping (key : String) (d : Entries) : Except Failure Entries :=
  match assoc key d with
  | some (.dict entries) => return entries
  | some _ => raise "TypeError"
  | none => raise "KeyError"

/-- The members of an event that are copied from the rule, under their names there. -/
def copiedMembers : List (String × String) :=
  [("semantic_rule_id", "id"), ("semantic_rule_version", "version"), ("domain", "domain"),
    ("category", "category"), ("risk_type", "risk_type"), ("dedup", "dedup"),
    ("lifecycle", "lifecycle")]

def copyMember (rule : Entries) (e : String × String) : Except Failure (String × Value) :=
  return (e.1, ← member e.2 rule)

/-- What `match` returns for a rule; the order of the members is not the one of the source. -/
def classification (rule : Entries) (m : Match) (message : String) : Except Failure Entries := do
  let copied ← copiedMembers.mapM (copyMember rule)
  let scores ← mapping "classification" rule
  let severity ← member "default_severity" scores
  let score ← toFloat host (← member "base_score" scores)
  let confidence ← toFloat host (← member "confidence" scores)
  let tags ← items (orElse (assoc "tags" rule) (.list []))
  let fields ← fieldsIn host rule m message
  return [("schema_version", .str "semantic_event_v1"),
    ("risk_subtype", (assoc "risk_subtype" rule).getD .null), ("severity", severity),
    ("base_score", .float score), ("confidence", .float confidence),
    ("semantic_fields", .dict fields),
    ("hard_override", (assoc "hard_override" scores).getD .null),
    ("recommendation", orElse (assoc "recommendation" rule) (.dict [])), ("tags", .list tags)]
    ++ copied

def unclassifiedFailure : Failure := .semantic unclassified

/-- `match` over the effective rules. -/
def matchIn (record : Entries) (message : String) : List Entries → Except Failure Entries
  | [] => .error unclassifiedFailure
  | rule :: rest => do
      if ¬ (← applies host rule record) then matchIn record message rest
      else
        let patterns ← orFail (patternsOf rule) (.raised "TypeError")
        match ← firstFound host message patterns with
        | none => matchIn record message rest
        | some m => classification host rule m message

def matchRecord (rules : List Entries) (record : Entries) : Except Failure Entries := do
  let message ← matchingMessage host record
  matchIn host record message rules

/-! ## What a validated rule has -/

/-- A rule that validation and the test on its samples accept. -/
structure Accepted (rule : Entries) : Prop where
  validated : ∃ raw, validateRule host raw = .ok rule
  tested : ∃ report, test host rule = .ok report ∧ report.valid = true

/-- The members of a rule that classification reads, but for what it extracts. -/
structure Readable (rule : Entries) : Prop where
  patterns : ∃ patterns, patternsOf rule = some patterns ∧
    ∀ pattern ∈ patterns, host.compileError pattern = none
  matching : ∃ m, assoc "match" rule = some (.dict m)
  copied : ∀ e ∈ copiedMembers, ∃ v, assoc e.2 rule = some v
  scores : ∃ c, assoc "classification" rule = some (.dict c) ∧
    (∃ severity, assoc "default_severity" c = some severity) ∧
    (∃ v score, assoc "base_score" c = some v ∧ toFloat host v = .ok score) ∧
    ∃ v confidence, assoc "confidence" c = some v ∧ toFloat host v = .ok confidence
  tags : ∃ tags, assoc "tags" rule = some (.list tags)
  extract : ∃ specs, assoc "extract" rule = some (.dict specs)

variable {host}

theorem patternsOf_congr {rule rule' : Entries} (h : assoc "match" rule = assoc "match" rule') :
    patternsOf rule = patternsOf rule' := by
  unfold patternsOf
  rw [h]

theorem matching_of_patternsOf {rule : Entries} {patterns : List String}
    (h : patternsOf rule = some patterns) : ∃ m, assoc "match" rule = some (.dict m) := by
  unfold patternsOf at h
  split at h
  · rename_i m hm
    exact ⟨m, hm⟩
  · cases h

theorem isSome_of_name {rule : Entries} {field : String}
    (h : Text.strip (textOf host field "" rule) ≠ "") : ∃ v, assoc field rule = some v := by
  cases hv : assoc field rule with
  | some v => exact ⟨v, rfl⟩
  | none =>
      unfold textOf at h
      rw [hv] at h
      exact absurd rfl h

theorem isSome_of_isRuleId {rule : Entries} (h : isRuleId (ruleId rule) = true) :
    ∃ s, assoc "id" rule = some (.str s) := by
  unfold ruleId textAt at h
  split at h
  · rename_i s hs
    exact ⟨s, hs⟩
  · cases h

/-- Validation leaves nothing open but what is extracted. -/
theorem readable_of_validated {raw : Value} {rule : Entries} (h : validateRule host raw = .ok rule) :
    Readable host rule := by
  obtain ⟨given, added, -, hcheck, hadded, rfl⟩ := validateRule_ok h
  obtain ⟨hnames, -, hpatterns, hclass, hdedup⟩ := checkRule_ok.mp hcheck
  obtain ⟨hid, hfields, -⟩ := checkNames_ok.mp hnames
  obtain ⟨patterns, hsome, hcompiles⟩ := checkPatterns_ok.mp hpatterns
  obtain ⟨c, hc, hseverity, score, hscore, confidence, hconfidence, hlow, hhigh⟩ :=
    checkClassification_ok.mp hclass
  obtain ⟨d, hd, -⟩ := checkDedup_ok.mp hdedup
  have hkept : ∀ {k : String}, k ∉ writtenKeys → assoc k (update given added) = assoc k given :=
    fun hk => assoc_validated_other hadded hk
  have hmatch : assoc "match" (update given added) = assoc "match" given :=
    hkept (by simp [writtenKeys])
  refine ⟨⟨patterns, ?_, fun p hp => (hcompiles p hp).2⟩, ?_, ?_, ⟨c, ?_, ?_, ?_, ?_⟩, ?_, ?_⟩
  · rw [patternsOf_congr hmatch, hsome]
  · rw [hmatch]
    exact matching_of_patternsOf hsome
  · have hname : ∀ field ∈ requiredNames, field ∉ writtenKeys →
        ∃ v, assoc field (update given added) = some v := by
      intro field hfield hk
      rw [hkept hk]
      exact isSome_of_name (hfields field hfield)
    have hfilled : ∀ e ∈ normalizers host, ∃ v, assoc e.1 (update given added) = some v := by
      intro e he
      obtain ⟨w, -, hw⟩ := assoc_validated hadded he
      exact ⟨w, hw⟩
    simp only [copiedMembers, List.forall_mem_cons, List.not_mem_nil, false_imp_iff, implies_true,
      and_true]
    refine ⟨?_, ?_, ?_, ?_, ?_, ?_, ?_⟩
    · rw [hkept (by simp [writtenKeys])]
      exact (isSome_of_isRuleId hid).imp' Value.str fun _ hs => hs
    · exact hfilled ("version", normalInt host 1) (by simp [normalizers])
    · exact hname "domain" (by simp [requiredNames]) (by simp [writtenKeys])
    · exact hname "category" (by simp [requiredNames]) (by simp [writtenKeys])
    · exact hname "risk_type" (by simp [requiredNames]) (by simp [writtenKeys])
    · rw [hkept (by simp [writtenKeys])]
      exact ⟨_, hd⟩
    · exact hfilled ("lifecycle", normalDict host) (by simp [normalizers])
  · rw [hkept (by simp [writtenKeys])]
    exact hc
  · obtain ⟨s, hs, -⟩ := checkSeverity_ok hseverity
    exact ⟨_, hs⟩
  · exact given_of_between hscore hlow
  · exact given_of_between hconfidence hhigh
  · obtain ⟨w, hw, hsome⟩ := assoc_validated hadded (e := ("tags", normalTags host))
      (by simp [normalizers])
    obtain ⟨tags, -, hw⟩ := bind_eq_ok.mp hw
    rw [← pure_eq_ok.mp hw] at hsome
    exact ⟨_, hsome⟩
  · obtain ⟨w, hw, hsome⟩ := assoc_validated hadded (e := ("extract", normalDict host))
      (by simp [normalizers])
    obtain ⟨specs, -, hw⟩ := bind_eq_ok.mp hw
    rw [← pure_eq_ok.mp hw] at hsome
    exact ⟨_, hsome⟩

/-! ## What is raised -/

/-- An exception of the language, not one of the service. -/
def IsRaised : Failure → Prop
  | .raised _ => True
  | .semantic _ => False

theorem raises_raise {α : Type} (type : String) : Raises IsRaised (raise type : Except Failure α) :=
  .error trivial

theorem raises_items (v : Value) : Raises IsRaised (items v) := by
  unfold items
  split
  · exact .pure _
  · exact .pure _
  · exact .pure _
  · exact raises_raise _

theorem raises_member (key : String) (d : Entries) : Raises IsRaised (member key d) := by
  unfold member orFail
  split
  · exact .pure _
  · exact .error trivial

theorem raises_toFloat (v : Value) : Raises IsRaised (toFloat host v) := by
  unfold toFloat
  split
  · exact .pure _
  · split
    · exact raises_raise _
    · exact .pure _
  · exact .pure _
  · split
    · exact .pure _
    · exact raises_raise _
  · exact raises_raise _

theorem raises_search (pattern message : String) : Raises IsRaised (search host pattern message) := by
  unfold search
  split
  · exact raises_raise _
  · exact .pure _

theorem raises_names (key : String) (rule : Entries) : Raises IsRaised (names host key rule) := by
  unfold names
  split
  · exact (raises_items _).bind fun _ _ => .pure _
  · exact raises_raise _
  · exact raises_raise _

theorem raises_applies (rule record : Entries) : Raises IsRaised (applies host rule record) :=
  (raises_names _ _).bind fun _ _ => (raises_names _ _).bind fun _ _ => .pure _

theorem raises_textIn (spec : Entries) (m : Match) (message : String) :
    Raises IsRaised (textIn host spec m message) := by
  unfold textIn
  split
  · exact .pure _
  · split
    · exact .pure _
    · refine (raises_search _ _).bind fun found _ => ?_
      unfold groupOf
      split
      · exact .pure _
      · split
        · exact .pure _
        · exact raises_raise _

theorem raises_valueOf (spec : Entries) (s : String) : Raises IsRaised (valueOf host spec s) := by
  unfold valueOf
  split
  · split
    · exact .pure _
    · exact raises_raise _
  · split
    · exact .pure _
    · exact .pure _

theorem raises_fieldIn (m : Match) (message : String) (e : String × Value) :
    Raises IsRaised (fieldIn host m message e) := by
  unfold fieldIn
  split
  · refine (raises_textIn _ _ _).bind fun found _ => ?_
    cases found with
    | none => exact .pure _
    | some s => exact (raises_valueOf _ _).bind fun _ _ => .pure _
  · exact raises_raise _

theorem raises_fieldsIn (rule : Entries) (m : Match) (message : String) :
    Raises IsRaised (fieldsIn host rule m message) := by
  unfold fieldsIn
  split
  · exact (Raises.mapM fun e _ => raises_fieldIn m message e).bind fun _ _ => .pure _
  · exact raises_raise _

theorem raises_unitText (record : Entries) : Raises IsRaised (unitText host record) := by
  unfold unitText
  split
  · split
    · exact .pure _
    · exact .pure _
    · exact .pure _
  · exact raises_raise _

theorem raises_matchingMessage (record : Entries) :
    Raises IsRaised (matchingMessage host record) := by
  unfold matchingMessage
  split
  · exact (raises_unitText record).bind fun _ _ => .pure _
  · exact .pure _

/-! ## When nothing is raised -/

variable (host)

/-- A text can be made the value of the field. -/
def Convertible (spec : Entries) (s : String) : Prop :=
  isText "integer" (assoc "type" spec) = true → (host.int s).isSome

/-- A specification that can be followed on a match: the text comes from a group, or the pattern
of its own compiles and has a group; an integer is asked for only where the text is one. -/
def Extractable (m : Match) (message : String) (spec : Entries) : Prop :=
  match m.group (textOf host "from_group" "" spec) with
  | some s => Convertible host spec s
  | none =>
      match orElse (assoc "regex" spec) .null with
      | .null => True
      | pattern => host.compileError (text host pattern) = none ∧
          ∀ own, host.search (text host pattern) message = some own →
            ∃ group, own.first = .ok group ∧ ∀ s, group = some s → Convertible host spec s

/-- All fields of the rule are specified by mappings that can be followed. -/
def Extracts (m : Match) (message : String) (rule : Entries) : Prop :=
  ∀ specs, assoc "extract" rule = some (.dict specs) →
    ∀ e ∈ specs, ∃ spec, e.2 = .dict spec ∧ Extractable host m message spec

/-- A value that a loop can run through. -/
def Iterable : Value → Prop
  | .list _ => True
  | .str _ => True
  | .dict _ => True
  | _ => False

/-- The names that a rule applies to can be run through. -/
def Named (rule : Entries) : Prop :=
  ∀ m, assoc "match" rule = some (.dict m) → ∀ key ∈ ["source_types", "components"],
    Iterable (orElse (assoc key m) (.list []))

/-- The first pattern of a rule that is found. -/
def foundIn (rule : Entries) (message : String) : Option Match :=
  ((patternsOf rule).getD []).findSome? fun pattern => host.search pattern message

/-- Up to the rule that is found, the names can be run through; that rule extracts. -/
def Safe (record : Entries) (message : String) : List Entries → Prop
  | [] => True
  | rule :: rest => Named rule ∧
      (applies host rule record = .ok false → Safe record message rest) ∧
      (applies host rule record = .ok true →
        (∀ m, foundIn host rule message = some m → Extracts host m message rule) ∧
          (foundIn host rule message = none → Safe record message rest))

/-- The unit of a record can be looked up, where it is. -/
def UnitReadable (record : Entries) : Prop :=
  namesUnit host record = true →
    ∃ fields, orElse (assoc "semantic_fields" record) (.dict []) = .dict fields

/-- A classification, or the error that there is none. -/
def Settled (outcome : Except Failure Entries) : Prop :=
  (∃ event, outcome = .ok event) ∨ outcome = .error unclassifiedFailure

variable {host}

theorem Settled.of_raises {outcome : Except Failure Entries} (h : Raises IsRaised outcome) :
    Settled outcome ↔ ∃ event, outcome = .ok event := by
  refine ⟨fun hsettled => hsettled.resolve_right fun herror => ?_, .inl⟩
  exact h _ herror

theorem isOk_items {v : Value} : (∃ l, items v = .ok l) ↔ Iterable v := by
  unfold items Iterable
  cases v with
  | list l => exact ⟨fun _ => trivial, fun _ => ⟨_, rfl⟩⟩
  | str s => exact ⟨fun _ => trivial, fun _ => ⟨_, rfl⟩⟩
  | dict d => exact ⟨fun _ => trivial, fun _ => ⟨_, rfl⟩⟩
  | null => exact ⟨fun ⟨_, h⟩ => (nomatch h), fun h => h.elim⟩
  | bool b => exact ⟨fun ⟨_, h⟩ => (nomatch h), fun h => h.elim⟩
  | int n => exact ⟨fun ⟨_, h⟩ => (nomatch h), fun h => h.elim⟩
  | float x => exact ⟨fun ⟨_, h⟩ => (nomatch h), fun h => h.elim⟩

theorem isOk_names {key : String} {rule m : Entries} (hm : assoc "match" rule = some (.dict m)) :
    (∃ l, names host key rule = .ok l) ↔ Iterable (orElse (assoc key m) (.list [])) := by
  unfold names
  simp only [hm, bind_eq_ok, pure_eq_ok]
  rw [← isOk_items]
  constructor
  · rintro ⟨_, l, hl, -⟩
    exact ⟨l, hl⟩
  · rintro ⟨l, hl⟩
    exact ⟨_, l, hl, rfl⟩

variable (host) in
theorem isOk_applies (record : Entries) {rule : Entries} (h : ∃ m, assoc "match" rule = some (.dict m)) :
    (∃ b, applies host rule record = .ok b) ↔ Named rule := by
  obtain ⟨m, hm⟩ := h
  have hnamed : Named rule ↔ (∃ l, names host "source_types" rule = .ok l) ∧
      ∃ l, names host "components" rule = .ok l := by
    rw [isOk_names hm, isOk_names hm]
    unfold Named
    constructor
    · intro h
      exact ⟨h m hm _ (by simp), h m hm _ (by simp)⟩
    · rintro ⟨hsources, hcomponents⟩ m' hm' key hkey
      cases hm.symm.trans hm'
      simp only [List.mem_cons, List.not_mem_nil, or_false] at hkey
      rcases hkey with rfl | rfl
      · exact hsources
      · exact hcomponents
  rw [hnamed]
  unfold applies
  simp only [bind_eq_ok, pure_eq_ok]
  constructor
  · rintro ⟨_, l, hl, l', hl', -⟩
    exact ⟨⟨l, hl⟩, l', hl'⟩
  · rintro ⟨⟨l, hl⟩, l', hl'⟩
    exact ⟨_, l, hl, l', hl', rfl⟩

theorem isOk_valueOf {spec : Entries} {s : String} :
    (∃ v, valueOf host spec s = .ok v) ↔ Convertible host spec s := by
  unfold valueOf Convertible
  by_cases hinteger : isText "integer" (assoc "type" spec) = true
  · rw [if_pos hinteger]
    cases host.int s with
    | none => exact ⟨fun ⟨_, h⟩ => (nomatch h), fun h => (nomatch h hinteger)⟩
    | some n => exact ⟨fun _ _ => rfl, fun _ => ⟨_, rfl⟩⟩
  · rw [if_neg hinteger]
    refine ⟨fun _ h => absurd h hinteger, fun _ => ?_⟩
    split
    · exact ⟨_, rfl⟩
    · exact ⟨_, rfl⟩

theorem isOk_entryOf {name : String} {spec : Entries} {found : Option String} :
    (∃ fields, entryOf host name spec found = .ok fields) ↔
      ∀ s, found = some s → Convertible host spec s := by
  cases found with
  | none => exact ⟨fun _ s hs => (nomatch hs), fun _ => ⟨_, rfl⟩⟩
  | some s =>
      simp only [entryOf, bind_eq_ok, pure_eq_ok, Option.some.injEq, forall_eq', ← isOk_valueOf]
      exact ⟨fun ⟨_, v, hv, _⟩ => ⟨v, hv⟩, fun ⟨v, hv⟩ => ⟨_, v, hv, rfl⟩⟩

/-- The text that a pattern of a field's own yields. -/
theorem isOk_ownText {spec : Entries} {message pattern : String} :
    (∃ found, (search host pattern message >>= groupOf) = .ok found ∧
        ∀ s, found = some s → Convertible host spec s) ↔
      host.compileError pattern = none ∧ ∀ own, host.search pattern message = some own →
        ∃ group, own.first = .ok group ∧ ∀ s, group = some s → Convertible host spec s := by
  unfold search
  cases host.compileError pattern with
  | some error => exact ⟨fun ⟨_, h, _⟩ => (nomatch h), fun h => (nomatch h.1)⟩
  | none =>
      have hbind : ((pure (host.search pattern message) : Except Failure (Option Match)) >>= groupOf) =
          groupOf (host.search pattern message) := rfl
      simp only [hbind, true_and]
      cases host.search pattern message with
      | none => exact ⟨fun _ own hown => (nomatch hown), fun _ => ⟨none, rfl, fun s hs => (nomatch hs)⟩⟩
      | some own =>
          simp only [Option.some.injEq, forall_eq']
          obtain ⟨groups, first⟩ := own
          cases first with
          | error e => exact ⟨fun ⟨_, h, _⟩ => (nomatch h), fun ⟨_, h, _⟩ => (nomatch h)⟩
          | ok group =>
              constructor
              · rintro ⟨found, h, hconvert⟩
                cases h
                exact ⟨group, rfl, hconvert⟩
              · rintro ⟨found, h, hconvert⟩
                cases h
                exact ⟨group, rfl, hconvert⟩

theorem isOk_textIn {m : Match} {message : String} {spec : Entries} :
    (∃ found, textIn host spec m message = .ok found ∧
        ∀ s, found = some s → Convertible host spec s) ↔ Extractable host m message spec := by
  unfold textIn Extractable
  split
  · simp only [pure_eq_ok, exists_eq_left', Option.some.injEq, forall_eq']
  · split
    · exact ⟨fun _ => trivial, fun _ => ⟨none, rfl, fun s hs => (nomatch hs)⟩⟩
    · exact isOk_ownText

/-- A field goes through exactly when its specification can be followed. -/
theorem isOk_fieldIn {m : Match} {message : String} {e : String × Value} :
    (∃ fields, fieldIn host m message e = .ok fields) ↔
      ∃ spec, e.2 = .dict spec ∧ Extractable host m message spec := by
  unfold fieldIn
  split
  · rename_i spec hspec
    rw [hspec]
    simp only [bind_eq_ok, Value.dict.injEq, exists_eq_left', ← isOk_textIn]
    rw [exists_comm]
    refine exists_congr fun found => ?_
    rw [exists_and_left, isOk_entryOf]
  · rename_i hother
    constructor
    · rintro ⟨_, h⟩
      cases h
    · rintro ⟨spec, hspec, -⟩
      exact absurd hspec (hother spec)

theorem isOk_fieldsIn {rule : Entries} {m : Match} {message : String} (h : Readable host rule) :
    (∃ fields, fieldsIn host rule m message = .ok fields) ↔ Extracts host m message rule := by
  obtain ⟨specs, hspecs⟩ := h.extract
  unfold fieldsIn Extracts
  simp only [hspecs, Option.getD_some, bind_eq_ok, pure_eq_ok, Option.some.injEq, Value.dict.injEq,
    forall_eq', ← isOk_fieldIn, ← mapM_isOk_iff]
  constructor
  · rintro ⟨_, l, hl, -⟩
    exact ⟨l, hl⟩
  · rintro ⟨l, hl⟩
    exact ⟨_, l, hl, rfl⟩

theorem member_of_some {key : String} {d : Entries} {v : Value} (h : assoc key d = some v) :
    member key d = .ok v := by
  unfold member
  rw [h]
  rfl

/-- Of a validated rule, a classification needs its fields only. -/
theorem isOk_classification {rule : Entries} {m : Match} {message : String}
    (h : Readable host rule) :
    (∃ event, classification host rule m message = .ok event) ↔ Extracts host m message rule := by
  obtain ⟨c, hc, ⟨severity, hseverity⟩, ⟨v, score, hv, hscore⟩, w, confidence, hw, hconfidence⟩ :=
    h.scores
  obtain ⟨copied, hcopied⟩ : ∃ copied, copiedMembers.mapM (copyMember rule) = .ok copied := by
    refine mapM_isOk_iff.mpr fun e he => ?_
    obtain ⟨v, hv⟩ := h.copied e he
    exact ⟨(e.1, v), bind_eq_ok.mpr ⟨v, member_of_some hv, rfl⟩⟩
  obtain ⟨l, hl⟩ := h.tags
  obtain ⟨tags, htags⟩ : ∃ tags, items (orElse (assoc "tags" rule) (.list [])) = .ok tags := by
    rw [hl, orElse]
    split
    · exact ⟨_, rfl⟩
    · exact ⟨_, rfl⟩
  have hmapping : mapping "classification" rule = .ok c := by
    unfold mapping
    rw [hc]
    rfl
  rw [← isOk_fieldsIn h]
  unfold classification
  simp only [bind_eq_ok, pure_eq_ok, hcopied, hmapping, member_of_some hseverity, member_of_some hv,
    hscore, member_of_some hw, hconfidence, htags, Except.ok.injEq, exists_eq_left']
  constructor
  · rintro ⟨_, fields, hfields, -⟩
    exact ⟨fields, hfields⟩
  · rintro ⟨fields, hfields⟩
    exact ⟨_, fields, hfields, rfl⟩

theorem raises_classification {rule : Entries} {m : Match} {message : String} :
    Raises IsRaised (classification host rule m message) := by
  unfold classification
  refine (Raises.mapM fun e _ => (raises_member _ _).bind fun _ _ => .pure _).bind fun _ _ => ?_
  refine Raises.bind ?_ fun scores _ => ?_
  · unfold mapping
    split
    · exact .pure _
    · exact raises_raise _
    · exact raises_raise _
  refine (raises_member _ _).bind fun _ _ => (raises_member _ _).bind fun _ _ => ?_
  refine (raises_toFloat _).bind fun _ _ => (raises_member _ _).bind fun _ _ => ?_
  refine (raises_toFloat _).bind fun _ _ => (raises_items _).bind fun _ _ => ?_
  exact (raises_fieldsIn _ _ _).bind fun _ _ => .pure _

/-- Patterns that compile are looked for one after the other. -/
theorem firstFound_eq {message : String} {patterns : List String}
    (h : ∀ pattern ∈ patterns, host.compileError pattern = none) :
    firstFound host message patterns =
      .ok (patterns.findSome? fun pattern => host.search pattern message) := by
  induction patterns with
  | nil => rfl
  | cons pattern rest ih =>
      have hsearch : search host pattern message = .ok (host.search pattern message) := by
        unfold search
        rw [h pattern List.mem_cons_self]
        rfl
      rw [firstFound, hsearch, List.findSome?_cons]
      cases host.search pattern message with
      | some m => rfl
      | none => exact ih fun p hp => h p (List.mem_cons_of_mem pattern hp)

/-- One rule of the list, by what the code finds out about it. -/
theorem matchIn_cons {record rule : Entries} {message : String} {rest : List Entries}
    (h : Readable host rule) : matchIn host record message (rule :: rest) =
      applies host rule record >>= fun applied =>
        if ¬ applied then matchIn host record message rest
        else match foundIn host rule message with
        | none => matchIn host record message rest
        | some m => classification host rule m message := by
  obtain ⟨patterns, hpatterns, hcompiles⟩ := h.patterns
  rw [matchIn]
  refine bind_congr fun applied => ?_
  by_cases happlied : applied = true
  · rw [if_neg (not_not.mpr happlied), if_neg (not_not.mpr happlied)]
    have hfound : foundIn host rule message =
        patterns.findSome? fun pattern => host.search pattern message := by
      unfold foundIn
      rw [hpatterns]
      rfl
    rw [hpatterns, hfound]
    change (firstFound host message patterns >>= _) = _
    rw [firstFound_eq hcompiles]
    rfl
  · rw [if_pos happlied, if_pos happlied]

/-- Over validated rules, nothing but the one error is raised exactly on the safe records. -/
theorem settled_matchIn {record : Entries} {message : String} {rules : List Entries}
    (h : ∀ rule ∈ rules, Readable host rule) :
    Settled (matchIn host record message rules) ↔ Safe host record message rules := by
  induction rules with
  | nil => exact ⟨fun _ => trivial, fun _ => .inr rfl⟩
  | cons rule rest ih =>
      have hrule := h rule List.mem_cons_self
      have hrest := ih fun r hr => h r (List.mem_cons_of_mem rule hr)
      rw [matchIn_cons hrule]
      unfold Safe
      rw [← isOk_applies host record hrule.matching]
      cases happlies : applies host rule record with
      | error e =>
          have hraised : Raises IsRaised (Except.error e : Except Failure Entries) :=
            .error (raises_applies rule record e happlies)
          refine ⟨fun hsettled => ?_, fun hsafe => ?_⟩
          · obtain ⟨event, hevent⟩ := (Settled.of_raises hraised).mp hsettled
            cases hevent
          · obtain ⟨b, hb⟩ := hsafe.1
            cases hb
      | ok applied =>
          cases applied with
          | false =>
              refine ⟨fun hsettled => ⟨⟨_, rfl⟩, fun _ => hrest.mp hsettled, fun happlied => ?_⟩,
                fun hsafe => hrest.mpr (hsafe.2.1 rfl)⟩
              cases happlied
          | true =>
              change Settled (match foundIn host rule message with
                | none => matchIn host record message rest
                | some m => classification host rule m message) ↔ _
              cases hfound : foundIn host rule message with
              | none =>
                  refine ⟨fun hsettled => ⟨⟨_, rfl⟩, fun happlied => (nomatch happlied), fun _ =>
                    ⟨fun m hm => (nomatch hm), fun _ => hrest.mp hsettled⟩⟩, fun hsafe => ?_⟩
                  exact hrest.mpr ((hsafe.2.2 rfl).2 rfl)
              | some m =>
                  rw [Settled.of_raises raises_classification, isOk_classification hrule]
                  refine ⟨fun hextracts => ⟨⟨_, rfl⟩, fun happlied => (nomatch happlied), fun _ =>
                    ⟨fun m' hm' => ?_, fun hnone => (nomatch hnone)⟩⟩, fun hsafe => ?_⟩
                  · cases hm'
                    exact hextracts
                  · exact (hsafe.2.2 rfl).1 m rfl

theorem isOk_matchingMessage {record : Entries} :
    (∃ message, matchingMessage host record = .ok message) ↔ UnitReadable host record := by
  unfold matchingMessage UnitReadable
  by_cases hnames : namesUnit host record = true
  · rw [if_pos hnames]
    simp only [bind_eq_ok, pure_eq_ok, hnames, true_imp_iff]
    have hunit : ∀ filled : Option String → String,
        (∃ message unit, unitText host record = .ok unit ∧ filled unit = message) ↔
          ∃ unit, unitText host record = .ok unit := by
      intro filled
      constructor
      · rintro ⟨_, unit, hunit, -⟩
        exact ⟨unit, hunit⟩
      · rintro ⟨unit, hunit⟩
        exact ⟨_, unit, hunit, rfl⟩
    refine (hunit _).trans ?_
    unfold unitText
    split
    · rename_i fields hfields
      rw [hfields]
      refine ⟨fun _ => ⟨fields, rfl⟩, fun _ => ?_⟩
      split
      · exact ⟨_, rfl⟩
      · exact ⟨_, rfl⟩
      · exact ⟨_, rfl⟩
    · rename_i hother
      constructor
      · rintro ⟨_, h⟩
        cases h
      · rintro ⟨fields, hfields⟩
        exact absurd hfields (hother fields)
  · rw [if_neg hnames]
    exact ⟨fun _ h => absurd h hnames, fun _ => ⟨_, rfl⟩⟩

/-- Classification with accepted rules ends in an event or in the error that there is none
exactly when the unit can be looked up and the rule that is found can be followed. -/
theorem classifies_iff {rules : List Entries} (hrules : ∀ rule ∈ rules, Accepted host rule)
    (record : Entries) : Settled (matchRecord host rules record) ↔
      UnitReadable host record ∧
        ∀ message, matchingMessage host record = .ok message → Safe host record message rules := by
  have hreadable : ∀ rule ∈ rules, Readable host rule := fun rule hrule =>
    (hrules rule hrule).validated.elim fun _ h => readable_of_validated h
  rw [← isOk_matchingMessage]
  unfold matchRecord
  cases hmessage : matchingMessage host record with
  | error e =>
      have hraised : Raises IsRaised (Except.error e : Except Failure Entries) :=
        .error (raises_matchingMessage record e hmessage)
      refine ⟨fun hsettled => ?_, fun h => ?_⟩
      · obtain ⟨event, hevent⟩ := (Settled.of_raises hraised).mp hsettled
        cases hevent
      · obtain ⟨message, hmessage⟩ := h.1
        cases hmessage
  | ok message =>
      refine (settled_matchIn hreadable).trans ⟨fun hsafe => ⟨⟨_, rfl⟩, fun message' h => ?_⟩,
        fun h => h.2 message rfl⟩
      cases h
      exact hsafe

/-! ## A text where an integer is asked for -/

/-- A host for the pattern `error (?P<code>\w+)` on texts that begin with it. -/
def wordHost : Host where
  compileError _ := none
  search _ s :=
    if "error ".toList.isPrefixOf s.toList then
      some { group := fun g => if g = "code" then some (String.ofList (s.toList.drop 6)) else none }
    else none
  int s := if s = "5" then some 5 else none
  float _ := none
  floatText _ := ""
  listText _ := ""
  dictText _ := ""
  keyText _ := none
  lower := Text.lower
  equal _ _ := true
  digest _ := ""

/-- A rule that reads the word after `error` as an integer. -/
def codeRule : Entries :=
  [("id", .str "user.code"), ("risk_type", .str "app.code"), ("display_name", .str "code"),
    ("domain", .str "app"), ("category", .str "app"),
    ("match", .dict [("message_regex", .list [.str "error (?P<code>\\w+)"])]),
    ("classification", .dict [("default_severity", .str "low"), ("base_score", .int 20),
      ("confidence", .int 1)]),
    ("dedup", .dict [("key_fields", .list []), ("window_seconds", .int 60)]),
    ("extract", .dict [("code", .dict [("type", .str "integer"), ("from_group", .str "code")])]),
    ("test_samples", .dict [("positive", .list [.str "error 5"])])]

def storedCodeRule : Entries := (validateRule wordHost (.dict codeRule)).toOption.getD []

theorem accepted_storedCodeRule : Accepted wordHost storedCodeRule where
  validated := ⟨.dict codeRule, eq_ok_getD (by decide +kernel) []⟩
  tested := ⟨_, eq_ok_getD (by decide +kernel) { errors := [] }, by decide +kernel⟩

theorem code_classifies :
    Settled (matchRecord wordHost [storedCodeRule] [("message_core", .str "error 5")]) ↔
      UnitReadable wordHost [("message_core", .str "error 5")] ∧
        ∀ message, matchingMessage wordHost [("message_core", .str "error 5")] = .ok message →
          Safe wordHost [("message_core", .str "error 5")] message [storedCodeRule] :=
  classifies_iff (fun rule hrule => by
    rw [List.mem_singleton.mp hrule]
    exact accepted_storedCodeRule) _

def isValueError : Except Failure Entries → Bool
  | .error (.raised type) => type == "ValueError"
  | _ => false

/-- A word that is no number raises, although rule and sample have been accepted. -/
theorem word_not_settled : ¬ ∀ (host : Host) (rules : List Entries) (record : Entries),
    (∀ rule ∈ rules, Accepted host rule) → Settled (matchRecord host rules record) := by
  intro h
  have hraises : isValueError
      (matchRecord wordHost [storedCodeRule] [("message_core", .str "error abc")]) = true := by
    decide +kernel
  have hsettled := h wordHost [storedCodeRule] [("message_core", .str "error abc")] fun rule hrule => by
    rw [List.mem_singleton.mp hrule]
    exact accepted_storedCodeRule
  rcases hsettled with ⟨event, hevent⟩ | hevent
  · rw [hevent] at hraises
    cases hraises
  · rw [hevent] at hraises
    cases hraises

end LogRisk.RiskSemantics.Documents
