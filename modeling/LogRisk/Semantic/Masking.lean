import LogRisk.Library.Checks
import LogRisk.Library.Splice
import LogRisk.Semantic.Schema
import Mathlib.Data.List.Perm.Subperm

/-!
# Typed masks

`SemanticExtractor.extract` with all it returns.  Every rule that fires leaves the span of its
group, and the spans are masked from the right at the offsets of the message.  The outcome is
followed character by character: which come from the message, and which from whose mask.
-/

namespace LogRisk.Semantic.Masking

open LogRisk.Library LogRisk.Library.Transaction LogRisk.Library.Splice

/-- A span of a text of the length. -/
structure Place (length : ℕ) where
  start : ℕ
  stop : ℕ
  ordered : start ≤ stop
  inside : stop ≤ length

structure Engine where
  compile : String → Except String (List String)
  /-- `re.search`: the span of each named group, none where the group took no part. -/
  search (pattern message : String) : Option (String → Option (Place message.length))
  int : String → Option ℤ
  digest : Payload → String

def textAt (message : String) (place : Place message.length) : String :=
  String.ofList ((message.toList.take place.stop).drop place.start)

/-- What validation and the reading of values need. -/
def Engine.host (E : Engine) : Host where
  compile := E.compile
  search := fun pattern message =>
    (E.search pattern message).map fun groups group => (groups group).map (textAt message)
  int := E.int
  digest := E.digest

/-! ## The source -/

/-- `dict(rule, dictionary_id=…)`. -/
structure BoundRule extends Rule where
  dictionaryId : String

structure Parameter where
  field : String
  value : Value
  typedMask : String
  ruleId : String
  dictionaryId : String
deriving DecidableEq

/-- The variables of the loop over the rules. -/
structure Extraction where
  fields : List (String × Value) := []
  tags : List String := []
  parameters : List Parameter := []
  matchedRuleIds : List String := []
  spans : List (Edit Char) := []

structure Result where
  semanticFields : List (String × Value)
  semanticTags : List String
  typedParameters : List Parameter
  typedMessage : String
  matchedRuleIds : List String
deriving DecidableEq

/-- The rules of the dictionaries by `(-priority, rule_id)`. -/
def rulesOf (dictionaries : List Dictionary) : List BoundRule :=
  (dictionaries.flatMap fun d => d.rules.map fun r => ⟨r, d.dictionaryId⟩).insertionSort fun r r' =>
    r'.priority < r.priority ∨ r.priority = r'.priority ∧ r.ruleId ≤ r'.ruleId

def addTags (tags new : List String) : List String :=
  new.foldl (fun tags tag => if tag ∈ tags then tags else tags ++ [tag]) tags

def maskOf (rule : BoundRule) : String := "<" ++ rule.typedMask ++ ">"

section Extract

variable (E : Engine) (message sourceType component : String)

/-- The span of a rule's group in the message. -/
def placeOf (rule : BoundRule) : Option (Place message.length) :=
  (E.search rule.pattern message).bind fun groups => groups rule.group

/-- `match.span` of a group that took no part is `(-1, -1)`. -/
def editOf (rule : BoundRule) : Edit Char where
  start := (placeOf E message rule).elim (-1) fun place => place.start
  stop := (placeOf E message rule).elim (-1) fun place => place.stop
  label := maskOf rule
  mask := (maskOf rule).toList

/-- What a rule adds that has matched. -/
def fire (x : Extraction) (rule : BoundRule) : Except Exn Extraction := do
  let value ← valueOf E.host rule.toRule ((placeOf E message rule).map (textAt message))
  let fields ← addValue E.host x.fields rule.toRule value
  return {
    fields, tags := addTags x.tags rule.tags
    parameters := x.parameters ++
      [⟨rule.field, value, maskOf rule, rule.ruleId, rule.dictionaryId⟩]
    matchedRuleIds := x.matchedRuleIds ++ [rule.ruleId]
    spans := x.spans ++ [editOf E message rule] }

/-- One pass of the loop over the rules. -/
def extractRule (x : Extraction) (rule : BoundRule) : Except Exn Extraction :=
  if maxFields ≤ x.fields.length ∨ x.fields.any (·.1 = rule.field) ∨
      ¬ applies rule.toRule sourceType component then return x
  else match E.search rule.pattern message with
  | none => return x
  | some _ => fire E message x rule

def scan (rules : List BoundRule) : Except Exn Extraction :=
  rules.foldlM (extractRule E message sourceType component) {}

def extract (rules : List BoundRule) : Except Exn Result := do
  let x ← scan E message sourceType component rules
  return {
    semanticFields := x.fields, semanticTags := x.tags.take 16, typedParameters := x.parameters
    typedMessage := String.ofList (splice message.toList x.spans)
    matchedRuleIds := x.matchedRuleIds }

end Extract

/-! ## Where characters come from -/

inductive Origin where
  | message (position : ℕ)
  | mask (edit position : ℕ)
deriving DecidableEq

def positions (length : ℕ) : List Origin := (List.range length).map .message

/-- The edits with masks whose characters tell where they are from. -/
def traced (edits : List (Edit Char)) : List (Edit Origin) :=
  edits.zipIdx.map fun (a, i) => ⟨a.start, a.stop, a.label, (List.range a.mask.length).map (.mask i)⟩

/-- The character at an origin. -/
def charAt (message : String) (edits : List (Edit Char)) : Origin → Char
  | .message i => message.toList.getD i ' '
  | .mask i j => ((edits[i]?.map Edit.mask).getD []).getD j ' '

/-- What the masked message consists of. -/
def origins (message : String) (edits : List (Edit Char)) : List Origin :=
  splice (positions message.length) (traced edits)

/-- The message with each span replaced once by its mask, the rest unchanged and in order. -/
def meant (message : String) (edits : List (Edit Char)) : List Origin :=
  weave (positions message.length) (traced edits)

/-! ## What is claimed, and when it holds -/

section Spec

variable (E : Engine) (message sourceType component : String)

/-- The rule applies to the message and matches it. -/
def found (rule : BoundRule) : Bool :=
  applies rule.toRule sourceType component && (E.search rule.pattern message).isSome

/-- A rule before has given the field. -/
def taken (before : List BoundRule) (field : String) : Bool :=
  before.any fun rule => found E message sourceType component rule &&
    (rule.field == field || (rule.field == "http_status" && field == "http_status_class"))

/-- Of the rules behind others those that are found first for their field. -/
def winners : List BoundRule → List BoundRule → List BoundRule
  | _, [] => []
  | before, rule :: rest =>
      if found E message sourceType component rule &&
          !taken E message sourceType component before rule.field then
        rule :: winners (before ++ [rule]) rest
      else winners (before ++ [rule]) rest

/-- A value that has to be a number is read as one. -/
def Converts (rule : BoundRule) : Prop :=
  rule.valueType = "integer" ∨ rule.field = "http_status" →
    ∃ place, placeOf E message rule = some place ∧ (E.int (textAt message place)).isSome = true

/-- The fields are extracted without an exception, not too many of them, and the typed message
is the message with each span replaced once by its own mask, character by character. -/
def Exact (rules : List BoundRule) : Prop :=
  ∃ x result, scan E message sourceType component rules = .ok x ∧
    extract E message sourceType component rules = .ok result ∧
    result.semanticFields.length ≤ maxFields ∧
    x.spans = (winners E message sourceType component [] rules).map (editOf E message) ∧
    origins message x.spans = meant message x.spans ∧
    result.typedMessage = String.ofList ((meant message x.spans).map (charAt message x.spans))

/-- The groups of the rules that fire took part in their matches, the values that have to be
numbers are, and the spans keep apart. -/
structure Maskable (rules : List BoundRule) : Prop where
  placed : ∀ rule ∈ winners E message sourceType component [] rules,
    (placeOf E message rule).isSome = true
  converts : ∀ rule ∈ winners E message sourceType component [] rules, Converts E message rule
  apart : ((winners E message sourceType component [] rules).map (editOf E message)).Pairwise Apart

end Spec

/-! ## Origins -/

theorem length_positions (length : ℕ) : (positions length).length = length := by
  simp [positions]

/-- The typed message, read off its origins. -/
theorem splice_eq_origins (message : String) (edits : List (Edit Char)) :
    splice message.toList edits = (origins message edits).map (charAt message edits) := by
  have hmessage : (positions message.length).map (charAt message edits) = message.toList := by
    unfold positions
    rw [List.map_map]
    apply List.ext_getElem
    · simp [← String.length_toList]
    · intro i hi hi'
      simp [charAt, List.getD_eq_getElem?_getD, List.getElem?_eq_getElem hi']
  have hedits : (traced edits).map (Edit.map (charAt message edits)) = edits := by
    unfold traced
    rw [List.map_map]
    apply List.ext_getElem
    · simp
    · intro i hi hi'
      have hmask : (List.range edits[i].mask.length).map
          (charAt message edits ∘ Origin.mask i) = edits[i].mask := by
        apply List.ext_getElem
        · simp
        · intro j hj hj'
          simp [charAt, hi', List.getD_eq_getElem?_getD, List.getElem?_eq_getElem hj']
      simp [Edit.map, hmask]
  unfold origins
  rw [← splice_map, hmessage, hedits]

/-- The first character of a mask. -/
def firstOf (a : Edit Origin) : Origin := a.mask.headD (.message 0)

theorem mem_traced {edits : List (Edit Char)} {a : Edit Origin} :
    a ∈ traced edits ↔ ∃ i e, edits[i]? = some e ∧
      a = ⟨e.start, e.stop, e.label, (List.range e.mask.length).map (.mask i)⟩ := by
  unfold traced
  rw [List.mem_map]
  constructor
  · rintro ⟨⟨e, i⟩, hmem, rfl⟩
    exact ⟨i, e, List.mem_zipIdx_iff_getElem?.mp hmem, rfl⟩
  · rintro ⟨i, e, hi, rfl⟩
    exact ⟨(e, i), List.mem_zipIdx_iff_getElem?.mpr hi, rfl⟩

/-! ## One rule -/

section Fire

variable {E : Engine} {message sourceType component : String} {x y : Extraction}
  {rule : BoundRule}

theorem any_setField (fields : List (String × Value)) (field f : String) (value : Value) :
    (setField fields field value).any (·.1 = f) = (fields.any (·.1 = f) || (field == f)) := by
  have hkeys : ∀ l : List (String × Value),
      (l.map fun kv => if kv.1 = field then (field, value) else kv).any (·.1 = f) =
        l.any (·.1 = f) := by
    intro l
    rw [List.any_map]
    congr 1
    funext kv
    simp only [Function.comp_apply]
    split
    · rename_i h
      rw [h]
    · rfl
  unfold setField
  split
  · rename_i h
    rw [hkeys]
    by_cases hf : field = f
    · subst hf
      simp [h]
    · simp [hf]
  · simp [List.any_append, Bool.beq_eq_decide_eq]

theorem keys_setField (fields : List (String × Value)) (field : String) (value : Value) :
    (setField fields field value).map Prod.fst =
      if fields.any (·.1 = field) then fields.map Prod.fst else fields.map Prod.fst ++ [field] := by
  unfold setField
  split
  · rw [List.map_map]
    apply List.map_congr_left
    intro kv _
    simp only [Function.comp_apply]
    split
    · rename_i h
      rw [h]
    · rfl
  · simp

/-- The keys of the fields are different and known. -/
structure Known (fields : List (String × Value)) : Prop where
  nodup : (fields.map Prod.fst).Nodup
  allowed : ∀ f ∈ fields.map Prod.fst, f ∈ allowedFields

theorem Known.nil : Known [] := ⟨List.nodup_nil, fun _ h => absurd h List.not_mem_nil⟩

theorem Known.setField {fields : List (String × Value)} (h : Known fields) {field : String}
    (hfield : field ∈ allowedFields) (value : Value) : Known (setField fields field value) := by
  constructor
  · rw [keys_setField]
    split
    · exact h.nodup
    · rename_i hnew
      rw [List.nodup_append]
      refine ⟨h.nodup, List.nodup_singleton field, ?_⟩
      rintro f hf g hg rfl
      obtain rfl := List.mem_singleton.mp hg
      obtain ⟨kv, hkv, hkey⟩ := List.mem_map.mp hf
      apply hnew
      rw [List.any_eq_true]
      exact ⟨kv, hkv, decide_eq_true hkey⟩
  · rw [keys_setField]
    split
    · exact h.allowed
    · intro f hf
      rcases List.mem_append.mp hf with hf | hf
      · exact h.allowed f hf
      · exact List.mem_singleton.mp hf ▸ hfield

/-- There are not more fields than known ones. -/
theorem Known.length_lt {fields : List (String × Value)} (h : Known fields) :
    fields.length < maxFields := by
  have hle := (List.subperm_of_subset h.nodup h.allowed).length_le
  rw [List.length_map] at hle
  have hcount : allowedFields.length = 11 := rfl
  unfold maxFields
  omega

theorem valueOf_eq_ok {r : Rule} {text : Option String} :
    (∃ v, valueOf E.host r text = .ok v) ↔
      (r.valueType = "integer" → (text.bind E.int).isSome = true) := by
  unfold valueOf
  split
  · rename_i hinteger
    cases hint : text.bind E.host.int with
    | none =>
      have hnone : text.bind E.int = none := hint
      simp [hinteger, hnone, throw, throwThe, MonadExceptOf.throw]
    | some n =>
      have hsome : text.bind E.int = some n := hint
      simp [hsome, pure, Except.pure]
  · rename_i hinteger
    cases text <;> simp [hinteger, pure, Except.pure]

/-- The number of a value is that of its text. -/
theorem intOf_valueOf {r : Rule} {text : Option String} {v : Value}
    (h : valueOf E.host r text = .ok v) :
    (∃ n, intOf E.host v = .ok n) ↔ (text.bind E.int).isSome = true := by
  unfold valueOf at h
  split at h
  · cases hint : text.bind E.host.int with
    | none =>
      rw [hint] at h
      cases h
    | some n =>
      rw [hint] at h
      obtain rfl := pure_eq_ok.mp h
      have hsome : text.bind E.int = some n := hint
      simp [intOf, hsome, pure, Except.pure]
  · cases text with
    | none =>
      obtain rfl := pure_eq_ok.mp h
      simp [intOf, throw, throwThe, MonadExceptOf.throw]
    | some t =>
      obtain rfl := pure_eq_ok.mp h
      unfold intOf
      cases hint : E.host.int t with
      | none =>
        have hnone : E.int t = none := hint
        simp [hint, hnone, throw, throwThe, MonadExceptOf.throw]
      | some n =>
        have hsome : E.int t = some n := hint
        simp [hint, hsome, pure, Except.pure]

theorem converts_iff : Converts E message rule ↔
    (rule.valueType = "integer" ∨ rule.field = "http_status" →
      (((placeOf E message rule).map (textAt message)).bind E.int).isSome = true) := by
  unfold Converts
  refine imp_congr_right fun _ => ?_
  cases placeOf E message rule <;> simp

/-- A rule that has matched raises just where its value is to be a number and is not. -/
theorem exists_fire_iff : (∃ y, fire E message x rule = .ok y) ↔ Converts E message rule := by
  rw [converts_iff]
  constructor
  · rintro ⟨y, h⟩ hneeds
    obtain ⟨value, hvalue, h⟩ := bind_eq_ok.mp h
    obtain ⟨fields, hfields, -⟩ := bind_eq_ok.mp h
    rcases hneeds with hinteger | hstatus
    · exact valueOf_eq_ok.mp ⟨value, hvalue⟩ hinteger
    · unfold addValue at hfields
      dsimp only at hfields
      rw [if_pos hstatus] at hfields
      obtain ⟨n, hn, -⟩ := bind_eq_ok.mp hfields
      exact (intOf_valueOf hvalue).mp ⟨n, hn⟩
  · intro h
    obtain ⟨value, hvalue⟩ := valueOf_eq_ok.mpr fun hinteger => h (.inl hinteger)
    have hfields : ∃ fields, addValue E.host x.fields rule.toRule value = .ok fields := by
      unfold addValue
      dsimp only
      split
      · rename_i hstatus
        obtain ⟨n, hn⟩ := (intOf_valueOf hvalue).mpr (h (.inr hstatus))
        exact ⟨_, bind_eq_ok.mpr ⟨n, hn, rfl⟩⟩
      · exact ⟨_, rfl⟩
    obtain ⟨fields, hfields⟩ := hfields
    exact ⟨_, bind_eq_ok.mpr ⟨value, hvalue, bind_eq_ok.mpr ⟨fields, hfields, rfl⟩⟩⟩

theorem addValue_spec {fields fields' : List (String × Value)} {r : Rule} {value : Value}
    (h : addValue E.host fields r value = .ok fields') (hknown : Known fields)
    (hallowed : r.field ∈ allowedFields) :
    Known fields' ∧ ∀ f, fields'.any (·.1 = f) = (fields.any (·.1 = f) || (r.field == f ||
      (r.field == "http_status" && f == "http_status_class"))) := by
  have hset := hknown.setField hallowed value
  unfold addValue at h
  dsimp only at h
  split at h
  · rename_i hstatus
    obtain ⟨n, -, h⟩ := bind_eq_ok.mp h
    obtain rfl := pure_eq_ok.mp h
    refine ⟨hset.setField (by decide) _, fun f => ?_⟩
    rw [any_setField, any_setField, hstatus]
    rw [Bool.or_assoc, BEq.comm (a := f), beq_self_eq_true, Bool.true_and]
  · rename_i hstatus
    obtain rfl := pure_eq_ok.mp h
    refine ⟨hset, fun f => ?_⟩
    rw [any_setField, beq_eq_false_iff_ne.mpr hstatus, Bool.false_and, Bool.or_false]

theorem fire_spec (h : fire E message x rule = .ok y) (hknown : Known x.fields)
    (hallowed : rule.field ∈ allowedFields) :
    Known y.fields ∧ y.spans = x.spans ++ [editOf E message rule] ∧
      ∀ f, y.fields.any (·.1 = f) = (x.fields.any (·.1 = f) || (rule.field == f ||
        (rule.field == "http_status" && f == "http_status_class"))) := by
  obtain ⟨value, hvalue, h⟩ := bind_eq_ok.mp h
  obtain ⟨fields, hfields, h⟩ := bind_eq_ok.mp h
  obtain rfl := pure_eq_ok.mp h
  obtain ⟨hknown', hkeys⟩ := addValue_spec hfields hknown hallowed
  exact ⟨hknown', rfl, hkeys⟩

end Fire

/-! ## The loop -/

section Scan

variable {E : Engine} {message sourceType component : String} {before rules : List BoundRule}
  {x y : Extraction}

/-- The fields given are those that rules before have taken. -/
structure Inv (E : Engine) (message sourceType component : String) (before : List BoundRule)
    (x : Extraction) : Prop where
  known : Known x.fields
  fields : ∀ f, x.fields.any (·.1 = f) = taken E message sourceType component before f

theorem taken_append (before : List BoundRule) (rule : BoundRule) (f : String) :
    taken E message sourceType component (before ++ [rule]) f =
      (taken E message sourceType component before f ||
        (found E message sourceType component rule && (rule.field == f ||
          (rule.field == "http_status" && f == "http_status_class")))) := by
  unfold taken
  rw [List.any_append]
  simp

/-- What is taken for a status is also taken for its class. -/
theorem taken_class (h : taken E message sourceType component before "http_status" = true) :
    taken E message sourceType component before "http_status_class" = true := by
  unfold taken at h ⊢
  rw [List.any_eq_true] at h ⊢
  obtain ⟨rule, hmem, hrule⟩ := h
  refine ⟨rule, hmem, ?_⟩
  simp only [Bool.and_eq_true, Bool.or_eq_true, beq_iff_eq] at hrule ⊢
  rcases hrule with ⟨hfound, hfield | ⟨-, hclass⟩⟩
  · exact ⟨hfound, .inr ⟨hfield, trivial⟩⟩
  · exact absurd hclass (by decide)

/-- A rule that does not win leaves everything as it is, and takes nothing new. -/
theorem Inv.skip {rule : BoundRule} (hinv : Inv E message sourceType component before x)
    (h : (found E message sourceType component rule &&
      !taken E message sourceType component before rule.field) = false) :
    extractRule E message sourceType component x rule = .ok x ∧
      Inv E message sourceType component (before ++ [rule]) x := by
  have htaken : found E message sourceType component rule = true →
      taken E message sourceType component before rule.field = true := by
    intro hfound
    rw [hfound, Bool.true_and] at h
    simpa using h
  constructor
  · unfold extractRule
    split
    · rfl
    · rename_i hgo
      push Not at hgo
      obtain ⟨-, hnew, happlies⟩ := hgo
      cases hsearch : E.search rule.pattern message with
      | none => rfl
      | some groups =>
        have hfound : found E message sourceType component rule = true := by
          unfold found
          rw [happlies, hsearch]
          rfl
        rw [hinv.fields, htaken hfound] at hnew
        exact absurd rfl hnew
  · refine ⟨hinv.known, fun f => ?_⟩
    rw [hinv.fields, taken_append]
    cases hfound : found E message sourceType component rule with
    | false => simp
    | true =>
      have hfield := htaken hfound
      by_cases hf : rule.field = f
      · rw [← hf, hfield, Bool.true_or]
      · by_cases hclass : rule.field = "http_status" ∧ f = "http_status_class"
        · rw [hclass.1] at hfield
          rw [hclass.2, taken_class hfield, Bool.true_or]
        · have hnone : (rule.field == f ||
              (rule.field == "http_status" && f == "http_status_class")) = false := by
            simpa [hf] using hclass
          rw [hnone, Bool.and_false, Bool.or_false]

/-- A rule that wins fires. -/
theorem Inv.win {rule : BoundRule} (hinv : Inv E message sourceType component before x)
    (h : (found E message sourceType component rule &&
      !taken E message sourceType component before rule.field) = true) :
    extractRule E message sourceType component x rule = fire E message x rule := by
  obtain ⟨hfound, hnew⟩ := Bool.and_eq_true_iff.mp h
  unfold found at hfound
  obtain ⟨happlies, hsearch⟩ := Bool.and_eq_true_iff.mp hfound
  obtain ⟨groups, hgroups⟩ := Option.isSome_iff_exists.mp hsearch
  have hfield : x.fields.any (·.1 = rule.field) = false := by
    rw [hinv.fields]
    simpa using hnew
  have hroom : ¬ maxFields ≤ x.fields.length := not_le.mpr hinv.known.length_lt
  unfold extractRule
  rw [if_neg, hgroups]
  rintro (hfull | hold | hno)
  · exact hroom hfull
  · rw [hfield] at hold
    cases hold
  · exact hno happlies

theorem Inv.fired {rule : BoundRule} (hinv : Inv E message sourceType component before x)
    (hfound : found E message sourceType component rule = true)
    (hallowed : rule.field ∈ allowedFields) (h : fire E message x rule = .ok y) :
    Inv E message sourceType component (before ++ [rule]) y ∧
      y.spans = x.spans ++ [editOf E message rule] := by
  obtain ⟨hknown, hspans, hfields⟩ := fire_spec h hinv.known hallowed
  refine ⟨⟨hknown, fun f => ?_⟩, hspans⟩
  rw [hfields, hinv.fields, taken_append, hfound, Bool.true_and]

theorem winners_cons (before rest : List BoundRule) (rule : BoundRule) :
    winners E message sourceType component before (rule :: rest) =
      if found E message sourceType component rule &&
          !taken E message sourceType component before rule.field then
        rule :: winners E message sourceType component (before ++ [rule]) rest
      else winners E message sourceType component (before ++ [rule]) rest := rfl

/-- What a loop over rules that goes through has done. -/
theorem scan_spec (hinv : Inv E message sourceType component before x)
    (hallowed : ∀ rule ∈ rules, rule.field ∈ allowedFields)
    (h : rules.foldlM (extractRule E message sourceType component) x = .ok y) :
    Known y.fields ∧
      y.spans = x.spans ++
        (winners E message sourceType component before rules).map (editOf E message) ∧
      ∀ rule ∈ winners E message sourceType component before rules, Converts E message rule := by
  induction rules generalizing before x with
  | nil =>
    obtain rfl := pure_eq_ok.mp h
    exact ⟨hinv.known, (List.append_nil _).symm, fun _ hr => absurd hr List.not_mem_nil⟩
  | cons rule rest ih =>
    rw [List.foldlM_cons] at h
    obtain ⟨z, hz, hrest⟩ := bind_eq_ok.mp h
    have hrestAllowed : ∀ r ∈ rest, r.field ∈ allowedFields := fun r hr =>
      hallowed r (List.mem_cons_of_mem rule hr)
    rw [winners_cons]
    split
    · rename_i hwin
      rw [hinv.win hwin] at hz
      obtain ⟨hinv', hspans⟩ := hinv.fired (Bool.and_eq_true_iff.mp hwin).1
        (hallowed rule List.mem_cons_self) hz
      obtain ⟨hknown, hspans', hconverts⟩ := ih hinv' hrestAllowed hrest
      refine ⟨hknown, ?_, List.forall_mem_cons.mpr ⟨exists_fire_iff.mp ⟨z, hz⟩, hconverts⟩⟩
      rw [hspans', hspans, List.map_cons, List.append_assoc]
      rfl
    · rename_i hlose
      obtain ⟨hsame, hinv'⟩ := hinv.skip (Bool.eq_false_iff.mpr hlose)
      obtain rfl := Except.ok.inj (hsame.symm.trans hz)
      exact ih hinv' hrestAllowed hrest

/-- Where every value that has to be a number is one, the loop goes through. -/
theorem exists_scan (hinv : Inv E message sourceType component before x)
    (hallowed : ∀ rule ∈ rules, rule.field ∈ allowedFields)
    (hconverts : ∀ rule ∈ winners E message sourceType component before rules,
      Converts E message rule) :
    ∃ y, rules.foldlM (extractRule E message sourceType component) x = .ok y := by
  induction rules generalizing before x with
  | nil => exact ⟨x, rfl⟩
  | cons rule rest ih =>
    have hrestAllowed : ∀ r ∈ rest, r.field ∈ allowedFields := fun r hr =>
      hallowed r (List.mem_cons_of_mem rule hr)
    rw [winners_cons] at hconverts
    split at hconverts
    · rename_i hwin
      obtain ⟨hrule, hrest⟩ := List.forall_mem_cons.mp hconverts
      obtain ⟨z, hz⟩ := exists_fire_iff.mpr hrule
      obtain ⟨hinv', -⟩ := hinv.fired (Bool.and_eq_true_iff.mp hwin).1
        (hallowed rule List.mem_cons_self) hz
      obtain ⟨y, hy⟩ := ih hinv' hrestAllowed hrest
      exact ⟨y, bind_eq_ok.mpr ⟨z, (hinv.win hwin).trans hz, hy⟩⟩
    · rename_i hlose
      obtain ⟨hsame, hinv'⟩ := hinv.skip (Bool.eq_false_iff.mpr hlose)
      obtain ⟨y, hy⟩ := ih hinv' hrestAllowed hconverts
      exact ⟨y, bind_eq_ok.mpr ⟨x, hsame, hy⟩⟩

theorem start_inv : Inv E message sourceType component [] {} := ⟨.nil, fun _ => rfl⟩

end Scan

/-! ## Validated rules -/

section Validated

variable {E : Engine}

theorem field_of_checkRule {host : Host} {rule : Rule} {index : ℕ}
    (h : checkRule host rule index = .ok ()) : rule.field ∈ allowedFields := by
  unfold checkRule at h
  split at h
  · cases h
  · split at h
    · cases h
    · rename_i hfield
      exact not_not.mp hfield

theorem field_of_validateRule {host : Host} {rule rule' : Rule} {index : ℕ}
    (h : validateRule host rule index = .ok rule') : rule'.field ∈ allowedFields := by
  unfold validateRule at h
  obtain ⟨⟨⟩, hcheck, h⟩ := bind_eq_ok.mp h
  obtain ⟨tags, -, h⟩ := bind_eq_ok.mp h
  dsimp only at h
  split at h
  · cases h
  · obtain ⟨sourceTypes, -, h⟩ := bind_eq_ok.mp h
    obtain ⟨components, -, h⟩ := bind_eq_ok.mp h
    obtain rfl := pure_eq_ok.mp h
    exact field_of_checkRule hcheck

theorem field_of_validateDictionary {host : Host} {payload : Payload} {d : Dictionary}
    (h : validateDictionary host payload = .ok d) : ∀ rule ∈ d.rules, rule.field ∈ allowedFields := by
  unfold validateDictionary at h
  dsimp only at h
  split at h
  · cases h
  · split at h
    · cases h
    · split at h
      · cases h
      · obtain ⟨rules, hrules, h⟩ := bind_eq_ok.mp h
        obtain ⟨⟨⟩, -, h⟩ := bind_eq_ok.mp h
        obtain rfl := pure_eq_ok.mp h
        intro rule hrule
        have hmem : rule ∈ rules := (List.perm_insertionSort _ _).mem_iff.mp hrule
        obtain ⟨⟨raw, index⟩, -, hraw⟩ := exists_of_mem_results (mapM_eq_ok.mp hrules) hmem
        exact field_of_validateRule hraw

theorem field_of_rulesOf {payloads : List Payload} {dictionaries : List Dictionary}
    (h : (payloads.mapM fun item => validateDictionary E.host item) = .ok dictionaries) :
    ∀ rule ∈ rulesOf dictionaries, rule.field ∈ allowedFields := by
  intro rule hrule
  have hmem := (List.perm_insertionSort _ _).mem_iff.mp hrule
  obtain ⟨d, hd, hmem⟩ := List.mem_flatMap.mp hmem
  obtain ⟨r, hr, rfl⟩ := List.mem_map.mp hmem
  obtain ⟨payload, -, hpayload⟩ := exists_of_mem_results (mapM_eq_ok.mp h) hd
  exact field_of_validateDictionary hpayload r hr

end Validated

/-! ## The claim -/

section Claim

variable {E : Engine} {message sourceType component : String} {rules : List BoundRule}

theorem firstOf_traced {e : Edit Char} {i : ℕ} (hne : e.mask ≠ []) :
    firstOf ⟨e.start, e.stop, e.label, (List.range e.mask.length).map (.mask i)⟩ = .mask i 0 := by
  cases hmask : e.mask with
  | nil => exact absurd hmask hne
  | cons c cs => simp [firstOf, List.range_succ_eq_map]

/-- The masks of traced edits can be told apart. -/
theorem marked_traced {edits : List (Edit Char)} (hne : ∀ e ∈ edits, e.mask ≠ []) (length : ℕ) :
    Marked firstOf (positions length) (traced edits) where
  own := by
    intro a ha
    obtain ⟨i, e, hi, rfl⟩ := mem_traced.mp ha
    have hmask := hne e (List.mem_of_getElem? hi)
    rw [firstOf_traced hmask]
    obtain ⟨k, hk⟩ : ∃ k, e.mask.length = k + 1 :=
      ⟨e.mask.length - 1, by have := List.length_pos_of_ne_nil hmask; omega⟩
    refine ⟨(List.range k).map fun j => .mask i (j + 1), ?_, ?_, ?_⟩
    · simp [hk, List.range_succ_eq_map]
    · simp
    · simp [positions]
  apart := by
    rw [List.pairwise_iff_getElem]
    intro i j hi hj hlt
    have hget : ∀ k (hk : k < (traced edits).length), ∃ e ∈ edits, (traced edits)[k] =
        ⟨e.start, e.stop, e.label, (List.range e.mask.length).map (.mask k)⟩ := by
      intro k hk
      have hk' : k < edits.length := by simpa [traced] using hk
      exact ⟨edits[k], List.getElem_mem hk', by simp [traced]⟩
    obtain ⟨e, he, hei⟩ := hget i hi
    obtain ⟨e', he', hej⟩ := hget j hj
    rw [hei, hej, firstOf_traced (hne e he), firstOf_traced (hne e' he')]
    constructor
    · simp
      omega
    · simp
      omega

theorem editOf_mask_ne (rule : BoundRule) : (editOf E message rule).mask ≠ [] := by
  show (maskOf rule).toList ≠ []
  unfold maskOf
  simp [String.toList_append]

theorem editOf_placed (rule : BoundRule) :
    ((editOf E message rule).Inside message.length ↔
      (placeOf E message rule).isSome = true) ∧
    ((editOf E message rule).Inside message.length ∨ (editOf E message rule).start = -1) := by
  unfold editOf Edit.Inside
  cases placeOf E message rule with
  | none => simp
  | some place =>
    have hordered := place.ordered
    have hinside := place.inside
    simp only [Option.elim_some, Option.isSome_some, iff_true]
    constructor
    · omega
    · left
      omega

/-- The typed message is as meant just where all groups took part and their spans keep apart. -/
theorem origins_eq_meant_iff (ws : List BoundRule) :
    origins message (ws.map (editOf E message)) = meant message (ws.map (editOf E message)) ↔
      (∀ rule ∈ ws, (placeOf E message rule).isSome = true) ∧
        (ws.map (editOf E message)).Pairwise Apart := by
  have hne : ∀ e ∈ ws.map (editOf E message), e.mask ≠ [] := by
    intro e he
    obtain ⟨rule, -, rfl⟩ := List.mem_map.mp he
    exact editOf_mask_ne rule
  have hplaced : ∀ a ∈ traced (ws.map (editOf E message)),
      a.Inside (positions message.length).length ∨ a.start = -1 := by
    intro a ha
    obtain ⟨i, e, hi, rfl⟩ := mem_traced.mp ha
    obtain ⟨rule, -, rfl⟩ := List.mem_map.mp (List.mem_of_getElem? hi)
    rw [length_positions]
    exact (editOf_placed rule).2
  unfold origins meant
  rw [splice_eq_weave_iff (marked_traced hne _) hplaced, length_positions]
  refine and_congr ?_ ?_
  · constructor
    · intro h rule hrule
      obtain ⟨i, hi⟩ := List.mem_iff_getElem?.mp (List.mem_map_of_mem (f := editOf E message) hrule)
      exact (editOf_placed rule).1.mp (h _ (mem_traced.mpr ⟨i, _, hi, rfl⟩))
    · intro h a ha
      obtain ⟨i, e, hi, rfl⟩ := mem_traced.mp ha
      obtain ⟨rule, hrule, rfl⟩ := List.mem_map.mp (List.mem_of_getElem? hi)
      exact (editOf_placed rule).1.mpr (h rule hrule)
  · have hspans : (traced (ws.map (editOf E message))).map (fun a => (a.start, a.stop)) =
        (ws.map (editOf E message)).map fun a => (a.start, a.stop) := by
      unfold traced
      rw [List.map_map]
      apply List.ext_getElem
      · simp
      · simp
    have hpairs : ∀ {β : Type} (l : List (Edit β)), l.Pairwise Apart ↔
        (l.map fun a => (a.start, a.stop)).Pairwise fun p q => p.2 ≤ q.1 ∨ q.2 ≤ p.1 := by
      intro β l
      rw [List.pairwise_map]
      rfl
    rw [hpairs, hpairs, hspans]

theorem exact_iff_maskable (hallowed : ∀ rule ∈ rules, rule.field ∈ allowedFields) :
    Exact E message sourceType component rules ↔ Maskable E message sourceType component rules := by
  constructor
  · rintro ⟨x, result, hscan, -, -, hspans, horigins, -⟩
    obtain ⟨-, -, hconverts⟩ := scan_spec start_inv hallowed hscan
    rw [hspans, origins_eq_meant_iff] at horigins
    exact ⟨horigins.1, hconverts, horigins.2⟩
  · intro h
    obtain ⟨x, hscan⟩ := exists_scan start_inv hallowed h.converts
    obtain ⟨hknown, hspans, -⟩ := scan_spec start_inv hallowed hscan
    rw [show ({} : Extraction).spans = [] from rfl, List.nil_append] at hspans
    have horigins : origins message x.spans = meant message x.spans := by
      rw [hspans, origins_eq_meant_iff]
      exact ⟨h.placed, h.apart⟩
    refine ⟨x, _, hscan, bind_eq_ok.mpr ⟨x, hscan, rfl⟩, hknown.length_lt.le, hspans, horigins, ?_⟩
    show String.ofList (splice message.toList x.spans) = _
    rw [splice_eq_origins, horigins]

/-- With validated dictionaries a message is masked exactly just where the groups that are used
took part, the values that have to be numbers are, and the spans keep apart. -/
theorem masking_exact_iff (E : Engine) {payloads : List Payload} {dictionaries : List Dictionary}
    (h : (payloads.mapM fun item => validateDictionary E.host item) = .ok dictionaries)
    (message sourceType component : String) :
    Exact E message sourceType component (rulesOf dictionaries) ↔
      Maskable E message sourceType component (rulesOf dictionaries) :=
  exact_iff_maskable (field_of_rulesOf h)

end Claim

/-! ## Two rules for one number -/

deriving instance DecidableEq for Payload
deriving instance DecidableEq for Dictionary
deriving instance DecidableEq for BoundRule

def codeRule (ruleId field pattern typedMask : String) : Rule where
  ruleId := ruleId
  field := field
  pattern := pattern
  group := "code"
  valueType := "integer"
  typedMask := typedMask
  tags := ["code"]
  priority := 1

def codeDictionary (rules : List Rule) : Payload := ⟨"codes", "codes", 1, rules⟩

/-- What the two patterns find in `exit 12`. -/
def codeEngine : Engine where
  compile := fun _ => .ok ["code"]
  search := fun pattern message =>
    if h : message = "exit 12" ∧ pattern ∈ ["exit (?P<code>[0-9]+)", "(?P<code>[0-9]+)"] then
      some fun _ => some ⟨5, 7, by decide, by rw [h.1]; decide⟩
    else none
  int := fun text => if text = "12" then some 12 else none
  digest := fun _ => ""

def exitRule : Rule := codeRule "exit" "exit_code" "exit (?P<code>[0-9]+)" "EXIT_CODE"

def errnoRule : Rule := codeRule "errno" "errno" "(?P<code>[0-9]+)" "ERRNO"

def codes (rules : List Rule) : List Dictionary :=
  [⟨codeDictionary (sortRules rules), ""⟩]

theorem winners_exit :
    winners codeEngine "exit 12" "syslog" "kernel" [] (rulesOf (codes [exitRule])) =
      [⟨exitRule, "codes"⟩] := by
  decide +kernel

/-- One rule masks its number. -/
theorem masking_one_rule :
    Exact codeEngine "exit 12" "syslog" "kernel" (rulesOf (codes [exitRule])) := by
  have hvalid : ([codeDictionary [exitRule]].mapM fun item =>
      validateDictionary codeEngine.host item) = .ok (codes [exitRule]) :=
    eq_ok_of_toOption (by decide +kernel)
  refine (masking_exact_iff codeEngine hvalid "exit 12" "syslog" "kernel").mpr ⟨?_, ?_, ?_⟩
  · decide +kernel
  · rw [winners_exit]
    intro rule hrule _
    obtain rfl := List.mem_singleton.mp hrule
    exact ⟨⟨5, 7, by decide, by decide⟩, rfl, by decide +kernel⟩
  · rw [winners_exit, List.map_singleton]
    exact List.pairwise_singleton _ _

theorem winners_both :
    winners codeEngine "exit 12" "syslog" "kernel" [] (rulesOf (codes [exitRule, errnoRule])) =
      [⟨errnoRule, "codes"⟩, ⟨exitRule, "codes"⟩] := by
  decide +kernel

/-- Two rules that read one number mask it one after the other: what is masked second starts
inside the mask that is there already. -/
theorem one_number_two_masks :
    ([codeDictionary [exitRule, errnoRule]].mapM fun item =>
        validateDictionary codeEngine.host item) = .ok (codes [exitRule, errnoRule]) ∧
      (extract codeEngine "exit 12" "syslog" "kernel"
        (rulesOf (codes [exitRule, errnoRule]))).toOption.map (·.typedMessage) = some "exit <ERRNO>XIT_CODE>" ∧
      ¬ Exact codeEngine "exit 12" "syslog" "kernel" (rulesOf (codes [exitRule, errnoRule])) := by
  have hvalid : ([codeDictionary [exitRule, errnoRule]].mapM fun item =>
      validateDictionary codeEngine.host item) = .ok (codes [exitRule, errnoRule]) :=
    eq_ok_of_toOption (by decide +kernel)
  refine ⟨hvalid, by decide +kernel, ?_⟩
  rw [exact_iff_maskable (field_of_rulesOf hvalid)]
  intro h
  have hapart := h.apart
  rw [winners_both] at hapart
  simp only [List.map_cons, List.map_nil, List.pairwise_cons, List.mem_singleton] at hapart
  have hspans := hapart.1 _ rfl
  unfold Apart at hspans
  revert hspans
  decide +kernel

end LogRisk.Semantic.Masking
