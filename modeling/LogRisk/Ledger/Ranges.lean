import LogRisk.Library.Json
import LogRisk.Library.KeyedIntervals
import LogRisk.Library.Text
import LogRisk.Library.Transaction
import Mathlib.Data.Prod.Lex

/-!
# Ranges of the operational ledgers

A range is a half-open interval of positions under a partition key, and under a
source where it has one.  `canonicalRanges` validates, sorts and merges;
`subtractRanges` keeps the positions that an existing list does not hold.
-/

namespace LogRisk.Ledger

open LogRisk.Library LogRisk.Library.Intervals LogRisk.Library.Transaction

inductive LedgerError where
  /-- `OperationalLedgerError`. -/
  | invalid (message : String)
  /-- `OperationalLedgerConflict`. -/
  | conflict (message : String)
  /-- A `KeyError`. -/
  | notFound (message : String)
  /-- A violated key of a table. -/
  | integrity (message : String)
deriving DecidableEq

abbrev Result (α : Type) := Except LedgerError α

def maxInt64 : ℕ := 2 ^ 63 - 1

/-! ## Fields -/

/-- `_text` with `allow_empty`: the value as it is. -/
def rawText (value field : String) : Result String := do
  require ('\x00' ∉ value.toList) (.invalid (field ++ " 含有非法字符"))
  return value

/-- `_text`: the value without the white space around it. -/
def text (value field : String) : Result String := do
  require (Text.strip value ≠ "") (.invalid (field ++ " 不能为空"))
  rawText (Text.strip value) field

def stringOf (value : Json) (field : String) : Result String :=
  match value with
  | .str s => .ok s
  | _ => .error (.invalid (field ++ " 必须是字符串"))

/-- `_nullable_int` for a value that is an integer. -/
def boundedInt (value : ℤ) (field : String) : Result ℕ := do
  require (0 ≤ value ∧ value ≤ maxInt64) (.invalid (field ++ " 超出 BIGINT 非负范围"))
  return value.toNat

def nullableInt (value : Option ℤ) (field : String) : Result (Option ℕ) :=
  match value with
  | none => .ok none
  | some n => (boundedInt n field).map some

/-- `_nullable_int` with `allow_none=False`. -/
def requiredInt (value : Json) (field : String) : Result ℕ :=
  match value with
  | .null => .error (.invalid (field ++ " 不能为空"))
  | .num n => boundedInt n field
  | _ => .error (.invalid (field ++ " 必须是非负整数"))

/-! ## Ranges -/

/-- A range under its source, where it names one, and its partition key. -/
abbrev Range := Keyed (Option String × String)

def rangeFields : List String := ["partition_key", "start", "end", "source_id"]

def mappingOf (value : Json) (message : String) : Result (List (String × Json)) :=
  match value with
  | .obj fields => .ok fields
  | _ => .error (.invalid message)

def rangeItem (value : Json) (index : ℕ) : Result Range := do
  let name := "ranges[" ++ toString index ++ "]"
  let fields ← mappingOf value (name ++ " 必须是对象")
  require (∀ f ∈ fields, f.1 ∈ rangeFields) (.invalid (name ++ " 含有未支持字段"))
  require ("partition_key" ∈ fields.map Prod.fst) (.invalid (name ++ " 缺少 partition_key"))
  let partitionText ← stringOf (Json.field "partition_key" fields) (name ++ ".partition_key")
  let partitionKey ← rawText partitionText (name ++ ".partition_key")
  let start ← requiredInt (Json.field "start" fields) (name ++ ".start")
  let stop ← requiredInt (Json.field "end" fields) (name ++ ".end")
  if hlt : start < stop then
    match Json.field "source_id" fields with
    | .null => return ⟨(none, partitionKey), ⟨start, stop, hlt⟩⟩
    | value => do
        let sourceText ← stringOf value (name ++ ".source_id")
        let sourceId ← text sourceText (name ++ ".source_id")
        return ⟨(some sourceId, partitionKey), ⟨start, stop, hlt⟩⟩
  else .error (.invalid (name ++ " 必须满足 end > start"))

/-- `_sum_lengths`: the running total may not pass the largest integer. -/
def sumLengths (ranges : List Range) : Result ℕ :=
  ranges.foldlM (fun total r => do
    require (total + r.span.length ≤ maxInt64) (.invalid "区间总长度超出 BIGINT 范围")
    return total + r.span.length) 0

/-- Groups are sorted by source, where a missing one counts as empty, and
partition. -/
def rangeOrder (a b : Option String × String) : Prop :=
  toLex (a.1.getD "", a.2) ≤ toLex (b.1.getD "", b.2)

instance : DecidableRel rangeOrder := fun _ _ => inferInstanceAs (Decidable (_ ≤ _))

/-- `canonical_ranges` on validated items, which pass the validation again. -/
def canonicalItems (items : List Range) : Result (List Range) := do
  let output := Keyed.canonical rangeOrder items
  let _ ← sumLengths output
  return output

def rangeItems (index : ℕ) : List Json → Result (List Range)
  | [] => .ok []
  | value :: rest => do
      let item ← rangeItem value index
      let items ← rangeItems (index + 1) rest
      return item :: items

def canonicalRanges (values : List Json) : Result (List Range) := do
  let items ← rangeItems 0 values
  canonicalItems items

def subtractRanges (incoming existing : List Range) : Result (List Range) := do
  let incomingItems ← canonicalItems incoming
  let existingItems ← canonicalItems existing
  canonicalItems (Keyed.subtract incomingItems existingItems)

/-! ## What they denote -/

theorem sumLengths_eq_ok {ranges : List Range} {n : ℕ} (h : sumLengths ranges = .ok n) :
    n = Keyed.total ranges := by
  have hfold : ∀ {ranges : List Range} {start n : ℕ},
      ranges.foldlM (fun total r => do
        require (total + r.span.length ≤ maxInt64) (LedgerError.invalid "区间总长度超出 BIGINT 范围")
        return total + r.span.length) start = .ok n → n = start + Keyed.total ranges := by
    intro ranges
    induction ranges with
    | nil =>
        intro start n h
        rw [List.foldlM_nil] at h
        rw [← pure_eq_ok.mp h, Keyed.total_nil, Nat.add_zero]
    | cons r rest ih =>
        intro start n h
        rw [List.foldlM_cons] at h
        obtain ⟨next, hnext, h⟩ := bind_eq_ok.mp h
        obtain ⟨_, hnext⟩ := require_bind_eq_ok.mp hnext
        rw [ih h, ← pure_eq_ok.mp hnext, Keyed.total_cons, Nat.add_assoc]
  rw [hfold h, Nat.zero_add]

theorem canonicalItems_eq_ok {items output : List Range} (h : canonicalItems items = .ok output) :
    Keyed.Canonical output ∧ Keyed.points output = Keyed.points items := by
  obtain ⟨_, _, h⟩ := bind_eq_ok.mp h
  obtain rfl := pure_eq_ok.mp h
  exact ⟨Keyed.canonical_canonical _ _, Keyed.points_canonical _ _⟩

/-- What is left of the incoming ranges is their set difference. -/
theorem subtractRanges_eq_ok {incoming existing output : List Range}
    (h : subtractRanges incoming existing = .ok output) : Keyed.Canonical output ∧
      Keyed.points output = Keyed.points incoming \ Keyed.points existing := by
  obtain ⟨incomingItems, hincoming, h⟩ := bind_eq_ok.mp h
  obtain ⟨existingItems, hexisting, h⟩ := bind_eq_ok.mp h
  obtain ⟨_, hpincoming⟩ := canonicalItems_eq_ok hincoming
  obtain ⟨hcanonical, hpexisting⟩ := canonicalItems_eq_ok hexisting
  obtain ⟨houtput, hpoutput⟩ := canonicalItems_eq_ok h
  refine ⟨houtput, ?_⟩
  rw [hpoutput, Keyed.points_subtract _ hcanonical, hpincoming, hpexisting]

end LogRisk.Ledger
