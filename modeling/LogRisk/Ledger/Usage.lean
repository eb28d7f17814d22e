import LogRisk.Ledger.Ranges
import LogRisk.Library.Checks

/-!
# Usage of a physical call

`normalize_usage` reads the token counts that a provider reports, and derives a missing total
from input and output.  `finish_call` merges them into the row of the call: a count that is there
must not be contradicted, one that is missing is taken over, and a total that is still missing is
derived.  A derived total is not told from a reported one.
-/

namespace LogRisk.Ledger

open LogRisk.Library LogRisk.Library.Dict LogRisk.Library.Transaction

/-! ## Token fields -/

inductive TokenField where
  | inputTokens
  | outputTokens
  | totalTokens
  | cachedInputTokens
  | reasoningTokens
deriving DecidableEq

/-- `_TOKEN_FIELDS`. -/
def tokenFields : List TokenField :=
  [.inputTokens, .outputTokens, .totalTokens, .cachedInputTokens, .reasoningTokens]

theorem mem_tokenFields (f : TokenField) : f ∈ tokenFields := by
  cases f <;> decide

def TokenField.name : TokenField → String
  | .inputTokens => "input_tokens"
  | .outputTokens => "output_tokens"
  | .totalTokens => "total_tokens"
  | .cachedInputTokens => "cached_input_tokens"
  | .reasoningTokens => "reasoning_tokens"

/-- The keys under which a provider reports a field. -/
def TokenField.aliases : TokenField → List String
  | .inputTokens => ["input_tokens", "prompt_tokens", "prompt_eval_count"]
  | .outputTokens => ["output_tokens", "completion_tokens", "eval_count"]
  | .totalTokens => ["total_tokens"]
  | .cachedInputTokens => ["cached_input_tokens", "cached_tokens"]
  | .reasoningTokens => ["reasoning_tokens"]

/-- The keys of objects under which a provider reports a field. -/
def TokenField.nested : TokenField → List (String × String)
  | .cachedInputTokens => [("prompt_tokens_details", "cached_tokens")]
  | .reasoningTokens => [("completion_tokens_details", "reasoning_tokens")]
  | _ => []

inductive UsageQuality where
  | invalid
  | known
  | part
  | unknown
deriving DecidableEq

/-! ## Normalizing -/

/-- Token counts, and whether anything about them was invalid. -/
structure Usage where
  tokens : TokenField → Option ℕ
  invalid : Bool

/-- `_usage_alias`: the first value that is there. -/
def usageAlias (value : List (String × Json)) (f : TokenField) : Option Json :=
  (f.aliases.findSome? fun key => assoc key value).or
    (f.nested.findSome? fun path =>
      match assoc path.1 value with
      | some (.obj inner) => assoc path.2 inner
      | _ => none)

/-- A value that is there: a count, nothing, or something invalid. -/
def readTokens : Option Json → Option ℕ × Bool
  | none => (none, false)
  | some .null => (none, false)
  | some (.num n) => if 0 ≤ n ∧ n ≤ maxInt64 then (some n.toNat, false) else (none, true)
  | some _ => (none, true)

/-- The total of input and output, where both are known; one that is too large is invalid. -/
def deriveTotal (u : Usage) : Usage :=
  match u.tokens .inputTokens, u.tokens .outputTokens with
  | some i, some o =>
      if maxInt64 < i + o then { u with invalid := true }
      else { u with tokens := fun f => if f = .totalTokens then some (i + o) else u.tokens f }
  | _, _ => u

def normalizeUsage (value : Json) : Usage :=
  match value with
  | .null => ⟨fun _ => none, false⟩
  | .obj fields =>
      let read : Usage :=
        ⟨fun f => (readTokens (usageAlias fields f)).1,
          tokenFields.any fun f => (readTokens (usageAlias fields f)).2⟩
      if (usageAlias fields .totalTokens).isNone then deriveTotal read else read
  | _ => ⟨fun _ => none, true⟩

def qualityOf (u : Usage) : UsageQuality :=
  if u.invalid then .invalid
  else if (u.tokens .totalTokens).isSome then .known
  else if tokenFields.any fun f => (u.tokens f).isSome then .part
  else .unknown

/-! ## Finishing a call -/

inductive TerminalStatus where
  | succeeded
  | failed
  | unknown
deriving DecidableEq

inductive CallStatus where
  | prepared
  | started
  | finished (status : TerminalStatus)
deriving DecidableEq

/-- What `finish_call` reads and writes of the row of a call. -/
structure CallRow where
  status : CallStatus
  usage : Usage
  usageQuality : UsageQuality
  errorCode : Option String
  finishedAt : Option String

/-- The row of a call that has been prepared or started. -/
def CallRow.fresh (started : Bool) : CallRow where
  status := if started then .started else .prepared
  usage := ⟨fun _ => none, false⟩
  usageQuality := .unknown
  errorCode := none
  finishedAt := none

/-- Two values that are both there and differ. -/
def contradicts {α : Type} (old new : Option α) : Prop := ∃ x y, old = some x ∧ new = some y ∧ x ≠ y

instance {α : Type} [DecidableEq α] (old new : Option α) : Decidable (contradicts old new) :=
  match old, new with
  | some x, some y =>
      decidable_of_iff (x ≠ y)
        ⟨fun h => ⟨x, y, rfl, rfl, h⟩, fun ⟨_, _, hx, hy, h⟩ =>
          Option.some.inj hx ▸ Option.some.inj hy ▸ h⟩
  | none, _ => isFalse fun ⟨_, _, hx, _⟩ => nomatch hx
  | some _, none => isFalse fun ⟨_, _, _, hy, _⟩ => nomatch hy

/-- A call that has been finished stays as it was finished. -/
def CallStatus.admits : CallStatus → TerminalStatus → Bool
  | .finished status, target => decide (status = target)
  | _, _ => true

/-- The counts that are there and the reported ones, and a total where it is still missing. -/
def mergeUsage (old new : Usage) : Result Usage := do
  tokenFields.forM fun f =>
    require (¬ contradicts (old.tokens f) (new.tokens f))
      (LedgerError.conflict ("物理调用 " ++ f.name ++ " 已有冲突值"))
  let merged : Usage := ⟨fun f => (old.tokens f).or (new.tokens f), old.invalid || new.invalid⟩
  return if (merged.tokens .totalTokens).isNone then deriveTotal merged else merged

/-- `finish_call`, with the clock's time and the optional arguments. -/
def finishCall (now : String) (row : CallRow) (target : TerminalStatus) (usage : Json)
    (errorCode finishedAt : Option String) : Result CallRow := do
  require (row.status.admits target = true) (.conflict "物理调用终态冲突")
  let merged ← mergeUsage row.usage (normalizeUsage usage)
  require (¬ contradicts row.errorCode errorCode)
    (.conflict "物理调用 error_code 已有冲突值")
  require (¬ contradicts row.finishedAt finishedAt)
    (.conflict "物理调用 finished_at 已有冲突值")
  return {
    status := .finished target
    usage := merged
    usageQuality := qualityOf merged
    errorCode := row.errorCode.or errorCode
    finishedAt := row.finishedAt.or (some (finishedAt.getD now)) }

end LogRisk.Ledger
