import LogRisk.Ledger.RangeAlgebra
import LogRisk.Library.Decimal

/-!
# Tokens for a thousand records

`tokens_per_1000` multiplies, divides in the decimal context, with 28 digits, and rounds the
quotient half up to two places.  Counts are 63 bits wide, so the first rounding is never seen.
-/

namespace LogRisk.Ledger

open LogRisk.Library LogRisk.Library.Transaction

/-- The digits of the default context. -/
def contextPrecision : ℕ := 28

inductive DensityError where
  | ledger (e : LedgerError)
  /-- `decimal.InvalidOperation`. -/
  | invalidOperation
deriving DecidableEq

/-- `(Decimal(tokens) * Decimal(1000) / Decimal(records)).quantize(Decimal("0.01"), ROUND_HALF_UP)`. -/
def density (tokens records : ℕ) : Option ℚ :=
  Decimal.quantize contextPrecision Decimal.halfUp (-2)
    (Decimal.div contextPrecision (Decimal.mul contextPrecision tokens 1000) records)

def tokensPer1000 (tokens records : Option ℤ) : Except DensityError (Option ℚ) := do
  let normalizedTokens ← (nullableInt tokens "tokens").mapError .ledger
  let normalizedRecords ← (nullableInt records "records").mapError .ledger
  match normalizedTokens, normalizedRecords with
  | some t, some r =>
      if r = 0 then return none
      else (orFail (density t r) .invalidOperation).map some
  | _, _ => return none

/-- The exact quotient, rounded half up to two places. -/
def exactDensity (tokens records : ℕ) : ℚ :=
  Decimal.roundAt Decimal.halfUp (-2) (1000 * tokens / records)

/-! ## The quotient rounded twice -/

theorem mul_thousand {tokens : ℕ} (h : tokens ≤ maxInt64) :
    Decimal.mul contextPrecision tokens 1000 = tokens * 1000 := by
  have hdigits : tokens * 1000 < 10 ^ contextPrecision := by
    unfold maxInt64 at h
    unfold contextPrecision
    omega
  have hself := @Decimal.fix_eq_self contextPrecision (tokens * 1000) 0 hdigits
  unfold Decimal.mul
  simpa using hself

theorem hundredths (tokens records : ℕ) :
    (tokens * 1000 : ℚ) / records / 10 ^ (-2 : ℤ) = (100000 * tokens : ℕ) / records := by
  have hpow : (10 : ℚ) ^ (-2 : ℤ) = 1 / 100 := by norm_num
  rw [hpow]
  push_cast
  ring

theorem halfUp_div {tokens records : ℕ} (ht : tokens ≤ maxInt64) (hr : 0 < records) :
    Decimal.halfUp (Decimal.div contextPrecision (Decimal.mul contextPrecision tokens 1000)
      records / 10 ^ (-2 : ℤ)) =
      Decimal.halfUp ((tokens * 1000 : ℚ) / records / 10 ^ (-2 : ℤ)) := by
  rw [mul_thousand ht]
  refine Decimal.halfUp_fix hr (hundredths tokens records) ?_ (by decide)
  unfold maxInt64 at ht
  unfold contextPrecision
  omega

theorem halfUp_hundredths_lt {tokens records : ℕ} (ht : tokens ≤ maxInt64) (hr : 0 < records) :
    |Decimal.halfUp ((tokens * 1000 : ℚ) / records / 10 ^ (-2 : ℤ))| < 10 ^ contextPrecision := by
  have hrq : (1 : ℚ) ≤ records := by exact_mod_cast hr
  have hle : ((100000 * tokens : ℕ) : ℚ) / records ≤ (100000 * tokens : ℕ) :=
    div_le_self (Nat.cast_nonneg _) hrq
  have hnonneg : (0 : ℚ) ≤ ((100000 * tokens : ℕ) : ℚ) / records := by positivity
  rw [hundredths, Decimal.halfUp_of_nonneg hnonneg]
  set x : ℚ := ((100000 * tokens : ℕ) : ℚ) / records with hx
  have hfloor : 0 ≤ ⌊x + 1 / 2⌋ := Int.floor_nonneg.mpr (by linarith)
  have hbound : ⌊x + 1 / 2⌋ < (100000 * tokens : ℕ) + 1 := by
    rw [Int.floor_lt]
    push_cast at hle ⊢
    linarith
  rw [abs_of_nonneg hfloor]
  refine hbound.trans ?_
  have hdigits : 100000 * tokens + 1 < 10 ^ contextPrecision := by
    unfold maxInt64 at ht
    unfold contextPrecision
    omega
  exact_mod_cast hdigits

theorem density_eq {tokens records : ℕ} (ht : tokens ≤ maxInt64) (hr : 0 < records) :
    density tokens records = some (exactDensity tokens records) := by
  unfold density Decimal.quantize exactDensity Decimal.roundAt
  rw [halfUp_div ht hr, if_pos (halfUp_hundredths_lt ht hr), mul_comm (1000 : ℚ)]

/-- The density of counts that fit into 63 bits is the exact quotient, rounded once. -/
theorem tokensPer1000_exact {tokens records : ℤ} (ht : 0 ≤ tokens) (ht' : tokens ≤ 2 ^ 63 - 1)
    (hr : 1 ≤ records) (hr' : records ≤ 2 ^ 63 - 1) :
    tokensPer1000 (some tokens) (some records) =
      .ok (some (Decimal.roundAt Decimal.halfUp (-2) (1000 * tokens / records))) := by
  obtain ⟨t, rfl⟩ := Int.eq_ofNat_of_zero_le ht
  obtain ⟨r, rfl⟩ := Int.eq_ofNat_of_zero_le (by omega : 0 ≤ records)
  have htokens : t ≤ maxInt64 := by
    unfold maxInt64
    omega
  have hrecords : r ≤ maxInt64 := by
    unfold maxInt64
    omega
  have hbounded : ∀ (n : ℕ) (field : String), n ≤ maxInt64 →
      nullableInt (some (n : ℤ)) field = .ok (some n) := by
    intro n field hn
    show (boundedInt (n : ℤ) field).map some = .ok (some n)
    rw [boundedInt_eq_ok.mpr ⟨rfl, hn⟩]
    rfl
  have hpos : 0 < r := by omega
  have hdensity := density_eq htokens hpos
  unfold tokensPer1000
  rw [hbounded t _ htokens, hbounded r _ hrecords]
  show (if r = 0 then pure none else (orFail (density t r) DensityError.invalidOperation).map some) =
    Except.ok _
  rw [if_neg hpos.ne', hdensity]
  rfl

/-- A quotient next to a half-way point. -/
theorem tokensPer1000_exact_third : tokensPer1000 (some 1) (some 3) = .ok (some (33333 / 100)) := by
  have hexact := @tokensPer1000_exact 1 3 (by decide) (by decide) (by decide) (by decide)
  rw [hexact]
  have hround : Decimal.halfUp ((1000 * ((1 : ℤ) : ℚ) / ((3 : ℤ) : ℚ)) / 10 ^ (-2 : ℤ)) = 33333 := by
    decide +kernel
  unfold Decimal.roundAt
  rw [hround]
  norm_num

end LogRisk.Ledger
