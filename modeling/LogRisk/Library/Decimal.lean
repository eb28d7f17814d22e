import Mathlib.Algebra.Order.Field.Power
import Mathlib.Data.Int.Log
import Mathlib.Data.Rat.Floor
import Mathlib.Tactic.FieldSimp
import Mathlib.Tactic.Linarith
import Mathlib.Tactic.NormNum
import Mathlib.Tactic.Positivity

/-!
# Decimal arithmetic of a given precision

Decimal numbers as the rationals they denote.  An operation has the exact result, rounded half
even to the precision where it has more digits; `quantize` rounds to a given exponent.  A quotient
that is rounded twice, first to the precision and then half up, comes out as if it were rounded
once, as long as its numerator has fewer digits than the precision.
-/

namespace LogRisk.Library.Decimal

/-! ## Rounding -/

/-- The nearest integer, the even one of two. -/
def halfEven (q : ℚ) : ℤ :=
  if q - ⌊q⌋ < 1 / 2 then ⌊q⌋
  else if 1 / 2 < q - ⌊q⌋ then ⌊q⌋ + 1
  else if Even ⌊q⌋ then ⌊q⌋ else ⌊q⌋ + 1

/-- The nearest integer, the one away from zero of two. -/
def halfUp (q : ℚ) : ℤ := if 0 ≤ q then ⌊q + 1 / 2⌋ else ⌈q - 1 / 2⌉

/-- Rounded to a multiple of a power of ten. -/
def roundAt (mode : ℚ → ℤ) (exponent : ℤ) (q : ℚ) : ℚ :=
  mode (q / 10 ^ exponent) * 10 ^ exponent

/-- Rounded half even to a number of digits. -/
def fix (precision : ℕ) (q : ℚ) : ℚ :=
  if q = 0 then 0 else roundAt halfEven (Int.log 10 |q| + 1 - precision) q

/-! ## Operations -/

def mul (precision : ℕ) (a b : ℚ) : ℚ := fix precision (a * b)

def div (precision : ℕ) (a b : ℚ) : ℚ := fix precision (a / b)

/-- Nothing where the coefficient has more digits than the precision. -/
def quantize (precision : ℕ) (mode : ℚ → ℤ) (exponent : ℤ) (q : ℚ) : Option ℚ :=
  if |mode (q / 10 ^ exponent)| < 10 ^ precision then some (roundAt mode exponent q) else none

/-! ## How far rounding goes -/

theorem abs_halfEven_sub_le (q : ℚ) : |(halfEven q : ℚ) - q| ≤ 1 / 2 := by
  have hfloor := Int.floor_le q
  have hlt := Int.lt_floor_add_one q
  unfold halfEven
  rw [abs_le]
  split_ifs
  · constructor <;> linarith
  · push_cast
    constructor <;> linarith
  · constructor <;> linarith
  · push_cast
    constructor <;> linarith

theorem halfEven_nonneg {q : ℚ} (h : 0 ≤ q) : 0 ≤ halfEven q := by
  have hfloor : 0 ≤ ⌊q⌋ := Int.floor_nonneg.mpr h
  unfold halfEven
  split_ifs <;> omega

@[simp] theorem halfEven_intCast (n : ℤ) : halfEven (n : ℚ) = n := by
  unfold halfEven
  rw [Int.floor_intCast, sub_self, if_pos (by norm_num)]

theorem fix_nonneg {precision : ℕ} {q : ℚ} (h : 0 ≤ q) : 0 ≤ fix precision q := by
  unfold fix roundAt
  split
  · exact le_refl 0
  · have hround : 0 ≤ halfEven (q / 10 ^ (Int.log 10 |q| + 1 - precision)) :=
      halfEven_nonneg (by positivity)
    have hcast : (0 : ℚ) ≤ (halfEven (q / 10 ^ (Int.log 10 |q| + 1 - precision)) : ℚ) :=
      by exact_mod_cast hround
    positivity

/-- Half a unit in the last of the digits. -/
theorem abs_fix_sub_le {precision : ℕ} {q : ℚ} (h : 0 ≤ q) :
    |fix precision q - q| ≤ q / 2 * 10 ^ (1 - (precision : ℤ)) := by
  rcases h.eq_or_lt with rfl | hpos
  · simp [fix]
  · unfold fix
    rw [if_neg hpos.ne', abs_of_pos hpos]
    set unit : ℚ := 10 ^ (Int.log 10 q + 1 - (precision : ℤ)) with hunit
    have hunitPos : 0 < unit := by positivity
    have hdigits : unit ≤ q * 10 ^ (1 - (precision : ℤ)) := by
      have hlog : (10 : ℚ) ^ Int.log 10 q ≤ q := by
        have := Int.zpow_log_le_self (b := 10) (by norm_num) hpos
        exact_mod_cast this
      have hsplit : unit = 10 ^ Int.log 10 q * 10 ^ (1 - (precision : ℤ)) := by
        rw [hunit, ← zpow_add₀ (by norm_num)]
        congr 1
        ring
      rw [hsplit]
      exact mul_le_mul_of_nonneg_right hlog (by positivity)
    have hround := abs_halfEven_sub_le (q / unit)
    have hscale : roundAt halfEven (Int.log 10 q + 1 - precision) q - q =
        ((halfEven (q / unit) : ℚ) - q / unit) * unit := by
      unfold roundAt
      rw [sub_mul, div_mul_cancel₀ q hunitPos.ne']
    rw [hscale, abs_mul, abs_of_pos hunitPos]
    calc |(halfEven (q / unit) : ℚ) - q / unit| * unit
        ≤ 1 / 2 * unit := mul_le_mul_of_nonneg_right hround hunitPos.le
      _ ≤ 1 / 2 * (q * 10 ^ (1 - (precision : ℤ))) :=
          mul_le_mul_of_nonneg_left hdigits (by norm_num)
      _ = q / 2 * 10 ^ (1 - (precision : ℤ)) := by ring

/-- A number with no more digits than the precision stays as it is. -/
theorem fix_eq_self {precision n : ℕ} {exponent : ℤ} (h : n < 10 ^ precision) :
    fix precision ((n : ℚ) * 10 ^ exponent) = n * 10 ^ exponent := by
  rcases Nat.eq_zero_or_pos n with rfl | hn
  · simp [fix]
  · set q : ℚ := n * 10 ^ exponent with hq
    have hnq : (0 : ℚ) < n := Nat.cast_pos.mpr hn
    have hpos : 0 < q := by positivity
    have hlog : Int.log 10 q < exponent + precision := by
      refine (Int.lt_zpow_iff_log_lt (b := 10) (by norm_num) hpos).mp ?_
      have hcast : (n : ℚ) < 10 ^ precision := by exact_mod_cast h
      push_cast
      rw [hq, zpow_add₀ (by norm_num), mul_comm, zpow_natCast]
      exact mul_lt_mul_of_pos_left hcast (by positivity)
    unfold fix
    rw [if_neg hpos.ne', abs_of_pos hpos]
    set low : ℤ := Int.log 10 q + 1 - precision with hlow
    obtain ⟨k, hk⟩ : ∃ k : ℕ, exponent = low + k := ⟨(exponent - low).toNat, by omega⟩
    have hinteger : q / 10 ^ low = ((n * 10 ^ k : ℤ) : ℚ) := by
      rw [hq, hk, zpow_add₀ (by norm_num), zpow_natCast]
      push_cast
      field_simp
    unfold roundAt
    rw [hinteger, halfEven_intCast, ← hinteger]
    exact div_mul_cancel₀ q (by positivity)

/-! ## Rounding twice -/

theorem halfUp_of_nonneg {q : ℚ} (h : 0 ≤ q) : halfUp q = ⌊q + 1 / 2⌋ := if_pos h

/-- A number that is nearer than every half-way point rounds to the same integer. -/
theorem halfUp_eq_of_near {x y : ℚ} (hx : 0 ≤ x) (hy : 0 ≤ y)
    (hnear : ∀ k : ℤ, |y - x| < |x - (k + 1 / 2)|) : halfUp y = halfUp x := by
  rw [halfUp_of_nonneg hx, halfUp_of_nonneg hy]
  set n := ⌊x + 1 / 2⌋ with hn
  have hle : (n : ℚ) ≤ x + 1 / 2 := Int.floor_le _
  have hlt : x + 1 / 2 < n + 1 := Int.lt_floor_add_one _
  have habove := hnear n
  have hbelow := hnear (n - 1)
  push_cast at hbelow
  rw [abs_of_nonneg (show 0 ≤ x - ((n : ℚ) - 1 + 1 / 2) by linarith)] at hbelow
  rw [abs_of_nonpos (show x - ((n : ℚ) + 1 / 2) ≤ 0 by linarith)] at habove
  rw [abs_lt] at habove hbelow
  rw [Int.floor_eq_iff]
  constructor <;> linarith

/-- A fraction lies on a half-way point or at least half a unit of its denominator away. -/
theorem half_away {a b : ℕ} (hb : 0 < b) (k : ℤ) :
    (a : ℚ) / b = k + 1 / 2 ∨ 1 / (2 * b) ≤ |(a : ℚ) / b - (k + 1 / 2)| := by
  have hbq : (0 : ℚ) < b := Nat.cast_pos.mpr hb
  have hdiff : (a : ℚ) / b - (k + 1 / 2) = ((2 * a - (2 * k + 1) * b : ℤ) : ℚ) / (2 * b) := by
    push_cast
    field_simp
  by_cases hzero : (2 * a - (2 * k + 1) * b : ℤ) = 0
  · left
    rw [hzero] at hdiff
    simp only [Int.cast_zero, zero_div] at hdiff
    linarith
  · right
    have hone : (1 : ℚ) ≤ |((2 * a - (2 * k + 1) * b : ℤ) : ℚ)| := by
      rw [← Int.cast_abs]
      exact_mod_cast Int.one_le_abs hzero
    rw [hdiff, abs_div, abs_of_pos (show (0 : ℚ) < 2 * b by positivity)]
    exact div_le_div_of_nonneg_right hone (by positivity)

/-- Rounding to the precision first does not change what a fraction is rounded to. -/
theorem halfUp_fix {precision a b : ℕ} {exponent : ℤ} {q : ℚ} (hb : 0 < b)
    (hq : q / 10 ^ exponent = a / b) (ha : a < 10 ^ (precision - 1)) (hprecision : 0 < precision) :
    halfUp (fix precision q / 10 ^ exponent) = halfUp (q / 10 ^ exponent) := by
  have hbq : (0 : ℚ) < b := Nat.cast_pos.mpr hb
  have hpow : (0 : ℚ) < 10 ^ exponent := by positivity
  have hval : q = a / b * 10 ^ exponent := by
    rw [← hq]
    exact (div_mul_cancel₀ q hpow.ne').symm
  have hqnonneg : 0 ≤ q := by
    rw [hval]
    positivity
  by_cases htie : ∃ k : ℤ, (a : ℚ) / b = k + 1 / 2
  · obtain ⟨k, hk⟩ := htie
    -- a half-way point has one digit more than the integers, so it is kept as it is
    have hkle : (k : ℚ) < 10 ^ (precision - 1) := by
      have hle : (a : ℚ) / b ≤ a := div_le_self (Nat.cast_nonneg a) (by exact_mod_cast hb)
      have hcast : (a : ℚ) < 10 ^ (precision - 1) := by exact_mod_cast ha
      linarith
    have hknonneg : 0 ≤ k := by
      have hnonneg : (0 : ℚ) ≤ a / b := by positivity
      have hhalf : (-1 : ℚ) < k := by linarith
      have hcast : (-1 : ℤ) < k := by exact_mod_cast hhalf
      omega
    obtain ⟨m, rfl⟩ := Int.eq_ofNat_of_zero_le hknonneg
    have hm : m < 10 ^ (precision - 1) := by exact_mod_cast hkle
    have hdigits : 10 * m + 5 < 10 ^ precision := by
      obtain ⟨p, rfl⟩ : ∃ p, precision = p + 1 := ⟨precision - 1, by omega⟩
      rw [Nat.add_sub_cancel] at hm
      rw [pow_succ]
      omega
    have hdecimal : q = ((10 * m + 5 : ℕ) : ℚ) * 10 ^ (exponent - 1) := by
      rw [hval, hk, zpow_sub_one₀ (by norm_num)]
      push_cast
      field_simp
      ring
    have hself : fix precision q = q := by
      rw [hdecimal]
      exact fix_eq_self hdigits
    rw [hself]
  · have herror := @abs_fix_sub_le precision q hqnonneg
    have hsmall : |fix precision q / 10 ^ exponent - q / 10 ^ exponent| < 1 / (2 * b) := by
      rw [← sub_div, abs_div, abs_of_pos hpow, div_lt_iff₀ hpow]
      refine herror.trans_lt ?_
      have hcast : (a : ℚ) * 10 ^ (1 - (precision : ℤ)) < 1 := by
        have hexponent : (1 : ℤ) - precision = -((precision - 1 : ℕ) : ℤ) := by omega
        rw [hexponent, zpow_neg, zpow_natCast, ← div_eq_mul_inv, div_lt_one (by positivity)]
        exact_mod_cast ha
      rw [hval]
      calc (a : ℚ) / b * 10 ^ exponent / 2 * 10 ^ (1 - (precision : ℤ))
          = 1 / (2 * b) * 10 ^ exponent * (a * 10 ^ (1 - (precision : ℤ))) := by
            field_simp
        _ < 1 / (2 * b) * 10 ^ exponent * 1 := mul_lt_mul_of_pos_left hcast (by positivity)
        _ = 1 / (2 * b) * 10 ^ exponent := mul_one _
    refine halfUp_eq_of_near (by positivity) (div_nonneg (fix_nonneg hqnonneg) hpow.le) fun k => ?_
    rw [hq] at hsmall ⊢
    rcases half_away (a := a) hb k with hk | hfar
    · exact absurd ⟨k, hk⟩ htie
    · exact hsmall.trans_le hfar

end LogRisk.Library.Decimal
