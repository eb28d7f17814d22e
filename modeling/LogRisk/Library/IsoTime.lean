import Mathlib.Data.Prod.Lex
import Mathlib.Data.Int.Order.Basic
import Mathlib.Order.Lattice

/-!
# Times with an offset

A time is what a clock on the wall shows together with the clock's offset from
UTC, both in microseconds.  Two times can be the same instant and still differ;
their texts are ordered by the wall, instants by the instant.
-/

namespace LogRisk.Library

structure IsoTime where
  wall : ℤ
  offset : ℤ
deriving DecidableEq, Inhabited

namespace IsoTime

def second : ℤ := 1000000

def day : ℤ := 86400 * second

def instant (t : IsoTime) : ℤ := t.wall - t.offset

/-- The calendar day the clock shows. -/
def date (t : IsoTime) : ℤ := t.wall.fdiv day

/-- Adding a time span keeps the offset. -/
def add (t : IsoTime) (span : ℤ) : IsoTime := { t with wall := t.wall + span }

/-! ## The order of the texts -/

/-- What the texts are compared by: the wall to the microsecond, then `+` before
`-`, then the size of the offset. -/
def textKey (t : IsoTime) : ℤ ×ₗ Bool ×ₗ ℕ :=
  toLex (t.wall, toLex (decide (t.offset < 0), t.offset.natAbs))

theorem textKey_injective : Function.Injective textKey := by
  rintro ⟨w, o⟩ ⟨w', o'⟩ h
  have hpair := toLex.injective h
  have hrest := toLex.injective (Prod.mk.inj hpair).2
  obtain ⟨hwall, -⟩ := Prod.mk.inj hpair
  obtain ⟨hsign, habs⟩ := Prod.mk.inj hrest
  simp only [decide_eq_decide] at hwall hsign habs
  have hoffset : o = o' := by omega
  rw [hwall, hoffset]

instance : LinearOrder IsoTime := LinearOrder.lift' textKey textKey_injective

/-! ## Earlier and later instants -/

/-- `min(a, b)` of times. -/
def earlier (a b : IsoTime) : IsoTime := if b.instant < a.instant then b else a

/-- `max(a, b)` of times. -/
def later (a b : IsoTime) : IsoTime := if a.instant < b.instant then b else a

/-! ## Windows -/

/-- The start of the window of so many seconds that holds the time. -/
def floorTo (t : IsoTime) (seconds : ℤ) : IsoTime :=
  { t with wall := (t.instant.tdiv second).fdiv seconds * seconds * second + t.offset }

/-- The number of the window of so many seconds that the instant lies in. -/
def windowOf (t : IsoTime) (seconds : ℤ) : ℤ := t.instant.fdiv (seconds * second)

/-- Before the epoch, in the last second of a window: cut to whole seconds, which
rounds towards the epoch, the time lies in the next window. -/
def Spills (t : IsoTime) (seconds : ℤ) : Prop :=
  t.instant < 0 ∧ seconds * second < t.instant.fmod (seconds * second) + second

instance (t : IsoTime) (seconds : ℤ) : Decidable (t.Spills seconds) := instDecidableAnd

/-- The number of the window that the whole seconds lie in. -/
def slot (t : IsoTime) (seconds : ℤ) : ℤ :=
  t.windowOf seconds + if t.Spills seconds then 1 else 0

theorem slot_of_nonneg {t : IsoTime} (ht : 0 ≤ t.instant) (seconds : ℤ) :
    t.slot seconds = t.windowOf seconds := by
  have hspills : ¬t.Spills seconds := fun h => absurd ht (Int.not_le.mpr h.1)
  rw [slot, if_neg hspills, Int.add_zero]

/-- Whole seconds before the epoch: `x` microseconds are cut to `-(-x / second)`. -/
theorem cut_ediv {x seconds n r : ℤ} (hs : 0 < seconds) (hr : 0 ≤ r) (hr' : r < seconds * second)
    (hdiv : second * (n * seconds) + r = x) :
    -(-x / second) / seconds = n + if seconds * second < r + second then 1 else 0 := by
  have hsucc : (n + 1) * seconds = n * seconds + seconds := by
    rw [Int.add_mul, Int.one_mul]
  unfold second at *
  rw [Int.ediv_eq_iff_of_pos hs]
  split
  · rw [hsucc]
    omega
  · rw [Int.add_zero]
    omega

theorem tdiv_fdiv_eq_slot {t : IsoTime} {seconds : ℤ} (hs : 0 < seconds) :
    (t.instant.tdiv second).fdiv seconds = t.slot seconds := by
  have hlength : 0 < seconds * second := by unfold second; omega
  rcases lt_or_ge t.instant 0 with ht | ht
  · have hcut : t.instant.tdiv second = -(-t.instant / second) := by
      rw [← Int.tdiv_eq_ediv_of_nonneg (by omega), Int.neg_tdiv, Int.neg_neg]
    have hspills : t.Spills seconds ↔
        seconds * second < t.instant % (seconds * second) + second := by
      rw [Spills, Int.fmod_eq_emod_of_nonneg _ hlength.le]
      exact and_iff_right ht
    have hdiv : second * (t.instant / (seconds * second) * seconds) +
        t.instant % (seconds * second) = t.instant := by
      have hsplit := Int.mul_ediv_add_emod t.instant (seconds * second)
      rw [Int.mul_comm seconds, Int.mul_assoc, Int.mul_comm seconds] at hsplit
      rw [Int.mul_comm seconds second]
      exact hsplit
    rw [slot, windowOf, if_congr hspills rfl rfl, hcut, Int.fdiv_eq_ediv_of_nonneg _ hs.le,
      Int.fdiv_eq_ediv_of_nonneg _ hlength.le]
    exact cut_ediv hs (Int.emod_nonneg _ hlength.ne') (Int.emod_lt_of_pos _ hlength) hdiv
  · rw [slot_of_nonneg ht, windowOf, Int.fdiv_eq_ediv_of_nonneg _ hs.le,
      Int.fdiv_eq_ediv_of_nonneg _ hlength.le, Int.tdiv_eq_ediv_of_nonneg ht,
      Int.ediv_ediv_of_nonneg (by unfold second; omega), Int.mul_comm]

/-- Two times start their windows alike when the clocks have one offset and the
windows of the whole seconds start together. -/
theorem floorTo_eq_iff {t t' : IsoTime} {seconds seconds' : ℤ} (hs : 0 < seconds)
    (hs' : 0 < seconds') :
    t.floorTo seconds = t'.floorTo seconds' ↔
      t.offset = t'.offset ∧ t.slot seconds * seconds = t'.slot seconds' * seconds' := by
  rw [floorTo, floorTo, tdiv_fdiv_eq_slot hs, tdiv_fdiv_eq_slot hs', IsoTime.mk.injEq]
  unfold second
  constructor
  · rintro ⟨hwall, hoffset⟩
    exact ⟨hoffset, by omega⟩
  · rintro ⟨hoffset, hstart⟩
    exact ⟨by omega, hoffset⟩

@[simp] theorem floorTo_offset (t : IsoTime) (seconds : ℤ) :
    (t.floorTo seconds).offset = t.offset := rfl

/-! ## Times of one offset -/

theorem le_wall {a b : IsoTime} (h : a ≤ b) : a.wall ≤ b.wall := by
  have hlex : textKey a ≤ textKey b := h
  rcases Prod.Lex.le_iff.mp hlex with hlt | ⟨heq, -⟩
  · exact hlt.le
  · exact heq.le

theorem instant_le_of_le {a b : IsoTime} (hoffset : a.offset = b.offset) (h : a ≤ b) :
    a.instant ≤ b.instant := by
  have hwall := le_wall h
  unfold instant
  omega

end IsoTime

end LogRisk.Library
