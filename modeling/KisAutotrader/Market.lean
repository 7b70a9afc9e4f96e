import Mathlib

/-! Vocabulary shared by the whole engine: stock codes, instants, order sides,
the market clock, strategy signals and the price normalisation of one market.
Amounts are exact rationals, instants are microseconds. -/
namespace KisAutotrader

abbrev Code := String
abbrev Time := ℕ

def second : Time := 1000000
def minute : Time := 60 * second

inductive Side where
  | buy
  | sell
  deriving DecidableEq, Repr

inductive SignalType where
  | buy
  | sell
  | hold
  deriving DecidableEq, Repr

structure Signal where
  signalType : SignalType
  confidence : ℚ
  targetPrice : Option ℚ := none
  deriving DecidableEq, Repr

/-- The two market profiles; precision and order exchanges follow from the code. -/
inductive MarketProfile where
  | krx
  | us
  deriving DecidableEq, Repr

namespace MarketProfile

def isOverseas : MarketProfile → Bool
  | krx => false
  | us => true

def pricePrecision : MarketProfile → ℕ
  | krx => 0
  | us => 2

def exchanges : MarketProfile → List String
  | krx => []
  | us => ["NASD", "NYSE", "AMEX"]

end MarketProfile

/-- Calendar reading of an instant in the market's time zone. -/
structure MarketClock where
  date : Time → ℕ
  hour : Time → ℕ
  minute : Time → ℕ

/-- Python's `int`: truncation toward zero. -/
def truncate (x : ℚ) : ℤ := if 0 ≤ x then ⌊x⌋ else -⌊-x⌋

/-- Quantisation to `p` decimals, ties away from zero (`ROUND_HALF_UP`). -/
def roundHalfUp (p : ℕ) (x : ℚ) : ℚ :=
  if 0 ≤ x then (⌊x * 10^p + 1/2⌋ : ℤ) / 10^p else -((⌊-x * 10^p + 1/2⌋ : ℤ) / 10^p)

/-- `_norm_price`: whole units at precision 0, otherwise half-up cents. -/
def normPrice (precision : ℕ) (value : ℚ) : ℚ :=
  if precision = 0 then truncate value else roundHalfUp precision value

theorem truncate_intCast (z : ℤ) : truncate (z : ℚ) = z := by
  unfold truncate
  split_ifs with h
  · exact Int.floor_intCast z
  · rw [← Int.cast_neg, Int.floor_intCast, neg_neg]

theorem truncate_neg_iff (x : ℚ) : truncate x < 0 ↔ x ≤ -1 := by
  unfold truncate
  split_ifs with hx
  · have hfloor : 0 ≤ ⌊x⌋ := Int.floor_nonneg.mpr hx
    exact iff_of_false (by omega) (by linarith)
  · rw [neg_lt_zero, ← Int.add_one_le_iff, zero_add, Int.le_floor, Int.cast_one]
    exact le_neg

theorem truncate_pos_iff (x : ℚ) : 0 < truncate x ↔ 1 ≤ x := by
  unfold truncate
  split_ifs with hx
  · rw [← Int.add_one_le_iff, zero_add, Int.le_floor, Int.cast_one]
  · have hfloor : 0 ≤ ⌊-x⌋ := Int.floor_nonneg.mpr (by linarith)
    exact iff_of_false (by omega) (by linarith)

theorem truncate_nonpos {x : ℚ} (h : x ≤ 0) : truncate x ≤ 0 := by
  by_contra hpos
  have hone := (truncate_pos_iff x).mp (not_le.mp hpos)
  linarith

theorem truncate_le {x : ℚ} (h : 0 < truncate x) : (truncate x : ℚ) ≤ x := by
  have hone := (truncate_pos_iff x).mp h
  unfold truncate
  rw [if_pos (by linarith)]
  exact Int.floor_le x

/-- Normalised whole-unit amounts survive a second truncation. -/
theorem truncate_normPrice (value : ℚ) : (truncate (normPrice 0 value) : ℚ) = normPrice 0 value := by
  simp [normPrice, truncate_intCast]

end KisAutotrader
