import KisAutotrader.OrderExecution

/-!
# The sign of a realised amount

A booked amount has the sign of the difference it is computed from, unless the difference is
below the resolution of the market's amounts.
-/
namespace KisAutotrader.LossSign
open OrderedDict OrderExecution

/-- The least difference that does not vanish: a whole unit where amounts are truncated, half of
the last decimal where they are rounded. -/
def resolution (precision : ℕ) : ℚ := if precision = 0 then 1 else 1 / (2 * 10 ^ precision)

theorem resolution_pos (precision : ℕ) : 0 < resolution precision := by
  unfold resolution
  split_ifs <;> positivity

section Round
variable (p : ℕ)

/-- The nearest multiple is positive from half a decimal on. -/
theorem round_pos_iff (y : ℚ) : (0 : ℚ) < (⌊y * 10 ^ p + 1 / 2⌋ : ℤ) / 10 ^ p ↔
    1 / (2 * 10 ^ p) ≤ y := by
  have hscale : (0 : ℚ) < 10 ^ p := by positivity
  rw [div_pos_iff_of_pos_right hscale, Int.cast_pos, ← Int.add_one_le_iff, zero_add, Int.le_floor,
    Int.cast_one, div_le_iff₀ (by positivity)]
  constructor <;> intro h <;> linarith

theorem roundHalfUp_neg_iff (x : ℚ) : roundHalfUp p x < 0 ↔ x ≤ -(1 / (2 * 10 ^ p)) := by
  have hhalf : (0 : ℚ) < 1 / (2 * 10 ^ p) := by positivity
  unfold roundHalfUp
  split_ifs with hx
  · have hfloor : (0 : ℚ) ≤ (⌊x * 10 ^ p + 1 / 2⌋ : ℤ) := by
      exact_mod_cast Int.floor_nonneg.mpr (by positivity)
    exact iff_of_false (not_lt.mpr (by positivity)) (by linarith)
  · rw [neg_lt_zero, round_pos_iff]
    exact le_neg

theorem roundHalfUp_pos_iff (x : ℚ) : 0 < roundHalfUp p x ↔ 1 / (2 * 10 ^ p) ≤ x := by
  have hhalf : (0 : ℚ) < 1 / (2 * 10 ^ p) := by positivity
  unfold roundHalfUp
  split_ifs with hx
  · exact round_pos_iff p x
  · have hneg : (0 : ℚ) ≤ -x := by linarith
    have hfloor : (0 : ℚ) ≤ (⌊-x * 10 ^ p + 1 / 2⌋ : ℤ) := by
      exact_mod_cast Int.floor_nonneg.mpr (by positivity)
    have hquotient : (0 : ℚ) ≤ (⌊-x * 10 ^ p + 1 / 2⌋ : ℤ) / 10 ^ p := by positivity
    exact iff_of_false (by linarith) (by linarith)

end Round

theorem normPrice_neg_iff (precision : ℕ) (x : ℚ) :
    normPrice precision x < 0 ↔ x ≤ -resolution precision := by
  unfold normPrice resolution
  split_ifs
  · rw [Int.cast_lt_zero, truncate_neg_iff]
  · exact roundHalfUp_neg_iff precision x

theorem normPrice_pos_iff (precision : ℕ) (x : ℚ) :
    0 < normPrice precision x ↔ resolution precision ≤ x := by
  unfold normPrice resolution
  split_ifs
  · rw [Int.cast_pos, truncate_pos_iff]
  · exact roundHalfUp_pos_iff precision x

/-! ### What a sale leaves in the books -/

theorem mul_neg_iff_of_pos {x c : ℚ} (hc : 0 < c) : x * c < 0 ↔ x < 0 :=
  ⟨fun h => by_contra fun hx => absurd h (not_lt.mpr (mul_nonneg (not_lt.mp hx) hc.le)),
    fun hx => mul_neg_of_neg_of_pos hx hc⟩

theorem pct_neg_iff {p avg : ℚ} (havg : 0 < avg) : (p - avg) / avg * 100 < 0 ↔ p < avg := by
  rw [mul_neg_iff_of_pos (by norm_num), div_eq_mul_inv, mul_neg_iff_of_pos (inv_pos.mpr havg), sub_neg]

theorem pct_pos_iff {p avg : ℚ} (havg : 0 < avg) : 0 < (p - avg) / avg * 100 ↔ avg < p := by
  rw [mul_pos_iff_of_pos_right (by norm_num), div_pos_iff_of_pos_right havg, sub_pos]

/-- The halt checks leave the streak as it is. -/
theorem streak_recordTradeResult (l : RiskLimits) (pl : ℚ) (r : RiskManager) :
    (r.recordTradeResult l pl).consecutiveLosses =
      if pl < 0 then r.consecutiveLosses + 1 else if pl > 0 then 0 else r.consecutiveLosses := by
  have hdrawdown : ∀ s : RiskManager, (s.checkDrawdown l).consecutiveLosses = s.consecutiveLosses := by
    intro s
    unfold RiskManager.checkDrawdown
    split_ifs <;> rfl
  have hloss : ∀ s : RiskManager, (s.checkDailyLossAbs l).consecutiveLosses = s.consecutiveLosses := by
    intro s
    unfold RiskManager.checkDailyLossAbs
    split_ifs <;> rfl
  have hlosses : ∀ s : RiskManager,
      (s.checkConsecutiveLosses l).consecutiveLosses = s.consecutiveLosses := by
    intro s
    unfold RiskManager.checkConsecutiveLosses
    split_ifs <;> rfl
  rw [RiskManager.recordTradeResult, hlosses, hloss, hdrawdown]
  rfl

section Sale
variable (cfg : Settings) (now : Time) (code : Code) (quantity : ℤ) (price : ℚ) (reason : String)
  (avgPrice : ℚ) (e : Engine)

/-- What the sale earned, before it is normalised. -/
def difference : ℚ := (normPrice cfg.market.pricePrecision price - avgPrice) * quantity

/-- The amount of a sale and what becomes of it: the row, the streak and the day of a loss. -/
structure Booked (amount pct : ℚ) (e' : Engine) (row : TradeRow) : Prop where
  rowAmount : row.profitLossAmount = some amount
  rowPct : row.profitLossPct = some pct
  risk : e'.risk = e.risk.recordTradeResult cfg.limits amount
  streak : e'.risk.consecutiveLosses = if amount < 0 then e.risk.consecutiveLosses + 1
    else if amount > 0 then 0 else e.risk.consecutiveLosses
  lossDate : e'.lossSellDates.get? code =
    if amount < 0 then some (cfg.clock.date now) else e.lossSellDates.get? code

theorem booked_recordTrade (havg : 0 < avgPrice) :
    let p := normPrice cfg.market.pricePrecision price
    let r := recordTrade cfg now code .sell quantity price reason (some avgPrice) e
    Booked cfg now code e
      (normPrice cfg.market.pricePrecision (difference cfg quantity price avgPrice))
      ((p - avgPrice) / avgPrice * 100) r.1 r.2 := by
  intro p r
  have hrealised : realised cfg .sell quantity p (some avgPrice) = some ((p - avgPrice) / avgPrice * 100,
      normPrice cfg.market.pricePrecision (difference cfg quantity price avgPrice)) := by
    simp only [realised, Option.filter_some, havg, decide_true, if_true, Option.map_some]
    rfl
  have hr : r = recordTrade cfg now code .sell quantity price reason (some avgPrice) e := rfl
  simp only [recordTrade] at hr
  rw [hrealised] at hr
  rw [hr]
  refine ⟨rfl, rfl, rfl, streak_recordTradeResult _ _ _, ?_⟩
  simp only [bookRealised, bookProfitLoss]
  split_ifs <;> simp

end Sale

end KisAutotrader.LossSign
