import KisAutotrader.Market

/-! The risk manager: daily profit and loss, the portfolio halt and the buy and
sell rules. A state holds what changes during a day, the limits are fixed. -/
namespace KisAutotrader

structure RiskLimits where
  maxLossRate : ℚ := 3/100
  maxPositionRatio : ℚ := 1/5
  dailyTradeLimit : ℤ := 10
  takeProfitRatio : ℚ := 1/20
  trailingActivationRatio : ℚ := 1/20
  trailingDrawdownRatio : ℚ := 1/20
  breakevenActivationRatio : ℚ := 1/50
  stagnationHours : ℚ := 3
  minProfitableClose : ℚ := 3/200
  marketCloseLossCutRate : ℚ := 0
  minConfidence : ℚ := 1/10
  maxDailyDrawdown : ℚ := 1/20
  maxConsecutiveLosses : ℤ := 5
  maxDailyLossAbs : ℚ := 0
  marketCloseCutoffHour : ℤ := 14
  marketCloseCutoffMinute : ℤ := 30

structure RiskManager where
  dailyPeakPnl : ℚ := 0
  dailyCumulativePnl : ℚ := 0
  consecutiveLosses : ℕ := 0
  portfolioHalted : Bool := false
  haltReason : Option String := none
  deriving DecidableEq, Repr

namespace RiskManager

/-- Trip the halt; the first reason is kept. -/
def halt (reason : String) (r : RiskManager) : RiskManager :=
  { r with portfolioHalted := true, haltReason := some (r.haltReason.getD reason) }

def accumulate (pl : ℚ) (r : RiskManager) : RiskManager :=
  let cumulative := r.dailyCumulativePnl + pl
  { r with
    dailyCumulativePnl := cumulative
    dailyPeakPnl := if cumulative > r.dailyPeakPnl then cumulative else r.dailyPeakPnl
    consecutiveLosses :=
      if pl < 0 then r.consecutiveLosses + 1 else if pl > 0 then 0 else r.consecutiveLosses }

def checkDrawdown (l : RiskLimits) (r : RiskManager) : RiskManager :=
  if 0 < r.dailyPeakPnl ∧ r.dailyCumulativePnl < 0 ∧
      (r.dailyPeakPnl - r.dailyCumulativePnl) / r.dailyPeakPnl ≥ l.maxDailyDrawdown then
    r.halt "MAX_DAILY_DRAWDOWN"
  else r

def checkDailyLossAbs (l : RiskLimits) (r : RiskManager) : RiskManager :=
  if 0 < l.maxDailyLossAbs ∧ r.dailyCumulativePnl ≤ -l.maxDailyLossAbs then
    r.halt "MAX_DAILY_LOSS_ABS"
  else r

def checkConsecutiveLosses (l : RiskLimits) (r : RiskManager) : RiskManager :=
  if (r.consecutiveLosses : ℤ) ≥ l.maxConsecutiveLosses then r.halt "MAX_CONSECUTIVE_LOSSES" else r

/-- `record_trade_result`: totals, peak and streak first, then the three halt checks. -/
def recordTradeResult (l : RiskLimits) (pl : ℚ) (r : RiskManager) : RiskManager :=
  (((r.accumulate pl).checkDrawdown l).checkDailyLossAbs l).checkConsecutiveLosses l

def resetDailyRisk (_ : RiskManager) : RiskManager := {}

def checkDailyTradeLimit (l : RiskLimits) (tradeCount : ℕ) : Bool :=
  decide ((tradeCount : ℤ) ≥ l.dailyTradeLimit)

def isNearMarketClose (l : RiskLimits) (clock : MarketClock) (now : Time) : Bool :=
  decide ((clock.hour now : ℤ) > l.marketCloseCutoffHour ∨
    (clock.hour now : ℤ) = l.marketCloseCutoffHour ∧
      (clock.minute now : ℤ) ≥ l.marketCloseCutoffMinute)

def shouldStopLoss (l : RiskLimits) (currentPrice avgPrice : ℚ) : Bool :=
  decide (0 < avgPrice ∧ (avgPrice - currentPrice) / avgPrice ≥ l.maxLossRate)

def shouldTakeProfit (l : RiskLimits) (clock : MarketClock) (now : Time)
    (currentPrice avgPrice : ℚ) : Bool :=
  let target := if isNearMarketClose l clock now then l.takeProfitRatio * (1/2)
    else l.takeProfitRatio
  decide (0 < avgPrice ∧ (currentPrice - avgPrice) / avgPrice ≥ target)

def shouldTrailingStop (l : RiskLimits) (currentPrice avgPrice peakPrice : ℚ) : Bool :=
  decide (0 < avgPrice ∧ 0 < peakPrice ∧
    (peakPrice - avgPrice) / avgPrice ≥ l.trailingActivationRatio ∧
    (peakPrice - currentPrice) / peakPrice ≥ l.trailingDrawdownRatio)

def shouldBreakevenStop (l : RiskLimits) (currentPrice avgPrice peakPrice : ℚ) : Bool :=
  decide (0 < l.breakevenActivationRatio ∧ 0 < avgPrice ∧
    (peakPrice - avgPrice) / avgPrice ≥ l.breakevenActivationRatio ∧ currentPrice ≤ avgPrice)

def shouldStagnationExit (l : RiskLimits) (avgPrice peakPrice heldMinutes : ℚ) : Bool :=
  decide (0 < l.stagnationHours ∧ 0 < avgPrice ∧ l.stagnationHours * 60 ≤ heldMinutes ∧
    (peakPrice - avgPrice) / avgPrice < l.trailingActivationRatio)

def shouldCloseForMarketEnd (l : RiskLimits) (clock : MarketClock) (now : Time)
    (currentPrice avgPrice : ℚ) : Bool :=
  let profit := (currentPrice - avgPrice) / avgPrice
  decide (0 < avgPrice) && isNearMarketClose l clock now &&
    decide (profit ≥ l.minProfitableClose ∨
      0 < l.marketCloseLossCutRate ∧ profit ≤ -l.marketCloseLossCutRate)

/-- `calculate_position_size`; `none` is the `RiskLimitError` of a nonpositive argument. -/
def calculatePositionSize (l : RiskLimits) (totalBalance price : ℚ) (minQuantity : ℤ) :
    Option ℤ :=
  if totalBalance ≤ 0 ∨ price ≤ 0 then none
  else some (max minQuantity (truncate (totalBalance * l.maxPositionRatio / price)))

/-- `check_buy_gates`: the code of the first gate that rejects a BUY signal. -/
def checkBuyGates (l : RiskLimits) (clock : MarketClock) (now : Time) (signal : Signal)
    (balance : ℚ) (r : RiskManager) : Option String :=
  if signal.signalType ≠ .buy then none
  else if r.portfolioHalted then
    some ((r.haltReason.filter (· ≠ "")).getD "MAX_CONSECUTIVE_LOSSES")
  else if isNearMarketClose l clock now then some "MARKET_CLOSE_GUARD"
  else if balance ≤ 0 ∨ ∃ t ∈ signal.targetPrice, t > balance then some "INSUFFICIENT_CASH"
  else if signal.confidence < l.minConfidence then some "LOW_CONFIDENCE"
  else none

/-- A passed gate leaves no room for a halted portfolio. -/
theorem checkBuyGates_halted {l : RiskLimits} {clock : MarketClock} {now : Time} {signal : Signal}
    {balance : ℚ} {r : RiskManager} (hs : signal.signalType = .buy)
    (h : r.checkBuyGates l clock now signal balance = none) : r.portfolioHalted = false := by
  cases hr : r.portfolioHalted with
  | false => rfl
  | true => simp [checkBuyGates, hs, hr] at h

/-- The batch replay of a day's results from the daily reset. -/
def replay (l : RiskLimits) (results : List ℚ) : RiskManager :=
  results.foldl (fun r pl => r.recordTradeResult l pl) {}

@[simp] theorem replay_nil (l : RiskLimits) : replay l [] = {} := rfl

@[simp] theorem replay_append_singleton (l : RiskLimits) (results : List ℚ) (pl : ℚ) :
    replay l (results ++ [pl]) = (replay l results).recordTradeResult l pl := by
  simp [replay]

end RiskManager

end KisAutotrader
