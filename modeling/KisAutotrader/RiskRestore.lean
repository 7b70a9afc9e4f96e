import Mathlib.Data.List.Sort
import KisAutotrader.OrderExecution

/-! `_restore_risk_state_if_needed`: after a restart during the day the gates that
protect new entries are rebuilt from the day's rows of the trades table. -/
namespace KisAutotrader.RiskRestore
open OrderedDict Coroutine OrderExecution

/-- `get_trades_by_date`: the rows of one market day in the order of their times. -/
def getTradesByDate (clock : MarketClock) (today : ℕ) (trades : List TradeRow) : List TradeRow :=
  (trades.filter fun t => clock.date t.tradedAt = today).insertionSort
    fun a b => a.tradedAt ≤ b.tradedAt

/-- The amounts of the sales with a known result, in the order of their times. -/
def sellResults (trades : List TradeRow) : List ℚ :=
  ((trades.filter fun t => t.tradeType = .sell ∧ t.profitLossAmount.isSome).insertionSort
    fun a b => a.tradedAt ≤ b.tradedAt).filterMap TradeRow.profitLossAmount

/-- The pass over one row that rebuilds the entry counters and cooldowns. -/
def restoreRow (today : ℕ) (e : Engine) (t : TradeRow) : Engine :=
  match t.tradeType with
  | .buy => bumpBuys t.stockCode e
  | .sell => { e with
      lastSellAt := match e.lastSellAt.get? t.stockCode with
        | none => e.lastSellAt.set t.stockCode t.tradedAt
        | some prev => if prev < t.tradedAt then e.lastSellAt.set t.stockCode t.tradedAt
            else e.lastSellAt
      lossSellDates := match t.profitLossAmount with
        | some amount => if amount < 0 then e.lossSellDates.set t.stockCode today
            else e.lossSellDates
        | none => e.lossSellDates }

def restoreGates (today : ℕ) (trades : List TradeRow) (e : Engine) : Engine :=
  trades.foldl (restoreRow today)
    { e with todayBuysPerStock := .empty, lastSellAt := .empty, lossSellDates := .empty }

/-- The replayed amount: whole units in the home market, cents abroad. -/
def replayAmount (cfg : Settings) (pl : ℚ) : ℚ :=
  if cfg.market.isOverseas then pl else truncate pl

def restoreRisk (cfg : Settings) (trades : List TradeRow) (e : Engine) : Engine :=
  { e with
    risk := RiskManager.replay cfg.limits ((sellResults trades).map (replayAmount cfg))
    todayTradeCount := trades.length }

def setPeaks (peaks : Option (Dict Code ℚ)) (e : Engine) : Engine :=
  { e with peakPrices := peaks.getD .empty }

def markRestored (e : Engine) : Engine := { e with riskStateRestored := true }

def restoreRiskStateIfNeeded (cfg : Settings) : EngineM Unit := do
  let w ← get
  if w.engine.riskStateRestored then pure ()
  else do
    modify (onEngine markRestored)
    let today := cfg.clock.date w.clock
    match ← loadTrades with
    | none => pure ()
    | some rows => do
        let trades := getTradesByDate cfg.clock today rows
        modify (onEngine (restoreGates today trades))
        -- the early return of a day without sales
        if sellResults trades = [] then pure ()
        else do
          modify (onEngine (restoreRisk cfg trades))
          let peaks ← loadPeaks
          modify (onEngine (setPeaks peaks))

end KisAutotrader.RiskRestore
