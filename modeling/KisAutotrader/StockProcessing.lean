import KisAutotrader.OrderExecution

/-! `_process_stock` and `_process_held_stock`: the decision about one stock. -/
namespace KisAutotrader.StockProcessing
open OrderedDict Coroutine OrderExecution

/-- Minutes since the holding was first observed. -/
def heldMinutes (now : Time) (code : Code) (e : Engine) : ℚ :=
  match e.heldSince.get? code with
  | none => 0
  | some since => ((now : ℚ) - since) / minute

/-- The peak after one more observation; the first one starts from the average price. -/
def nextPeak (prev : Option ℚ) (avgPrice price : ℚ) : ℚ := max (prev.getD (max avgPrice price)) price

def observeHeld (now : Time) (code : Code) (avgPrice price : ℚ) (e : Engine) : Engine :=
  { e with
    peakPrices := e.peakPrices.set code (nextPeak (e.peakPrices.get? code) avgPrice price)
    heldSince := e.heldSince.setDefault code now }

/-- The first exit rule that fires, by its reason. -/
def exitReason (cfg : Settings) (now : Time) (price avgPrice peak heldMin : ℚ) (signal : Signal) :
    Option String :=
  if RiskManager.shouldStopLoss cfg.limits price avgPrice then some "손절"
  else if RiskManager.shouldCloseForMarketEnd cfg.limits cfg.clock now price avgPrice then
    some "마감청산"
  else if cfg.trailingStopEnabled ∧ RiskManager.shouldTrailingStop cfg.limits price avgPrice peak then
    some "트레일링"
  else if ¬ cfg.trailingStopEnabled ∧
      RiskManager.shouldTakeProfit cfg.limits cfg.clock now price avgPrice then some "익절"
  else if RiskManager.shouldBreakevenStop cfg.limits price avgPrice peak then some "본전스톱"
  else if RiskManager.shouldStagnationExit cfg.limits avgPrice peak heldMin then some "정체청산"
  else if signal.signalType = .sell ∧ signal.confidence ≥ 1/10 then some "전략매도"
  else none

def processHeldStock (cfg : Settings) (price : ℚ) (h : Holding) (signal : Signal) :
    EngineM Unit := do
  if price ≤ 0 then pure ()
  else do
    let w ← get
    let peak := nextPeak (w.engine.peakPrices.get? h.stockCode) h.avgPrice price
    modify (onEngine (observeHeld w.clock h.stockCode h.avgPrice price))
    modify (logEntry (.held h.stockCode h.lot price h.avgPrice peak))
    let v ← get
    match exitReason cfg v.clock price h.avgPrice peak
        (heldMinutes v.clock h.stockCode v.engine) signal with
    | none => pure ()
    | some reason => do
        modify (logEntry (.sell h.stockCode reason))
        executeSell cfg h.stockCode h.quantity price reason (some h.avgPrice)

def holdSignal : Signal := { signalType := .hold, confidence := 0 }

def evaluateHeldWithoutDaily (cfg : Settings) (h : Holding) : EngineM (Except CallError Unit) := do
  match ← getCurrent h.stockCode (some h) with
  | .error e => pure (.error e)
  | .ok price => do
      processHeldStock cfg price h holdSignal
      pure (.ok ())

/-- A BUY signal within the cooldown that follows the last sale of its stock. -/
def inCooldown (cfg : Settings) (now : Time) (code : Code) (e : Engine) : Bool :=
  match e.lastSellAt.get? code with
  | none => false
  | some last => decide (0 < cfg.buyCooldownAfterSellMin ∧
      (now : ℤ) - last < cfg.buyCooldownAfterSellMin * minute)

def lossRebuyBlocked (cfg : Settings) (now : Time) (code : Code) (e : Engine) : Bool :=
  cfg.lossRebuyBlockSameDay && decide (e.lossSellDates.get? code = some (cfg.clock.date now))

def buysToday (code : Code) (e : Engine) : ℕ := (e.todayBuysPerStock.get? code).getD 0

/-- The first gate that rejects a BUY signal, by its reject code. -/
def buyReject (cfg : Settings) (now : Time) (code : Code) (signal : Signal) (deposit : ℚ)
    (e : Engine) : Option String :=
  if RiskManager.checkDailyTradeLimit cfg.limits e.todayTradeCount then some "DAILY_TRADE_LIMIT"
  else if (buysToday code e : ℤ) ≥ cfg.maxDailyTradesPerStock then
    some "DAILY_TRADE_LIMIT_PER_STOCK"
  else if inCooldown cfg now code e then some "REBUY_COOLDOWN"
  else if lossRebuyBlocked cfg now code e then some "LOSS_REBUY_BLOCKED"
  else e.risk.checkBuyGates cfg.limits cfg.clock now signal deposit

def minQuantity (cfg : Settings) : ℤ := if cfg.market.isOverseas then 1 else 0

/-- The branch of `_process_stock` for a BUY signal of a stock not held. -/
def processBuySignal (cfg : Settings) (code : Code) (deposit price : ℚ) (signal : Signal) :
    EngineM (Except CallError Unit) := do
  let w ← get
  match buyReject cfg w.clock code signal deposit w.engine with
  | some _ => pure (.ok ())
  | none =>
      match RiskManager.calculatePositionSize cfg.limits deposit price (minQuantity cfg) with
      | none => pure (.error .failed)
      | some quantity =>
          if quantity ≤ 0 then pure (.ok ())
          else do
            let buyable ← getBuyableQty code price
            match buyable.filter (0 < ·) with
            | none => pure (.ok ())
            | some buyableQty => do
                executeBuy cfg code (min quantity buyableQty).toNat price
                pure (.ok ())

def processStock (cfg : Settings) (code : Code) (deposit : ℚ) (holding : Option Holding) :
    EngineM (Except CallError Unit) := do
  match ← fetchDaily code with
  | .error e => pure (.error e)
  | .ok false =>
      match holding with
      | some h => evaluateHeldWithoutDaily cfg h
      | none => pure (.ok ())
  | .ok true =>
      match ← getCurrent code none with
      | .error e => pure (.error e)
      | .ok price =>
          match ← analyze code holding with
          | none => pure (.error .failed)
          | some signal =>
              match holding with
              | some h => do
                  processHeldStock cfg price h signal
                  pure (.ok ())
              | none =>
                  if signal.signalType = .buy then
                    processBuySignal cfg code deposit price signal
                  else pure (.ok ())

end KisAutotrader.StockProcessing
