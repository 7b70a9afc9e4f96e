import KisAutotrader.Fallible
import KisAutotrader.VirtualBroker

/-!
# The backtest engine

One pass over a daily series: the strategy sees the closes up to the day, the broker
trades at its close, and an open position is sold on the last day.
-/
namespace KisAutotrader.Backtest
open Fallible OrderedDict

/-- A row of the daily series; only its date and close are read. -/
structure DailyRow where
  date : String
  close : ℚ
deriving DecidableEq

structure BaseStrategy where
  name : String
  analyze : List ℚ → Signal

structure BacktestResult where
  strategyName : String
  stockCode : Code
  period : String
  initialCapital : ℤ
  finalCapital : ℚ
  totalReturn : ℚ := 0
  maxDrawdown : ℚ := 0
  winRate : ℚ := 0
  totalTrades : ℕ := 0
  profitTrades : ℕ := 0
  lossTrades : ℕ := 0
  avgProfitRate : ℚ := 0
  avgLossRate : ℚ := 0
  /-- infinite where it is `none` -/
  profitFactor : Option ℚ := some 0
  equityCurve : List ℚ
  tradeLog : List TradeRecord

/-! ### Metrics -/

/-- The pass of `_calculate_max_drawdown` from a peak and the deepest fall so far. -/
def drawdownFrom : ℚ → ℚ → List ℚ → ℚ
  | _, maxDd, [] => maxDd
  | peak, maxDd, equity::rest =>
      let peak := max peak equity
      if peak > 0 then drawdownFrom peak (max maxDd ((peak - equity) / peak * 100)) rest
      else drawdownFrom peak maxDd rest

def calculateMaxDrawdown : List ℚ → ℚ
  | [] => 0
  | equity::rest => drawdownFrom equity 0 (equity::rest)

/-- A mean that is zero where there is nothing to average. -/
def mean (xs : List ℚ) : ℚ := xs.sum / xs.length

def sellTrades (log : List TradeRecord) : List TradeRecord := log.filter fun t => t.side = .sell

def profitFactorOf (totalProfit totalLoss : ℚ) : Option ℚ :=
  if totalLoss < 0 then some (totalProfit / |totalLoss|)
  else if totalProfit > 0 then none
  else some 0

def calculateMetrics (result : BacktestResult) : BacktestResult :=
  let sells := sellTrades result.tradeLog
  let profitSells := sells.filter fun t => t.profitLoss > 0
  let lossSells := sells.filter fun t => t.profitLoss ≤ 0
  { result with
    totalReturn := if result.initialCapital > 0 then
        (result.finalCapital - result.initialCapital) / result.initialCapital * 100
      else result.totalReturn
    maxDrawdown := calculateMaxDrawdown result.equityCurve
    totalTrades := result.tradeLog.length
    profitTrades := profitSells.length
    lossTrades := lossSells.length
    winRate := (profitSells.length : ℚ) / sells.length * 100
    avgProfitRate := mean (profitSells.map TradeRecord.profitRate)
    avgLossRate := mean (lossSells.map TradeRecord.profitRate)
    profitFactor := profitFactorOf (profitSells.map TradeRecord.profitLoss).sum
      (lossSells.map TradeRecord.profitLoss).sum }

/-! ### The run -/

def minWindowSize : ℕ := 21

def minConfidence : ℚ := 1 / 10

/-- Whether the signal of a strategy is acted upon. -/
def Signal.calls (signal : Signal) (signalType : SignalType) : Prop :=
  signal.signalType = signalType ∧ signal.confidence ≥ minConfidence

instance (signal : Signal) (signalType : SignalType) : Decidable (Signal.calls signal signalType) := by
  unfold Signal.calls
  infer_instance

/-- A position on a day: stop loss, take profit, then the sell signal. -/
def processHeld (b : VirtualBroker) (signal : Signal) (code : Code) (currentPrice : ℚ)
    (currentDate : String) : Except PyError VirtualBroker := do
  let stop ← b.checkStopLoss code currentPrice
  if stop then (b.sell code currentPrice currentDate).map Prod.snd
  else
    let take ← b.checkTakeProfit code currentPrice
    if take then (b.sell code currentPrice currentDate).map Prod.snd
    else if Signal.calls signal .sell then (b.sell code currentPrice currentDate).map Prod.snd
    else return b

def processDay (strategy : BaseStrategy) (b : VirtualBroker) (window : List ℚ) (code : Code)
    (currentPrice : ℚ) (currentDate : String) : Except PyError VirtualBroker :=
  if (b.positions.get? code).isSome then
    processHeld b (strategy.analyze window) code currentPrice currentDate
  else if Signal.calls (strategy.analyze window) .buy then
    (b.buy code currentPrice currentDate).map Prod.snd
  else .ok b

structure Progress where
  broker : VirtualBroker
  equityCurve : List ℚ

def priceOf (code : Code) (price : ℚ) : Dict Code ℚ := Dict.empty.set code price

/-- A day without a positive close is skipped. -/
def tradeDay (strategy : BaseStrategy) (b : VirtualBroker) (window : List ℚ) (code : Code)
    (currentPrice : ℚ) (currentDate : String) : Except PyError VirtualBroker :=
  if currentPrice ≤ 0 then .ok b
  else processDay strategy b window code currentPrice currentDate

/-- The body of the day loop. -/
def runDay (strategy : BaseStrategy) (data : List DailyRow) (code : Code) (p : Progress) (i : ℕ) :
    Except PyError Progress :=
  match data[i]? with
  | none => .error .indexError
  | some row =>
      let currentPrice : ℚ := truncate row.close
      (tradeDay strategy p.broker ((data.take (i + 1)).map DailyRow.close) code currentPrice
        row.date).map fun b =>
          ⟨b, p.equityCurve ++ [b.portfolioValue (priceOf code currentPrice)]⟩

/-- The loop after its first `k` days. -/
def runDays (strategy : BaseStrategy) (config : BacktestConfig) (data : List DailyRow)
    (code : Code) : ℕ → Except PyError Progress
  | 0 => return ⟨.init config, []⟩
  | k + 1 => do runDay strategy data code (← runDays strategy config data code k) (minWindowSize + k)

/-- Overwrite the last entry, where there is one. -/
def setLast (xs : List ℚ) (x : ℚ) : List ℚ := if xs = [] then [] else xs.dropLast ++ [x]

/-- The forced sale on the last day. -/
def liquidate (code : Code) (last : DailyRow) (p : Progress) : Except PyError Progress :=
  if (p.broker.positions.get? code).isSome then
    (p.broker.sell code last.close last.date).map fun x =>
      ⟨x.2, setLast p.equityCurve (x.2.portfolioValue (priceOf code last.close))⟩
  else .ok p

def resultOf (strategy : BaseStrategy) (config : BacktestConfig) (data : List DailyRow)
    (code : Code) (last : DailyRow) (p : Progress) : Except PyError BacktestResult :=
  match data[minWindowSize]? with
  | none => .error .indexError
  | some first => .ok (calculateMetrics
      { strategyName := strategy.name
        stockCode := code
        period := first.date ++ "~" ++ last.date
        initialCapital := config.initialCapital
        finalCapital := p.broker.cash
        equityCurve := p.equityCurve
        tradeLog := p.broker.tradeHistory })

def buildResult (strategy : BaseStrategy) (config : BacktestConfig) (data : List DailyRow)
    (code : Code) (p : Progress) : Except PyError BacktestResult :=
  match data.getLast? with
  | none => .error .indexError
  | some last => do resultOf strategy config data code last (← liquidate code last p)

structure BacktestEngine where
  strategy : BaseStrategy
  config : BacktestConfig
  broker : VirtualBroker

def shortageMessage (rows : ℕ) : String :=
  s!"데이터 부족: 최소 {minWindowSize}행 필요, 현재 {rows}행"

/-- `run`: the broker an earlier run left is replaced. -/
def BacktestEngine.run (e : BacktestEngine) (data : List DailyRow) (code : Code) :
    Except PyError BacktestResult :=
  if data.length < minWindowSize then .error (.valueError (shortageMessage data.length))
  else do
    let p ← runDays e.strategy e.config data code (data.length - minWindowSize)
    buildResult e.strategy e.config data code p

/-! ### What the steps do -/

/-- A day leaves the broker alone, or makes one call. -/
inductive Traded (code : Code) (price : ℚ) (date : String) (b : VirtualBroker) :
    VirtualBroker → Prop
  | idle : Traded code price date b b
  | bought (r : Option TradeRecord) (b' : VirtualBroker)
      (h : VirtualBroker.Bought b code price date r b') : Traded code price date b b'
  | sold (r : Option TradeRecord) (b' : VirtualBroker)
      (h : VirtualBroker.Sold b code price date r b') : Traded code price date b b'

section Steps
variable {strategy : BaseStrategy} {b b' : VirtualBroker} {window : List ℚ} {code : Code}
  {price : ℚ} {date : String} {p p' : Progress}

theorem sale_traded (h : (b.sell code price date).map Prod.snd = .ok b') :
    Traded code price date b b' := by
  obtain ⟨x, hx, rfl⟩ := map_eq_ok.mp h
  exact .sold x.1 x.2 (VirtualBroker.sell_sold hx)

theorem processHeld_traded {signal : Signal}
    (h : processHeld b signal code price date = .ok b') : Traded code price date b b' := by
  obtain ⟨stop, -, h⟩ := bind_eq_ok.mp h
  cases stop with
  | true => exact sale_traded h
  | false =>
    obtain ⟨take, -, h⟩ := bind_eq_ok.mp h
    cases take with
    | true => exact sale_traded h
    | false =>
      simp only [Bool.false_eq_true, if_false] at h
      split_ifs at h
      · exact sale_traded h
      · obtain rfl := Except.ok.inj h
        exact .idle

theorem tradeDay_traded (h : tradeDay strategy b window code price date = .ok b') :
    Traded code price date b b' := by
  unfold tradeDay processDay at h
  split_ifs at h
  · obtain rfl := Except.ok.inj h
    exact .idle
  · exact processHeld_traded h
  · obtain ⟨x, hx, rfl⟩ := map_eq_ok.mp h
    exact .bought x.1 x.2 (VirtualBroker.buy_bought hx)
  · obtain rfl := Except.ok.inj h
    exact .idle

theorem runDay_traded {data : List DailyRow} {i : ℕ} (h : runDay strategy data code p i = .ok p') :
    ∃ row, data[i]? = some row ∧
      Traded code (truncate row.close : ℤ) row.date p.broker p'.broker ∧
      p'.equityCurve = p.equityCurve ++
        [p'.broker.portfolioValue (priceOf code (truncate row.close : ℤ))] := by
  unfold runDay at h
  split at h
  next => cases h
  next row hrow =>
    obtain ⟨b, hb, rfl⟩ := map_eq_ok.mp h
    exact ⟨row, hrow, tradeDay_traded hb, rfl⟩

end Steps

/-- The parts of a run that completes. -/
theorem run_eq_ok {e : BacktestEngine} {data : List DailyRow} {code : Code} {r : BacktestResult}
    (h : e.run data code = .ok r) :
    ∃ p last p', runDays e.strategy e.config data code (data.length - minWindowSize) = .ok p ∧
      data.getLast? = some last ∧ liquidate code last p = .ok p' ∧
      resultOf e.strategy e.config data code last p' = .ok r := by
  unfold BacktestEngine.run at h
  split_ifs at h
  obtain ⟨p, hp, h⟩ := bind_eq_ok.mp h
  unfold buildResult at h
  split at h
  next => cases h
  next last hlast =>
    obtain ⟨p', hp', h⟩ := bind_eq_ok.mp h
    exact ⟨p, last, p', hp, hlast, hp', h⟩

/-- The result takes capital, equity and log from where the run ended. -/
theorem resultOf_eq_ok {strategy : BaseStrategy} {config : BacktestConfig} {data : List DailyRow}
    {code : Code} {last : DailyRow} {p : Progress} {r : BacktestResult}
    (h : resultOf strategy config data code last p = .ok r) :
    r.initialCapital = config.initialCapital ∧ r.finalCapital = p.broker.cash ∧
      r.equityCurve = p.equityCurve ∧ r.tradeLog = p.broker.tradeHistory := by
  unfold resultOf at h
  split at h
  next => cases h
  next first =>
    obtain rfl := Except.ok.inj h
    exact ⟨rfl, rfl, rfl, rfl⟩

theorem resultOf_totalReturn {strategy : BaseStrategy} {config : BacktestConfig}
    {data : List DailyRow} {code : Code} {last : DailyRow} {p : Progress} {r : BacktestResult}
    (h : resultOf strategy config data code last p = .ok r) (hpos : 0 < r.initialCapital) :
    r.totalReturn = (r.finalCapital - r.initialCapital) / r.initialCapital * 100 := by
  unfold resultOf at h
  split at h
  next => cases h
  next first =>
    obtain rfl := Except.ok.inj h
    exact if_pos hpos

/-- A strategy that buys whenever it may. -/
def alwaysBuy : BaseStrategy := ⟨"always", fun _ => { signalType := .buy, confidence := 1 }⟩

def engineOf (strategy : BaseStrategy) (config : BacktestConfig) : BacktestEngine :=
  ⟨strategy, config, .init config⟩

def seriesOf (closes : List ℚ) : List DailyRow :=
  closes.zipIdx.map fun x => ⟨toString x.2, x.1⟩

end KisAutotrader.Backtest
