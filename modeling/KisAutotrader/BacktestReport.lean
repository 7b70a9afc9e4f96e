import KisAutotrader.Backtest

/-!
# The backtest report

The metrics of a run with every index and every division that can raise, and the
run that ends with them. The square root is that of the numbers at hand.
-/
namespace KisAutotrader.Backtest
open Fallible

structure Report extends BacktestResult where
  sharpeRatio : ℚ

namespace BacktestReport

def tradingDaysPerYear : ℚ := 252

def riskFreeRate : ℚ := 35 / 1000

/-- `xs[i]`. -/
def item (xs : List ℚ) (i : ℕ) : Except PyError ℚ := (xs[i]?).elim (.error .indexError) .ok

/-- `math.sqrt`. -/
def squareRoot (sqrt : ℚ → ℚ) (x : ℚ) : Except PyError ℚ :=
  if x < 0 then .error (.valueError "math domain error") else .ok (sqrt x)

/-- The loop of `_calculate_max_drawdown`. -/
def drawdowns : ℚ → ℚ → List ℚ → Except PyError ℚ
  | _, maxDd, [] => .ok maxDd
  | peak, maxDd, equity::rest =>
      let peak := if equity > peak then equity else peak
      if peak > 0 then do
        let fall ← divide (peak - equity) peak
        let drawdown := fall * 100
        drawdowns peak (if drawdown > maxDd then drawdown else maxDd) rest
      else drawdowns peak maxDd rest

def maxDrawdown (equityCurve : List ℚ) : Except PyError ℚ :=
  if equityCurve = [] then .ok 0
  else do
    let peak ← item equityCurve 0
    drawdowns peak 0 equityCurve

/-- The loop over the days of `_calculate_sharpe_ratio`. -/
def dailyReturns (equityCurve : List ℚ) : List ℕ → Except PyError (List ℚ)
  | [] => .ok []
  | i::is => do
      let prev ← item equityCurve (i - 1)
      if prev ≠ 0 then
        let equity ← item equityCurve i
        let r ← divide (equity - prev) prev
        let rest ← dailyReturns equityCurve is
        pure (r::rest)
      else dailyReturns equityCurve is

def sharpeRatioOf (sqrt : ℚ → ℚ) (equityCurve : List ℚ) : Except PyError ℚ :=
  if equityCurve.length < 2 then .ok 0
  else do
    let returns ← dailyReturns equityCurve (List.range' 1 (equityCurve.length - 1))
    if returns = [] then pure 0
    else
      let avgDaily ← divide returns.sum returns.length
      let variance ← divide (returns.map fun r => (r - avgDaily) ^ 2).sum returns.length
      let stdDaily ← squareRoot sqrt variance
      let annualizedReturn := avgDaily * tradingDaysPerYear
      let annualizedStd := stdDaily * (← squareRoot sqrt tradingDaysPerYear)
      if annualizedStd = 0 then pure 0
      else divide (annualizedReturn - riskFreeRate) annualizedStd

/-- `sum(xs) / len(xs)` where there is something to average. -/
def average (xs : List ℚ) : Except PyError ℚ :=
  if xs = [] then .ok 0 else divide xs.sum xs.length

def profitFactor (totalProfit totalLoss : ℚ) : Except PyError (Option ℚ) :=
  if totalLoss < 0 then (divide totalProfit |totalLoss|).map some
  else if totalProfit > 0 then .ok none
  else .ok (some 0)

/-- The total return stays as it is without capital. -/
def totalReturn (result : BacktestResult) : Except PyError ℚ :=
  if result.initialCapital > 0 then
    (divide (result.finalCapital - result.initialCapital) result.initialCapital).map (· * 100)
  else .ok result.totalReturn

def winRate (profitSells sells : List TradeRecord) : Except PyError ℚ :=
  if sells = [] then .ok 0 else (divide profitSells.length sells.length).map (· * 100)

def calculateMetrics (sqrt : ℚ → ℚ) (result : BacktestResult) : Except PyError Report := do
  let total ← totalReturn result
  let maxDd ← maxDrawdown result.equityCurve
  let sells := sellTrades result.tradeLog
  let profitSells := sells.filter fun t => t.profitLoss > 0
  let lossSells := sells.filter fun t => t.profitLoss ≤ 0
  let wins ← winRate profitSells sells
  let avgProfitRate ← average (profitSells.map TradeRecord.profitRate)
  let avgLossRate ← average (lossSells.map TradeRecord.profitRate)
  let factor ← profitFactor (profitSells.map TradeRecord.profitLoss).sum
    (lossSells.map TradeRecord.profitLoss).sum
  let sharpeRatio ← sharpeRatioOf sqrt result.equityCurve
  pure { result with
    totalReturn := total, maxDrawdown := maxDd, totalTrades := result.tradeLog.length
    profitTrades := profitSells.length, lossTrades := lossSells.length
    winRate := wins, avgProfitRate, avgLossRate, profitFactor := factor, sharpeRatio }

end BacktestReport

/-! ### The run with its report -/

/-- `_build_result` after the forced sale. -/
def reportOf (sqrt : ℚ → ℚ) (strategy : BaseStrategy) (config : BacktestConfig)
    (data : List DailyRow) (code : Code) (last : DailyRow) (p : Progress) :
    Except PyError Report :=
  match data[minWindowSize]? with
  | none => .error .indexError
  | some first => BacktestReport.calculateMetrics sqrt
      { strategyName := strategy.name
        stockCode := code
        period := first.date ++ "~" ++ last.date
        initialCapital := config.initialCapital
        finalCapital := p.broker.cash
        equityCurve := p.equityCurve
        tradeLog := p.broker.tradeHistory }

def buildReport (sqrt : ℚ → ℚ) (strategy : BaseStrategy) (config : BacktestConfig)
    (data : List DailyRow) (code : Code) (p : Progress) : Except PyError Report :=
  match data.getLast? with
  | none => .error .indexError
  | some last => do reportOf sqrt strategy config data code last (← liquidate code last p)

/-- `run`, with the whole report. -/
def BacktestEngine.runReport (sqrt : ℚ → ℚ) (e : BacktestEngine) (data : List DailyRow)
    (code : Code) : Except PyError Report :=
  if data.length < minWindowSize then .error (.valueError (shortageMessage data.length))
  else do
    let p ← runDays e.strategy e.config data code (data.length - minWindowSize)
    buildReport sqrt e.strategy e.config data code p

/-! ### No metric raises -/

namespace BacktestReport

theorem divide_ok {x y : ℚ} (h : y ≠ 0) : divide x y = .ok (x / y) := if_neg h

theorem item_ok {xs : List ℚ} {i : ℕ} (h : i < xs.length) : item xs i = .ok xs[i] := by
  rw [item, List.getElem?_eq_getElem h]
  rfl

theorem larger_eq_max (x y : ℚ) : (if y > x then y else x) = max x y := by
  rcases le_or_gt y x with h | h
  · rw [if_neg (not_lt.mpr h), max_eq_left h]
  · rw [if_pos h, max_eq_right h.le]

theorem drawdowns_eq (peak maxDd : ℚ) (curve : List ℚ) :
    drawdowns peak maxDd curve = .ok (drawdownFrom peak maxDd curve) := by
  induction curve generalizing peak maxDd with
  | nil => rfl
  | cons equity rest ih =>
    simp only [drawdowns, drawdownFrom, larger_eq_max]
    by_cases hpos : max peak equity > 0
    · rw [if_pos hpos, if_pos hpos, divide_ok hpos.ne']
      exact ih _ _
    · rw [if_neg hpos, if_neg hpos]
      exact ih _ _

theorem maxDrawdown_eq (curve : List ℚ) :
    maxDrawdown curve = .ok (calculateMaxDrawdown curve) := by
  cases curve with
  | nil => rfl
  | cons equity rest =>
    rw [maxDrawdown, if_neg (List.cons_ne_nil _ _), item_ok (by simp)]
    exact drawdowns_eq equity 0 (equity::rest)

theorem dailyReturns_ok {curve : List ℚ} {is : List ℕ} (h : ∀ i ∈ is, i < curve.length) :
    ∃ returns, dailyReturns curve is = .ok returns := by
  induction is with
  | nil => exact ⟨[], rfl⟩
  | cons i is ih =>
    obtain ⟨hi, his⟩ := List.forall_mem_cons.mp h
    obtain ⟨rest, hrest⟩ := ih his
    rw [dailyReturns, item_ok (show i - 1 < curve.length by omega)]
    by_cases hprev : curve[i - 1] ≠ 0
    · refine ⟨(curve[i] - curve[i - 1]) / curve[i - 1]::rest, ?_⟩
      simp only [ok_bind, if_pos hprev, item_ok hi, divide_ok hprev, hrest]
      rfl
    · refine ⟨rest, ?_⟩
      simp only [ok_bind, if_neg hprev, hrest]

theorem squareRoot_ok {sqrt : ℚ → ℚ} {x : ℚ} (h : 0 ≤ x) : squareRoot sqrt x = .ok (sqrt x) :=
  if_neg (not_lt.mpr h)

theorem variance_nonneg (returns : List ℚ) (avg : ℚ) :
    0 ≤ (returns.map fun r => (r - avg) ^ 2).sum / (returns.length : ℚ) := by
  apply div_nonneg
  · apply List.sum_nonneg
    intro x hx
    obtain ⟨r, -, rfl⟩ := List.mem_map.mp hx
    exact sq_nonneg _
  · positivity

/-- The Sharpe ratio of any curve: the divisors are lengths that are not zero and a deviation that
has been compared with zero. -/
theorem sharpeRatioOf_ok (sqrt : ℚ → ℚ) (curve : List ℚ) :
    ∃ ratio, sharpeRatioOf sqrt curve = .ok ratio := by
  unfold sharpeRatioOf
  split_ifs with hshort
  · exact ⟨0, rfl⟩
  · obtain ⟨returns, hreturns⟩ : ∃ returns,
        dailyReturns curve (List.range' 1 (curve.length - 1)) = .ok returns := by
      apply dailyReturns_ok
      intro i hi
      have hrange := List.mem_range'_1.mp hi
      omega
    simp only [hreturns, ok_bind]
    by_cases hnone : returns = []
    · exact ⟨0, if_pos hnone⟩
    · have hlength : (returns.length : ℚ) ≠ 0 := by simpa using hnone
      have hyear : 0 ≤ tradingDaysPerYear := by decide
      simp only [if_neg hnone, divide_ok hlength, ok_bind, squareRoot_ok (variance_nonneg _ _),
        squareRoot_ok hyear]
      split_ifs with hflat
      · exact ⟨0, rfl⟩
      · exact ⟨_, divide_ok hflat⟩

theorem average_eq (xs : List ℚ) : average xs = .ok (mean xs) := by
  unfold average mean
  split_ifs with hnone
  · simp [hnone]
  · exact divide_ok (by simpa using hnone)

theorem profitFactor_eq (totalProfit totalLoss : ℚ) :
    profitFactor totalProfit totalLoss = .ok (profitFactorOf totalProfit totalLoss) := by
  unfold profitFactor profitFactorOf
  split_ifs with hloss hprofit
  · rw [divide_ok (abs_ne_zero.mpr hloss.ne)]
    rfl
  · rfl
  · rfl

theorem totalReturn_eq (result : BacktestResult) :
    totalReturn result = .ok (Backtest.calculateMetrics result).totalReturn := by
  simp only [totalReturn, Backtest.calculateMetrics]
  split_ifs with hpos
  · have hne : (result.initialCapital : ℚ) ≠ 0 := by exact_mod_cast hpos.ne'
    rw [divide_ok hne]
    rfl
  · rfl

theorem winRate_eq (profitSells sells : List TradeRecord) :
    winRate profitSells sells = .ok ((profitSells.length : ℚ) / sells.length * 100) := by
  unfold winRate
  split_ifs with hnone
  · simp [hnone]
  · rw [divide_ok (by simpa using hnone)]
    rfl

/-- The metrics of every result can be computed. -/
theorem calculateMetrics_ok (sqrt : ℚ → ℚ) (result : BacktestResult) :
    ∃ ratio, sharpeRatioOf sqrt result.equityCurve = .ok ratio ∧
      calculateMetrics sqrt result = .ok ⟨Backtest.calculateMetrics result, ratio⟩ := by
  obtain ⟨ratio, hratio⟩ := sharpeRatioOf_ok sqrt result.equityCurve
  refine ⟨ratio, hratio, ?_⟩
  simp only [calculateMetrics, totalReturn_eq, winRate_eq, maxDrawdown_eq, average_eq,
    profitFactor_eq, hratio, ok_bind]
  rfl

end BacktestReport

/-- The whole report is the metrics with a Sharpe ratio. -/
theorem reportOf_eq (sqrt : ℚ → ℚ) (strategy : BaseStrategy) (config : BacktestConfig)
    (data : List DailyRow) (code : Code) (last : DailyRow) (p : Progress) :
    reportOf sqrt strategy config data code last p =
      resultOf strategy config data code last p >>= fun r =>
        (BacktestReport.sharpeRatioOf sqrt r.equityCurve).map (Report.mk r) := by
  unfold reportOf resultOf
  cases data[minWindowSize]? with
  | none => rfl
  | some first =>
    obtain ⟨ratio, hratio, hmetrics⟩ := BacktestReport.calculateMetrics_ok sqrt
      { strategyName := strategy.name
        stockCode := code
        period := first.date ++ "~" ++ last.date
        initialCapital := config.initialCapital
        finalCapital := p.broker.cash
        equityCurve := p.equityCurve
        tradeLog := p.broker.tradeHistory }
    simp only [hmetrics, ok_bind]
    have hcurve : BacktestReport.sharpeRatioOf sqrt p.equityCurve = .ok ratio := hratio
    simp only [Backtest.calculateMetrics, hcurve]
    rfl

/-- A run has a report exactly where it has a result, and the two agree. -/
theorem runReport_eq (sqrt : ℚ → ℚ) (e : BacktestEngine) (data : List DailyRow) (code : Code) :
    e.runReport sqrt data code =
      e.run data code >>= fun r =>
        (BacktestReport.sharpeRatioOf sqrt r.equityCurve).map (Report.mk r) := by
  unfold BacktestEngine.runReport BacktestEngine.run
  split_ifs
  · rfl
  · rw [bind_assoc]
    refine bind_congr fun p => ?_
    unfold buildReport buildResult
    cases data.getLast? with
    | none => rfl
    | some last =>
      simp only [bind_assoc]
      exact bind_congr fun p' => reportOf_eq sqrt e.strategy e.config data code last p'

end KisAutotrader.Backtest
