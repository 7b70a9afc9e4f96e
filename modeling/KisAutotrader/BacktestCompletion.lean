import KisAutotrader.BacktestReport
import KisAutotrader.BrokerBooks

/-!
# Runs that complete

A series that is long enough goes through to its report; one of the least length
that is accepted has no row to start from.
-/
namespace KisAutotrader.Backtest.Completion
open BrokerBooks Fallible OrderedDict

/-- A broker whose next calls raise nothing. -/
structure Ready (config : BacktestConfig) (b : VirtualBroker) : Prop where
  booked : Booked config b
  solvent : Solvent config b

section Days
variable {config : BacktestConfig} {b b' : VirtualBroker} {code : Code} {price : ℚ}
  {date : String}

theorem ready_init (config : BacktestConfig) : Ready config (.init config) := by
  refine ⟨booked_init config, min_le_right _ _, fun code p hp => ?_⟩
  simp [VirtualBroker.init] at hp

theorem Ready.traded (h : Ready config b) (hrates : ValidRates config) (hprice : 0 < price)
    (htraded : Traded code price date b b') : Ready config b' := by
  have hrates' : ValidRates b.config := h.booked.config_eq ▸ hrates
  cases htraded with
  | idle => exact h
  | bought r _ hbuy => exact ⟨h.booked.bought hbuy, h.solvent.bought hrates' hprice hbuy⟩
  | sold r _ hsell =>
    exact ⟨h.booked.sold hsell, h.solvent.sold h.booked hrates' hprice hsell⟩

theorem checkStopLoss_total (h : Ready config b) (code : Code) (price : ℚ) :
    ∃ stop, b.checkStopLoss code price = .ok stop := by
  unfold VirtualBroker.checkStopLoss
  split
  · exact ⟨_, rfl⟩
  next position hheld =>
    rw [BacktestReport.divide_ok (h.solvent.avgPrice code position hheld).ne']
    exact ⟨_, rfl⟩

theorem checkTakeProfit_total (h : Ready config b) (code : Code) (price : ℚ) :
    ∃ take, b.checkTakeProfit code price = .ok take := by
  unfold VirtualBroker.checkTakeProfit
  split
  · exact ⟨_, rfl⟩
  next position hheld =>
    rw [BacktestReport.divide_ok (h.solvent.avgPrice code position hheld).ne']
    exact ⟨_, rfl⟩

theorem sale_total (h : Ready config b) (code : Code) (price : ℚ) (date : String) :
    ∃ b', (b.sell code price date).map Prod.snd = .ok b' := by
  obtain ⟨r, b', hsell⟩ := sell_total h.solvent code price date
  exact ⟨b', by rw [hsell]; rfl⟩

theorem processHeld_total (h : Ready config b) (signal : Signal) (code : Code) (price : ℚ)
    (date : String) : ∃ b', processHeld b signal code price date = .ok b' := by
  obtain ⟨stop, hstop⟩ := checkStopLoss_total h code price
  obtain ⟨take, htake⟩ := checkTakeProfit_total h code price
  have hsale := sale_total h code price date
  simp only [processHeld, hstop, htake, ok_bind]
  cases stop <;> cases take <;> simp only [Bool.false_eq_true, if_true, if_false]
  · split_ifs
    · exact hsale
    · exact ⟨b, rfl⟩
  · exact hsale
  · exact hsale
  · exact hsale

theorem tradeDay_total (h : Ready config b) (hrates : ValidRates config) (strategy : BaseStrategy)
    (window : List ℚ) (code : Code) (price : ℚ) (date : String) :
    ∃ b', tradeDay strategy b window code price date = .ok b' ∧ Ready config b' := by
  by_cases hprice : price ≤ 0
  · exact ⟨b, if_pos hprice, h⟩
  · have hpos : 0 < price := not_le.mp hprice
    have hok : ∃ b', tradeDay strategy b window code price date = .ok b' := by
      unfold tradeDay processDay
      rw [if_neg hprice]
      split_ifs
      · exact processHeld_total h _ code price date
      · have hrates' : ValidRates b.config := h.booked.config_eq ▸ hrates
        obtain ⟨r, b', hbuy⟩ := buy_total code date hrates' hpos
        exact ⟨b', by rw [hbuy]; rfl⟩
      · exact ⟨b, rfl⟩
    obtain ⟨b', hb'⟩ := hok
    exact ⟨b', hb', h.traded hrates hpos (tradeDay_traded hb')⟩

theorem runDays_total (hrates : ValidRates config) (strategy : BaseStrategy) (code : Code)
    {data : List DailyRow} {k : ℕ} (hk : minWindowSize + k ≤ data.length) :
    ∃ p, runDays strategy config data code k = .ok p ∧ Ready config p.broker := by
  induction k with
  | zero => exact ⟨_, rfl, ready_init config⟩
  | succ k ih =>
    apply bind_total (ih (by omega))
    intro p hready
    have hrow : minWindowSize + k < data.length := by omega
    obtain ⟨b', hb', hready'⟩ := tradeDay_total hready hrates strategy
      ((data.take (minWindowSize + k + 1)).map DailyRow.close) code
      (truncate data[minWindowSize + k].close) data[minWindowSize + k].date
    refine ⟨⟨b', p.equityCurve ++ [b'.portfolioValue
      (priceOf code (truncate data[minWindowSize + k].close : ℤ))]⟩, ?_, hready'⟩
    simp only [runDay, List.getElem?_eq_getElem hrow, hb']
    rfl

theorem liquidate_total {p : Progress} (h : Ready config p.broker) (code : Code) (last : DailyRow) :
    ∃ p', liquidate code last p = .ok p' := by
  unfold liquidate
  split_ifs
  · obtain ⟨r, b', hsell⟩ := sell_total h.solvent code last.close last.date
    exact ⟨_, by rw [hsell]; rfl⟩
  · exact ⟨p, rfl⟩

end Days

theorem reportOf_ok (sqrt : ℚ → ℚ) (strategy : BaseStrategy) (config : BacktestConfig)
    {data : List DailyRow} (code : Code) (last : DailyRow) (p : Progress)
    (hrows : minWindowSize < data.length) :
    ∃ r, reportOf sqrt strategy config data code last p = .ok r := by
  unfold reportOf
  rw [List.getElem?_eq_getElem hrows]
  obtain ⟨ratio, -, hmetrics⟩ := BacktestReport.calculateMetrics_ok sqrt
    { strategyName := strategy.name
      stockCode := code
      period := data[minWindowSize].date ++ "~" ++ last.date
      initialCapital := config.initialCapital
      finalCapital := p.broker.cash
      equityCurve := p.equityCurve
      tradeLog := p.broker.tradeHistory }
  exact ⟨_, hmetrics⟩

theorem runReport_ok (sqrt : ℚ → ℚ) (e : BacktestEngine) {data : List DailyRow} (code : Code)
    (hrates : ValidRates e.config) (hrows : minWindowSize < data.length) :
    ∃ r, e.runReport sqrt data code = .ok r := by
  have hdays : minWindowSize + (data.length - minWindowSize) ≤ data.length := by omega
  obtain ⟨p, hp, hready⟩ := runDays_total hrates e.strategy code hdays
  have hne : data ≠ [] := List.ne_nil_of_length_pos (by omega)
  obtain ⟨p', hp'⟩ := liquidate_total hready code (data.getLast hne)
  obtain ⟨r, hr⟩ := reportOf_ok sqrt e.strategy e.config code (data.getLast hne) p' hrows
  refine ⟨r, ?_⟩
  unfold BacktestEngine.runReport buildReport
  rw [if_neg (not_lt.mpr hrows.le), hp, List.getLast?_eq_some_getLast hne]
  simp only [ok_bind, hp', hr]

/-- The length check lets a series pass that has no row at the start date. -/
theorem runReport_shortest (sqrt : ℚ → ℚ) (e : BacktestEngine) {data : List DailyRow} (code : Code)
    (hrows : data.length = minWindowSize) :
    e.runReport sqrt data code = .error .indexError := by
  unfold BacktestEngine.runReport buildReport
  rw [if_neg (not_lt.mpr hrows.ge), hrows, Nat.sub_self]
  cases hlast : data.getLast? with
  | none => rfl
  | some last =>
    have hstart : data[minWindowSize]? = none := List.getElem?_eq_none hrows.le
    simp only [runDays, liquidate, VirtualBroker.init, reportOf, hstart]
    rfl

/-- An accepted series goes through to its report exactly when it has a row after the least
window: the broker cannot fail at such rates, and no metric can. -/
theorem completes_iff (sqrt : ℚ → ℚ) (e : BacktestEngine) (data : List DailyRow) (code : Code)
    (hrates : ValidRates e.config) (haccepted : minWindowSize ≤ data.length) :
    (∃ r, e.runReport sqrt data code = .ok r) ↔ minWindowSize < data.length := by
  constructor
  · rintro ⟨r, hr⟩
    by_contra hshort
    rw [runReport_shortest sqrt e code (by omega)] at hr
    cases hr
  · exact runReport_ok sqrt e code hrates

theorem defaults_valid : ValidRates {} := by
  constructor <;> norm_num

theorem completes_iff_flat :
    minWindowSize ≤ (seriesOf (List.replicate 22 10000)).length ∧
      ∃ r, (engineOf alwaysBuy {}).runReport id (seriesOf (List.replicate 22 10000)) "005930" =
        .ok r :=
  have hrows : (seriesOf (List.replicate 22 10000)).length = 22 := by decide
  ⟨by rw [hrows]; decide,
    (completes_iff id (engineOf alwaysBuy {}) (seriesOf (List.replicate 22 10000)) "005930"
      defaults_valid (by rw [hrows]; decide)).mpr (by rw [hrows]; decide)⟩

/-- As many rows as the least window, all at one positive price, under the default rates. -/
theorem shortest_series_fails :
    ValidRates (engineOf alwaysBuy {}).config ∧ 0 < (engineOf alwaysBuy {}).config.initialCapital ∧
      minWindowSize ≤ (seriesOf (List.replicate 21 10000)).length ∧
      (∀ row ∈ seriesOf (List.replicate 21 10000), 0 < row.close) ∧
      (engineOf alwaysBuy {}).runReport id (seriesOf (List.replicate 21 10000)) "005930" =
        .error .indexError := by
  have hrows : (seriesOf (List.replicate 21 10000)).length = minWindowSize := by decide
  exact ⟨defaults_valid, by decide, hrows.ge, by decide, runReport_shortest id _ "005930" hrows⟩

end KisAutotrader.Backtest.Completion
