import KisAutotrader.Backtest
import KisAutotrader.BrokerBooks

/-!
# The accounts of a backtest

The gain of the capital is what the sales report, less the commission of the purchases,
which no sale reports.
-/
namespace KisAutotrader.Backtest.Accounting
open BrokerBooks Fallible OrderedDict

/-- A broker that has only ever traded one stock. -/
structure Single (config : BacktestConfig) (code : Code) (b : VirtualBroker) : Prop where
  booked : Booked config b
  only : ∀ r ∈ b.tradeHistory, r.stockCode = code

section Steps
variable {config : BacktestConfig} {code : Code} {b b' : VirtualBroker} {price : ℚ} {date : String}

theorem single_init (config : BacktestConfig) (code : Code) : Single config code (.init config) := by
  refine ⟨booked_init config, fun r hr => ?_⟩
  simp [VirtualBroker.init] at hr

theorem Single.traded (h : Single config code b) (htraded : Traded code price date b b') :
    Single config code b' := by
  cases htraded with
  | idle => exact h
  | bought r _ hbuy =>
    refine ⟨h.booked.bought hbuy, ?_⟩
    cases hbuy with
    | refused => exact h.only
    | filled =>
      intro r hr
      rcases List.mem_append.mp hr with hold | hnew
      · exact h.only r hold
      · rw [List.mem_singleton.mp hnew]
        rfl
  | sold r _ hsell =>
    refine ⟨h.booked.sold hsell, ?_⟩
    cases hsell with
    | refused => exact h.only
    | filled =>
      intro r hr
      rcases List.mem_append.mp hr with hold | hnew
      · exact h.only r hold
      · rw [List.mem_singleton.mp hnew]
        rfl

theorem single_runDays {strategy : BaseStrategy} {data : List DailyRow} {k : ℕ} {p : Progress}
    (h : runDays strategy config data code k = .ok p) : Single config code p.broker := by
  induction k generalizing p with
  | zero =>
    obtain rfl := Except.ok.inj h
    exact single_init config code
  | succ k ih =>
    obtain ⟨p', hp', h⟩ := bind_eq_ok.mp h
    obtain ⟨row, -, htraded, -⟩ := runDay_traded h
    exact (ih hp').traded htraded

/-- After the forced sale no position is left. -/
theorem liquidate_closed {last : DailyRow} {p p' : Progress} (h : liquidate code last p = .ok p')
    (hp : Single config code p.broker) :
    Single config code p'.broker ∧ p'.broker.positions.get? code = none := by
  unfold liquidate at h
  split_ifs at h with hheld
  · obtain ⟨x, hx, rfl⟩ := map_eq_ok.mp h
    have hsold := VirtualBroker.sell_sold hx
    refine ⟨hp.traded (.sold x.1 x.2 hsold), ?_⟩
    obtain ⟨r, b⟩ := x
    cases hsold with
    | refused hnone => exact hnone
    | filled => exact Dict.get?_pop_self _ code
  · obtain rfl := Except.ok.inj h
    exact ⟨hp, by simpa using hheld⟩

/-- The log of a broker without a position is a series of round trips. -/
theorem Single.trips (h : Single config code b) (hclosed : b.positions.get? code = none) :
    ∃ trips : List RoundTrip, b.tradeHistory = trips.flatMap RoundTrip.records := by
  obtain ⟨trips, htrips⟩ := h.booked.paired code
  rw [hclosed] at htrips
  refine ⟨trips, ?_⟩
  have hall : recordsOf code b.tradeHistory = b.tradeHistory := by
    apply List.filter_eq_self.mpr
    intro r hr
    simpa using h.only r hr
  rw [← hall]
  exact htrips

end Steps

def buyTrades (log : List TradeRecord) : List TradeRecord := log.filter fun t => t.side = .buy

theorem tripFlow (t : RoundTrip) :
    cashFlow t.bought + cashFlow t.sold = t.sold.profitLoss - t.bought.commission := by
  rw [t.profit_eq, cashFlow, cashFlow, t.bought_side, t.sold_side, t.quantity_eq]
  ring

/-- The flow of round trips, as their records report it. -/
theorem trips_flow (trips : List RoundTrip) :
    let log := trips.flatMap RoundTrip.records
    (log.map cashFlow).sum = ((sellTrades log).map TradeRecord.profitLoss).sum -
      ((buyTrades log).map TradeRecord.commission).sum := by
  intro log
  induction trips with
  | nil => simp [log, sellTrades, buyTrades]
  | cons t trips ih =>
    have hflow := tripFlow t
    simp only [log, List.flatMap_cons, RoundTrip.records, sellTrades, buyTrades, List.map_append,
      List.sum_append, List.map_cons, List.map_nil, List.sum_cons, List.sum_nil, List.filter_append,
      List.filter_cons, List.filter_nil, t.bought_side, t.sold_side] at ih ⊢
    simp only [reduceCtorEq, decide_false, decide_true, if_true, if_false, Bool.false_eq_true,
      List.map_cons, List.map_nil, List.sum_cons, List.sum_nil] at ih ⊢
    linarith

/-- What a run that completes reports. -/
theorem run_spec {e : BacktestEngine} {data : List DailyRow} {code : Code} {r : BacktestResult}
    (h : e.run data code = .ok r) :
    r.initialCapital = e.config.initialCapital ∧
    r.finalCapital = e.config.initialCapital + (r.tradeLog.map cashFlow).sum ∧
    ∃ trips : List RoundTrip, r.tradeLog = trips.flatMap RoundTrip.records := by
  obtain ⟨p, last, p', hp, -, hp', hr⟩ := run_eq_ok h
  obtain ⟨hinitial, hfinal, -, hlog⟩ := resultOf_eq_ok hr
  obtain ⟨hsingle, hclosed⟩ := liquidate_closed hp' (single_runDays hp)
  rw [hinitial, hfinal, hlog]
  exact ⟨rfl, hsingle.booked.cash, hsingle.trips hclosed⟩

/-- The gain of a completed run is what its sales report less the commission of its purchases;
a round trip adds its reported profit less the commission of its purchase to the cash. -/
theorem accounting_closes (e : BacktestEngine) (data : List DailyRow) (code : Code)
    (r : BacktestResult) (h : e.run data code = .ok r) :
    r.finalCapital - r.initialCapital = ((sellTrades r.tradeLog).map TradeRecord.profitLoss).sum -
      ((buyTrades r.tradeLog).map TradeRecord.commission).sum ∧
    (0 < r.initialCapital → r.totalReturn =
      (((sellTrades r.tradeLog).map TradeRecord.profitLoss).sum -
        ((buyTrades r.tradeLog).map TradeRecord.commission).sum) / r.initialCapital * 100) ∧
    r.finalCapital = r.initialCapital + (r.tradeLog.map cashFlow).sum ∧
    ∃ trips : List RoundTrip, r.tradeLog = trips.flatMap RoundTrip.records ∧
      ∀ t ∈ trips, cashFlow t.bought + cashFlow t.sold = t.sold.profitLoss - t.bought.commission := by
  obtain ⟨hinitial, hfinal, trips, htrips⟩ := run_spec h
  have hgain : r.finalCapital - r.initialCapital =
      ((sellTrades r.tradeLog).map TradeRecord.profitLoss).sum -
        ((buyTrades r.tradeLog).map TradeRecord.commission).sum := by
    rw [hfinal, hinitial, htrips, add_sub_cancel_left]
    exact trips_flow trips
  refine ⟨hgain, fun hpos => ?_, by rw [hfinal, hinitial], trips, htrips, fun t _ => tripFlow t⟩
  obtain ⟨p, last, p', -, -, -, hr⟩ := run_eq_ok h
  rw [resultOf_totalReturn hr hpos, hgain]

/-- Bought at 10000 on the first day of the loop and sold at 10022 on its second. -/
def risingSeries : List DailyRow := seriesOf (List.replicate 22 10000 ++ [10022])

theorem accounting_closes_rising : ∃ r, (engineOf alwaysBuy {}).run risingSeries "005930" = .ok r ∧
    r.finalCapital - r.initialCapital = ((sellTrades r.tradeLog).map TradeRecord.profitLoss).sum -
      ((buyTrades r.tradeLog).map TradeRecord.commission).sum := by
  obtain ⟨r, hr⟩ := exists_of_isOk
    (show ((engineOf alwaysBuy {}).run risingSeries "005930").isOk = true by decide +kernel)
  exact ⟨r, hr, (accounting_closes _ _ _ r hr).1⟩

/-- The one position is reported as a profit, yet the capital has shrunk: the reported profit
leaves out the commission of the purchase. -/
theorem rising_not_closed : ∃ r, (engineOf alwaysBuy {}).run risingSeries "005930" = .ok r ∧
    r.finalCapital - r.initialCapital ≠ ((sellTrades r.tradeLog).map TradeRecord.profitLoss).sum ∧
    r.profitTrades = 1 ∧ r.totalTrades = 2 ∧ r.finalCapital < r.initialCapital := by
  have hrun : (((engineOf alwaysBuy {}).run risingSeries "005930").map fun r =>
      decide (r.finalCapital - r.initialCapital ≠
        ((sellTrades r.tradeLog).map TradeRecord.profitLoss).sum ∧
        r.profitTrades = 1 ∧ r.totalTrades = 2 ∧ r.finalCapital < r.initialCapital)) = .ok true := by
    decide +kernel
  obtain ⟨r, hr, hholds⟩ := map_eq_ok.mp hrun
  exact ⟨r, hr, of_decide_eq_true hholds⟩

end KisAutotrader.Backtest.Accounting
