import Mathlib.Algebra.GroupWithZero.Nat
import Mathlib.Algebra.Order.Ring.Int
import KisAutotrader.Analytics
import KisAutotrader.Calendar
import KisAutotrader.Grouping

/-!
# The weekly reports

The reports that the analytics command puts together for a week or a period, from the same
trades: by day, by stock and by reason of the sell, the curve of the results and the profit factor.
-/
namespace KisAutotrader.WeeklyReports
open Analytics Disclosures Grouping LocalDay MarketDay OrderedDict Rounding TimeZone

/-- The rest of a row of `trades` that the reports read. -/
structure Trade extends StoredTrade where
  stockName : String
  profitLossPct : Option ℚ := none

/-- Monday and Sunday of an ISO week. -/
def weekRange (year week : ℤ) : ℤ × ℤ :=
  let jan4 := dayNumber year 1 4
  let monday := jan4 - weekday jan4 + 7 * (week - 1)
  (monday, monday + 6)

/-- The trades of the days from `startDate` to `endDate`, in order of time. -/
def tradesOf (session : TimeZone) (startDate endDate : ℤ) (trades : List Trade) : List Trade :=
  (trades.filter fun t => session.midnight startDate ≤ t.tradedAt ∧
    t.tradedAt < session.midnight (endDate + 1)).insertionSort fun a b => a.tradedAt ≤ b.tradedAt

def amount (t : Trade) : ℚ := t.profitLossAmount.getD 0

/-! ### By day -/

structure DayStats where
  buyCount : ℕ := 0
  sellCount : ℕ := 0
  totalProfitLoss : ℚ := 0
  trades : ℕ := 0

def DayStats.add (d : DayStats) (t : Trade) : DayStats :=
  match t.tradeType with
  | .buy => { d with trades := d.trades + 1, buyCount := d.buyCount + 1 }
  | .sell => { d with trades := d.trades + 1
                      sellCount := d.sellCount + 1
                      totalProfitLoss := d.totalProfitLoss + amount t }

structure WeeklyTradeStats where
  totalTrades : ℕ
  dailyStats : List (ℤ × DayStats)

def getWeeklyTradeStats (session : TimeZone) (year week : ℤ) (trades : List Trade) : WeeklyTradeStats :=
  let rows := tradesOf session (weekRange year week).1 (weekRange year week).2 trades
  { totalTrades := rows.length
    dailyStats := (rows.foldl (absorb (fun t => session.date t.tradedAt) (fun t => DayStats.add {} t) DayStats.add)
      .empty).items.insertionSort fun a b => a.1 ≤ b.1 }

/-! ### By stock -/

structure StockFrequency where
  stockCode : Code
  stockName : String
  tradeCount : ℕ
  buyCount : ℕ
  sellCount : ℕ
  totalPnl : ℤ

/-- A group of the query, by code and name. -/
def stockFrequency (key : Code × String) (rows : List Trade) : StockFrequency where
  stockCode := key.1
  stockName := key.2
  tradeCount := rows.length
  buyCount := rows.countP (·.tradeType = .buy)
  sellCount := rows.countP (·.tradeType = .sell)
  totalPnl := truncate (rows.map amount).sum

def getWeeklyStockFrequency (session : TimeZone) (year week : ℤ) (trades : List Trade) : List StockFrequency :=
  let rows := tradesOf session (weekRange year week).1 (weekRange year week).2 trades
  let groups := rows.foldl (absorb (fun t => (t.stockCode, t.stockName)) (fun t => [t]) fun v t => v ++ [t]) .empty
  (groups.items.map fun group => stockFrequency group.1 group.2).insertionSort fun a b => b.tradeCount ≤ a.tradeCount

/-! ### By reason -/

structure ReasonStats where
  count : ℕ
  avgPnlPct : ℚ
  totalPnl : ℚ

def reasonStats (items : List Trade) : ReasonStats :=
  let pcts := items.filterMap Trade.profitLossPct
  { count := items.length
    avgPnlPct := if pcts = [] then 0 else roundTo 2 (pcts.sum / pcts.length)
    totalPnl := (items.map amount).sum }

structure WeeklyRiskAnalysis where
  totalSells : ℕ
  /-- `none` stands for `"UNKNOWN"`. -/
  byReason : List (Option SellReason × ReasonStats)

def getWeeklyRiskAnalysis (session : TimeZone) (year week : ℤ) (trades : List Trade) : WeeklyRiskAnalysis :=
  let sells := (tradesOf session (weekRange year week).1 (weekRange year week).2 trades).filter (·.tradeType = .sell)
  let groups := sells.foldl (absorb (fun t => t.sellReason) (fun t => [t]) fun v t => v ++ [t]) .empty
  { totalSells := sells.length
    byReason := groups.items.map fun group => (group.1, reasonStats group.2) }

/-! ### Over a period -/

structure CurvePoint where
  date : ℤ
  dailyPnl : ℚ
  cumulativePnl : ℚ

/-- The points of the days and what they come to. -/
def curveOf (cumulative : ℚ) : List (ℤ × ℚ) → List CurvePoint × ℚ
  | [] => ([], cumulative)
  | (day, pnl)::rows =>
    (⟨day, pnl, cumulative + pnl⟩ :: (curveOf (cumulative + pnl) rows).1, (curveOf (cumulative + pnl) rows).2)

structure CumulativePnl where
  totalPnl : ℚ
  tradingDays : ℕ
  curve : List CurvePoint

def getCumulativePnl (session : TimeZone) (startDate endDate : ℤ) (trades : List Trade) : CumulativePnl :=
  let r := curveOf 0 (dailyPnlSeries session startDate endDate (trades.map Trade.toStoredTrade)).rows
  { totalPnl := r.2, tradingDays := r.1.length, curve := r.1 }

structure ProfitFactor where
  /-- `none` stands for the text of infinity. -/
  profitFactor : Option ℚ
  totalProfit : ℚ
  totalLoss : ℚ
  winCount : ℕ
  lossCount : ℕ
  breakevenCount : ℕ
  winRate : ℚ
  avgWin : ℤ
  avgLoss : ℤ
  payoffRatio : ℚ

def profitFactorOf (amounts : List ℚ) : ProfitFactor :=
  let wins := amounts.filter (0 < ·)
  let losses := amounts.filter (· < 0)
  let totalProfit := wins.sum
  let totalLoss := |losses.sum|
  let avgWin := if wins = [] then 0 else totalProfit / wins.length
  let avgLoss := if losses = [] then 0 else totalLoss / losses.length
  { profitFactor :=
      if 0 < totalLoss then some (roundTo 2 (totalProfit / totalLoss)) else if 0 < totalProfit then none else some 0
    totalProfit := totalProfit
    totalLoss := totalLoss
    winCount := wins.length
    lossCount := losses.length
    breakevenCount := amounts.countP (· = 0)
    winRate := if amounts = [] then 0 else roundTo 1 (wins.length / amounts.length * 100)
    avgWin := roundHalfEven avgWin
    avgLoss := roundHalfEven avgLoss
    payoffRatio := if 0 < avgLoss then roundTo 2 (avgWin / avgLoss) else 0 }

/-- `get_profit_factor`: the sells whose result is known. -/
def getProfitFactor (session : TimeZone) (startDate endDate : ℤ) (trades : List Trade) : ProfitFactor :=
  profitFactorOf (((tradesOf session startDate endDate trades).filter (·.tradeType = .sell)).filterMap
    (·.profitLossAmount))

/-! ### What the reports add up to -/

/-- What a trade brings: a sell has a result. -/
def result (t : Trade) : ℚ := if t.tradeType = .sell then amount t else 0

namespace DayStats
variable (d : DayStats) (t : Trade)

@[simp] theorem add_trades : (d.add t).trades = d.trades + 1 := by
  cases h : t.tradeType <;> simp [add, h]

@[simp] theorem add_buyCount : (d.add t).buyCount = d.buyCount + if t.tradeType = .buy then 1 else 0 := by
  cases h : t.tradeType <;> simp [add, h]

@[simp] theorem add_sellCount : (d.add t).sellCount = d.sellCount + if t.tradeType = .sell then 1 else 0 := by
  cases h : t.tradeType <;> simp [add, h]

@[simp] theorem add_totalProfitLoss : (d.add t).totalProfitLoss = d.totalProfitLoss + result t := by
  cases h : t.tradeType <;> simp [add, result, h]

end DayStats

section Sums
variable {M : Type} [AddCommMonoid M] (session : TimeZone) (year week : ℤ) (trades : List Trade)

def weekTrades : List Trade :=
  tradesOf session (weekRange year week).1 (weekRange year week).2 trades

theorem sum_map_insertionSort {α : Type} (r : α → α → Prop) [DecidableRel r] (f : α → M) (l : List α) :
    ((l.insertionSort r).map f).sum = (l.map f).sum :=
  ((List.perm_insertionSort r l).map f).sum_eq

/-- The sums over the days, of what each trade adds to a day. -/
theorem sum_dailyStats (f : DayStats → M) (g : Trade → M) (hempty : f {} = 0)
    (hadd : ∀ d t, f (DayStats.add d t) = f d + g t) :
    ((getWeeklyTradeStats session year week trades).dailyStats.map fun x => f x.2).sum =
      ((weekTrades session year week trades).map g).sum := by
  rw [getWeeklyTradeStats, sum_map_insertionSort]
  refine sum_entries f g (fun t => ?_) hadd _
  rw [hadd, hempty, zero_add]

theorem sum_stockFrequency (f : StockFrequency → M) (h : List Trade → M) (g : Trade → M)
    (hrow : ∀ key rows, f (stockFrequency key rows) = h rows) (hstart : ∀ t, h [t] = g t)
    (hmore : ∀ rows t, h (rows ++ [t]) = h rows + g t) :
    ((getWeeklyStockFrequency session year week trades).map f).sum =
      ((weekTrades session year week trades).map g).sum := by
  rw [getWeeklyStockFrequency, sum_map_insertionSort, List.map_map]
  simp only [Function.comp_def, hrow]
  exact sum_entries h g hstart hmore _

theorem sum_byReason (f : ReasonStats → M) (h : List Trade → M) (g : Trade → M)
    (hrow : ∀ rows, f (reasonStats rows) = h rows) (hstart : ∀ t, h [t] = g t)
    (hmore : ∀ rows t, h (rows ++ [t]) = h rows + g t) :
    ((getWeeklyRiskAnalysis session year week trades).byReason.map fun x => f x.2).sum =
      (((weekTrades session year week trades).filter (·.tradeType = .sell)).map g).sum := by
  rw [getWeeklyRiskAnalysis, List.map_map]
  simp only [Function.comp_def, hrow]
  exact sum_entries h g hstart hmore _

theorem sum_result (rows : List Trade) :
    (rows.map result).sum = ((rows.filter (·.tradeType = .sell)).map amount).sum := by
  induction rows with
  | nil => rfl
  | cons t ts ih =>
    by_cases hsell : t.tradeType = .sell <;> simp [result, hsell, ih]

theorem sum_ones (p : Trade → Prop) [DecidablePred p] (rows : List Trade) :
    (rows.map fun t => if p t then 1 else 0).sum = rows.countP (p ·) := by
  induction rows with
  | nil => rfl
  | cons t ts ih =>
    rw [List.map_cons, List.sum_cons, ih, List.countP_cons]
    by_cases hp : p t <;> simp [hp, Nat.add_comm]

theorem sum_dailyPnl (session : TimeZone) (startDate endDate : ℤ) (trades : List StoredTrade) :
    ((dailyPnlSeries session startDate endDate trades).rows.map Prod.snd).sum =
      ((sellsOf session startDate endDate trades).map fun t => t.profitLossAmount.getD 0).sum := by
  have habsorb : ∀ sells : List StoredTrade, dailyOf session sells =
      sells.foldl (absorb (fun t => session.date t.tradedAt) (fun t => 0 + t.profitLossAmount.getD 0)
        fun v t => v + t.profitLossAmount.getD 0) .empty := by
    intro sells
    rw [dailyOf]
    congr 1
    funext daily t
    rw [addDay, absorb]
    cases daily.get? (session.date t.tradedAt) <;> rfl
  rw [dailyPnlSeries, sortedSeries, sum_map_insertionSort, habsorb]
  exact sum_entries (fun v : ℚ => v) _ (fun t => zero_add _) (fun v t => rfl) _

end Sums

/-! ### The curve -/

/-- The curve goes on from a sum: each point adds the day's result to the sum before. -/
theorem curveOf_spec (rows : List (ℤ × ℚ)) (before : ℚ) :
    (curveOf before rows).1.map (fun p => (p.date, p.dailyPnl)) = rows ∧
      (curveOf before rows).2 = before + (rows.map Prod.snd).sum ∧
      ∀ k p, (curveOf before rows).1[k]? = some p →
        p.cumulativePnl = before + ((rows.take (k + 1)).map Prod.snd).sum := by
  induction rows generalizing before with
  | nil => simp [curveOf]
  | cons row rows ih =>
    obtain ⟨day, pnl⟩ := row
    obtain ⟨hrows, htotal, hpoints⟩ := ih (before + pnl)
    refine ⟨by rw [curveOf, List.map_cons, hrows], ?_, ?_⟩
    · rw [curveOf, htotal, List.map_cons, List.sum_cons, add_assoc]
    · intro k p hp
      rw [curveOf] at hp
      cases k with
      | zero =>
        obtain rfl := Option.some.inj hp
        simp
      | succ k =>
        rw [hpoints k p hp, List.take_succ_cons, List.map_cons, List.sum_cons, add_assoc]

/-! ### Profit and loss -/

theorem sum_split (amounts : List ℚ) :
    amounts.sum = (amounts.filter (0 < ·)).sum + (amounts.filter (· < 0)).sum := by
  induction amounts with
  | nil => simp
  | cons x xs ih =>
    obtain hneg | rfl | hpos := lt_trichotomy x 0
    · simp [hneg, hneg.not_gt, ih]
      ring
    · simp [ih]
    · simp [hpos, hpos.not_gt, ih]
      ring

theorem profit_sub_loss (amounts : List ℚ) :
    (profitFactorOf amounts).totalProfit - (profitFactorOf amounts).totalLoss = amounts.sum := by
  have hloss : (amounts.filter (· < 0)).sum ≤ 0 := by
    induction amounts with
    | nil => simp
    | cons x xs ih =>
      by_cases hx : x < 0
      · simp only [List.filter_cons, hx, decide_true, if_true, List.sum_cons]
        linarith
      · simpa [hx] using ih
  rw [profitFactorOf, abs_of_nonpos hloss, sub_neg_eq_add]
  exact (sum_split amounts).symm

/-! ### The reports of one week -/

section Week
variable {session : TimeZone} {startDate endDate : ℤ} {trades : List Trade}

/-- The results of the sells that the earlier reports read. -/
theorem sum_sellsOf :
    ((sellsOf session startDate endDate (trades.map Trade.toStoredTrade)).map fun t => t.profitLossAmount.getD 0).sum =
      (((tradesOf session startDate endDate trades).filter (·.tradeType = .sell)).map amount).sum := by
  rw [sellsOf, sum_map_insertionSort, ← sum_result, tradesOf, sum_map_insertionSort, sum_result, List.filter_filter,
    List.filter_map, List.map_map]
  congr 2
  apply List.filter_congr
  intro t _
  simp only [Function.comp_apply, Bool.decide_and]
  cases decide (t.tradeType = .sell) <;> simp

theorem sum_amounts (rows : List Trade) : (rows.filterMap (·.profitLossAmount)).sum = (rows.map amount).sum := by
  induction rows with
  | nil => rfl
  | cons t ts ih =>
    cases hpnl : t.profitLossAmount <;> simp [hpnl, amount, ih]

theorem totalPnl_eq : (getCumulativePnl session startDate endDate trades).totalPnl =
    (((tradesOf session startDate endDate trades).filter (·.tradeType = .sell)).map amount).sum := by
  rw [getCumulativePnl, (curveOf_spec _ 0).2.1, zero_add, sum_dailyPnl, sum_sellsOf]

theorem profitFactor_eq : (getProfitFactor session startDate endDate trades).totalProfit -
      (getProfitFactor session startDate endDate trades).totalLoss =
    (((tradesOf session startDate endDate trades).filter (·.tradeType = .sell)).map amount).sum := by
  rw [getProfitFactor, profit_sub_loss, sum_amounts]

theorem curve_sums : ∀ k, ∀ p ∈ (getCumulativePnl session startDate endDate trades).curve[k]?,
    p.cumulativePnl = (((getCumulativePnl session startDate endDate trades).curve.take (k + 1)).map (·.dailyPnl)).sum := by
  intro k p hp
  obtain ⟨hrows, -, hpoints⟩ := curveOf_spec
    (dailyPnlSeries session startDate endDate (trades.map Trade.toStoredTrade)).rows 0
  have hcurve : (getCumulativePnl session startDate endDate trades).curve = (curveOf 0
    (dailyPnlSeries session startDate endDate (trades.map Trade.toStoredTrade)).rows).1 := rfl
  rw [hcurve] at hp ⊢
  rw [hpoints k p hp, zero_add]
  conv_lhs => rw [← hrows]
  rw [← List.map_take, List.map_map]
  rfl

end Week

/-- The days, the stocks and the reasons have the same trades, buys, sells and results, and the
results are those of the curve's end and of the profit factor. -/
structure Agree (stats : WeeklyTradeStats) (stocks : List StockFrequency) (risk : WeeklyRiskAnalysis)
    (pnl : CumulativePnl) (factor : ProfitFactor) : Prop where
  tradesOfDays : (stats.dailyStats.map fun x => x.2.trades).sum = stats.totalTrades
  tradesOfStocks : (stocks.map (·.tradeCount)).sum = stats.totalTrades
  buys : (stocks.map (·.buyCount)).sum = (stats.dailyStats.map fun x => x.2.buyCount).sum
  sells : (stocks.map (·.sellCount)).sum = (stats.dailyStats.map fun x => x.2.sellCount).sum
  totalSells : risk.totalSells = (stats.dailyStats.map fun x => x.2.sellCount).sum
  reasons : (risk.byReason.map fun x => x.2.count).sum = risk.totalSells
  results : (risk.byReason.map fun x => x.2.totalPnl).sum = (stats.dailyStats.map fun x => x.2.totalProfitLoss).sum
  totalPnl : pnl.totalPnl = (stats.dailyStats.map fun x => x.2.totalProfitLoss).sum
  profitFactor : factor.totalProfit - factor.totalLoss = pnl.totalPnl
  curve : ∀ k, ∀ p ∈ pnl.curve[k]?, p.cumulativePnl = ((pnl.curve.take (k + 1)).map (·.dailyPnl)).sum

section Totals
variable (session : TimeZone) (year week : ℤ) (trades : List Trade)

theorem days_trades : ((getWeeklyTradeStats session year week trades).dailyStats.map fun x => x.2.trades).sum =
    (weekTrades session year week trades).length := by
  rw [sum_dailyStats session year week trades DayStats.trades (fun _ => 1) rfl DayStats.add_trades]
  simp

theorem days_buys : ((getWeeklyTradeStats session year week trades).dailyStats.map fun x => x.2.buyCount).sum =
    (weekTrades session year week trades).countP (·.tradeType = .buy) := by
  rw [sum_dailyStats session year week trades DayStats.buyCount _ rfl DayStats.add_buyCount, sum_ones]

theorem days_sells : ((getWeeklyTradeStats session year week trades).dailyStats.map fun x => x.2.sellCount).sum =
    (weekTrades session year week trades).countP (·.tradeType = .sell) := by
  rw [sum_dailyStats session year week trades DayStats.sellCount _ rfl DayStats.add_sellCount, sum_ones]

theorem days_results :
    ((getWeeklyTradeStats session year week trades).dailyStats.map fun x => x.2.totalProfitLoss).sum =
      (((weekTrades session year week trades).filter (·.tradeType = .sell)).map amount).sum := by
  rw [sum_dailyStats session year week trades DayStats.totalProfitLoss _ rfl DayStats.add_totalProfitLoss,
    sum_result]

theorem stocks_trades : ((getWeeklyStockFrequency session year week trades).map (·.tradeCount)).sum =
    (weekTrades session year week trades).length := by
  rw [sum_stockFrequency session year week trades _ List.length (fun _ => 1) (fun _ _ => rfl) (fun _ => rfl)
    fun _ _ => List.length_append]
  simp

theorem countP_append_singleton (p : Trade → Prop) [DecidablePred p] (rows : List Trade) (t : Trade) :
    (rows ++ [t]).countP (p ·) = rows.countP (p ·) + if p t then 1 else 0 := by
  rw [List.countP_append, List.countP_singleton]
  simp

theorem stocks_countP (f : StockFrequency → ℕ) (p : Trade → Prop) [DecidablePred p]
    (hrow : ∀ key rows, f (stockFrequency key rows) = rows.countP (p ·)) :
    ((getWeeklyStockFrequency session year week trades).map f).sum =
      (weekTrades session year week trades).countP (p ·) := by
  rw [sum_stockFrequency session year week trades f (fun rows => rows.countP (p ·)) (fun t => if p t then 1 else 0)
    hrow (fun t => by simp [List.countP_singleton]) (countP_append_singleton p), sum_ones]

theorem reasons_count : ((getWeeklyRiskAnalysis session year week trades).byReason.map fun x => x.2.count).sum =
    (getWeeklyRiskAnalysis session year week trades).totalSells := by
  rw [sum_byReason session year week trades ReasonStats.count List.length (fun _ => 1) (fun _ => rfl) (fun _ => rfl)
    fun _ _ => List.length_append]
  simp [getWeeklyRiskAnalysis, weekTrades]

theorem reasons_results :
    ((getWeeklyRiskAnalysis session year week trades).byReason.map fun x => x.2.totalPnl).sum =
      (((weekTrades session year week trades).filter (·.tradeType = .sell)).map amount).sum :=
  sum_byReason session year week trades ReasonStats.totalPnl (fun rows => (rows.map amount).sum) amount
    (fun _ => rfl) (fun t => by simp) fun rows t => by simp

end Totals

/-- The step of an increasing sequence in which a number lies. -/
theorem existsUnique_between {f : ℤ → ℤ} (hf : StrictMono f) (d : ℤ) : ∃! n, f n ≤ d ∧ d < f (n + 1) := by
  have hgrowth : ∀ n : ℕ, f 0 + n ≤ f n ∧ f (-n) ≤ f 0 - n := by
    intro n
    induction n with
    | zero => simp
    | succ n ih =>
      have hup := hf (show (n : ℤ) < (n + 1 : ℕ) by omega)
      have hdown := hf (show -((n + 1 : ℕ) : ℤ) < -n by omega)
      omega
  have hbound : ∀ n, f n ≤ d → n ≤ |d - f 0| := by
    intro n hn
    by_contra hlarge
    have hup := (hgrowth n.toNat).1
    have habs := le_abs_self (d - f 0)
    rw [Int.toNat_of_nonneg (by have := abs_nonneg (d - f 0); omega)] at hup
    omega
  have hsome : f (-(d - f 0).natAbs) ≤ d := by
    have hdown := (hgrowth (d - f 0).natAbs).2
    omega
  obtain ⟨n, hn, hmax⟩ := Int.exists_greatest_of_bdd ⟨_, hbound⟩ ⟨_, hsome⟩
  refine ⟨n, ⟨hn, ?_⟩, ?_⟩
  · by_contra hnext
    have hle := hmax (n + 1) (not_lt.mp hnext)
    omega
  · rintro m ⟨hm, hm'⟩
    have hle := hmax m hm
    have hge := hf.lt_iff_lt.mp (hn.trans_lt hm')
    omega

/-- The Monday of a year's first week. -/
def firstMonday (year : ℤ) : ℤ := (weekRange year 1).1

theorem firstMonday_succ (year : ℤ) :
    firstMonday (year + 1) = firstMonday year + 364 ∨ firstMonday (year + 1) = firstMonday year + 371 := by
  have hyear : dayNumber (year + 1) 1 4 = dayNumber year 1 4 + 365 ∨
      dayNumber (year + 1) 1 4 = dayNumber year 1 4 + 366 := by
    have hnext := Calendar.yearStart_succ (year - 1)
    rw [sub_add_cancel] at hnext
    simp only [Calendar.dayNumber_eq, Calendar.marchYear, Calendar.marchMonth]
    norm_num
    split_ifs at hnext <;> omega
  simp only [firstMonday, weekRange, weekday]
  omega

theorem firstMonday_strictMono : StrictMono firstMonday := by
  apply strictMono_int_of_lt_succ
  intro year
  have hnext := firstMonday_succ year
  omega

/-- A week of a year: it begins before the next year's first week. -/
def IsoWeek (year week : ℤ) : Prop := 1 ≤ week ∧ (weekRange year week).1 < firstMonday (year + 1)

theorem weekRange_eq (year week : ℤ) :
    weekRange year week = (firstMonday year + 7 * (week - 1), firstMonday year + 7 * (week - 1) + 6) := by
  simp only [firstMonday, weekRange]
  norm_num

/-- Every day lies in one week. -/
theorem existsUnique_week (d : ℤ) :
    ∃! x : ℤ × ℤ, IsoWeek x.1 x.2 ∧ (weekRange x.1 x.2).1 ≤ d ∧ d ≤ (weekRange x.1 x.2).2 := by
  obtain ⟨year, ⟨hfirst, hlast⟩, hunique⟩ := existsUnique_between firstMonday_strictMono d
  have hnext := firstMonday_succ year
  refine ⟨(year, (d - firstMonday year) / 7 + 1), ?_, ?_⟩
  · simp only [IsoWeek, weekRange_eq]
    omega
  · rintro ⟨y, w⟩ ⟨⟨hw, hbefore⟩, hmonday, hsunday⟩
    simp only [weekRange_eq] at hw hbefore hmonday hsunday
    have hnext' := firstMonday_succ y
    obtain rfl : y = year := hunique y ⟨by omega, by omega⟩
    rw [Prod.mk.injEq]
    omega

theorem midnight_le_iff {session : TimeZone} (h : session.Regular) {d t : ℤ} :
    session.midnight d ≤ t ↔ d ≤ session.date t := by
  have hmono : StrictMono session.midnight := strictMono_int_of_lt_succ h.advances
  obtain ⟨hstart, hend⟩ := (h.date_iff (session.date t) t).mp rfl
  constructor
  · intro hle
    have hlt := hmono.lt_iff_lt.mp (hle.trans_lt hend)
    omega
  · intro hle
    exact (hmono.le_iff_le.mpr hle).trans hstart

theorem mem_weekTrades {session : TimeZone} (h : session.Regular) {year week : ℤ} {trades : List Trade} {t : Trade} :
    t ∈ weekTrades session year week trades ↔ t ∈ trades ∧
      (weekRange year week).1 ≤ session.date t.tradedAt ∧ session.date t.tradedAt ≤ (weekRange year week).2 := by
  have hend := midnight_le_iff h (d := (weekRange year week).2 + 1) (t := t.tradedAt)
  rw [weekTrades, tradesOf, List.mem_insertionSort, List.mem_filter, decide_eq_true_eq, midnight_le_iff h,
    ← not_le, hend]
  exact and_congr_right fun _ => and_congr_right fun _ => by omega

/-- Every trade is in the reports of one week. -/
theorem existsUnique_report {session : TimeZone} (h : session.Regular) {trades : List Trade} {t : Trade}
    (ht : t ∈ trades) :
    ∃! x : ℤ × ℤ, IsoWeek x.1 x.2 ∧ t ∈ weekTrades session x.1 x.2 trades := by
  simp only [mem_weekTrades h, ht, true_and]
  exact existsUnique_week _

/-- A sell on Sunday, January 3, 2027, still in the last week of 2026. -/
def sundaySell : Trade where
  stockCode := "005930"
  market := "KRX"
  tradeType := .sell
  profitLossAmount := some 1500
  tradedAt := 20821 * dayLength
  stockName := "005930"

theorem existsUnique_report_sunday :
    (∃! x : ℤ × ℤ, IsoWeek x.1 x.2 ∧ sundaySell ∈ weekTrades seoul x.1 x.2 [sundaySell]) ∧
      sundaySell ∈ weekTrades seoul 2026 53 [sundaySell] :=
  ⟨existsUnique_report (fixed_regular _) List.mem_cons_self,
    (mem_weekTrades (fixed_regular _)).mpr ⟨List.mem_cons_self, by decide⟩⟩

end KisAutotrader.WeeklyReports
