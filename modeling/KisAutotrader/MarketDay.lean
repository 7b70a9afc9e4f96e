import Mathlib.Data.List.Sort
import KisAutotrader.Engine
import KisAutotrader.LocalDay

/-!
# The day of a market in the database

The queries that select the rows of one day. Instants are microseconds since the epoch, dates
are day numbers; a bound without a time zone is read in the zone of the database session.
-/
namespace KisAutotrader.MarketDay
open OrderedDict LocalDay

/-- A row of `trades`. -/
structure StoredTrade where
  stockCode : Code
  market : String
  tradeType : Side
  sellReason : Option SellReason := none
  profitLossAmount : Option ℚ := none
  tradedAt : ℤ
  deriving DecidableEq

/-- A row of `screening_results`. -/
structure StoredScreening where
  stockCode : Code
  market : String
  screeningRank : ℕ
  convertedToTrade : Bool
  screenedAt : ℤ
  deriving DecidableEq

/-- A row of `system_metrics`. -/
structure SystemMetric where
  metricType : String
  recordedAt : ℤ

/-- The part of a daily summary that is counted from trades. -/
structure TradeCounts where
  totalBuyCount : ℕ
  totalSellCount : ℕ
  totalProfitLoss : ℤ
  winRate : ℚ
  stopLossCount : ℕ
  takeProfitCount : ℕ
  strategySellCount : ℕ
  deriving DecidableEq

structure DailySummary extends TradeCounts where
  screeningCount : ℕ
  screeningConversionCount : ℕ
  errorCount : ℕ
  cycleCount : ℕ

structure Database where
  trades : List StoredTrade := []
  screeningResults : List StoredScreening := []
  systemMetrics : List SystemMetric := []
  dailySummary : Dict (ℤ × String) DailySummary := .empty

/-! ### The queries -/

/-- `t >= start AND t < end` for bounds built without a zone. -/
def inNaiveDay (session : TimeZone) (targetDate t : ℤ) : Bool :=
  session.midnight targetDate ≤ t ∧ t < session.midnight (targetDate + 1)

def getTradesByDate (session : TimeZone) (targetDate : ℤ) (market : Option String)
    (trades : List StoredTrade) : List StoredTrade :=
  (trades.filter fun t => inNaiveDay session targetDate t.tradedAt && market.all (t.market = ·)).insertionSort
    fun a b => a.tradedAt ≤ b.tradedAt

/-- The bounds carry the market's zone; adding a day to one of them moves its wall time. -/
def getByDate (tz : TimeZone) (targetDate : ℤ) (market : String) (rows : List StoredScreening) :
    List StoredScreening :=
  (rows.filter fun r => r.market = market ∧ tz.midnight targetDate ≤ r.screenedAt ∧
    r.screenedAt < tz.midnight (targetDate + 1)).insertionSort
      fun a b => a.screeningRank ≤ b.screeningRank

/-- `sum(1 for ...)`, the sum of the known results and the shares of the summary. -/
def countTrades (trades : List StoredTrade) : TradeCounts :=
  let sells := trades.filter (·.tradeType = .sell)
  let winCount := sells.countP fun t => t.profitLossAmount.any (0 < ·)
  { totalBuyCount := trades.countP (·.tradeType = .buy)
    totalSellCount := trades.countP (·.tradeType = .sell)
    totalProfitLoss := truncate (trades.map fun t => t.profitLossAmount.getD 0).sum
    winRate := if sells = [] then 0 else winCount / sells.length
    stopLossCount := sells.countP (·.sellReason = some .stopLoss)
    takeProfitCount := sells.countP (·.sellReason = some .takeProfit)
    strategySellCount := sells.countP (·.sellReason = some .strategy) }

def summarize (session : TimeZone) (reportDate : ℤ) (market : String) (db : Database) :
    DailySummary :=
  let trades := db.trades.filter fun t => inNaiveDay session reportDate t.tradedAt && (t.market = market)
  let screenings := db.screeningResults.filter fun r =>
    inNaiveDay session reportDate r.screenedAt && (r.market = market)
  let metrics := db.systemMetrics.filter fun m => inNaiveDay session reportDate m.recordedAt
  { countTrades trades with
    screeningCount := screenings.length
    screeningConversionCount := screenings.countP (·.convertedToTrade)
    errorCount := metrics.countP (·.metricType = "ERROR")
    cycleCount := metrics.countP (·.metricType = "CYCLE_START") }

def upsertDailySummary (session : TimeZone) (reportDate : ℤ) (market : String) (db : Database) :
    Database :=
  { db with dailySummary :=
      db.dailySummary.set (reportDate, market) (summarize session reportDate market db) }

/-! ### The callers: the day of `now` in the market's zone -/

/-- The trades that `_restore_risk_state_if_needed` replays. -/
def replayedTrades (session zone : TimeZone) (market : String) (now : ℤ) (db : Database) :
    List StoredTrade :=
  getTradesByDate session (zone.date now) (some market) db.trades

/-- `_load_today_trades`, for the calendar. -/
def loadTodayTrades (session zone : TimeZone) (market : String) (now : ℤ) (db : Database) :
    List StoredTrade :=
  getTradesByDate session (zone.date now) (some market) db.trades

/-- `summarize_daily_job`. -/
def summarizeDailyJob (session zone : TimeZone) (market : String) (now : ℤ) (db : Database) :
    Database :=
  upsertDailySummary session (zone.date now) market db

/-! ### The law of the market's day -/

/-- The trades of a market whose instant falls on its local day. -/
def localTrades (zone : TimeZone) (market : String) (d : ℤ) (db : Database) : List StoredTrade :=
  db.trades.filter fun t => t.market = market ∧ zone.date t.tradedAt = d

def localScreenings (zone : TimeZone) (market : String) (d : ℤ) (db : Database) :
    List StoredScreening :=
  db.screeningResults.filter fun r => r.market = market ∧ zone.date r.screenedAt = d

/-- Day `d` of the market is the same in every query. -/
structure DayLaw (session zone : TimeZone) (market : String) (d : ℤ) : Prop where
  trades : ∀ db : Database,
    (getTradesByDate session d (some market) db.trades).Perm (localTrades zone market d db) ∧
    (getTradesByDate session d (some market) db.trades).Pairwise (·.tradedAt ≤ ·.tradedAt)
  summary : ∀ db : Database, ∃ s, (upsertDailySummary session d market db).dailySummary.get?
      (d, market) = some s ∧ s.toTradeCounts = countTrades (localTrades zone market d db) ∧
    s.screeningCount = (getByDate zone d market db.screeningResults).length
  screenings : ∀ db : Database,
    (getByDate zone d market db.screeningResults).Perm (localScreenings zone market d db)
  callers : ∀ db now, zone.date now = d →
    replayedTrades session zone market now db = loadTodayTrades session zone market now db ∧
    (replayedTrades session zone market now db).Perm (localTrades zone market d db) ∧
    (summarizeDailyJob session zone market now db).dailySummary =
      (upsertDailySummary session d market db).dailySummary

/-- Every day obeys the law, and every trade of the market belongs to one day. -/
structure MarketLocal (session zone : TimeZone) (market : String) : Prop where
  days : ∀ d, DayLaw session zone market d
  oneDay : ∀ db : Database, ∀ t ∈ db.trades, t.market = market →
    ∃! d, t ∈ getTradesByDate session d (some market) db.trades

section Law
variable {session zone : TimeZone} {market : String} {d : ℤ} {db : Database} {t : StoredTrade}

theorem inNaiveDay_iff {x : ℤ} : inNaiveDay session d x = true ↔
    session.midnight d ≤ x ∧ x < session.midnight (d + 1) := decide_eq_true_iff

theorem mem_getTradesByDate : t ∈ getTradesByDate session d (some market) db.trades ↔
    t ∈ db.trades ∧ inNaiveDay session d t.tradedAt = true ∧ t.market = market := by
  simp only [getTradesByDate, List.mem_insertionSort, List.mem_filter, Bool.and_eq_true,
    Option.all_some, decide_eq_true_eq]

theorem getTradesByDate_sorted (market : Option String) (trades : List StoredTrade) :
    (getTradesByDate session d market trades).Pairwise (·.tradedAt ≤ ·.tradedAt) := by
  have : Std.Total fun a b : StoredTrade => a.tradedAt ≤ b.tradedAt := ⟨fun a b => le_total _ _⟩
  have : IsTrans StoredTrade fun a b => a.tradedAt ≤ b.tradedAt := ⟨fun _ _ _ => le_trans⟩
  exact List.pairwise_insertionSort _ _

/-- The zone's midnights, as the naive bounds of the session see them. -/
def SameDay (session zone : TimeZone) (d : ℤ) : Prop :=
  session.midnight d = zone.midnight d ∧ session.midnight (d + 1) = zone.midnight (d + 1)

theorem inNaiveDay_eq_date (h : zone.Regular) (hsame : SameDay session zone d) (x : ℤ) :
    inNaiveDay session d x = decide (zone.date x = d) := by
  rw [Bool.eq_iff_iff, inNaiveDay_iff, decide_eq_true_iff]
  exact (same_day_iff h).mpr hsame x

theorem naive_filter {α : Type} (h : zone.Regular) (hsame : SameDay session zone d)
    (marketOf : α → String) (timeOf : α → ℤ) (rows : List α) :
    (rows.filter fun r => inNaiveDay session d (timeOf r) && (marketOf r = market)) =
      rows.filter fun r => marketOf r = market ∧ zone.date (timeOf r) = d := by
  apply List.filter_congr
  intro r _
  rw [inNaiveDay_eq_date h hsame, Bool.decide_and, Bool.and_comm]

theorem getTradesByDate_perm (h : zone.Regular) (hsame : SameDay session zone d) :
    (getTradesByDate session d (some market) db.trades).Perm (localTrades zone market d db) := by
  rw [localTrades, ← naive_filter h hsame]
  exact List.perm_insertionSort _ _

theorem getByDate_perm (h : zone.Regular) :
    (getByDate zone d market db.screeningResults).Perm (localScreenings zone market d db) := by
  have hfilter : (db.screeningResults.filter fun r => r.market = market ∧
      zone.midnight d ≤ r.screenedAt ∧ r.screenedAt < zone.midnight (d + 1)) =
      localScreenings zone market d db := by
    apply List.filter_congr
    intro r _
    rw [Bool.eq_iff_iff, decide_eq_true_iff, decide_eq_true_iff, h.date_iff]
  rw [← hfilter]
  exact List.perm_insertionSort _ _

theorem dayLaw_of_sameDay (h : zone.Regular) (hsame : SameDay session zone d) :
    DayLaw session zone market d := by
  refine ⟨fun _ => ⟨getTradesByDate_perm h hsame, getTradesByDate_sorted _ _⟩, fun db => ?_,
    fun _ => getByDate_perm h, fun db now hnow => ?_⟩
  · refine ⟨summarize session d market db, Dict.get?_set_self _ _ _, ?_, ?_⟩
    · rw [localTrades, ← naive_filter h hsame]
      rfl
    · rw [(getByDate_perm h).length_eq, localScreenings, ← naive_filter h hsame]
      rfl
  · refine ⟨rfl, ?_, ?_⟩
    · rw [replayedTrades, hnow]
      exact getTradesByDate_perm h hsame
    · rw [summarizeDailyJob, hnow]

/-- One trade tells the two days apart. -/
theorem sameDay_of_dayLaw (h : zone.Regular) (hlaw : DayLaw session zone market d) :
    SameDay session zone d := by
  apply (same_day_iff h).mp
  intro x
  let t : StoredTrade := { stockCode := "", market, tradeType := .buy, tradedAt := x }
  have hmem := (hlaw.trades { trades := [t] }).1.mem_iff (a := t)
  rw [mem_getTradesByDate, inNaiveDay_iff] at hmem
  simpa [t, localTrades] using hmem

theorem dayLaw_iff (h : zone.Regular) : DayLaw session zone market d ↔ SameDay session zone d :=
  ⟨sameDay_of_dayLaw h, dayLaw_of_sameDay h⟩

theorem oneDay_of_sameDay (h : zone.Regular) (hsame : ∀ d, SameDay session zone d)
    (ht : t ∈ db.trades) (hmarket : t.market = market) :
    ∃! d, t ∈ getTradesByDate session d (some market) db.trades := by
  have hiff : ∀ d, t ∈ getTradesByDate session d (some market) db.trades ↔
      zone.date t.tradedAt = d := by
    intro d
    rw [mem_getTradesByDate, inNaiveDay_eq_date h (hsame d), decide_eq_true_iff]
    exact ⟨fun hd => hd.2.1, fun hd => ⟨ht, hd, hmarket⟩⟩
  exact ⟨zone.date t.tradedAt, (hiff _).mpr rfl, fun d hd => ((hiff d).mp hd).symm⟩

end Law

/-- A day of the market obeys the law exactly if the session's midnights at its two ends are
the market's, and every day does exactly if all midnights are. -/
theorem market_day (session zone : TimeZone) (market : String) (h : zone.Regular) :
    (∀ d, DayLaw session zone market d ↔ session.midnight d = zone.midnight d ∧
      session.midnight (d + 1) = zone.midnight (d + 1)) ∧
    (MarketLocal session zone market ↔ ∀ d, session.midnight d = zone.midnight d) := by
  refine ⟨fun d => dayLaw_iff h, fun hlocal d => ?_, fun hsame => ?_⟩
  · exact (sameDay_of_dayLaw h (hlocal.days d)).1
  · have hdays : ∀ d, SameDay session zone d := fun d => ⟨hsame d, hsame (d + 1)⟩
    exact ⟨fun d => dayLaw_of_sameDay h (hdays d), fun db t ht hmarket =>
      oneDay_of_sameDay h hdays ht hmarket⟩

/-- A session in the market's own zone, through both shifts of the clock. -/
theorem market_day_newYork : MarketLocal newYork newYork "US" :=
  (market_day newYork newYork "US" newYork_regular).2.mpr fun _ => rfl

/-- Sold on Monday, January 5, at 15:30 in New York. -/
def mondaySale : StoredTrade :=
  { stockCode := "AAPL", market := "US", tradeType := .sell, profitLossAmount := some (-50),
    tradedAt := 20458 * dayLength + 20 * hour + hour / 2 }

/-- With a session in Seoul the sale of the American Monday is one of Tuesday's, and neither
the replay nor the summary of Monday knows it. -/
theorem mondaySale_onTuesday : newYork.date mondaySale.tradedAt = 20458 ∧
    replayedTrades seoul newYork "US" mondaySale.tradedAt { trades := [mondaySale] } = [] ∧
    getTradesByDate seoul 20459 (some "US") [mondaySale] = [mondaySale] ∧
    (summarize seoul 20458 "US" { trades := [mondaySale] }).totalSellCount = 0 ∧
    ¬ MarketLocal seoul newYork "US" := by
  have hdate : newYork.date mondaySale.tradedAt = 20458 := by decide
  have hreplay : replayedTrades seoul newYork "US" mondaySale.tradedAt
      { trades := [mondaySale] } = [] := by decide
  refine ⟨hdate, hreplay, by decide, by decide, fun hlocal => ?_⟩
  have hperm := ((hlocal.days 20458).callers { trades := [mondaySale] } _ hdate).2.1
  rw [hreplay] at hperm
  have hlocal : localTrades newYork "US" 20458 { trades := [mondaySale] } = [mondaySale] := by decide
  rw [hlocal] at hperm
  exact List.not_perm_nil_cons _ _ hperm

end KisAutotrader.MarketDay
