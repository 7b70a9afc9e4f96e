import KisAutotrader.Coroutine
import KisAutotrader.RiskManager
import KisAutotrader.Broker

/-! The engine's state, the world it runs in, and the calls by which it leaves
its own code: broker requests, database lookups and queue writes. Between two
calls the engine runs atomically; a reply carries what happened meanwhile. -/
namespace KisAutotrader
open OrderedDict

structure Settings where
  market : MarketProfile := .krx
  clock : MarketClock
  limits : RiskLimits := {}
  orderPendingTimeoutCycles : ℤ := 3
  reconcileOrphanFills : Bool := true
  dbPrecheckBeforeOrder : Bool := false
  minPrice : ℚ := 1000
  maxDailyTradesPerStock : ℤ := 2
  buyCooldownAfterSellMin : ℤ := 120
  lossRebuyBlockSameDay : Bool := false
  trailingStopEnabled : Bool := true
  screeningIntervalCycles : ℕ := 60
  maxScreened : ℕ := 15
  freshWindowMin : ℤ := 10

structure PendingOrder where
  orderNo : ℕ
  side : Side
  quantity : ℕ
  placedCycle : ℕ
  qtyBefore : ℤ
  price : ℚ
  avgPrice : Option ℚ
  exchange : String
  deriving DecidableEq, Repr

inductive SellReason where
  | stopLoss
  | takeProfit
  | strategy
  | trailingStop
  | marketClose
  | breakeven
  | stagnation
  deriving DecidableEq, Repr

/-- `_SELL_REASON_MAP`. -/
def sellReasonOf (reason : String) : Option SellReason :=
  if reason = "손절" then some .stopLoss
  else if reason = "익절" then some .takeProfit
  else if reason = "전략매도" then some .strategy
  else if reason = "트레일링" then some .trailingStop
  else if reason = "마감청산" then some .marketClose
  else if reason = "본전스톱" then some .breakeven
  else if reason = "정체청산" then some .stagnation
  else none

/-- The row a `record_trade` task stores in `trades`. -/
structure TradeRow where
  stockCode : Code
  tradeType : Side
  quantity : ℤ
  price : ℚ
  totalAmount : ℚ
  tradedAt : Time
  cycleNumber : ℕ
  sellReason : Option SellReason
  profitLossPct : Option ℚ
  profitLossAmount : Option ℚ
  deriving DecidableEq, Repr

structure ScreeningRow where
  stockCode : Code
  screeningRank : ℕ
  screenedAt : Time
  convertedToTrade : Bool
  deriving DecidableEq, Repr

structure SyncHolding where
  stockCode : Code
  peakPrice : Option ℚ
  deriving DecidableEq, Repr

structure Engine where
  cycleCount : ℕ := 0
  pendingOrders : Dict Code PendingOrder := .empty
  balanceCache : Option (Time × Balance) := none
  todayTradeCount : ℕ := 0
  todayBuysPerStock : Dict Code ℕ := .empty
  untradableToday : List Code := []
  dailyLimitReached : Bool := false
  screenedCodes : List Code := []
  peakPrices : Dict Code ℚ := .empty
  heldSince : Dict Code Time := .empty
  lastSellAt : Dict Code Time := .empty
  lossSellDates : Dict Code ℕ := .empty
  risk : RiskManager := {}
  riskStateRestored : Bool := false
  killSwitchLogged : Bool := false
  exchanges : Dict Code String := .empty

/-- What a run leaves to be looked at: evaluations of holdings with the peak they
use, attempted sells, and booked fills. -/
inductive LogEntry where
  | held (code : Code) (lot : ℕ) (price avgPrice peak : ℚ)
  | sell (code : Code) (reason : String)
  | booked (code : Code) (side : Side)
  deriving DecidableEq, Repr

structure World where
  engine : Engine := {}
  broker : Broker
  clock : Time := 0
  trades : List TradeRow := []
  screening : List ScreeningRow := []
  untradable : List Code := []
  portfolio : Dict Code (Option ℚ) := .empty
  syncTasks : List (List SyncHolding) := []
  syncDays : List ℕ := []
  prices : Code → ℚ := fun _ => 0
  watchlist : List Code := []
  haltFile : Bool := false
  breakerOpen : Bool := false
  log : List LogEntry := []

/-- What happens outside the engine while it waits. -/
inductive Event where
  | fill (no shares : ℕ) (price : ℚ)
  | deposit (amount : ℚ)
  | price (code : Code) (value : ℚ)
  | screened (rows : List ScreeningRow)
  | watchlist (codes : List Code)
  | haltFile (present : Bool)
  | breaker (isOpen : Bool)
  | syncPortfolio (index : ℕ)

/-- `PortfolioRepository.upsert` restricted to the peak: `None` keeps the stored value. -/
def upsertPeak (portfolio : Dict Code (Option ℚ)) (h : SyncHolding) : Dict Code (Option ℚ) :=
  match h.peakPrice with
  | some peak => portfolio.set h.stockCode (some peak)
  | none => portfolio.setDefault h.stockCode none

def World.happen (w : World) : Event → World
  | .fill no shares price => { w with broker := w.broker.fill no shares price }
  | .deposit amount => { w with broker := { w.broker with deposit := amount } }
  | .price code value => { w with prices := fun c => if c = code then value else w.prices c }
  | .screened rows => { w with screening := w.screening ++ rows }
  | .watchlist codes => { w with watchlist := codes }
  | .haltFile present => { w with haltFile := present }
  | .breaker isOpen => { w with breakerOpen := isOpen }
  | .syncPortfolio index => { w with
      portfolio := (w.syncTasks[index]?.getD []).foldl upsertPeak w.portfolio
      syncTasks := w.syncTasks.eraseIdx index }

inductive CallError where
  | dailyLimit
  | failed
  deriving DecidableEq, Repr

/-- How a call ends; `lost` takes effect at the other side but raises here. -/
inductive Outcome where
  | ok
  | dailyLimit
  | failed
  | lost
  | untradable
  deriving DecidableEq, Repr

def Outcome.error : Outcome → CallError
  | .dailyLimit => .dailyLimit
  | _ => .failed

structure Reply where
  elapsed : Time := 0
  events : List Event := []
  outcome : Outcome := .ok
  signal : Option Signal := none
  buyable : Option ℤ := none
  codes : List Code := []
  rows : List ScreeningRow := []
  markets : List (Code × String) := []

/-- The place in the code where a balance is read; the answer does not depend on it. -/
inductive Site where
  | cycle
  | snapshot (code : Code) (side : Side) (quantity : ℕ)
  | confirm (code : Code) (side : Side) (qtyBefore : ℤ)
  | reconcile (code : Code) (side : Side) (qtyBefore : ℤ)
  | slippage (code : Code)
  deriving DecidableEq, Repr

/-- The calls of the engine. A quote or an analysis names the holding that is
evaluated right after it; the answer does not depend on it. -/
inductive Req where
  | idle
  | balance (site : Site)
  | place (side : Side) (code : Code) (quantity : ℕ) (price : ℚ) (exchange : String)
  | cancel (code : Code) (orderNo quantity : ℕ) (exchange : String)
  | marketActionBlock (code : Code)
  | disclosureRiskBlock (code : Code)
  | dbHealthcheck
  | enqueueTrade (row : TradeRow)
  | loadTrades
  | loadPeaks
  | daily (code : Code)
  | quote (code : Code) (evaluated : Option Holding)
  | analyze (code : Code) (evaluated : Option Holding)
  | buyable (code : Code) (price : ℚ)
  | setOrder (codes : List Code)
  | loadScreening
  | stockMarkets (codes : List Code)
  | accessToken
  | prefetch
  | executions
  | enqueueSync (day : ℕ) (rows : List SyncHolding)

inductive Placed where
  | accepted (orderNo : ℕ)
  | untradable
  | raised
  deriving DecidableEq, Repr

@[reducible] def Ans : Req → Type
  | .idle => Unit
  | .balance _ => Except CallError Balance
  | .place .. => Placed
  | .cancel .. => Bool
  | .marketActionBlock _ => Bool
  | .disclosureRiskBlock _ => Bool
  | .dbHealthcheck => Bool
  | .enqueueTrade _ => Unit
  | .loadTrades => Option (List TradeRow)
  | .loadPeaks => Option (Dict Code ℚ)
  | .daily _ => Except CallError Bool
  | .quote .. => Except CallError ℚ
  | .analyze .. => Option Signal
  | .buyable .. => Option ℤ
  | .setOrder _ => List Code
  | .loadScreening => Option (List ScreeningRow)
  | .stockMarkets _ => List (Code × String)
  | .accessToken => Bool
  | .prefetch => Bool
  | .executions => Bool
  | .enqueueSync .. => Unit

/-- `get_peak_prices`: every stored row with a peak. -/
def peakRows (portfolio : Dict Code (Option ℚ)) : Dict Code ℚ :=
  portfolio.items.foldl (fun d x => match x.2 with
    | some peak => d.set x.1 peak
    | none => d) .empty

def World.tick (w : World) (elapsed : Time) : World := { w with clock := w.clock + elapsed }

def World.elapse (w : World) (reply : Reply) : World :=
  reply.events.foldl World.happen (w.tick reply.elapsed)

/-- The answer to a call and its effect, in the state the reply finds. -/
def World.answer (w : World) (reply : Reply) : (r : Req) → Ans r × World
  | .idle => ((), w)
  | .balance _ =>
      if reply.outcome = .ok then (.ok w.broker.report, w) else (.error reply.outcome.error, w)
  | .place side code quantity _ exchange =>
      match reply.outcome with
      | .ok => (.accepted w.broker.nextNo,
          { w with broker := w.broker.accept side code quantity exchange })
      | .lost => (.raised, { w with broker := w.broker.accept side code quantity exchange })
      | .untradable => (.untradable, { w with untradable := w.untradable ++ [code] })
      | _ => (.raised, w)
  | .cancel _ orderNo _ _ =>
      match reply.outcome with
      | .ok => (true, { w with broker := w.broker.cancel orderNo })
      | .lost => (false, { w with broker := w.broker.cancel orderNo })
      | _ => (false, w)
  | .marketActionBlock _ => (decide (reply.outcome ≠ .ok), w)
  | .disclosureRiskBlock _ => (decide (reply.outcome ≠ .ok), w)
  | .dbHealthcheck => (decide (reply.outcome = .ok), w)
  | .enqueueTrade row =>
      ((), if reply.outcome = .ok then { w with trades := w.trades ++ [row] } else w)
  | .loadTrades => (if reply.outcome = .ok then some w.trades else none, w)
  | .loadPeaks => (if reply.outcome = .ok then some (peakRows w.portfolio) else none, w)
  | .daily _ =>
      match reply.outcome with
      | .ok => (.ok true, w)
      | .lost => (.ok false, w)
      | o => (.error o.error, w)
  | .quote code _ =>
      if reply.outcome = .ok then (.ok (w.prices code), w) else (.error reply.outcome.error, w)
  | .analyze .. => (reply.signal, w)
  | .buyable .. => (reply.buyable, w)
  | .setOrder codes => (if reply.codes.Perm codes then reply.codes else codes, w)
  | .loadScreening =>
      (if reply.outcome = .ok then
        some (if reply.rows.Perm w.screening then reply.rows else w.screening)
      else none, w)
  | .stockMarkets _ => (reply.markets, w)
  | .accessToken => (decide (reply.outcome = .ok), w)
  | .prefetch => (decide (reply.outcome = .ok), w)
  | .executions => (decide (reply.outcome = .ok), w)
  | .enqueueSync day rows =>
      ((), if reply.outcome = .ok ∧ day ∉ w.syncDays then
        { w with syncTasks := w.syncTasks ++ [rows], syncDays := day :: w.syncDays }
      else w)

def serve (r : Req) (reply : Reply) (w : World) : Ans r × World := (w.elapse reply).answer reply r

abbrev EngineM := Coroutine.Proc World Req Ans

abbrev Tape := ℕ → Reply

def logEntry (entry : LogEntry) (w : World) : World := { w with log := w.log ++ [entry] }

section
variable (entry : LogEntry) (w : World)

@[simp] theorem logEntry_engine : (logEntry entry w).engine = w.engine := rfl
@[simp] theorem logEntry_broker : (logEntry entry w).broker = w.broker := rfl
@[simp] theorem logEntry_clock : (logEntry entry w).clock = w.clock := rfl
@[simp] theorem logEntry_trades : (logEntry entry w).trades = w.trades := rfl
@[simp] theorem logEntry_untradable : (logEntry entry w).untradable = w.untradable := rfl
@[simp] theorem logEntry_log : (logEntry entry w).log = w.log ++ [entry] := rfl

end

/-- The listed replies, then replies in which nothing happens. -/
def tapeOf (replies : List Reply) : Tape := fun n => replies[n]?.getD {}

section Calls
open Coroutine

abbrev inquireBalance (site : Site) : EngineM (Except CallError Balance) := ask (Req.balance site)
abbrev placeOrder (side : Side) (code : Code) (quantity : ℕ) (price : ℚ) (exchange : String) :
    EngineM Placed := ask (Req.place side code quantity price exchange)
abbrev cancelOrder (code : Code) (orderNo quantity : ℕ) (exchange : String) : EngineM Bool :=
  ask (Req.cancel code orderNo quantity exchange)
abbrev checkMarketActionBlock (code : Code) : EngineM Bool := ask (Req.marketActionBlock code)
abbrev checkDisclosureRiskBlock (code : Code) : EngineM Bool := ask (Req.disclosureRiskBlock code)
abbrev dbHealthcheck : EngineM Bool := ask Req.dbHealthcheck
abbrev enqueueTrade (row : TradeRow) : EngineM Unit := ask (Req.enqueueTrade row)
abbrev loadTrades : EngineM (Option (List TradeRow)) := ask Req.loadTrades
abbrev loadPeaks : EngineM (Option (Dict Code ℚ)) := ask Req.loadPeaks
abbrev fetchDaily (code : Code) : EngineM (Except CallError Bool) := ask (Req.daily code)
abbrev getCurrent (code : Code) (evaluated : Option Holding) : EngineM (Except CallError ℚ) :=
  ask (Req.quote code evaluated)
abbrev analyze (code : Code) (evaluated : Option Holding) : EngineM (Option Signal) :=
  ask (Req.analyze code evaluated)
abbrev getBuyableQty (code : Code) (price : ℚ) : EngineM (Option ℤ) := ask (Req.buyable code price)
abbrev iterationOrder (codes : List Code) : EngineM (List Code) := ask (Req.setOrder codes)
abbrev loadScreening : EngineM (Option (List ScreeningRow)) := ask Req.loadScreening
abbrev stockMarkets (codes : List Code) : EngineM (List (Code × String)) :=
  ask (Req.stockMarkets codes)
abbrev getAccessToken : EngineM Bool := ask Req.accessToken
abbrev prefetchDaily : EngineM Bool := ask Req.prefetch
abbrev getExecutions : EngineM Bool := ask Req.executions
abbrev enqueueSync (day : ℕ) (rows : List SyncHolding) : EngineM Unit :=
  ask (Req.enqueueSync day rows)

end Calls

/-- What every event preserves, waiting preserves. -/
theorem World.elapse_invariant {P : World → Prop} {w : World} (reply : Reply)
    (h : P (w.tick reply.elapsed))
    (hstep : ∀ w e, P w → P (World.happen w e)) : P (w.elapse reply) := by
  unfold World.elapse
  generalize w.tick reply.elapsed = v at h
  induction reply.events generalizing v with
  | nil => exact h
  | cons e es ih => exact ih _ (hstep v e h)

@[simp] theorem World.happen_engine (w : World) (e : Event) : (w.happen e).engine = w.engine := by
  cases e <;> rfl

@[simp] theorem World.happen_trades (w : World) (e : Event) : (w.happen e).trades = w.trades := by
  cases e <;> rfl

@[simp] theorem World.happen_log (w : World) (e : Event) : (w.happen e).log = w.log := by
  cases e <;> rfl

@[simp] theorem World.elapse_engine (w : World) (reply : Reply) :
    (w.elapse reply).engine = w.engine :=
  elapse_invariant (P := fun v => v.engine = w.engine) reply rfl fun _ _ h => by simp [h]

@[simp] theorem World.elapse_trades (w : World) (reply : Reply) :
    (w.elapse reply).trades = w.trades :=
  elapse_invariant (P := fun v => v.trades = w.trades) reply rfl fun _ _ h => by simp [h]

@[simp] theorem World.elapse_log (w : World) (reply : Reply) : (w.elapse reply).log = w.log :=
  elapse_invariant (P := fun v => v.log = w.log) reply rfl fun _ _ h => by simp [h]

@[simp] theorem World.elapse_clock (w : World) (reply : Reply) :
    (w.elapse reply).clock = w.clock + reply.elapsed :=
  elapse_invariant (P := fun v => v.clock = w.clock + reply.elapsed) reply rfl fun v e h => by
    cases e <;> exact h

@[simp] theorem serve_engine (r : Req) (reply : Reply) (w : World) :
    (serve r reply w).2.engine = w.engine := by
  have h := World.elapse_engine w reply
  cases r <;> simp only [serve, World.answer] <;> (try split) <;> exact h

@[simp] theorem serve_log (r : Req) (reply : Reply) (w : World) :
    (serve r reply w).2.log = w.log := by
  have h := World.elapse_log w reply
  cases r <;> simp only [serve, World.answer] <;> (try split) <;> exact h

@[simp] theorem World.elapse_untradable (w : World) (reply : Reply) :
    (w.elapse reply).untradable = w.untradable :=
  elapse_invariant (P := fun v => v.untradable = w.untradable) reply rfl fun v e h => by
    cases e <;> exact h

@[simp] theorem serve_clock (r : Req) (reply : Reply) (w : World) :
    (serve r reply w).2.clock = w.clock + reply.elapsed := by
  have h := World.elapse_clock w reply
  cases r <;> simp only [serve, World.answer] <;> (try split) <;> exact h

/-- Only the answer to an order declares a stock untradable. -/
theorem serve_untradable {r : Req} (hr : ∀ side code quantity price exchange,
    r ≠ .place side code quantity price exchange) (reply : Reply) (w : World) :
    (serve r reply w).2.untradable = w.untradable := by
  have h := World.elapse_untradable w reply
  cases r <;> simp only [serve, World.answer]
  case place => exact absurd rfl (hr _ _ _ _ _)
  all_goals (try split) <;> exact h

/-- The broker's answer to an order is all that can add to the untradable stocks. -/
theorem serve_place_untradable (side : Side) (code : Code) (quantity : ℕ) (price : ℚ)
    (exchange : String) (reply : Reply) (w : World) :
    if (serve (.place side code quantity price exchange) reply w).1 = .untradable then
      reply.outcome = .untradable ∧
        (serve (.place side code quantity price exchange) reply w).2.untradable =
          w.untradable ++ [code]
    else (serve (.place side code quantity price exchange) reply w).2.untradable =
      w.untradable := by
  cases ho : reply.outcome <;> simp [serve, World.answer, ho]

/-- Only the queue writes the trades table. -/
theorem serve_trades {r : Req} (hr : ∀ row, r ≠ .enqueueTrade row) (reply : Reply) (w : World) :
    (serve r reply w).2.trades = w.trades := by
  have h := World.elapse_trades w reply
  cases r <;> simp only [serve, World.answer]
  case enqueueTrade row => exact absurd rfl (hr row)
  all_goals (try split) <;> exact h

theorem serve_enqueueTrade_trades (row : TradeRow) (reply : Reply) (w : World) :
    (serve (.enqueueTrade row) reply w).2.trades = w.trades ∨
      (serve (.enqueueTrade row) reply w).2.trades = w.trades ++ [row] := by
  simp only [serve, World.answer]
  split
  · exact Or.inr (by simp)
  · exact Or.inl (by simp)

theorem World.elapse_evolved (w : World) (reply : Reply) :
    Broker.Evolved w.broker (w.elapse reply).broker := by
  refine elapse_invariant (P := fun v => Broker.Evolved w.broker v.broker) reply
    (Broker.Evolved.refl _) fun v e h => ?_
  cases e with
  | fill no shares price => exact h.trans (v.broker.evolved_fill no shares price)
  | _ => exact ⟨h.nextNo, h.nos, h.live⟩

def onEngine (f : Engine → Engine) (w : World) : World := { w with engine := f w.engine }

section
variable (f : Engine → Engine) (w : World)

@[simp] theorem onEngine_engine : (onEngine f w).engine = f w.engine := rfl
@[simp] theorem onEngine_broker : (onEngine f w).broker = w.broker := rfl
@[simp] theorem onEngine_clock : (onEngine f w).clock = w.clock := rfl
@[simp] theorem onEngine_trades : (onEngine f w).trades = w.trades := rfl
@[simp] theorem onEngine_untradable : (onEngine f w).untradable = w.untradable := rfl
@[simp] theorem onEngine_log : (onEngine f w).log = w.log := rfl

end

end KisAutotrader
