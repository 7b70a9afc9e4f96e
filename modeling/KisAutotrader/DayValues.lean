import KisAutotrader.CycleRules
import KisAutotrader.Instrumentation
import KisAutotrader.RestartEquivalence

/-!
# The values of a trading day

What the gates and the early returns of a cycle read, as a fold of the calls of the day.
-/
namespace KisAutotrader.DayRollover
open OrderedDict Coroutine OrderExecution OrderRules RiskRestore Screening StockProcessing
  TradingCycle CycleRules RestartEquivalence

structure DayValues where
  tradeCount : ℕ := 0
  buys : Dict Code ℕ := .empty
  untradable : List Code := []
  limitReached : Bool := false
  risk : RiskManager := {}

/-- What a cycle reads of the engine. -/
def read (e : Engine) : DayValues where
  tradeCount := e.todayTradeCount
  buys := e.todayBuysPerStock
  untradable := e.untradableToday
  limitReached := e.dailyLimitReached
  risk := e.risk

/-- The result of a sale as the risk manager takes it. -/
def rowResult (cfg : Settings) (t : TradeRow) : Option ℚ :=
  match t.tradeType with
  | .buy => none
  | .sell => t.profitLossAmount.map (replayAmount cfg)

namespace DayValues

def addTrade (cfg : Settings) (t : TradeRow) (v : DayValues) : DayValues :=
  { v with
    tradeCount := v.tradeCount + 1
    buys := match t.tradeType with
      | .buy => v.buys.set t.stockCode ((v.buys.get? t.stockCode).getD 0 + 1)
      | .sell => v.buys
    risk := match rowResult cfg t with
      | none => v.risk
      | some a => v.risk.recordTradeResult cfg.limits a }

def addTrades (cfg : Settings) (ts : List TradeRow) (v : DayValues) : DayValues :=
  ts.foldl (fun v t => v.addTrade cfg t) v

def addUntradable (code : Code) (v : DayValues) : DayValues :=
  { v with untradable := code :: v.untradable }

def reachLimit (v : DayValues) : DayValues := { v with limitReached := true }

end DayValues

/-- The calls whose daily-limit error ends a cycle. -/
def endsCycle (inCycle : Bool) : Req → Bool
  | .balance .cycle => inCycle
  | .daily _ => true
  | .quote .. => true
  | _ => false

/-- The rows the trades table has for the present day. -/
def rowsToday (cfg : Settings) (w : World) : List TradeRow :=
  getTradesByDate cfg.clock (cfg.clock.date w.clock) w.trades

/-- The values of the day after one more call: a trade handed to the queue, the day's rows of
the table, a stock that is refused, the daily limit of the API. -/
def note (cfg : Settings) (inCycle : Bool) (r : Req) (reply : Reply) (x : World × DayValues) :
    DayValues :=
  match r with
  | .enqueueTrade row => x.2.addTrade cfg row
  | .loadTrades => x.2.addTrades cfg (rowsToday cfg x.1)
  | .place .buy code _ _ _ => if reply.outcome = .untradable then x.2.addUntradable code else x.2
  | r => if endsCycle inCycle r = true ∧ reply.outcome = .dailyLimit then x.2.reachLimit else x.2

/-- At a call the engine reads the values of the day; a trade counts when it is handed over. -/
def AtCall (cfg : Settings) (r : Req) (x : World × DayValues) : Prop :=
  read x.1.engine = match r with
    | .enqueueTrade row => x.2.addTrade cfg row
    | _ => x.2

/-- The engine reads the values of the day. -/
def Level (restored : Bool) (x : World × DayValues) : Prop :=
  read x.1.engine = x.2 ∧ x.1.engine.riskStateRestored = restored

/-- The rebuilding of the state reaches all rows of the day: the table can be read and a sale
of the day has a result, or there are no rows. -/
def Rebuilds (cfg : Settings) (r : Req) (reply : Reply) (w : World) : Prop :=
  match r with
  | .loadTrades => rowsToday cfg w = [] ∨ reply.outcome = .ok ∧ sellResults (rowsToday cfg w) ≠ []
  | _ => True

instance (cfg : Settings) (r : Req) (reply : Reply) (w : World) :
    Decidable (Rebuilds cfg r reply w) := by
  unfold Rebuilds
  split <;> infer_instance

/-- An update of nothing that a cycle reads. -/
def Unread (f : Engine → Engine) : Prop :=
  ∀ e, read (f e) = read e ∧ (f e).riskStateRestored = e.riskStateRestored

/-- A booking counts the row that it makes. -/
def Counts (cfg : Settings) (f : Time → Engine → Engine × TradeRow) : Prop :=
  ∀ now e, read (f now e).1 = (read e).addTrade cfg (f now e).2 ∧
    (f now e).1.riskStateRestored = e.riskStateRestored

/-! ### Bookings -/

section Bookings
variable (cfg : Settings)

theorem rowResult_book (f : DayFill) (e : Engine) :
    rowResult cfg (f.book cfg e).2 = f.result cfg := by
  have hbook := book_effect cfg f e
  unfold rowResult
  rw [hbook.tradeType, hbook.amount]
  cases hside : f.side with
  | buy => exact (result_buy cfg hside).symm
  | sell =>
    cases hresult : f.result cfg with
    | none => rfl
    | some a => simp [replayAmount_result cfg hresult]

theorem read_book {f : DayFill} {e : Engine} (hbuys : (f.book cfg e).1.todayBuysPerStock =
      if f.side = .buy then
        e.todayBuysPerStock.set f.code ((e.todayBuysPerStock.get? f.code).getD 0 + 1)
      else e.todayBuysPerStock)
    (huntradable : (f.book cfg e).1.untradableToday = e.untradableToday)
    (hlimit : (f.book cfg e).1.dailyLimitReached = e.dailyLimitReached) :
    read (f.book cfg e).1 = (read e).addTrade cfg (f.book cfg e).2 := by
  have hbook := book_effect cfg f e
  unfold read DayValues.addTrade
  rw [hbook.tradeCount, hbook.risk, hbook.tradeType, hbook.stockCode, rowResult_book, huntradable,
    hlimit, hbuys]
  cases f.side <;> rfl

theorem bookRealised_limit (now : Time) (code : Code) (pl : Option (ℚ × ℚ)) (e : Engine) :
    (bookRealised cfg now code pl e).dailyLimitReached = e.dailyLimitReached := by
  cases pl <;> rfl

theorem counts_buyConfirmed (code : Code) (filled : ℤ) (price : ℚ) :
    Counts cfg fun now => buyConfirmed cfg now code filled price := by
  intro now e
  have hbooks := books_buyConfirmed cfg code filled price
  refine ⟨?_, hbooks.riskStateRestored now e⟩
  apply read_book cfg (f := ⟨code, now, filled, .buy price⟩)
  · exact hbooks.todayBuysPerStock now e
  · exact hbooks.untradableToday now e
  · rfl

theorem counts_sellConfirmed (code : Code) (filled : ℤ) (price : ℚ) (reason : String)
    (avgPrice : Option ℚ) :
    Counts cfg fun now => sellConfirmed cfg now code filled price reason avgPrice := by
  intro now e
  have hbooks := books_sellConfirmed cfg code filled price reason avgPrice
  refine ⟨?_, hbooks.riskStateRestored now e⟩
  apply read_book cfg (f := ⟨code, now, filled, .sell price reason avgPrice⟩)
  · exact hbooks.todayBuysPerStock now e
  · exact hbooks.untradableToday now e
  · exact bookRealised_limit cfg now code _ _

theorem counts_orphanConfirmed (code : Code) (pending : PendingOrder) (filled : ℤ) :
    Counts cfg fun now => orphanConfirmed cfg now code pending filled := by
  intro now e
  have hbooks := books_orphanConfirmed cfg code pending filled
  refine ⟨?_, hbooks.riskStateRestored now e⟩
  apply read_book cfg (f := ⟨code, now, filled, .orphan pending⟩)
  · exact hbooks.todayBuysPerStock now e
  · exact hbooks.untradableToday now e
  · simp only [DayFill.book, orphanConfirmed]
    cases pending.side <;> exact bookRealised_limit cfg now code _ _

end Bookings

/-! ### The rebuilt state -/

section Restore
variable (cfg : Settings) (today : ℕ)

theorem addTrades_cons (t : TradeRow) (ts : List TradeRow) (v : DayValues) :
    v.addTrades cfg (t::ts) = (v.addTrade cfg t).addTrades cfg ts := rfl

/-- Restored rows and booked ones are counted alike. -/
theorem foldl_restoreRow_buys (ts : List TradeRow) (e : Engine) (v : DayValues)
    (h : e.todayBuysPerStock = v.buys) :
    (ts.foldl (restoreRow today) e).todayBuysPerStock = (v.addTrades cfg ts).buys := by
  induction ts generalizing e v with
  | nil => exact h
  | cons t ts ih =>
    rw [List.foldl_cons, addTrades_cons]
    apply ih
    unfold restoreRow DayValues.addTrade
    cases t.tradeType with
    | buy => simp [bumpBuys, h]
    | sell => exact h

theorem addTrades_rest (ts : List TradeRow) (v : DayValues) :
    (v.addTrades cfg ts).tradeCount = v.tradeCount + ts.length ∧
      (v.addTrades cfg ts).untradable = v.untradable ∧
      (v.addTrades cfg ts).limitReached = v.limitReached ∧
      (v.addTrades cfg ts).risk = (ts.filterMap (rowResult cfg)).foldl
        (fun r a => r.recordTradeResult cfg.limits a) v.risk := by
  induction ts generalizing v with
  | nil => exact ⟨rfl, rfl, rfl, rfl⟩
  | cons t ts ih =>
    obtain ⟨hcount, huntradable, hlimit, hrisk⟩ := ih (v.addTrade cfg t)
    rw [addTrades_cons]
    refine ⟨?_, huntradable, hlimit, ?_⟩
    · have hone : (v.addTrade cfg t).tradeCount = v.tradeCount + 1 := rfl
      rw [hcount, hone, List.length_cons]
      omega
    · rw [hrisk, DayValues.addTrade]
      cases hresult : rowResult cfg t with
      | none => rw [List.filterMap_cons_none hresult]
      | some a => rw [List.filterMap_cons_some hresult, List.foldl_cons]

/-- The replayed results are the results of the rows. -/
theorem replayed_rowResults {ts : List TradeRow}
    (hsorted : ts.Pairwise fun a b => a.tradedAt ≤ b.tradedAt) :
    (sellResults ts).map (replayAmount cfg) = ts.filterMap (rowResult cfg) := by
  unfold sellResults
  rw [(hsorted.sublist List.filter_sublist).insertionSort_eq, List.map_filterMap,
    List.filterMap_filter]
  apply List.filterMap_congr
  intro t _
  cases hside : t.tradeType with
  | buy => simp [rowResult, hside]
  | sell => cases hamount : t.profitLossAmount <;> simp [rowResult, hside, hamount]

theorem read_restoreGates (ts : List TradeRow) {e : Engine} (h : read e = {}) :
    read (restoreGates today ts e) = { buys := (({} : DayValues).addTrades cfg ts).buys } := by
  obtain ⟨buys, lastSell, lossSell, heq⟩ := restoreGates_eq today ts e
  have hbuys := foldl_restoreRow_buys cfg today ts
    { e with todayBuysPerStock := .empty, lastSellAt := .empty, lossSellDates := .empty } {} rfl
  rw [← hbuys]
  change read (restoreGates today ts e) = { buys := (restoreGates today ts e).todayBuysPerStock }
  rw [heq]
  unfold read at h ⊢
  obtain ⟨hcount, -, huntradable, hlimit, hrisk⟩ := DayValues.mk.inj h
  simp only [hcount, huntradable, hlimit, hrisk]

/-- The rebuilt values are those of the day's rows, if there are none or a sale has a result. -/
theorem read_restoreRisk {ts : List TradeRow}
    (hsorted : ts.Pairwise fun a b => a.tradedAt ≤ b.tradedAt) {e : Engine} (h : read e = {}) :
    read (restoreRisk cfg ts (restoreGates today ts e)) = ({} : DayValues).addTrades cfg ts := by
  have hgates := read_restoreGates cfg today ts h
  obtain ⟨-, hbuys, huntradable, hlimit, -⟩ := DayValues.mk.inj hgates
  obtain ⟨hcount, huntradable', hlimit', hrisk⟩ := addTrades_rest cfg ts {}
  rw [← replayed_rowResults cfg hsorted] at hrisk
  unfold read restoreRisk
  simp only [hbuys, huntradable, hlimit]
  cases hvalues : ({} : DayValues).addTrades cfg ts with
  | mk tradeCount buys untradable limitReached risk =>
    rw [hvalues] at hcount huntradable' hlimit' hrisk
    simp only at hcount huntradable' hlimit' hrisk
    rw [hcount, huntradable', hlimit', hrisk, Nat.zero_add]
    rfl

end Restore

/-! ### The procedures of the engine -/

/-- The calls that may add to the values of the day. -/
def adds (inCycle : Bool) : Req → Bool
  | .enqueueTrade _ => true
  | .loadTrades => true
  | .place .buy .. => true
  | r => endsCycle inCycle r

section Procedures
variable {cfg : Settings} {inCycle restored : Bool} {rely : Req → Reply → World × DayValues → Prop}
  {site : Req → World × DayValues → Prop} {α : Type}

theorem note_silent {r : Req} (h : adds inCycle r = false) (reply : Reply) (x : World × DayValues) :
    note cfg inCycle r reply x = x.2 := by
  cases r <;> simp [adds, endsCycle] at h <;> simp [note, endsCycle]
  case balance site => cases site <;> simp_all
  case place side code quantity price exchange => cases side <;> simp_all

theorem atCall_silent {r : Req} (h : adds inCycle r = false) {x : World × DayValues}
    (hx : read x.1.engine = x.2) : AtCall cfg r x := by
  cases r <;> simp [adds] at h <;> exact hx

/-- What neither a call that adds nothing nor an unread update can break. -/
structure Silent (I : World × DayValues → Prop) : Prop where
  level : ∀ x, I x → read x.1.engine = x.2
  wait : ∀ r reply x, I x → I ((serve r reply x.1).2, x.2)
  update : ∀ f x, Unread f → I x → I (onEngine f x.1, x.2)

theorem silent_level : Silent (Level restored) := by
  refine ⟨fun x hx => hx.1, fun r reply x hx => ?_, fun f x hf hx => ?_⟩
  · unfold Level at hx ⊢
    rwa [serve_engine]
  · obtain ⟨hread, hrestored⟩ := hf x.1.engine
    exact ⟨hread.trans hx.1, hrestored.trans hx.2⟩

theorem silent_levelAt (v : DayValues) : Silent fun x => Level restored x ∧ x.2 = v :=
  ⟨fun _ hx => hx.1.1, fun r reply x hx => ⟨silent_level.wait r reply x hx.1, hx.2⟩,
    fun f x hf hx => ⟨silent_level.update f x hf hx.1, hx.2⟩⟩

theorem unread_storeBalance (now : Time) (b : Balance) : Unread (storeBalance cfg now b) :=
  fun _ => ⟨rfl, rfl⟩

theorem unread_invalidateBalanceCache : Unread invalidateBalanceCache := fun _ => ⟨rfl, rfl⟩

theorem unread_observeHeld (now : Time) (code : Code) (avgPrice price : ℚ) :
    Unread (observeHeld now code avgPrice price) := fun _ => ⟨rfl, rfl⟩

theorem unread_setScreened (codes : List Code) : Unread (setScreened codes) := fun _ => ⟨rfl, rfl⟩

theorem unread_seedExchanges (markets : List (Code × String)) :
    Unread (seedExchanges cfg markets) := fun _ => ⟨rfl, rfl⟩

section Silent
variable {I : World × DayValues → Prop} (hI : Silent I)
  (hsite : ∀ r x, AtCall cfg r x → site r x)
include hI

theorem Silent.modify {f : Engine → Engine} (hf : Unread f) :
    Kept serve (note cfg inCycle) rely site I (modify (onEngine f)) :=
  kept_modify fun x hx => hI.update f x hf hx

include hsite

theorem Silent.ask {r : Req} (h : adds inCycle r = false) :
    Kept serve (note cfg inCycle) rely site I (ask r) := by
  intro x hx
  rw [wp_instrument_ask]
  refine ⟨hsite r x (atCall_silent h (hI.level x hx)), fun reply _ => ?_⟩
  rw [note_silent h]
  exact hI.wait r reply x hx

theorem Silent.getBalance {s : Site} (force : Bool) (h : adds inCycle (.balance s) = false) :
    Kept serve (note cfg inCycle) rely site I (getBalance cfg s force) := by
  refine kept_get.bind fun w => ?_
  split
  · exact kept_pure _
  · refine (hI.ask hsite h).bind fun r => ?_
    cases r with
    | error e => exact kept_pure _
    | ok b => exact (hI.modify (unread_storeBalance w.clock b)).bind fun _ => kept_pure _

theorem Silent.screenStocks : Kept serve (note cfg inCycle) rely site I (screenStocks cfg) := by
  refine kept_get.bind fun w => (hI.ask hsite rfl).bind fun rows => ?_
  split
  · exact kept_pure _
  · refine kept_get.bind fun v => ?_
    dsimp only
    refine (hI.modify (unread_setScreened _)).bind fun _ => ?_
    split
    · exact (hI.ask hsite rfl).bind fun markets => hI.modify (unread_seedExchanges markets)
    · exact kept_pure _

end Silent

/-- The procedure keeps the engine at the values of the day. -/
abbrev Follows (cfg : Settings) (inCycle restored : Bool)
    (rely : Req → Reply → World × DayValues → Prop) (site : Req → World × DayValues → Prop)
    (p : EngineM α) : Prop :=
  Kept serve (note cfg inCycle) rely site (Level restored) p

theorem follows_modify {f : World → World} (h : ∀ w, read (f w).engine = read w.engine ∧
    (f w).engine.riskStateRestored = w.engine.riskStateRestored) :
    Follows cfg inCycle restored rely site (modify f) := by
  refine kept_modify fun x hx => ?_
  obtain ⟨hread, hrestored⟩ := h x.1
  exact ⟨hread.trans hx.1, hrestored.trans hx.2⟩

theorem follows_update {f : Engine → Engine} (h : Unread f) :
    Follows cfg inCycle restored rely site (modify (onEngine f)) := silent_level.modify h

theorem follows_logEntry (entry : LogEntry) :
    Follows cfg inCycle restored rely site (modify (logEntry entry)) :=
  follows_modify fun _ => ⟨rfl, rfl⟩

variable (hsite : ∀ r x, AtCall cfg r x → site r x)
include hsite

theorem follows_ask {r : Req} (h : adds inCycle r = false) :
    Follows cfg inCycle restored rely site (ask r) := silent_level.ask hsite h

theorem follows_book {f : Time → Engine → Engine × TradeRow} (h : Counts cfg f) :
    Follows cfg inCycle restored rely site (book f) := by
  intro x hx
  obtain ⟨hread, hrestored⟩ := h x.1.clock x.1.engine
  simp only [book, wp_instrument_bind, wp_instrument_get, wp_instrument_modify, wp_instrument_ask]
  rw [hx.1] at hread
  refine ⟨hsite _ _ hread, fun reply _ => ?_⟩
  exact silent_level.wait _ reply (applyBooking f x.1, x.2.addTrade cfg (f x.1.clock x.1.engine).2)
    ⟨hread, hrestored.trans hx.2⟩

theorem follows_getBalance {s : Site} (force : Bool) (h : adds inCycle (.balance s) = false) :
    Follows cfg inCycle restored rely site (getBalance cfg s force) :=
  silent_level.getBalance hsite force h

theorem follows_holdingQuantity {s : Site} (code : Code) (force : Bool)
    (h : adds inCycle (.balance s) = false) :
    Follows cfg inCycle restored rely site (holdingQuantity cfg s code force) := by
  refine (follows_getBalance hsite force h).bind fun r => ?_
  cases r <;> exact kept_pure _

theorem follows_confirmFill {s : Site} (code : Code) (side : Side) (qtyBefore : ℤ) (retries : ℕ)
    (h : adds inCycle (.balance s) = false) :
    Follows cfg inCycle restored rely site (confirmFill cfg s code side qtyBefore retries) := by
  induction retries with
  | zero => exact kept_pure _
  | succ retries ih =>
    refine (follows_holdingQuantity hsite code true h).bind fun r => ?_
    cases r <;> dsimp only <;> split
    · exact kept_pure _
    · exact ih
    · exact kept_pure _
    · exact ih

theorem follows_cancelPendingOrder (code : Code) (pending : PendingOrder) :
    Follows cfg inCycle restored rely site (cancelPendingOrder cfg code pending) := by
  have hdrop : Follows cfg inCycle restored rely site (do
      let w ← get
      let _ ← cancelOrder code pending.orderNo pending.quantity (exchangeOf cfg w.engine code)
      modify (onEngine (popPending code))) := by
    refine kept_get.bind fun w => (follows_ask hsite rfl).bind fun _ => ?_
    exact follows_update fun _ => ⟨rfl, rfl⟩
  have hreconcile : Follows cfg inCycle restored rely site
      (reconcileOrphanFill cfg code pending) := by
    refine (follows_confirmFill hsite code pending.side pending.qtyBefore 1 rfl).bind
      fun filled => ?_
    split
    · exact kept_pure _
    · exact (follows_book hsite (counts_orphanConfirmed cfg code pending filled)).bind
        fun _ => kept_pure _
  unfold cancelPendingOrder
  split
  · refine hreconcile.bind fun recovered => ?_
    dsimp only
    split
    · exact kept_pure _
    · exact hdrop
  · exact hdrop

theorem follows_cancelEach (xs : List (Code × PendingOrder)) :
    Follows cfg inCycle restored rely site
      (each (fun x => cancelPendingOrder cfg x.1 x.2) xs) := by
  have hone : ∀ x : Code × PendingOrder,
      Follows cfg inCycle restored rely site (cancelPendingOrder cfg x.1 x.2) :=
    fun x => follows_cancelPendingOrder hsite x.1 x.2
  exact kept_each hone xs

theorem follows_suppressOrReplacePending (code : Code) :
    Follows cfg inCycle restored rely site (suppressOrReplacePending cfg code) := by
  refine kept_get.bind fun w => ?_
  split
  · exact kept_pure _
  · split
    · exact kept_pure _
    · exact (follows_cancelPendingOrder hsite code _).bind fun _ => kept_pure _

/-- What the answer to an order adds to the values of the day. -/
def afterRefusal (side : Side) (code : Code) (v : DayValues) : DayValues :=
  match side with
  | .buy => v.addUntradable code
  | .sell => v

omit hsite in
theorem note_place (side : Side) (code : Code) (quantity : ℕ) (price : ℚ) (exchange : String)
    (reply : Reply) (x : World × DayValues) :
    note cfg inCycle (.place side code quantity price exchange) reply x =
      if (serve (.place side code quantity price exchange) reply x.1).1 = .untradable then
        afterRefusal side code x.2
      else x.2 := by
  cases side <;> cases ho : reply.outcome <;>
    simp [serve, World.answer, note, endsCycle, afterRefusal, ho]

theorem follows_confirmAccepted (side : Side) (code : Code) (quantity : ℕ) (price : ℚ)
    (avgPrice : Option ℚ) {confirmed : Time → ℤ → Engine → Engine × TradeRow} (qtyBefore : ℤ)
    (orderNo : ℕ) (hconfirmed : ∀ filled, Counts cfg fun now => confirmed now filled) :
    Follows cfg inCycle restored rely site
      (confirmAccepted cfg side code quantity price avgPrice confirmed qtyBefore orderNo) := by
  refine (follows_update unread_invalidateBalanceCache).bind fun _ => ?_
  refine (follows_confirmFill hsite code side qtyBefore 3 rfl).bind fun filled => ?_
  split
  · exact kept_get.bind fun w => follows_update fun _ => ⟨rfl, rfl⟩
  · refine (follows_book hsite (hconfirmed filled)).bind fun _ => ?_
    split
    · exact (follows_getBalance hsite false rfl).bind fun _ => kept_pure _
    · exact kept_pure _

theorem follows_placeAndConfirm (side : Side) (code : Code) (quantity : ℕ) (price : ℚ)
    (avgPrice : Option ℚ) (fallback : ℤ) {onUntradable : Engine → Engine}
    {confirmed : Time → ℤ → Engine → Engine × TradeRow}
    (hun : ∀ e, read (onUntradable e) = afterRefusal side code (read e) ∧
      (onUntradable e).riskStateRestored = e.riskStateRestored)
    (hconfirmed : ∀ filled, Counts cfg fun now => confirmed now filled) :
    Follows cfg inCycle restored rely site (placeAndConfirm cfg side code quantity price avgPrice
      fallback onUntradable confirmed) := by
  have hsnapshot : Follows cfg inCycle restored rely site
      (snapshotQuantity cfg side code quantity fallback) := by
    refine (follows_holdingQuantity hsite code false rfl).bind fun r => ?_
    cases r <;> exact kept_pure _
  refine hsnapshot.bind fun qtyBefore => kept_get.bind fun w => ?_
  intro x hx
  rw [wp_instrument_bind, wp_instrument_ask]
  refine ⟨hsite _ _ hx.1, fun reply _ => ?_⟩
  have hserved := silent_level.wait
    (.place side code quantity price (exchangeOf cfg w.engine code)) reply x hx
  rw [note_place]
  split <;> rename_i hplaced
  · obtain ⟨hread, hkept⟩ := hun (serve (.place side code quantity price
      (exchangeOf cfg w.engine code)) reply x.1).2.engine
    rw [if_pos hplaced]
    exact ⟨hread.trans (congrArg _ hserved.1), hkept.trans hserved.2⟩
  · rw [if_neg (by simp [hplaced])]
    exact follows_update unread_invalidateBalanceCache _ hserved
  · rw [if_neg (by simp [hplaced])]
    exact follows_confirmAccepted hsite side code quantity price avgPrice qtyBefore _ hconfirmed _
      hserved

theorem follows_submitOrder (side : Side) (code : Code) (quantity : ℕ) (price : ℚ)
    (avgPrice : Option ℚ) (fallback : ℤ) {onUntradable : Engine → Engine}
    {confirmed : Time → ℤ → Engine → Engine × TradeRow}
    (hun : ∀ e, read (onUntradable e) = afterRefusal side code (read e) ∧
      (onUntradable e).riskStateRestored = e.riskStateRestored)
    (hconfirmed : ∀ filled, Counts cfg fun now => confirmed now filled) :
    Follows cfg inCycle restored rely site (submitOrder cfg side code quantity price avgPrice
      fallback onUntradable confirmed) := by
  have hhealth : Follows cfg inCycle restored rely site (dbUnavailable cfg) := by
    unfold dbUnavailable
    split
    · exact (follows_ask hsite rfl).bind fun _ => kept_pure _
    · exact kept_pure _
  refine (follows_suppressOrReplacePending hsite code).bind fun suppressed => ?_
  split
  · exact kept_pure _
  · refine hhealth.bind fun unavailable => ?_
    split
    · exact kept_pure _
    · exact follows_placeAndConfirm hsite side code quantity price avgPrice fallback hun hconfirmed

theorem follows_executeBuy (code : Code) (quantity : ℕ) (price : ℚ) :
    Follows cfg inCycle restored rely site (executeBuy cfg code quantity price) := by
  have hblocked : Follows cfg inCycle restored rely site (buyBlocked cfg code price) := by
    refine kept_get.bind fun w => ?_
    split
    · exact kept_pure _
    · split
      · exact kept_pure _
      · refine (follows_ask hsite rfl).bind fun blocked => ?_
        split
        · exact kept_pure _
        · exact follows_ask hsite rfl
  refine hblocked.bind fun blocked => ?_
  split
  · exact kept_pure _
  · apply follows_submitOrder hsite
    · exact fun _ => ⟨rfl, rfl⟩
    · exact fun filled => counts_buyConfirmed cfg code filled price

theorem follows_processHeldStock (price : ℚ) (h : Holding) (signal : Signal) :
    Follows cfg inCycle restored rely site (processHeldStock cfg price h signal) := by
  unfold processHeldStock
  split
  · exact kept_pure _
  · refine kept_get.bind fun w => ?_
    dsimp only
    refine (follows_update (unread_observeHeld _ _ _ _)).bind fun _ => ?_
    refine (follows_logEntry _).bind fun _ => kept_get.bind fun v => ?_
    split
    · exact kept_pure _
    · rename_i reason _
      refine (follows_logEntry _).bind fun _ => ?_
      apply follows_submitOrder hsite
      · exact fun _ => ⟨rfl, rfl⟩
      · exact fun filled => counts_sellConfirmed cfg h.stockCode filled price reason _

theorem follows_cycleTargets (buyLimitReached : Bool) (b : Balance) :
    Follows cfg inCycle restored rely site (cycleTargets buyLimitReached b) := by
  unfold cycleTargets
  split
  · exact kept_pure _
  · refine kept_get.bind fun w => (follows_ask hsite rfl).bind fun held => ?_
    exact (follows_ask hsite rfl).bind fun screened => kept_pure _

/-! ### A cycle -/

/-- A daily-limit error is in the values of the day before the engine has taken note of it. -/
def UpToLimit {β : Type} (restored : Bool) (a : Except CallError β) (x : World × DayValues) : Prop :=
  match a with
  | .error .dailyLimit => Level restored (onEngine setDailyLimitReached x.1, x.2)
  | _ => Level restored x

omit hsite in
theorem upToLimit_serve {r : Req} (hr : endsCycle true r = true) {β : Type}
    {a : Except CallError β} {reply : Reply}
    (ha : a = .error .dailyLimit ↔ reply.outcome = .dailyLimit) {x : World × DayValues}
    (hx : Level restored x) :
    UpToLimit restored a ((serve r reply x.1).2, note cfg true r reply x) := by
  have hnote : note cfg true r reply x =
      if reply.outcome = .dailyLimit then x.2.reachLimit else x.2 := by
    cases r <;> simp [endsCycle] at hr <;> simp [note, endsCycle, hr]
  have hserved := silent_level.wait r reply x hx
  rw [hnote]
  unfold UpToLimit
  split
  · rw [if_pos (ha.mp rfl)]
    exact ⟨congrArg DayValues.reachLimit hserved.1, hserved.2⟩
  · rename_i hother
    rw [if_neg fun hlimit => hother (ha.mpr hlimit)]
    exact hserved

theorem fetchDaily_upToLimit (code : Code) {x : World × DayValues} (hx : Level restored x) :
    wp (serveNoted serve (note cfg true)) rely site (instrument DayValues (fetchDaily code))
      (UpToLimit restored) x := by
  rw [wp_instrument_ask]
  refine ⟨hsite _ _ hx.1, fun reply _ => upToLimit_serve rfl ?_ hx⟩
  cases ho : reply.outcome <;> simp [serve, World.answer, Outcome.error, ho]

theorem getCurrent_upToLimit (code : Code) (evaluated : Option Holding) {x : World × DayValues}
    (hx : Level restored x) :
    wp (serveNoted serve (note cfg true)) rely site
      (instrument DayValues (getCurrent code evaluated)) (UpToLimit restored) x := by
  rw [wp_instrument_ask]
  refine ⟨hsite _ _ hx.1, fun reply _ => upToLimit_serve rfl ?_ hx⟩
  cases ho : reply.outcome <;> simp [serve, World.answer, Outcome.error, ho]

theorem getBalance_upToLimit {x : World × DayValues} (hx : Level restored x) :
    wp (serveNoted serve (note cfg true)) rely site
      (instrument DayValues (getBalance cfg .cycle false)) (UpToLimit restored) x := by
  simp only [getBalance, wp_instrument_bind, wp_instrument_get]
  split
  · exact hx
  · simp only [wp_instrument_bind, wp_instrument_ask]
    refine ⟨hsite _ _ hx.1, fun reply _ => ?_⟩
    have hread : UpToLimit restored (serve (.balance .cycle) reply x.1).1
        ((serve (.balance .cycle) reply x.1).2, note cfg true (.balance .cycle) reply x) := by
      refine upToLimit_serve rfl ?_ hx
      cases ho : reply.outcome <;> simp [serve, World.answer, Outcome.error, ho]
    split
    · rename_i e he
      rwa [he] at hread
    · rename_i b hb
      rw [hb] at hread
      simp only [wp_instrument_bind, wp_instrument_modify]
      exact hread

theorem processBuySignal_upToLimit (code : Code) (deposit price : ℚ) (signal : Signal)
    {x : World × DayValues} (hx : Level restored x) :
    wp (serveNoted serve (note cfg true)) rely site
      (instrument DayValues (processBuySignal cfg code deposit price signal))
      (UpToLimit restored) x := by
  simp only [processBuySignal, wp_instrument_bind, wp_instrument_get]
  split
  · exact hx
  · split
    · exact hx
    · split
      · exact hx
      · simp only [wp_instrument_bind]
        refine wp_mono (follows_ask hsite (r := .buyable code price) rfl x hx) fun buyable y hy => ?_
        split
        · exact hy
        · simp only [wp_instrument_bind]
          exact wp_mono (follows_executeBuy hsite code _ price y hy) fun _ _ hz => hz

theorem processStock_upToLimit (code : Code) (deposit : ℚ) (holding : Option Holding)
    {x : World × DayValues} (hx : Level restored x) :
    wp (serveNoted serve (note cfg true)) rely site
      (instrument DayValues (processStock cfg code deposit holding)) (UpToLimit restored) x := by
  simp only [processStock, wp_instrument_bind]
  refine wp_mono (fetchDaily_upToLimit hsite code hx) fun daily y hy => ?_
  split
  · rename_i e
    cases e <;> exact hy
  · split
    · rename_i h
      simp only [evaluateHeldWithoutDaily, wp_instrument_bind]
      refine wp_mono (getCurrent_upToLimit hsite h.stockCode (some h) hy) fun quote z hz => ?_
      split
      · rename_i e
        cases e <;> exact hz
      · simp only [wp_instrument_bind]
        exact wp_mono (follows_processHeldStock hsite _ h holdSignal z hz) fun _ _ hv => hv
    · exact hy
  · simp only [wp_instrument_bind]
    refine wp_mono (getCurrent_upToLimit hsite code none hy) fun quote z hz => ?_
    split
    · rename_i e
      cases e <;> exact hz
    · simp only [wp_instrument_bind]
      refine wp_mono (follows_ask hsite (r := .analyze code holding) rfl z hz)
        fun analysis v hv => ?_
      split
      · exact hv
      · split
        · rename_i h
          simp only [wp_instrument_bind]
          exact wp_mono (follows_processHeldStock hsite _ h _ v hv) fun _ _ hu => hu
        · split
          · exact processBuySignal_upToLimit hsite code deposit _ _ hv
          · exact hv

theorem follows_processTargets (b : Balance) (codes : List Code) :
    Follows cfg true restored rely site (processTargets cfg b codes) := by
  induction codes with
  | nil => exact kept_pure _
  | cons code codes ih =>
    refine kept_get.bind fun w => ?_
    split
    · exact kept_pure _
    · intro x hx
      rw [wp_instrument_bind]
      refine wp_mono (processStock_upToLimit hsite code b.deposit (findHolding b code) hx)
        fun r y hy => ?_
      split
      · exact hy
      · rename_i hother
        refine ih y ?_
        unfold UpToLimit at hy
        split at hy
        · exact absurd rfl hother
        · exact hy

theorem follows_visit (limit : Bool) :
    Follows cfg true restored rely site (do
      match ← getBalance cfg .cycle false with
      | .error .dailyLimit => modify (onEngine setDailyLimitReached)
      | .error .failed => pure ()
      | .ok b => do
          let targets ← cycleTargets limit b
          processTargets cfg b targets) := by
  intro x hx
  rw [wp_instrument_bind]
  refine wp_mono (getBalance_upToLimit hsite hx) fun r y hy => ?_
  split
  · exact hy
  · exact hy
  · exact ((follows_cycleTargets hsite limit _).bind
      fun targets => follows_processTargets hsite _ targets) y hy

theorem follows_cycleBody : Follows cfg true restored rely site (cycleBody cfg) := by
  have hcleanup : Follows cfg true restored rely site (cleanupStalePendingOrders cfg) :=
    kept_get.bind fun w => follows_cancelEach hsite _
  refine hcleanup.bind fun _ => kept_get.bind fun w => ?_
  dsimp only
  split
  · exact (silent_level.screenStocks hsite).bind fun _ => follows_visit hsite _
  · exact follows_visit hsite _

theorem follows_postMarket : Follows cfg false restored rely site (postMarket cfg) := by
  have hcancel : Follows cfg false restored rely site (cancelAllPendingOrders cfg) :=
    kept_get.bind fun w => follows_cancelEach hsite _
  refine hcancel.bind fun _ => (follows_getBalance hsite true rfl).bind fun r => ?_
  split
  · exact kept_pure _
  · refine (follows_ask hsite rfl).bind fun executed => ?_
    split
    · exact kept_get.bind fun w => follows_ask hsite rfl
    · exact kept_pure _

omit hsite in
/-- After `pre_market` nothing is left of the days before. -/
theorem preMarket_level {x : World × DayValues} (hx : x.2 = {}) :
    wp (serveNoted serve (note cfg false)) rely (fun _ _ => True)
      (instrument DayValues (preMarket cfg)) (fun _ y => Level true y ∧ y.2 = {}) x := by
  have hsilent : Silent fun y => Level x.1.engine.riskStateRestored y ∧ y.2 = {} :=
    silent_levelAt {}
  have hfollow : ∀ r y, AtCall cfg r y → True := fun _ _ _ => trivial
  have hmark : ∀ y, Level x.1.engine.riskStateRestored y ∧ y.2 = {} →
      Level true (onEngine markRestored y.1, y.2) ∧ y.2 = {} := fun y hy => ⟨⟨hy.1.1, rfl⟩, hy.2⟩
  simp only [preMarket, wp_instrument_bind]
  rw [wp_instrument_ask]
  refine ⟨trivial, fun reply _ => ?_⟩
  simp only [wp_instrument_bind, wp_instrument_modify]
  have hreset : Level x.1.engine.riskStateRestored
      (onEngine (resetDay (serve .loadPeaks reply x.1).1) (serve .loadPeaks reply x.1).2, x.2) := by
    refine ⟨hx.symm, ?_⟩
    simp [resetDay]
  refine wp_mono (hsilent.ask hfollow (r := .accessToken) rfl _ ⟨hreset, hx⟩) fun token y hy => ?_
  split
  · simp only [wp_instrument_bind]
    refine wp_mono (hsilent.getBalance hfollow true rfl y hy) fun r z hz => ?_
    split
    · exact hmark z hz
    · simp only [wp_instrument_bind]
      refine wp_mono (hsilent.ask hfollow (r := .prefetch) rfl z hz) fun ready v hv => ?_
      split
      · simp only [wp_instrument_bind]
        exact wp_mono (hsilent.screenStocks hfollow v hv) fun _ u hu => hmark u hu
      · exact hmark v hv
  · exact hmark y hy

/-- The cycle behind its kill switch. -/
theorem runTradingCycle_level {x : World × DayValues} (hrunning : x.1.haltFile = false)
    (hrestore : wp (serveNoted serve (note cfg true)) rely site
      (instrument DayValues (restoreRiskStateIfNeeded cfg)) (fun _ => Level true)
      (onEngine (setKillSwitchLogged false) (onEngine beginCycle x.1), x.2)) :
    wp (serveNoted serve (note cfg true)) rely site (instrument DayValues (runTradingCycle cfg))
      (fun _ => Level true) x := by
  have hhalt : (onEngine beginCycle x.1).haltFile = false := hrunning
  simp only [runTradingCycle, wp_instrument_bind, wp_instrument_modify, wp_instrument_get, hhalt,
    Bool.false_eq_true, if_false]
  refine wp_mono hrestore fun _ y hy => ?_
  simp only [wp_instrument_bind, wp_instrument_get]
  split
  · exact hy
  · split
    · exact hy
    · exact follows_cycleBody hsite y hy

omit hsite in
/-- A process that has restored its state does not do so again. -/
theorem restore_again {x : World × DayValues} (hx : Level true x) :
    wp (serveNoted serve (note cfg true)) rely site
      (instrument DayValues (restoreRiskStateIfNeeded cfg)) (fun _ => Level true) x := by
  simpa [restoreRiskStateIfNeeded, hx.2] using hx

omit hsite in
/-- Gates and risk state rebuilt from the day's rows have the values of the rows. -/
theorem level_restored (cfg : Settings) (w : World) {v : World} (hempty : read v.engine = {})
    (hrestored : v.engine.riskStateRestored = true) :
    Level true (onEngine (restoreRisk cfg (rowsToday cfg w))
      (onEngine (restoreGates (cfg.clock.date w.clock) (rowsToday cfg w)) v),
      ({} : DayValues).addTrades cfg (rowsToday cfg w)) := by
  refine ⟨read_restoreRisk cfg _ (List.pairwise_insertionSort _ _) hempty, ?_⟩
  obtain ⟨_, _, _, hrest⟩ :=
    restoreGates_eq (cfg.clock.date w.clock) (rowsToday cfg w) v.engine
  rw [onEngine_engine, restoreRisk, onEngine_engine, hrest]
  exact hrestored

/-- A new process takes over the values of the day's rows. -/
theorem restore_new (hrely : ∀ r reply y, rely r reply y → Rebuilds cfg r reply y.1)
    {x : World × DayValues} (hx : x.2 = {}) (hnew : Level false x) :
    wp (serveNoted serve (note cfg true)) rely site
      (instrument DayValues (restoreRiskStateIfNeeded cfg)) (fun _ => Level true) x := by
  have hmark : Level true (onEngine markRestored x.1, x.2) := ⟨hnew.1, rfl⟩
  simp only [restoreRiskStateIfNeeded, wp_instrument_bind, wp_instrument_get, hnew.2,
    Bool.false_eq_true, if_false, wp_instrument_modify, wp_instrument_ask]
  refine ⟨hsite _ _ hmark.1, fun reply hreply => ?_⟩
  have hrebuilds : rowsToday cfg x.1 = [] ∨
      reply.outcome = .ok ∧ sellResults (rowsToday cfg x.1) ≠ [] := hrely _ _ _ hreply
  have hserved := silent_level.wait .loadTrades reply _ hmark
  have hempty : read (serve .loadTrades reply (onEngine markRestored x.1)).2.engine = {} :=
    hserved.1.trans hx
  have hnote : note cfg true .loadTrades reply (onEngine markRestored x.1, x.2) =
      ({} : DayValues).addTrades cfg (rowsToday cfg x.1) :=
    congrArg (DayValues.addTrades cfg (rowsToday cfg x.1)) hx
  rw [hnote]
  split
  · rename_i hfailed
    have hnone : rowsToday cfg x.1 = [] := by
      refine hrebuilds.resolve_right fun h => ?_
      simp [serve, World.answer, h.1] at hfailed
    rw [hnone]
    exact ⟨hempty, hserved.2⟩
  · rename_i rows hrows
    obtain ⟨-, rfl⟩ : reply.outcome = .ok ∧ x.1.trades = rows := by
      simpa [serve, World.answer] using hrows
    have hgates := read_restoreGates cfg (cfg.clock.date x.1.clock) (rowsToday cfg x.1) hempty
    simp only [wp_instrument_bind, wp_instrument_modify]
    change wp _ _ _ (instrument _ (if sellResults (rowsToday cfg x.1) = [] then pure () else _)) _
      (onEngine (restoreGates _ (rowsToday cfg x.1)) _, _)
    split
    · rename_i hsells
      have hnone : rowsToday cfg x.1 = [] := hrebuilds.resolve_right fun h => h.2 hsells
      rw [hnone] at hgates ⊢
      exact ⟨hgates, hserved.2⟩
    · have hafter := level_restored cfg x.1 hempty hserved.2
      simp only [wp_instrument_bind, wp_instrument_modify]
      exact wp_mono (follows_ask hsite (r := .loadPeaks) rfl _ hafter) fun peaks y hy => hy

end Procedures

end KisAutotrader.DayRollover
