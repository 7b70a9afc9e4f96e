import KisAutotrader.Engine

/-! Balance reads, fill confirmation, the pending-order registry, and the order
paths `_execute_buy` and `_execute_sell`. A stock has at most one pending order. -/
namespace KisAutotrader.OrderExecution
open OrderedDict Coroutine

def balanceCacheTTL : Time := 60 * second

/-- The cached balance, while it is younger than its time to live. -/
def freshCache (w : World) : Option Balance :=
  match w.engine.balanceCache with
  | some (cachedTime, cachedBalance) =>
      if (w.clock : ℤ) - cachedTime < balanceCacheTTL then some cachedBalance else none
  | none => none

theorem freshCache_some {w : World} {b : Balance} (h : freshCache w = some b) :
    ∃ t, w.engine.balanceCache = some (t, b) := by
  unfold freshCache at h
  split at h
  · rename_i t c hc
    split_ifs at h
    exact ⟨t, by rw [hc, ← Option.some.inj h]⟩
  · contradiction

/-- A stored balance also seeds the order exchanges of the overseas holdings. -/
def storeBalance (cfg : Settings) (now : Time) (b : Balance) (e : Engine) : Engine :=
  { e with
    balanceCache := some (now, b)
    exchanges := if cfg.market.isOverseas then
        b.holdings.foldl (fun d h => d.set h.stockCode h.exchange) e.exchanges
      else e.exchanges }

def getBalance (cfg : Settings) (site : Site) (force : Bool) :
    EngineM (Except CallError Balance) := do
  let w ← get
  match if force then none else freshCache w with
  | some cachedBalance => pure (.ok cachedBalance)
  | none =>
      match ← inquireBalance site with
      | .error e => pure (.error e)
      | .ok b => do
          modify (onEngine (storeBalance cfg w.clock b))
          pure (.ok b)

def invalidateBalanceCache (e : Engine) : Engine := { e with balanceCache := none }

def holdingQuantity (cfg : Settings) (site : Site) (code : Code) (force : Bool) :
    EngineM (Except CallError ℤ) := do
  match ← getBalance cfg site force with
  | .error e => pure (.error e)
  | .ok b => pure (.ok (b.quantityOf code))

/-- The filled quantity a later holding shows: gained by a buy, lost by a sell. -/
def filledBy (side : Side) (qtyBefore qtyAfter : ℤ) : ℤ :=
  match side with
  | .buy => qtyAfter - qtyBefore
  | .sell => qtyBefore - qtyAfter

/-- `_confirm_fill`: poll the holding until it moves. A failed poll counts as unmoved. -/
def confirmFill (cfg : Settings) (site : Site) (code : Code) (side : Side) (qtyBefore : ℤ) :
    ℕ → EngineM ℤ
  | 0 => pure 0
  | retries+1 => do
      let r ← holdingQuantity cfg site code true
      let qtyAfter : ℤ := match r with
        | .ok q => q
        | .error _ => qtyBefore
      let filled := filledBy side qtyBefore qtyAfter
      if 0 < filled then pure filled
      else confirmFill cfg site code side qtyBefore retries

/-- `_exchange_of`: the mapped exchange, else the first one; empty for the home market. -/
def exchangeOf (cfg : Settings) (e : Engine) (code : Code) : String :=
  if cfg.market.isOverseas then
    match (e.exchanges.get? code).filter (· ≠ "") with
    | some exc => exc
    | none => cfg.market.exchanges.headD ""
  else ""

def reconcileSellReason (reason : Option SellReason) (pct : ℚ) : Option SellReason :=
  if reason = some .stopLoss ∧ 0 < pct then some .takeProfit
  else if reason = some .takeProfit ∧ pct < 0 then some .stopLoss
  else reason

/-- Realised percentage and normalised amount of a sale with a known average price. -/
def realised (cfg : Settings) (side : Side) (quantity : ℤ) (p : ℚ) (avgPrice : Option ℚ) :
    Option (ℚ × ℚ) :=
  match side with
  | .buy => none
  | .sell => (avgPrice.filter (0 < ·)).map fun avg =>
      ((p - avg) / avg * 100, normPrice cfg.market.pricePrecision ((p - avg) * quantity))

/-- The risk bookkeeping of a realised amount. -/
def bookProfitLoss (cfg : Settings) (now : Time) (code : Code) (amount : ℚ) (e : Engine) : Engine :=
  { e with
    risk := e.risk.recordTradeResult cfg.limits amount
    lossSellDates := if amount < 0 then e.lossSellDates.set code (cfg.clock.date now)
      else e.lossSellDates }

def bookRealised (cfg : Settings) (now : Time) (code : Code) (pl : Option (ℚ × ℚ)) (e : Engine) :
    Engine :=
  match pl with
  | none => e
  | some x => bookProfitLoss cfg now code x.2 e

def sellReasonRow (side : Side) (reason : String) (pl : Option (ℚ × ℚ)) : Option SellReason :=
  match side with
  | .buy => none
  | .sell => match pl with
      | none => sellReasonOf reason
      | some x => reconcileSellReason (sellReasonOf reason) x.1

/-- `_record_trade_to_db` up to its queue write: the engine's books and the row. -/
def recordTrade (cfg : Settings) (now : Time) (code : Code) (side : Side) (quantity : ℤ)
    (price : ℚ) (reason : String) (avgPrice : Option ℚ) (e : Engine) : Engine × TradeRow :=
  let p := normPrice cfg.market.pricePrecision price
  let pl := realised cfg side quantity p avgPrice
  (bookRealised cfg now code pl e,
    { stockCode := code, tradeType := side, quantity, price := p, totalAmount := p * quantity,
      tradedAt := now, cycleNumber := e.cycleCount, sellReason := sellReasonRow side reason pl,
      profitLossPct := pl.map Prod.fst, profitLossAmount := pl.map Prod.snd })

def bumpBuys (code : Code) (e : Engine) : Engine :=
  { e with todayBuysPerStock :=
      e.todayBuysPerStock.set code ((e.todayBuysPerStock.get? code).getD 0 + 1) }

/-- The counters and registries a confirmed order of either side updates. -/
def settlePending (code : Code) (e : Engine) : Engine :=
  { e with todayTradeCount := e.todayTradeCount + 1, pendingOrders := e.pendingOrders.pop code }

def dropPeak (code : Code) (e : Engine) : Engine := { e with peakPrices := e.peakPrices.pop code }

/-- The confirmed branch of `_execute_buy`. -/
def buyConfirmed (cfg : Settings) (now : Time) (code : Code) (filled : ℤ) (price : ℚ)
    (e : Engine) : Engine × TradeRow :=
  recordTrade cfg now code .buy filled (normPrice cfg.market.pricePrecision price) "" none
    (dropPeak code (bumpBuys code (settlePending code e)))

/-- The confirmed branch of `_execute_sell`: the exit bookkeeping of a closed position. -/
def sellConfirmed (cfg : Settings) (now : Time) (code : Code) (filled : ℤ) (price : ℚ)
    (reason : String) (avgPrice : Option ℚ) (e : Engine) : Engine × TradeRow :=
  let (e, row) := recordTrade cfg now code .sell filled
    (normPrice cfg.market.pricePrecision price) reason avgPrice (settlePending code e)
  let e := dropPeak code e
  ({ e with heldSince := e.heldSince.pop code, lastSellAt := e.lastSellAt.set code now }, row)

/-- The recovering branch of `_reconcile_orphan_fill`. -/
def orphanConfirmed (cfg : Settings) (now : Time) (code : Code) (pending : PendingOrder)
    (filled : ℤ) (e : Engine) : Engine × TradeRow :=
  let price := normPrice cfg.market.pricePrecision pending.price
  let e := settlePending code e
  match pending.side with
  | .buy => recordTrade cfg now code .buy filled price "" none (dropPeak code (bumpBuys code e))
  | .sell => recordTrade cfg now code .sell filled price "" pending.avgPrice (dropPeak code e)

/-- The world after a booking at the current instant, before its row is queued. -/
def applyBooking (f : Time → Engine → Engine × TradeRow) (w : World) : World :=
  let r := f w.clock w.engine
  logEntry (.booked r.2.stockCode r.2.tradeType) (onEngine (fun _ => r.1) w)

/-- Apply a booking and hand its row to the queue. -/
def book (f : Time → Engine → Engine × TradeRow) : EngineM Unit := do
  let w ← get
  modify (applyBooking f)
  enqueueTrade (f w.clock w.engine).2

section
variable (f : Time → Engine → Engine × TradeRow) (w : World)

@[simp] theorem applyBooking_engine : (applyBooking f w).engine = (f w.clock w.engine).1 := rfl
@[simp] theorem applyBooking_broker : (applyBooking f w).broker = w.broker := rfl
@[simp] theorem applyBooking_clock : (applyBooking f w).clock = w.clock := rfl
@[simp] theorem applyBooking_trades : (applyBooking f w).trades = w.trades := rfl
@[simp] theorem applyBooking_untradable : (applyBooking f w).untradable = w.untradable := rfl
@[simp] theorem applyBooking_log : (applyBooking f w).log =
    w.log ++ [.booked (f w.clock w.engine).2.stockCode (f w.clock w.engine).2.tradeType] := rfl

end

def reconcileOrphanFill (cfg : Settings) (code : Code) (pending : PendingOrder) :
    EngineM Bool := do
  let filled ← confirmFill cfg (.reconcile code pending.side pending.qtyBefore) code
    pending.side pending.qtyBefore 1
  if filled ≤ 0 then pure false
  else do
    book fun now => orphanConfirmed cfg now code pending filled
    pure true

def popPending (code : Code) (e : Engine) : Engine :=
  { e with pendingOrders := e.pendingOrders.pop code }

/-- `_cancel_pending_order`; its `finally` drops the order whatever the cancel call did. -/
def cancelPendingOrder (cfg : Settings) (code : Code) (pending : PendingOrder) : EngineM Unit := do
  let recovered ← if cfg.reconcileOrphanFills then reconcileOrphanFill cfg code pending
    else pure false
  if recovered then pure ()
  else do
    let w ← get
    let _ ← cancelOrder code pending.orderNo pending.quantity (exchangeOf cfg w.engine code)
    modify (onEngine (popPending code))

def age (e : Engine) (pending : PendingOrder) : ℤ := e.cycleCount - pending.placedCycle

/-- `_suppress_or_replace_pending`: true asks the caller not to order. -/
def suppressOrReplacePending (cfg : Settings) (code : Code) : EngineM Bool := do
  let w ← get
  match w.engine.pendingOrders.get? code with
  | none => pure false
  | some pending =>
      if age w.engine pending < cfg.orderPendingTimeoutCycles then pure true
      else do
        cancelPendingOrder cfg code pending
        pure false

def isStale (cfg : Settings) (e : Engine) (pending : PendingOrder) : Bool :=
  decide (age e pending ≥ cfg.orderPendingTimeoutCycles)

def cleanupStalePendingOrders (cfg : Settings) : EngineM Unit := do
  let w ← get
  each (fun x => cancelPendingOrder cfg x.1 x.2)
    (w.engine.pendingOrders.items.filter fun x => isStale cfg w.engine x.2)

def cancelAllPendingOrders (cfg : Settings) : EngineM Unit := do
  let w ← get
  each (fun x => cancelPendingOrder cfg x.1 x.2) w.engine.pendingOrders.items

def trackPending (code : Code) (pending : PendingOrder) (e : Engine) : Engine :=
  { e with pendingOrders := e.pendingOrders.set code pending }

/-- The holding before an order, from the cache when it is fresh. -/
def snapshotQuantity (cfg : Settings) (side : Side) (code : Code) (quantity : ℕ) (fallback : ℤ) :
    EngineM ℤ := do
  match ← holdingQuantity cfg (.snapshot code side quantity) code false with
  | .ok q => pure q
  | .error _ => pure fallback

/-- The part of both order paths that follows the acceptance of the order. -/
def confirmAccepted (cfg : Settings) (side : Side) (code : Code) (quantity : ℕ) (price : ℚ)
    (avgPrice : Option ℚ) (confirmed : Time → ℤ → Engine → Engine × TradeRow) (qtyBefore : ℤ)
    (orderNo : ℕ) : EngineM Unit := do
  modify (onEngine invalidateBalanceCache)
  let filled ← confirmFill cfg (.confirm code side qtyBefore) code side qtyBefore 3
  if filled ≤ 0 then do
    let w ← get
    modify (onEngine (trackPending code {
      orderNo, side, quantity, placedCycle := w.engine.cycleCount, qtyBefore,
      price := normPrice cfg.market.pricePrecision price, avgPrice,
      exchange := exchangeOf cfg w.engine code }))
  else do
    book fun now => confirmed now filled
    -- `_holding_avg_price` after a new entry reads the balance once more
    if side = .buy ∧ qtyBefore = 0 then do
      let _ ← getBalance cfg (.slippage code) false
      pure ()
    else pure ()

/-- Order, confirm and book: what both order paths do once their checks have passed. -/
def placeAndConfirm (cfg : Settings) (side : Side) (code : Code) (quantity : ℕ) (price : ℚ)
    (avgPrice : Option ℚ) (fallback : ℤ) (onUntradable : Engine → Engine)
    (confirmed : Time → ℤ → Engine → Engine × TradeRow) : EngineM Unit := do
  let qtyBefore ← snapshotQuantity cfg side code quantity fallback
  let w ← get
  match ← placeOrder side code quantity price (exchangeOf cfg w.engine code) with
  | .untradable => modify (onEngine onUntradable)
  | .raised => modify (onEngine invalidateBalanceCache)
  | .accepted orderNo =>
      confirmAccepted cfg side code quantity price avgPrice confirmed qtyBefore orderNo

def markUntradable (code : Code) (e : Engine) : Engine :=
  { e with untradableToday := code :: e.untradableToday }

/-- The health check before an order, where it is configured. -/
def dbUnavailable (cfg : Settings) : EngineM Bool :=
  if cfg.dbPrecheckBeforeOrder then do
    let healthy ← dbHealthcheck
    pure !healthy
  else pure false

/-- Duplicate suppression and health check, then the order itself. -/
def submitOrder (cfg : Settings) (side : Side) (code : Code) (quantity : ℕ) (price : ℚ)
    (avgPrice : Option ℚ) (fallback : ℤ) (onUntradable : Engine → Engine)
    (confirmed : Time → ℤ → Engine → Engine × TradeRow) : EngineM Unit := do
  if ← suppressOrReplacePending cfg code then pure ()
  else if ← dbUnavailable cfg then pure ()
  else placeAndConfirm cfg side code quantity price avgPrice fallback onUntradable confirmed

/-- The checks of `_execute_buy` that come before duplicate suppression. -/
def buyBlocked (cfg : Settings) (code : Code) (price : ℚ) : EngineM Bool := do
  let w ← get
  if code ∈ w.engine.untradableToday then pure true
  else if price ≤ 0 ∨ price < cfg.minPrice then pure true
  else if ← checkMarketActionBlock code then pure true
  else checkDisclosureRiskBlock code

def executeBuy (cfg : Settings) (code : Code) (quantity : ℕ) (price : ℚ) : EngineM Unit := do
  if ← buyBlocked cfg code price then pure ()
  else
    submitOrder cfg .buy code quantity price none 0 (markUntradable code)
      fun now filled => buyConfirmed cfg now code filled price

def executeSell (cfg : Settings) (code : Code) (quantity : ℕ) (price : ℚ) (reason : String)
    (avgPrice : Option ℚ) : EngineM Unit :=
  submitOrder cfg .sell code quantity price avgPrice quantity invalidateBalanceCache
    fun now filled => sellConfirmed cfg now code filled price reason avgPrice

/-- The engine's order operations, and the passage of time between them. -/
inductive OrderOp where
  | idle
  | newCycle
  | buy (code : Code) (quantity : ℕ) (price : ℚ)
  | sell (code : Code) (quantity : ℕ) (price : ℚ) (reason : String) (avgPrice : Option ℚ)
  | cleanupStale
  | cancelAll

def perform (cfg : Settings) : OrderOp → EngineM Unit
  | .idle => ask Req.idle
  | .newCycle => modify (onEngine fun e => { e with cycleCount := e.cycleCount + 1 })
  | .buy code quantity price => executeBuy cfg code quantity price
  | .sell code quantity price reason avgPrice => executeSell cfg code quantity price reason avgPrice
  | .cleanupStale => cleanupStalePendingOrders cfg
  | .cancelAll => cancelAllPendingOrders cfg

/-- A fixed configuration and an account without positions, for concrete runs. -/
def paperSettings : Settings := { clock := ⟨fun _ => 0, fun _ => 10, fun _ => 0⟩ }

def paperWorld : World := { broker := ⟨1000000, .empty, [], 0, 0⟩ }

end KisAutotrader.OrderExecution
