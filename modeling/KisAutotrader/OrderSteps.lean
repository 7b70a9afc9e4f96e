import KisAutotrader.TradingCycle
import KisAutotrader.Instrumentation

/-!
# The order procedures beside an auxiliary state

What the procedures around an order keep, from what their calls, updates and bookings keep.
The orders themselves are left to the caller.
-/
namespace KisAutotrader.OrderSteps
open OrderedDict Coroutine OrderExecution Screening StockProcessing TradingCycle

/-- An update that leaves the risk state alone and at most drops the cached balance. -/
def Plain (f : Engine → Engine) : Prop :=
  ∀ e, (f e).riskStateRestored = e.riskStateRestored ∧ (f e).risk = e.risk ∧
    ((f e).balanceCache = e.balanceCache ∨ (f e).balanceCache = none)

theorem plain_of_same {f : Engine → Engine} (h : ∀ e, (f e).riskStateRestored = e.riskStateRestored ∧
    (f e).risk = e.risk ∧ (f e).balanceCache = e.balanceCache) : Plain f :=
  fun e => ⟨(h e).1, (h e).2.1, Or.inl (h e).2.2⟩

theorem plain_invalidate : Plain invalidateBalanceCache := fun _ => ⟨rfl, rfl, Or.inr rfl⟩

/-- The three ways a fill is booked. -/
inductive Booking (cfg : Settings) : (Time → Engine → Engine × TradeRow) → Prop
  | buy (code : Code) (filled : ℤ) (price : ℚ) :
      Booking cfg fun now => buyConfirmed cfg now code filled price
  | sell (code : Code) (filled : ℤ) (price : ℚ) (reason : String) (avgPrice : Option ℚ) :
      Booking cfg fun now => sellConfirmed cfg now code filled price reason avgPrice
  | orphan (code : Code) (pending : PendingOrder) (filled : ℤ) :
      Booking cfg fun now => orphanConfirmed cfg now code pending filled

/-- The calls that neither send an order nor give it its numbers. -/
def besideOrder : Req → Bool
  | .place .. => false
  | .balance _ => false
  | .quote .. => false
  | .buyable .. => false
  | .enqueueTrade _ => false
  | _ => true

/-- A cycle from its balance on. -/
def fromBalance (cfg : Settings) (buyLimitReached : Bool) : EngineM Unit := do
  match ← getBalance cfg .cycle false with
  | .error .dailyLimit => modify (onEngine setDailyLimitReached)
  | .error .failed => pure ()
  | .ok b => do
      let targets ← cycleTargets buyLimitReached b
      processTargets cfg b targets

variable {γ R α : Type} {answer : (r : Req) → R → World → Ans r × World}
  {note : Req → R → World × γ → γ} {rely : Req → R → World × γ → Prop}
  {site : Req → World × γ → Prop} {I : World × γ → Prop} {cfg : Settings}

/-- What an invariant owes to the procedures around the orders. -/
structure Standing (cfg : Settings) (answer : (r : Req) → R → World → Ans r × World)
    (note : Req → R → World × γ → γ) (rely : Req → R → World × γ → Prop)
    (site : Req → World × γ → Prop) (I : World × γ → Prop) : Prop where
  ask : ∀ r, besideOrder r = true → Kept answer note rely site I (ask r)
  balance : ∀ s force, Kept answer note rely site I (getBalance cfg s force)
  update : ∀ f, Plain f → Kept answer note rely site I (modify (onEngine f))
  log : ∀ entry, Kept answer note rely site I (modify (logEntry entry))
  book : ∀ f, Booking cfg f → Kept answer note rely site I (book f)

namespace Standing
variable (hI : Standing cfg answer note rely site I)
include hI

theorem holdingQuantity (s : Site) (code : Code) (force : Bool) :
    Kept answer note rely site I (holdingQuantity cfg s code force) := by
  refine (hI.balance s force).bind fun r => ?_
  cases r <;> exact kept_pure _

theorem confirmFill (s : Site) (code : Code) (side : Side) (qtyBefore : ℤ) (retries : ℕ) :
    Kept answer note rely site I (confirmFill cfg s code side qtyBefore retries) := by
  induction retries with
  | zero => exact kept_pure _
  | succ retries ih =>
    refine (hI.holdingQuantity s code true).bind fun r => ?_
    cases r <;> dsimp only <;> split
    · exact kept_pure _
    · exact ih
    · exact kept_pure _
    · exact ih

theorem cancelPendingOrder (code : Code) (pending : PendingOrder) :
    Kept answer note rely site I (cancelPendingOrder cfg code pending) := by
  have hdrop : Kept answer note rely site I (do
      let w ← get
      let _ ← cancelOrder code pending.orderNo pending.quantity (exchangeOf cfg w.engine code)
      modify (onEngine (popPending code))) :=
    kept_get.bind fun w => (hI.ask _ rfl).bind fun _ =>
      hI.update _ (plain_of_same fun _ => ⟨rfl, rfl, rfl⟩)
  have hreconcile : Kept answer note rely site I (reconcileOrphanFill cfg code pending) := by
    refine (hI.confirmFill _ code pending.side pending.qtyBefore 1).bind fun filled => ?_
    split
    · exact kept_pure _
    · exact (hI.book _ (.orphan code pending filled)).bind fun _ => kept_pure _
  unfold OrderExecution.cancelPendingOrder
  split
  · refine hreconcile.bind fun recovered => ?_
    dsimp only
    split
    · exact kept_pure _
    · exact hdrop
  · exact hdrop

theorem cancelEach (xs : List (Code × PendingOrder)) :
    Kept answer note rely site I (each (fun x => OrderExecution.cancelPendingOrder cfg x.1 x.2) xs) := by
  have hone : ∀ x : Code × PendingOrder,
      Kept answer note rely site I (OrderExecution.cancelPendingOrder cfg x.1 x.2) :=
    fun x => hI.cancelPendingOrder x.1 x.2
  exact kept_each hone xs

theorem cleanupStale : Kept answer note rely site I (cleanupStalePendingOrders cfg) :=
  kept_get.bind fun _ => hI.cancelEach _

theorem cancelAll : Kept answer note rely site I (cancelAllPendingOrders cfg) :=
  kept_get.bind fun _ => hI.cancelEach _

theorem suppressOrReplacePending (code : Code) :
    Kept answer note rely site I (suppressOrReplacePending cfg code) := by
  refine kept_get.bind fun w => ?_
  split
  · exact kept_pure _
  · split
    · exact kept_pure _
    · exact (hI.cancelPendingOrder code _).bind fun _ => kept_pure _

theorem dbUnavailable : Kept answer note rely site I (dbUnavailable cfg) := by
  unfold OrderExecution.dbUnavailable
  split
  · exact (hI.ask _ rfl).bind fun _ => kept_pure _
  · exact kept_pure _

theorem snapshotQuantity (side : Side) (code : Code) (quantity : ℕ) (fallback : ℤ) :
    Kept answer note rely site I (snapshotQuantity cfg side code quantity fallback) := by
  refine (hI.holdingQuantity _ code false).bind fun r => ?_
  cases r <;> exact kept_pure _

theorem confirmAccepted (side : Side) (code : Code) (quantity : ℕ) (price : ℚ) (avgPrice : Option ℚ)
    {confirmed : Time → ℤ → Engine → Engine × TradeRow} (qtyBefore : ℤ) (orderNo : ℕ)
    (hconfirmed : ∀ filled, Booking cfg fun now => confirmed now filled) :
    Kept answer note rely site I
      (confirmAccepted cfg side code quantity price avgPrice confirmed qtyBefore orderNo) := by
  refine (hI.update _ plain_invalidate).bind fun _ => ?_
  refine (hI.confirmFill _ code side qtyBefore 3).bind fun filled => ?_
  split
  · exact kept_get.bind fun w => hI.update _ (plain_of_same fun _ => ⟨rfl, rfl, rfl⟩)
  · refine (hI.book _ (hconfirmed filled)).bind fun _ => ?_
    split
    · exact (hI.balance _ false).bind fun _ => kept_pure _
    · exact kept_pure _

theorem buyBlocked (code : Code) (price : ℚ) :
    Kept answer note rely site I (buyBlocked cfg code price) := by
  refine kept_get.bind fun w => ?_
  split
  · exact kept_pure _
  · split
    · exact kept_pure _
    · refine (hI.ask _ rfl).bind fun blocked => ?_
      split
      · exact kept_pure _
      · exact hI.ask _ rfl

theorem screenStocks : Kept answer note rely site I (screenStocks cfg) := by
  refine kept_get.bind fun w => (hI.ask _ rfl).bind fun rows => ?_
  split
  · exact kept_pure _
  · refine kept_get.bind fun v => ?_
    dsimp only
    refine (hI.update (setScreened _) (plain_of_same fun _ => ⟨rfl, rfl, rfl⟩)).bind fun _ => ?_
    split
    · exact (hI.ask _ rfl).bind fun markets => hI.update _ (plain_of_same fun _ => ⟨rfl, rfl, rfl⟩)
    · exact kept_pure _

theorem cycleTargets (buyLimitReached : Bool) (b : Balance) :
    Kept answer note rely site I (cycleTargets buyLimitReached b) := by
  unfold TradingCycle.cycleTargets
  split
  · exact kept_pure _
  · refine kept_get.bind fun w => (hI.ask _ rfl).bind fun held => ?_
    exact (hI.ask _ rfl).bind fun screened => kept_pure _

theorem processTargets {b : Balance} (hstock : ∀ code,
      Kept answer note rely site I (processStock cfg code b.deposit (findHolding b code)))
    (codes : List Code) : Kept answer note rely site I (processTargets cfg b codes) := by
  induction codes with
  | nil => exact kept_pure _
  | cons code codes ih =>
    refine kept_get.bind fun w => ?_
    split
    · exact kept_pure _
    · refine (hstock code).bind fun r => ?_
      split
      · exact hI.update _ (plain_of_same fun _ => ⟨rfl, rfl, rfl⟩)
      · exact ih

theorem cycleBody (hbalance : ∀ buyLimitReached,
      Kept answer note rely site I (fromBalance cfg buyLimitReached)) :
    Kept answer note rely site I (cycleBody cfg) := by
  refine hI.cleanupStale.bind fun _ => kept_get.bind fun w => ?_
  dsimp only
  split
  · exact hI.screenStocks.bind fun _ => hbalance _
  · exact hbalance _

theorem postMarket : Kept answer note rely site I (postMarket cfg) := by
  refine hI.cancelAll.bind fun _ => (hI.balance _ true).bind fun r => ?_
  split
  · exact kept_pure _
  · refine (hI.ask _ rfl).bind fun executed => ?_
    split
    · exact kept_get.bind fun w => hI.ask _ rfl
    · exact kept_pure _

/-- The head of a cycle, up to its first balance. -/
theorem runTradingCycle (hrestore : Kept answer note rely site I (RiskRestore.restoreRiskStateIfNeeded cfg))
    (hbody : Kept answer note rely site I (TradingCycle.cycleBody cfg)) :
    Kept answer note rely site I (runTradingCycle cfg) := by
  refine (hI.update beginCycle (plain_of_same fun _ => ⟨rfl, rfl, rfl⟩)).bind fun _ => ?_
  refine kept_get.bind fun w => ?_
  split
  · exact hI.update _ (plain_of_same fun _ => ⟨rfl, rfl, rfl⟩)
  · refine (hI.update (setKillSwitchLogged false) (plain_of_same fun _ => ⟨rfl, rfl, rfl⟩)).bind fun _ => ?_
    refine hrestore.bind fun _ => kept_get.bind fun v => ?_
    split
    · exact kept_pure _
    · split
      · exact kept_pure _
      · exact hbody

end Standing

/-! ### The orders -/

section Orders
variable {J : World × γ → Prop} (hI : Standing cfg answer note rely site I)
  (hJ : Standing cfg answer note rely site J) (hIJ : ∀ x, I x → J x)
  {side : Side} {code : Code} {quantity : ℕ} {price : ℚ}
include hI hJ hIJ

/-- An order, from what its call leads to. -/
theorem Standing.submitOrder (avgPrice : Option ℚ) (fallback : ℤ) {onUntradable : Engine → Engine}
    {confirmed : Time → ℤ → Engine → Engine × TradeRow}
    (hplace : ∀ exchange, Leads answer note rely site I J (placeOrder side code quantity price exchange))
    (hun : Plain onUntradable) (hconfirmed : ∀ filled, Booking cfg fun now => confirmed now filled) :
    Leads answer note rely site I J
      (submitOrder cfg side code quantity price avgPrice fallback onUntradable confirmed) := by
  refine (hI.suppressOrReplacePending code).leads fun suppressed => ?_
  split
  · exact leads_pure hIJ _
  · refine hI.dbUnavailable.leads fun unavailable => ?_
    split
    · exact leads_pure hIJ _
    · refine (hI.snapshotQuantity side code quantity fallback).leads fun qtyBefore => ?_
      refine kept_get.leads fun w => (hplace _).keep fun placed => ?_
      cases placed with
      | untradable => exact hJ.update _ hun
      | raised => exact hJ.update _ plain_invalidate
      | accepted orderNo => exact hJ.confirmAccepted side code quantity price avgPrice _ _ hconfirmed

/-- A buy is sent only at a price that is above zero and not below the floor. -/
theorem Standing.executeBuy (hplace : 0 < price → cfg.minPrice ≤ price → ∀ exchange,
      Leads answer note rely site I J (placeOrder .buy code quantity price exchange)) :
    Leads answer note rely site I J (executeBuy cfg code quantity price) := by
  intro x hx
  have hblocked : wp (serveNoted answer note) rely site
      (instrument γ (OrderExecution.buyBlocked cfg code price)) (fun blocked y => I y ∧ (blocked = false → 0 < price ∧ cfg.minPrice ≤ price)) x := by
    by_cases hprice : price ≤ 0 ∨ price < cfg.minPrice
    · simp only [OrderExecution.buyBlocked, wp_instrument_bind, wp_instrument_get, if_pos hprice]
      split <;> exact ⟨hx, by simp⟩
    · rw [not_or, not_le, not_lt] at hprice
      exact wp_mono (hI.buyBlocked code price x hx) fun _ y hy => ⟨hy, fun _ => hprice⟩
  rw [OrderExecution.executeBuy, wp_instrument_bind]
  refine wp_mono hblocked fun blocked y hy => ?_
  split
  · exact hIJ y hy.1
  · rename_i hfree
    obtain ⟨hpositive, hfloor⟩ := hy.2 (by simpa using hfree)
    have hmark : Plain (markUntradable code) := plain_of_same fun _ => ⟨rfl, rfl, rfl⟩
    exact hI.submitOrder hJ hIJ none 0 (hplace hpositive hfloor) hmark
      (fun filled => .buy code filled price) y hy.1

theorem Standing.executeSell (reason : String) (avgPrice : Option ℚ)
    (hplace : ∀ exchange, Leads answer note rely site I J (placeOrder .sell code quantity price exchange)) :
    Leads answer note rely site I J (executeSell cfg code quantity price reason avgPrice) :=
  hI.submitOrder hJ hIJ avgPrice quantity hplace plain_invalidate
    fun filled => .sell code filled price reason avgPrice

/-- A holding is sold whole, and only at a price above zero. -/
theorem Standing.processHeldStock (h : Holding) (signal : Signal)
    (hplace : 0 < price → ∀ exchange,
      Leads answer note rely site I J (placeOrder .sell h.stockCode h.quantity price exchange)) :
    Leads answer note rely site I J (processHeldStock cfg price h signal) := by
  unfold StockProcessing.processHeldStock
  split
  · exact leads_pure hIJ _
  · rename_i hprice
    refine kept_get.leads fun w => ?_
    dsimp only
    refine (hI.update (observeHeld w.clock h.stockCode h.avgPrice price)
      (plain_of_same fun _ => ⟨rfl, rfl, rfl⟩)).leads fun _ => ?_
    refine (hI.log _).leads fun _ => kept_get.leads fun v => ?_
    split
    · exact leads_pure hIJ _
    · exact (hI.log _).leads fun _ => hI.executeSell hJ hIJ _ _ (hplace (not_le.mp hprice))

end Orders

end KisAutotrader.OrderSteps
