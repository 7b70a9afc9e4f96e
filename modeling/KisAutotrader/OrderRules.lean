import KisAutotrader.OrderExecution

/-!
# Proof rules of the order procedures

Every rule is stated for any rely condition and any guarantee. A steady
invariant is one that neither a read of the environment nor an update outside
the order and position books can break.
-/
namespace KisAutotrader.OrderRules
open OrderedDict Coroutine OrderExecution

variable {rely : Req → Reply → World → Prop} {guar : Req → World → Prop}

/-- The three ways a balance read ends: from the cache, with an error, with a fresh report. -/
theorem getBalance_rule (cfg : Settings) (site : Site) (force : Bool)
    {Q : Except CallError Balance → World → Prop} {w : World}
    (hguar : guar (.balance site) w)
    (hcached : ∀ b, force = false → freshCache w = some b → Q (.ok b) w)
    (hfail : ∀ reply e, rely (.balance site) reply w → reply.outcome ≠ .ok →
      Q (.error e) (w.elapse reply))
    (hread : ∀ reply, rely (.balance site) reply w → reply.outcome = .ok →
      Q (.ok (w.elapse reply).broker.report)
        (onEngine (storeBalance cfg w.clock (w.elapse reply).broker.report) (w.elapse reply))) :
    wp serve rely guar (getBalance cfg site force) Q w := by
  simp only [getBalance, wp_bind, wp_get]
  split
  · rename_i b hb
    cases force with
    | true => simp at hb
    | false => exact hcached b rfl (by simpa using hb)
  · simp only [wp_bind, wp_ask]
    refine ⟨hguar, fun reply hrely => ?_⟩
    by_cases hok : reply.outcome = .ok
    · simp only [serve, World.answer, hok, if_true]
      exact hread reply hrely hok
    · simp only [serve, World.answer, hok, if_false]
      exact hfail reply _ hrely hok

/-- The loop rule of `_confirm_fill`: a poll either keeps the invariant or shows a fill. -/
theorem confirmFill_rule (cfg : Settings) (site : Site) (code : Code) (side : Side)
    (qtyBefore : ℤ) (retries : ℕ) {I : World → Prop} {Q : ℤ → World → Prop} {w : World} (h : I w)
    (hguar : ∀ w, I w → guar (.balance site) w)
    (hfail : ∀ w reply, I w → rely (.balance site) reply w → reply.outcome ≠ .ok →
      I (w.elapse reply))
    (hread : ∀ w reply, I w → rely (.balance site) reply w → reply.outcome = .ok →
      let w' := onEngine (storeBalance cfg w.clock (w.elapse reply).broker.report) (w.elapse reply)
      let filled := filledBy side qtyBefore ((w.elapse reply).broker.holding code)
      if 0 < filled then Q filled w' else I w')
    (hdone : ∀ w, I w → Q 0 w) :
    wp serve rely guar (confirmFill cfg site code side qtyBefore retries) Q w := by
  induction retries generalizing w with
  | zero => exact hdone w h
  | succ n ih =>
    simp only [confirmFill, holdingQuantity, wp_bind]
    refine getBalance_rule cfg site true (hguar w h) (by simp) ?_ ?_
    · intro reply e hrely hbad
      have hkeep := ih (hfail w reply h hrely hbad)
      cases side <;> simpa [filledBy] using hkeep
    · intro reply hrely hok
      have hpoll := hread w reply h hrely hok
      simp only [wp_pure, Broker.report_quantityOf]
      simp only at hpoll
      split_ifs at hpoll ⊢ with hpos
      · exact hpoll
      · exact ih hpoll

/-- The world after a booking, with its row recorded or not. -/
structure AfterBooking (f : Time → Engine → Engine × TradeRow) (w v : World) : Prop where
  engine : v.engine = (f w.clock w.engine).1
  clock : w.clock ≤ v.clock
  untradable : v.untradable = w.untradable
  log : v.log = w.log ++
    [.booked (f w.clock w.engine).2.stockCode (f w.clock w.engine).2.tradeType]
  trades : v.trades = w.trades ∨ v.trades = w.trades ++ [(f w.clock w.engine).2]

theorem afterBooking_apply (f : Time → Engine → Engine × TradeRow) (w : World) :
    AfterBooking f w (applyBooking f w) := ⟨rfl, le_refl _, rfl, rfl, Or.inl rfl⟩

theorem afterBooking_serve (f : Time → Engine → Engine × TradeRow) (w : World) (reply : Reply) :
    AfterBooking f w (serve (.enqueueTrade (f w.clock w.engine).2) reply (applyBooking f w)).2 := by
  refine ⟨by simp, by simp, ?_, by simp, ?_⟩
  · rw [serve_untradable (by simp)]
    rfl
  · exact serve_enqueueTrade_trades (f w.clock w.engine).2 reply (applyBooking f w)

theorem book_rule {f : Time → Engine → Engine × TradeRow} {J : World → Prop} {w : World}
    (hguar : guar (.enqueueTrade (f w.clock w.engine).2) (applyBooking f w))
    (hdone : ∀ v, AfterBooking f w v → J v) :
    wp serve rely guar (book f) (fun _ => J) w := by
  simp only [book, wp_bind, wp_get, wp_modify, wp_ask]
  exact ⟨hguar, fun reply _ => hdone _ (afterBooking_serve f w reply)⟩

/-- A loop over orders that are registered under distinct stocks keeps what the
cancellation of one registered order keeps. -/
theorem cancelEach_rule (cfg : Settings) {I : World → Prop}
    (hone : ∀ w code pending, I w → w.engine.pendingOrders.get? code = some pending →
      wp serve rely guar (cancelPendingOrder cfg code pending)
        (fun _ w' => I w' ∧ w'.engine.pendingOrders = w.engine.pendingOrders.pop code) w)
    {xs : List (Code × PendingOrder)} (hnodup : (xs.map Prod.fst).Nodup) {w : World} (h : I w)
    (hxs : ∀ x ∈ xs, w.engine.pendingOrders.get? x.1 = some x.2) :
    wp serve rely guar (each (fun x => cancelPendingOrder cfg x.1 x.2) xs) (fun _ => I) w := by
  refine wp_mono (wp_each (I := fun ys w => I w ∧ (ys.map Prod.fst).Nodup ∧
    ∀ y ∈ ys, w.engine.pendingOrders.get? y.1 = some y.2) ?_ ⟨h, hnodup, hxs⟩) ?_
  · rintro x ys v ⟨hv, hnd, hreg⟩
    refine wp_mono (hone v x.1 x.2 hv (hreg x (by simp))) ?_
    rintro _ v' ⟨hv', hpop⟩
    rw [List.map_cons, List.nodup_cons] at hnd
    refine ⟨hv', hnd.2, fun y hy => ?_⟩
    have hne : y.1 ≠ x.1 := fun heq => hnd.1 (heq ▸ List.mem_map_of_mem hy)
    rw [hpop, Dict.get?_pop_ne _ hne]
    exact hreg y (by simp [hy])
  · rintro _ v ⟨hv, -⟩
    exact hv

theorem cleanupStalePendingOrders_rule (cfg : Settings) {I : World → Prop}
    (hone : ∀ w code pending, I w → w.engine.pendingOrders.get? code = some pending →
      wp serve rely guar (cancelPendingOrder cfg code pending)
        (fun _ w' => I w' ∧ w'.engine.pendingOrders = w.engine.pendingOrders.pop code) w)
    {w : World} (h : I w) :
    wp serve rely guar (cleanupStalePendingOrders cfg) (fun _ => I) w := by
  simp only [cleanupStalePendingOrders, wp_bind, wp_get]
  refine cancelEach_rule cfg hone ?_ h fun x hx => ?_
  · exact w.engine.pendingOrders.nodup.sublist (List.filter_sublist.map _)
  · exact Dict.mem_items.mp (List.mem_of_mem_filter hx)

theorem cancelAllPendingOrders_rule (cfg : Settings) {I : World → Prop}
    (hone : ∀ w code pending, I w → w.engine.pendingOrders.get? code = some pending →
      wp serve rely guar (cancelPendingOrder cfg code pending)
        (fun _ w' => I w' ∧ w'.engine.pendingOrders = w.engine.pendingOrders.pop code) w)
    {w : World} (h : I w) :
    wp serve rely guar (cancelAllPendingOrders cfg) (fun _ => I) w := by
  simp only [cancelAllPendingOrders, wp_bind, wp_get]
  exact cancelEach_rule cfg hone w.engine.pendingOrders.nodup h fun x hx => Dict.mem_items.mp hx

/-- What every booking of `filled` shares does, whichever code path makes it. -/
structure Books (code : Code) (side : Side) (filled : ℤ)
    (f : Time → Engine → Engine × TradeRow) : Prop where
  pendingOrders : ∀ now e, (f now e).1.pendingOrders = e.pendingOrders.pop code
  peakPrices : ∀ now e, (f now e).1.peakPrices = e.peakPrices.pop code
  todayTradeCount : ∀ now e, (f now e).1.todayTradeCount = e.todayTradeCount + 1
  todayBuysPerStock : ∀ now e, (f now e).1.todayBuysPerStock =
    if side = .buy then e.todayBuysPerStock.set code ((e.todayBuysPerStock.get? code).getD 0 + 1)
    else e.todayBuysPerStock
  balanceCache : ∀ now e, (f now e).1.balanceCache = e.balanceCache
  cycleCount : ∀ now e, (f now e).1.cycleCount = e.cycleCount
  untradableToday : ∀ now e, (f now e).1.untradableToday = e.untradableToday
  riskStateRestored : ∀ now e, (f now e).1.riskStateRestored = e.riskStateRestored
  row : ∀ now e, (f now e).2.stockCode = code ∧ (f now e).2.tradeType = side ∧
    (f now e).2.quantity = filled ∧ (f now e).2.tradedAt = now

theorem books_buyConfirmed (cfg : Settings) (code : Code) (filled : ℤ) (price : ℚ) :
    Books code .buy filled fun now => buyConfirmed cfg now code filled price := by
  constructor <;> intro now e <;>
    simp [buyConfirmed, recordTrade, realised, bookRealised, dropPeak, bumpBuys, settlePending]

theorem books_sellConfirmed (cfg : Settings) (code : Code) (filled : ℤ) (price : ℚ)
    (reason : String) (avgPrice : Option ℚ) :
    Books code .sell filled fun now => sellConfirmed cfg now code filled price reason avgPrice := by
  constructor <;> intro now e <;> simp only [sellConfirmed, recordTrade] <;>
    generalize realised cfg .sell filled (normPrice cfg.market.pricePrecision
      (normPrice cfg.market.pricePrecision price)) avgPrice = pl <;>
    cases pl <;> simp [bookRealised, bookProfitLoss, dropPeak, settlePending]

theorem books_orphanConfirmed (cfg : Settings) (code : Code) (pending : PendingOrder)
    (filled : ℤ) :
    Books code pending.side filled fun now => orphanConfirmed cfg now code pending filled := by
  cases hs : pending.side with
  | buy =>
    constructor <;> intro now e <;>
      simp [orphanConfirmed, hs, recordTrade, realised, bookRealised, dropPeak, bumpBuys,
        settlePending]
  | sell =>
    constructor <;> intro now e <;> simp only [orphanConfirmed, hs, recordTrade] <;>
      generalize realised cfg .sell filled (normPrice cfg.market.pricePrecision
        (normPrice cfg.market.pricePrecision pending.price)) pending.avgPrice = pl <;>
      cases pl <;> simp [bookRealised, bookProfitLoss, dropPeak, settlePending]

/-- What a booking does to the records of exits. -/
structure BooksExit (code : Code) (side : Side) (f : Time → Engine → Engine × TradeRow) : Prop where
  lastSellAt : ∀ now e, (f now e).1.lastSellAt =
    if side = .sell then e.lastSellAt.set code now else e.lastSellAt
  heldSince : ∀ now e, (f now e).1.heldSince =
    if side = .sell then e.heldSince.pop code else e.heldSince

theorem booksExit_buyConfirmed (cfg : Settings) (code : Code) (filled : ℤ) (price : ℚ) :
    BooksExit code .buy fun now => buyConfirmed cfg now code filled price :=
  ⟨fun _ _ => rfl, fun _ _ => rfl⟩

theorem booksExit_sellConfirmed (cfg : Settings) (code : Code) (filled : ℤ) (price : ℚ)
    (reason : String) (avgPrice : Option ℚ) : BooksExit code .sell
      fun now => sellConfirmed cfg now code filled price reason avgPrice := by
  constructor <;> intro now e <;> simp only [sellConfirmed, recordTrade] <;>
    generalize realised cfg .sell filled (normPrice cfg.market.pricePrecision
      (normPrice cfg.market.pricePrecision price)) avgPrice = pl <;>
    cases pl <;> simp [bookRealised, bookProfitLoss, dropPeak, settlePending]

/-- A late fill of a BUY leaves the records of exits alone; one of a sale does so too. -/
theorem orphanConfirmed_exit (cfg : Settings) (now : Time) (code : Code) (pending : PendingOrder)
    (filled : ℤ) (e : Engine) :
    (orphanConfirmed cfg now code pending filled e).1.lastSellAt = e.lastSellAt ∧
      (orphanConfirmed cfg now code pending filled e).1.heldSince = e.heldSince := by
  cases hs : pending.side with
  | buy => simp [orphanConfirmed, hs, recordTrade, realised, bookRealised, dropPeak, bumpBuys,
      settlePending]
  | sell =>
    simp only [orphanConfirmed, hs, recordTrade]
    generalize realised cfg .sell filled (normPrice cfg.market.pricePrecision
      (normPrice cfg.market.pricePrecision pending.price)) pending.avgPrice = pl
    cases pl <;> simp [bookRealised, bookProfitLoss, dropPeak, settlePending]

/-- The calls that change nothing at the other side. -/
def isRead : Req → Bool
  | .place .. => false
  | .cancel .. => false
  | .enqueueTrade _ => false
  | .enqueueSync .. => false
  | _ => true

theorem serve_read {r : Req} (h : isRead r = true) (reply : Reply) (w : World) :
    (serve r reply w).2 = w.elapse reply := by
  cases r <;> simp [isRead] at h <;> simp only [serve, World.answer] <;> split <;> rfl

/-- An update outside the order and position books. -/
def Quiet (f : Engine → Engine) : Prop :=
  ∀ e, ∃ cache exchanges limit screened logged, f e = { e with
    balanceCache := cache
    exchanges := exchanges
    dailyLimitReached := limit
    screenedCodes := screened
    killSwitchLogged := logged }

theorem quiet_storeBalance (cfg : Settings) (now : Time) (b : Balance) :
    Quiet (storeBalance cfg now b) := fun _ => ⟨_, _, _, _, _, rfl⟩

theorem quiet_invalidateBalanceCache : Quiet invalidateBalanceCache :=
  fun _ => ⟨_, _, _, _, _, rfl⟩

structure Steady (rely : Req → Reply → World → Prop) (guar : Req → World → Prop)
    (I : World → Prop) : Prop where
  guar : ∀ r w, isRead r = true → I w → guar r w
  wait : ∀ r reply w, isRead r = true → I w → rely r reply w → I (w.elapse reply)
  quiet : ∀ f w, Quiet f → I w → I (onEngine f w)

namespace Steady
variable {I : World → Prop} (hI : Steady rely guar I) {w : World}
include hI

theorem ask {r : Req} (hr : isRead r = true) (h : I w) :
    wp serve rely guar (ask r) (fun _ => I) w := by
  refine ⟨hI.guar r w hr h, fun reply hrely => ?_⟩
  have hwait := hI.wait r reply w hr h hrely
  rw [← serve_read hr] at hwait
  exact hwait

theorem getBalance (cfg : Settings) (site : Site) (force : Bool) (h : I w) :
    wp serve rely guar (getBalance cfg site force) (fun _ => I) w := by
  refine getBalance_rule cfg site force (hI.guar _ w rfl h) (fun _ _ _ => h) ?_ ?_
  · intro reply _ hrely _
    exact hI.wait _ reply w rfl h hrely
  · intro reply hrely _
    exact hI.quiet _ _ (quiet_storeBalance _ _ _) (hI.wait _ reply w rfl h hrely)

theorem snapshotQuantity (cfg : Settings) (side : Side) (code : Code) (quantity : ℕ)
    (fallback : ℤ) (h : I w) :
    wp serve rely guar (snapshotQuantity cfg side code quantity fallback) (fun _ => I) w := by
  simp only [OrderExecution.snapshotQuantity, holdingQuantity, wp_bind]
  refine wp_mono (hI.getBalance cfg _ false h) fun r v hv => ?_
  cases r <;> exact hv

theorem dbUnavailable (cfg : Settings) (h : I w) :
    wp serve rely guar (dbUnavailable cfg) (fun _ => I) w := by
  unfold OrderExecution.dbUnavailable
  split
  · simp only [wp_bind]
    exact wp_mono (hI.ask rfl h) fun _ _ hv => hv
  · exact h

/-- The checks of a BUY; a stock that passes them is not on the untradable list. -/
theorem buyBlocked (cfg : Settings) (code : Code) (price : ℚ) (h : I w) :
    wp serve rely guar (buyBlocked cfg code price) (fun blocked w' => I w' ∧
      (blocked = false → code ∉ w'.engine.untradableToday ∧
        w'.engine.untradableToday = w.engine.untradableToday)) w := by
  simp only [OrderExecution.buyBlocked, wp_bind, wp_get]
  split_ifs with hun
  · exact ⟨h, by simp⟩
  · exact ⟨h, by simp⟩
  · simp only [wp_bind, wp_ask]
    refine ⟨hI.guar _ w rfl h, fun reply hrely => ?_⟩
    have h₁ := hI.wait _ reply w rfl h hrely
    split
    · exact ⟨h₁, by simp⟩
    · simp only [wp_ask]
      refine ⟨hI.guar _ _ rfl h₁, fun reply' hrely' => ?_⟩
      have h₂ := hI.wait _ reply' _ rfl h₁ hrely'
      exact ⟨h₂, fun _ => ⟨by simpa [serve, World.answer] using hun, by simp [serve, World.answer]⟩⟩

/-- A confirmation keeps a steady invariant; a poll that shows a fill also shows what
the rely condition and the invariant say of it. -/
theorem confirmFill (cfg : Settings) (site : Site) (code : Code) (side : Side) (qtyBefore : ℤ)
    (retries : ℕ) {P : ℤ → World → Prop} (h : I w)
    (hread : ∀ v reply, I v → rely (.balance site) reply v → reply.outcome = .ok →
      let filled := filledBy side qtyBefore ((v.elapse reply).broker.holding code)
      0 < filled → P filled (onEngine
        (storeBalance cfg v.clock (v.elapse reply).broker.report) (v.elapse reply))) :
    wp serve rely guar (confirmFill cfg site code side qtyBefore retries)
      (fun filled w' => I w' ∧ (0 < filled → P filled w')) w := by
  refine confirmFill_rule cfg site code side qtyBefore retries (I := I) h
    (fun v hv => hI.guar _ v rfl hv) ?_ ?_ ?_
  · intro v reply hv hrely _
    exact hI.wait _ reply v rfl hv hrely
  · intro v reply hv hrely hok
    have hstored := hI.quiet _ _ (quiet_storeBalance cfg v.clock (v.elapse reply).broker.report)
      (hI.wait _ reply v rfl hv hrely)
    simp only
    split_ifs with hpos
    · exact ⟨hstored, fun _ => hread v reply hv hrely hok hpos⟩
    · exact hstored
  · intro v hv
    exact ⟨hv, by simp⟩

end Steady

/-- Cancelling one registered order: a fill seen is booked, otherwise the order is
cancelled and dropped. -/
theorem cancelPendingOrder_rule (cfg : Settings) {I J : World → Prop} (hI : Steady rely guar I)
    {code : Code} {pending : PendingOrder} {w : World} (h : I w)
    (hbook : ∀ v reply, I v →
      rely (.balance (.reconcile code pending.side pending.qtyBefore)) reply v →
      reply.outcome = .ok →
      let filled := filledBy pending.side pending.qtyBefore ((v.elapse reply).broker.holding code)
      0 < filled → wp serve rely guar
        (book fun now => orphanConfirmed cfg now code pending filled) (fun _ => J)
        (onEngine (storeBalance cfg v.clock (v.elapse reply).broker.report) (v.elapse reply)))
    (hcancel : ∀ v exchange, I v →
      guar (.cancel code pending.orderNo pending.quantity exchange) v ∧
      ∀ reply, rely (.cancel code pending.orderNo pending.quantity exchange) reply v →
        J (onEngine (popPending code)
          (serve (.cancel code pending.orderNo pending.quantity exchange) reply v).2)) :
    wp serve rely guar (cancelPendingOrder cfg code pending) (fun _ => J) w := by
  have hdrop : ∀ v, I v → wp serve rely guar (do
        let u ← get
        let _ ← cancelOrder code pending.orderNo pending.quantity (exchangeOf cfg u.engine code)
        modify (onEngine (popPending code))) (fun _ => J) v := by
    intro v hv
    simp only [wp_bind, wp_get, wp_ask, wp_modify]
    exact hcancel v _ hv
  unfold cancelPendingOrder
  split_ifs
  · simp only [reconcileOrphanFill, wp_bind]
    refine wp_mono (hI.confirmFill cfg (.reconcile code pending.side pending.qtyBefore) code
      pending.side pending.qtyBefore 1 (P := fun filled v => wp serve rely guar
        (book fun now => orphanConfirmed cfg now code pending filled) (fun _ => J) v)
      h hbook) fun filled v hv => ?_
    obtain ⟨hv, hfill⟩ := hv
    split_ifs with hnone
    · exact hdrop v hv
    · simp only [wp_bind]
      refine wp_mono (hfill (by omega)) fun _ u hu => ?_
      simpa using hu
  · exact hdrop w h

/-- What both order paths do, from what each of their parts does. -/
theorem submitOrder_rule (cfg : Settings) {I J : World → Prop} (hI : Steady rely guar I)
    (side : Side) (code : Code) (quantity : ℕ) (price : ℚ) (avgPrice : Option ℚ) (fallback : ℤ)
    {onUntradable : Engine → Engine} {confirmed : Time → ℤ → Engine → Engine × TradeRow}
    {w : World} (hsuppressed : J w) (hfree : w.engine.pendingOrders.get? code = none → I w)
    (hstop : ∀ v, I v → J v)
    (hcancel : ∀ pending, w.engine.pendingOrders.get? code = some pending →
      isStale cfg w.engine pending = true →
      wp serve rely guar (cancelPendingOrder cfg code pending) (fun _ v => I v) w)
    (hplace : ∀ v qtyBefore exchange, I v →
      guar (.place side code quantity price exchange) v ∧
      ∀ reply, rely (.place side code quantity price exchange) reply v →
        match (serve (.place side code quantity price exchange) reply v).1 with
        | .untradable => J (onEngine onUntradable
            (serve (.place side code quantity price exchange) reply v).2)
        | .raised => J (onEngine invalidateBalanceCache
            (serve (.place side code quantity price exchange) reply v).2)
        | .accepted orderNo => wp serve rely guar
            (confirmAccepted cfg side code quantity price avgPrice confirmed qtyBefore orderNo)
            (fun _ => J) (serve (.place side code quantity price exchange) reply v).2) :
    wp serve rely guar
      (submitOrder cfg side code quantity price avgPrice fallback onUntradable confirmed)
      (fun _ => J) w := by
  have hsuppress : wp serve rely guar (suppressOrReplacePending cfg code)
      (fun suppressed v => if suppressed then J v else I v) w := by
    simp only [suppressOrReplacePending, wp_bind, wp_get]
    cases hp : w.engine.pendingOrders.get? code with
    | none => simpa using hfree hp
    | some pending =>
      simp only
      split_ifs with hage
      · simpa using hsuppressed
      · simp only [wp_bind]
        have hstale : isStale cfg w.engine pending = true := by
          simpa [isStale] using hage
        exact wp_mono (hcancel pending hp hstale) fun _ v hv => by simpa using hv
  simp only [submitOrder, wp_bind]
  refine wp_mono hsuppress fun suppressed v hv => ?_
  cases suppressed with
  | true => simpa using hv
  | false =>
    simp only [Bool.false_eq_true, if_false] at hv ⊢
    simp only [wp_bind]
    refine wp_mono (hI.dbUnavailable cfg hv) fun unavailable u hu => ?_
    split
    · exact hstop u hu
    · simp only [placeAndConfirm, wp_bind]
      refine wp_mono (hI.snapshotQuantity cfg side code quantity fallback hu) fun q x hx => ?_
      simp only [wp_bind, wp_get, wp_ask]
      obtain ⟨hguar, hreply⟩ := hplace x q (exchangeOf cfg x.engine code) hx
      refine ⟨hguar, fun reply hrely => ?_⟩
      have hnext := hreply reply hrely
      split <;> rename_i hplaced <;> simp only [hplaced] at hnext <;> exact hnext

/-- After acceptance: either the order is registered or its fill is booked. -/
theorem confirmAccepted_rule (cfg : Settings) {I J : World → Prop} (hI : Steady rely guar I)
    (hJ : Steady rely guar J) (side : Side) (code : Code) (quantity : ℕ) (price : ℚ)
    (avgPrice : Option ℚ) {confirmed : Time → ℤ → Engine → Engine × TradeRow} (qtyBefore : ℤ)
    (orderNo : ℕ) {w : World} (h : I w)
    (htrack : ∀ v pending, I v → pending.side = side →
      pending.placedCycle = v.engine.cycleCount → J (onEngine (trackPending code pending) v))
    (hbook : ∀ v filled, I v → 0 < filled → wp serve rely guar
      (book fun now => confirmed now filled) (fun _ => J) v) :
    wp serve rely guar
      (confirmAccepted cfg side code quantity price avgPrice confirmed qtyBefore orderNo)
      (fun _ => J) w := by
  simp only [confirmAccepted, wp_bind, wp_modify]
  have hinv := hI.quiet _ w quiet_invalidateBalanceCache h
  refine wp_mono (hI.confirmFill cfg (.confirm code side qtyBefore) code side qtyBefore 3
    (P := fun _ _ => True) hinv (fun _ _ _ _ _ _ => trivial)) fun filled v hv => ?_
  split
  · simp only [wp_bind, wp_get, wp_modify]
    exact htrack v _ hv.1 rfl rfl
  · simp only [wp_bind]
    refine wp_mono (hbook v filled hv.1 (by omega)) fun _ u hu => ?_
    split
    · simp only [wp_bind]
      exact wp_mono (hJ.getBalance cfg (.slippage code) false hu) fun _ _ hx => hx
    · exact hu

/-! ### Invariants of every order -/

/-- An update of the order registry and the list of refused stocks alone. -/
def RegistryOnly (f : Engine → Engine) : Prop :=
  ∀ e, ∃ pending untradable, f e = { e with
    pendingOrders := pending
    untradableToday := untradable }

theorem registryOnly_popPending (code : Code) : RegistryOnly (popPending code) :=
  fun _ => ⟨_, _, rfl⟩

theorem registryOnly_trackPending (code : Code) (pending : PendingOrder) :
    RegistryOnly (trackPending code pending) := fun _ => ⟨_, _, rfl⟩

theorem registryOnly_markUntradable (code : Code) : RegistryOnly (markUntradable code) :=
  fun _ => ⟨_, _, rfl⟩

/-- The calls that send or cancel an order. -/
def isOrder : Req → Bool
  | .place .. => true
  | .cancel .. => true
  | _ => false

/-- What an invariant that does not look at the registry owes to the orders. -/
structure OrderKeeps (cfg : Settings) (rely : Req → Reply → World → Prop) (guar : Req → World → Prop)
    (I : World → Prop) : Prop where
  steady : Steady rely guar I
  registry : ∀ f w, RegistryOnly f → I w → I (onEngine f w)
  order : ∀ r w, isOrder r = true → I w → guar r w ∧ ∀ reply, I (serve r reply w).2
  confirmed : ∀ w code side filled f, Books code side filled f → BooksExit code side f → I w →
    wp serve rely guar (book f) (fun _ => I) w
  late : ∀ w code pending reply filled, I w →
    rely (.balance (.reconcile code pending.side pending.qtyBefore)) reply w →
    reply.outcome = .ok →
    filled = filledBy pending.side pending.qtyBefore ((w.elapse reply).broker.holding code) →
    0 < filled → wp serve rely guar (book fun now => orphanConfirmed cfg now code pending filled)
      (fun _ => I)
      (onEngine (storeBalance cfg w.clock (w.elapse reply).broker.report) (w.elapse reply))

namespace OrderKeeps
variable {cfg : Settings} {I : World → Prop} (hI : OrderKeeps cfg rely guar I) {w : World}
include hI

theorem cancelPendingOrder {code : Code} {pending : PendingOrder} (h : I w) :
    wp serve rely guar (cancelPendingOrder cfg code pending) (fun _ => I) w := by
  refine cancelPendingOrder_rule cfg hI.steady h ?_ ?_
  · intro v reply hv hrely hok
    exact hI.late v code pending reply _ hv hrely hok rfl
  · intro v exchange hv
    obtain ⟨hguar, hserved⟩ := hI.order
      (.cancel code pending.orderNo pending.quantity exchange) v rfl hv
    refine ⟨hguar, fun reply _ => ?_⟩
    exact hI.registry _ _ (registryOnly_popPending code) (hserved reply)

theorem submitOrder (side : Side) (code : Code) (quantity : ℕ) (price : ℚ) (avgPrice : Option ℚ)
    (fallback : ℤ) {onUntradable : Engine → Engine}
    {confirmed : Time → ℤ → Engine → Engine × TradeRow}
    (hun : ∀ v, I v → I (onEngine onUntradable v))
    (hbooks : ∀ filled, Books code side filled fun now => confirmed now filled)
    (hexit : ∀ filled, BooksExit code side fun now => confirmed now filled) (h : I w) :
    wp serve rely guar
      (submitOrder cfg side code quantity price avgPrice fallback onUntradable confirmed)
      (fun _ => I) w := by
  refine submitOrder_rule cfg hI.steady side code quantity price avgPrice fallback h (fun _ => h)
    (fun _ hv => hv) (fun pending _ _ => hI.cancelPendingOrder h) ?_
  intro v qtyBefore exchange hv
  obtain ⟨hguar, hserved⟩ := hI.order (.place side code quantity price exchange) v rfl hv
  refine ⟨hguar, fun reply _ => ?_⟩
  split
  · exact hun _ (hserved reply)
  · exact hI.steady.quiet _ _ quiet_invalidateBalanceCache (hserved reply)
  · refine confirmAccepted_rule cfg hI.steady hI.steady side code quantity price avgPrice qtyBefore _
      (hserved reply) ?_ ?_
    · intro u pending hu _ _
      exact hI.registry _ u (registryOnly_trackPending code pending) hu
    · intro u filled hu _
      exact hI.confirmed u code side filled _ (hbooks filled) (hexit filled) hu

theorem executeBuy (code : Code) (quantity : ℕ) (price : ℚ) (h : I w) :
    wp serve rely guar (executeBuy cfg code quantity price) (fun _ => I) w := by
  simp only [OrderExecution.executeBuy, wp_bind]
  refine wp_mono (hI.steady.buyBlocked cfg code price h) fun blocked v hv => ?_
  split
  · exact hv.1
  · apply hI.submitOrder .buy code quantity price none 0 _ _ _ hv.1
    · intro u hu
      exact hI.registry _ u (registryOnly_markUntradable code) hu
    · exact fun filled => books_buyConfirmed cfg code filled price
    · exact fun filled => booksExit_buyConfirmed cfg code filled price

theorem executeSell (code : Code) (quantity : ℕ) (price : ℚ) (reason : String)
    (avgPrice : Option ℚ) (h : I w) :
    wp serve rely guar (executeSell cfg code quantity price reason avgPrice) (fun _ => I) w := by
  apply hI.submitOrder .sell code quantity price avgPrice quantity _ _ _ h
  · intro u hu
    exact hI.steady.quiet _ u quiet_invalidateBalanceCache hu
  · exact fun filled => books_sellConfirmed cfg code filled price reason avgPrice
  · exact fun filled => booksExit_sellConfirmed cfg code filled price reason avgPrice

end OrderKeeps

end KisAutotrader.OrderRules
