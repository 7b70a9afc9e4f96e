import KisAutotrader.OrderRules

/-!
# Fill conservation

For each stock the broker's holding is a level, the recorded trades are its
books, the cached balance is a reading, and a pending order, or one that is just
being confirmed, is a window on the quantity saved before it was placed.
-/
namespace KisAutotrader.FillConservation
open OrderedDict Coroutine OrderExecution OrderRules BaselineMeter

def signedQuantity (row : TradeRow) : ℤ := row.tradeType.direction.sign * row.quantity

/-- Recorded BUY quantities minus recorded SELL quantities of a stock. -/
def netRecorded (trades : List TradeRow) (code : Code) : ℤ :=
  ((trades.filter fun row => row.stockCode = code).map signedQuantity).sum

/-- The recorded net quantity of every settled stock is the change of its holding. -/
def Conserved (w₀ w : World) : Prop :=
  ∀ code, w.engine.pendingOrders.get? code = none →
    (∀ o ∈ w.broker.orders, o.code = code → o.live = false) →
    netRecorded w.trades code - netRecorded w₀.trades code =
      w.broker.holding code - w₀.broker.holding code

/-- An accepted order under confirmation; it is not registered yet. -/
structure Watch where
  code : Code
  side : Side
  qtyBefore : ℤ

def watchOf : Req → Option Watch
  | .balance (.confirm code side qtyBefore) => some ⟨code, side, qtyBefore⟩
  | _ => none

def pendingWindow (e : Engine) (code : Code) : Option (Direction × ℤ) :=
  (e.pendingOrders.get? code).map fun p => (p.side.direction, p.qtyBefore)

def window (k : Option Watch) (e : Engine) (code : Code) : Option (Direction × ℤ) :=
  match k with
  | none => pendingWindow e code
  | some x => if x.code = code then some (x.side.direction, x.qtyBefore) else pendingWindow e code

def meter (h₀ : Code → ℤ) (k : Option Watch) (w : World) (code : Code) : Meter where
  level := w.broker.holding code
  booked := h₀ code + netRecorded w.trades code
  reading := w.engine.balanceCache.map fun x => (x.2.quantityOf code : ℤ)
  window := window k w.engine code

def Balanced (h₀ : Code → ℤ) (k : Option Watch) (w : World) : Prop :=
  ∀ code, (meter h₀ k w code).Valid

/-- A fill lands on a stock while the engine watches it in the direction of the order. -/
def FillWatched (k : Option Watch) (w : World) : Event → Prop
  | .fill no shares _ => ∀ o ∈ w.broker.order? no, w.broker.Fillable o shares →
      (window k w.engine o.code).map Prod.fst = some o.side.direction
  | _ => True

def FillsWatched (k : Option Watch) : World → List Event → Prop
  | _, [] => True
  | w, e::es => FillWatched k w e ∧ FillsWatched k (w.happen e) es

/-- The baseline `_execute_buy` and `_execute_sell` assume when the snapshot fails. -/
def snapshotFallback (side : Side) (quantity : ℕ) : ℤ :=
  match side with
  | .buy => 0
  | .sell => quantity

/-- The condition on a call: fills land on watched stocks, a failed snapshot
falls back on the true holding, the holding is back at the saved quantity when a
pending order is cancelled, and the queue takes the trade. -/
def Conserving (r : Req) (reply : Reply) (w : World) : Prop :=
  FillsWatched (watchOf r) (w.tick reply.elapsed) reply.events ∧
  match r with
  | .balance (.snapshot code side quantity) => reply.outcome ≠ .ok →
      ((w.elapse reply).broker.holding code : ℤ) = snapshotFallback side quantity
  | .cancel code _ _ _ => ∀ p ∈ w.engine.pendingOrders.get? code,
      ((w.elapse reply).broker.holding code : ℤ) = p.qtyBefore
  | .enqueueTrade _ => reply.outcome = .ok
  | _ => True

instance (k : Option Watch) (w : World) (e : Event) : Decidable (FillWatched k w e) := by
  cases e <;> unfold FillWatched <;> infer_instance

instance FillsWatched.decidable (k : Option Watch) :
    (es : List Event) → (w : World) → Decidable (FillsWatched k w es)
  | [], _ => isTrue trivial
  | e::es, w => @instDecidableAnd _ _ inferInstance (FillsWatched.decidable k es (w.happen e))

instance (r : Req) (reply : Reply) (w : World) : Decidable (Conserving r reply w) := by
  unfold Conserving
  refine @instDecidableAnd _ _ (FillsWatched.decidable _ _ _) ?_
  split <;> infer_instance

theorem netRecorded_append (trades : List TradeRow) (row : TradeRow) (code : Code) :
    netRecorded (trades ++ [row]) code =
      netRecorded trades code + if row.stockCode = code then signedQuantity row else 0 := by
  by_cases h : row.stockCode = code <;> simp [netRecorded, List.filter_append, h]

/-! ### What waiting does -/

theorem balanced_tick {h₀ : Code → ℤ} {k : Option Watch} {w : World} (h : Balanced h₀ k w)
    (elapsed : Time) : Balanced h₀ k (w.tick elapsed) := h

theorem balanced_fill {h₀ : Code → ℤ} {k : Option Watch} {w : World} (h : Balanced h₀ k w)
    {no shares : ℕ} {price : ℚ} (hf : FillWatched k w (.fill no shares price)) :
    Balanced h₀ k (w.happen (.fill no shares price)) := by
  obtain hsame | ⟨o, ho, hfillable, heq⟩ := w.broker.fill_cases no shares price
  · intro code
    simpa [meter, World.happen, hsame] using h code
  · intro code
    have hlevel : ((w.broker.fill no shares price).holding code : ℤ) =
        w.broker.holding code + if code = o.code then o.side.direction.sign * shares else 0 := by
      rw [heq]
      exact Broker.holding_settle _ o price code hfillable.2.2.2
    by_cases hc : code = o.code
    · subst hc
      have hw := hf o ho hfillable
      obtain ⟨⟨d, base⟩, hwin, hd⟩ := Option.map_eq_some_iff.mp hw
      have hchange : 0 ≤ d.sign * (o.side.direction.sign * shares) := by
        simp only at hd
        rw [hd]
        cases o.side.direction <;> simp [Direction.sign]
      have hdrift := (h o.code).drift hwin hchange
      simpa [meter, Meter.drift, World.happen, hlevel] using hdrift
    · simpa [meter, World.happen, hlevel, hc] using h code

theorem balanced_happen {h₀ : Code → ℤ} {k : Option Watch} {w : World} (h : Balanced h₀ k w)
    {e : Event} (hf : FillWatched k w e) : Balanced h₀ k (w.happen e) := by
  cases e with
  | fill no shares price => exact balanced_fill h hf
  | _ => exact h

theorem balanced_elapse {h₀ : Code → ℤ} {k : Option Watch} {w : World} (h : Balanced h₀ k w)
    {reply : Reply} (hf : FillsWatched k (w.tick reply.elapsed) reply.events) :
    Balanced h₀ k (w.elapse reply) := by
  unfold World.elapse
  have ht := balanced_tick h reply.elapsed
  generalize w.tick reply.elapsed = v at hf ht
  generalize reply.events = events at hf
  induction events generalizing v with
  | nil => exact ht
  | cons e es ih => exact ih _ (balanced_happen ht hf.1) hf.2

/-! ### What the engine's procedures do -/

abbrev Ensures {α : Type} (p : EngineM α) (Q : α → World → Prop) (w : World) : Prop :=
  wp serve Conserving (fun _ _ => True) p Q w

/-- The cache holds what the broker reports at this moment for the stock. -/
def Current (w : World) (code : Code) : Prop :=
  w.engine.balanceCache.map (fun x => (x.2.quantityOf code : ℤ)) = some (w.broker.holding code : ℤ)

theorem balanced_storeBalance {h₀ : Code → ℤ} {k : Option Watch} {w : World}
    (h : Balanced h₀ k w) (cfg : Settings) (now : Time) :
    Balanced h₀ k (onEngine (storeBalance cfg now w.broker.report) w) := by
  intro code
  have hobs := (h code).observe
  simpa [meter, Meter.observe, onEngine, storeBalance, Broker.report_quantityOf, window,
    pendingWindow] using hobs

theorem balanced_invalidate {h₀ : Code → ℤ} {k : Option Watch} {w : World}
    (h : Balanced h₀ k w) : Balanced h₀ k (onEngine invalidateBalanceCache w) := by
  intro code
  exact (h code).forget

theorem confirmFill_spec (cfg : Settings) {h₀ : Code → ℤ} {k : Option Watch} (site : Site)
    (hk : watchOf (.balance site) = k) (code : Code) (side : Side) (qtyBefore : ℤ) (retries : ℕ)
    {w : World} (h : Balanced h₀ k w) :
    Ensures (confirmFill cfg site code side qtyBefore retries) (fun filled w' =>
      Balanced h₀ k w' ∧ w'.engine.pendingOrders = w.engine.pendingOrders ∧
      (0 < filled → Current w' code ∧
        filled = side.direction.sign * (w'.broker.holding code - qtyBefore))) w := by
  refine confirmFill_rule cfg site code side qtyBefore retries
    (I := fun v => Balanced h₀ k v ∧ v.engine.pendingOrders = w.engine.pendingOrders)
    ⟨h, rfl⟩ (fun _ _ => trivial) ?_ ?_ (by simp)
  · rintro v reply ⟨hv, hpend⟩ hrely _
    exact ⟨balanced_elapse hv (hk ▸ hrely.1), by simp [hpend]⟩
  · rintro v reply ⟨hv, hpend⟩ hrely _
    have hstored := balanced_storeBalance (balanced_elapse hv (hk ▸ hrely.1)) cfg v.clock
    have hpend' : (storeBalance cfg v.clock (v.elapse reply).broker.report v.engine).pendingOrders =
        w.engine.pendingOrders := hpend
    simp only
    split_ifs with hpos
    · refine ⟨hstored, by simp [onEngine, hpend'], fun _ => ⟨?_, ?_⟩⟩
      · simp [Current, onEngine, storeBalance, Broker.report_quantityOf]
      · cases side <;> simp [filledBy, Side.direction, Direction.sign, onEngine]
    · exact ⟨hstored, by simp [onEngine, hpend']⟩

theorem book_spec {h₀ : Code → ℤ} {k : Option Watch} {w : World} (h : Balanced h₀ k w)
    {code : Code} {side : Side} {qtyBefore filled : ℤ}
    (hk : ∀ x ∈ k, x.code = code)
    (hwin : window k w.engine code = some (side.direction, qtyBefore))
    (hcur : Current w code)
    (hfilled : filled = side.direction.sign * (w.broker.holding code - qtyBefore))
    {f : Time → Engine → Engine × TradeRow} (hf : Books code side filled f) :
    Ensures (book f) (fun _ w' => Balanced h₀ none w' ∧
      w'.engine.pendingOrders = w.engine.pendingOrders.pop code) w := by
  simp only [book, wp_bind, wp_get, wp_modify, wp_ask, true_and]
  intro reply hrely
  obtain ⟨hcode, hside, hqty, -⟩ := hf.row w.clock w.engine
  have hpend := hf.pendingOrders w.clock w.engine
  have hcache := hf.balanceCache w.clock w.engine
  have hsigned : signedQuantity (f w.clock w.engine).2 = w.broker.holding code - qtyBefore := by
    rw [signedQuantity, hside, hqty, hfilled]
    cases side <;> simp [Side.direction, Direction.sign]
  -- the books run ahead of the table until the queue has taken the row
  have hahead : Balanced
      (fun c => h₀ c + if code = c then w.broker.holding code - qtyBefore else 0) none
      (applyBooking f w) := by
    intro c
    by_cases hc : code = c
    · subst hc
      have hbook := (h code).book hwin hcur
      convert hbook using 1
      simp only [meter, Meter.book, applyBooking_engine, applyBooking_broker, applyBooking_trades,
        hcache, window, pendingWindow, hpend]
      simp
      ring
    · have hother : window k w.engine c = pendingWindow w.engine c := by
        cases k with
        | none => rfl
        | some x => simp [window, hk x rfl, hc]
      have hc' : c ≠ code := Ne.symm hc
      have hmc := h c
      simp only [meter, hother] at hmc
      simpa [meter, hcache, hc, window, pendingWindow, hpend, hc'] using hmc
  have he := balanced_elapse hahead hrely.1
  have hok : reply.outcome = .ok := hrely.2
  simp only [serve, World.answer, hok, if_true]
  refine ⟨fun c => ?_, by simp [hpend]⟩
  have hc := he c
  simp only [meter, netRecorded_append, hcode, hsigned] at hc ⊢
  convert hc using 2
  ring

/-- Cancelling a registered order settles its stock and touches no other one. -/
theorem cancelPendingOrder_spec (cfg : Settings) (hcfg : cfg.reconcileOrphanFills = true)
    {h₀ : Code → ℤ} {w : World} (h : Balanced h₀ none w) {code : Code} {pending : PendingOrder}
    (hp : w.engine.pendingOrders.get? code = some pending) :
    Ensures (cancelPendingOrder cfg code pending) (fun _ w' => Balanced h₀ none w' ∧
      w'.engine.pendingOrders = w.engine.pendingOrders.pop code) w := by
  simp only [cancelPendingOrder, hcfg, if_true, reconcileOrphanFill, wp_bind]
  refine wp_mono (confirmFill_spec cfg _ rfl code pending.side pending.qtyBefore 1 h) ?_
  rintro filled w₁ ⟨h₁, hpend, hfill⟩
  change Balanced h₀ none w₁ at h₁
  have hp₁ : w₁.engine.pendingOrders.get? code = some pending := by rw [hpend, hp]
  have hwin : window none w₁.engine code = some (pending.side.direction, pending.qtyBefore) := by
    simp [window, pendingWindow, hp₁]
  by_cases hf : filled ≤ 0
  · simp only [hf, if_true, wp_pure, Bool.false_eq_true, if_false, wp_bind, wp_get, wp_ask,
      wp_modify, true_and]
    intro reply hrely
    have he : Balanced h₀ none (w₁.elapse reply) := balanced_elapse h₁ hrely.1
    have hlevel := hrely.2 pending hp₁
    have hdone : Balanced h₀ none (onEngine (popPending code) (w₁.elapse reply)) := by
      intro c
      by_cases hc : c = code
      · subst hc
        have hwin' : (meter h₀ none (w₁.elapse reply) c).window =
            some (pending.side.direction, pending.qtyBefore) := by
          simpa [meter] using hwin
        have habandon := (he c).abandon hwin' hlevel
        simpa [meter, Meter.abandon, onEngine, popPending, window, pendingWindow] using habandon
      · simpa [meter, onEngine, popPending, window, pendingWindow, hc] using he c
    cases ho : reply.outcome <;>
      simp only [serve, World.answer, ho] <;>
      exact ⟨hdone, by simp [onEngine, popPending, hpend]⟩
  · have hpos : 0 < filled := by omega
    obtain ⟨hcur, heq⟩ := hfill hpos
    simp only [hf, if_false, wp_bind]
    refine wp_mono (book_spec h₁ (by simp) hwin hcur heq
      (books_orphanConfirmed cfg code pending filled)) ?_
    rintro _ w₂ ⟨h₂, hpop⟩
    simp only [wp_pure, if_true]
    exact ⟨h₂, by rw [hpop, hpend]⟩

theorem suppressOrReplacePending_spec (cfg : Settings) (hcfg : cfg.reconcileOrphanFills = true)
    {h₀ : Code → ℤ} {w : World} (h : Balanced h₀ none w) (code : Code) :
    Ensures (suppressOrReplacePending cfg code) (fun suppressed w' => Balanced h₀ none w' ∧
      (suppressed = false → w'.engine.pendingOrders.get? code = none)) w := by
  simp only [suppressOrReplacePending, wp_bind, wp_get]
  cases hp : w.engine.pendingOrders.get? code with
  | none => simpa [hp] using h
  | some pending =>
    simp only
    split_ifs with hage
    · simpa using h
    · simp only [wp_bind]
      refine wp_mono (cancelPendingOrder_spec cfg hcfg h hp) ?_
      rintro _ w' ⟨h', hpop⟩
      simp only [wp_pure]
      exact ⟨h', fun _ => by simp [hpop]⟩

/-- While the stock is not watched, the snapshot is the holding. -/
theorem snapshotQuantity_spec (cfg : Settings) {h₀ : Code → ℤ} {w : World}
    (h : Balanced h₀ none w) (side : Side) (code : Code) (quantity : ℕ)
    (hfree : w.engine.pendingOrders.get? code = none) :
    Ensures (snapshotQuantity cfg side code quantity (snapshotFallback side quantity))
      (fun q w' => Balanced h₀ none w' ∧ w'.engine.pendingOrders = w.engine.pendingOrders ∧
        q = w'.broker.holding code) w := by
  simp only [snapshotQuantity, holdingQuantity, wp_bind]
  refine getBalance_rule cfg _ false trivial ?_ ?_ ?_
  · intro b _ hcache
    have hwin : (meter h₀ none w code).window = none := by
      simp [meter, window, pendingWindow, hfree]
    obtain ⟨t, ht⟩ := freshCache_some hcache
    exact ⟨h, rfl, (h code).reading_eq hwin (by simp [meter, ht])⟩
  · intro reply e hrely hbad
    exact ⟨balanced_elapse h hrely.1, by simp, (hrely.2 hbad).symm⟩
  · intro reply hrely _
    refine ⟨balanced_storeBalance (balanced_elapse h hrely.1) cfg _, ?_, ?_⟩
    · simp [onEngine, storeBalance]
    · simp [onEngine, Broker.report_quantityOf]

theorem confirmAccepted_spec (cfg : Settings) {h₀ : Code → ℤ} {w : World}
    (h : Balanced h₀ none w) (side : Side) (code : Code) (quantity : ℕ) (price : ℚ)
    (avgPrice : Option ℚ) {confirmed : Time → ℤ → Engine → Engine × TradeRow}
    (hconf : ∀ filled, Books code side filled fun now => confirmed now filled) {qtyBefore : ℤ}
    (hfree : w.engine.pendingOrders.get? code = none) (hbase : qtyBefore = w.broker.holding code)
    (orderNo : ℕ) :
    Ensures (confirmAccepted cfg side code quantity price avgPrice confirmed qtyBefore orderNo)
      (fun _ w' => Balanced h₀ none w') w := by
  simp only [confirmAccepted, wp_bind, wp_modify]
  have hwatch : Balanced h₀ (some ⟨code, side, qtyBefore⟩) w := by
    intro c
    by_cases hc : code = c
    · subst hc
      have hwin : (meter h₀ none w code).window = none := by
        simp [meter, window, pendingWindow, hfree]
      have hopen := (h code).openWindow hwin side.direction hbase
      simpa [meter, Meter.openWindow, window] using hopen
    · simpa [meter, window, hc] using h c
  refine wp_mono (confirmFill_spec cfg _ rfl code side qtyBefore 3
    (balanced_invalidate hwatch)) ?_
  rintro filled w₁ ⟨h₁, hpend, hfill⟩
  change Balanced h₀ (some ⟨code, side, qtyBefore⟩) w₁ at h₁
  have hwin₁ : window (some ⟨code, side, qtyBefore⟩) w₁.engine code =
      some (side.direction, qtyBefore) := by simp [window]
  split
  · -- unfilled: the registered order takes over the window
    simp only [wp_bind, wp_get, wp_modify]
    intro c
    have hc₁ := h₁ c
    by_cases hc : code = c
    · subst hc
      simpa [meter, onEngine, trackPending, window, pendingWindow] using hc₁
    · have hc' : c ≠ code := Ne.symm hc
      simpa [meter, onEngine, trackPending, window, pendingWindow, hc, hc'] using hc₁
  · have hpos : 0 < filled := by omega
    obtain ⟨hcur, heq⟩ := hfill hpos
    simp only [wp_bind]
    refine wp_mono (book_spec h₁ (by simp) hwin₁ hcur heq (hconf filled)) ?_
    rintro _ w₂ ⟨h₂, -⟩
    split
    · simp only [wp_bind]
      refine getBalance_rule cfg _ false trivial (fun _ _ _ => h₂) ?_ ?_
      · intro reply _ hrely _
        exact balanced_elapse h₂ hrely.1
      · intro reply hrely _
        exact balanced_storeBalance (balanced_elapse h₂ hrely.1) cfg _
    · exact h₂

theorem placeAndConfirm_spec (cfg : Settings) {h₀ : Code → ℤ} {w : World}
    (h : Balanced h₀ none w) (side : Side) (code : Code) (quantity : ℕ) (price : ℚ)
    (avgPrice : Option ℚ) {onUntradable : Engine → Engine}
    {confirmed : Time → ℤ → Engine → Engine × TradeRow}
    (hfree : w.engine.pendingOrders.get? code = none)
    (hun : ∀ w, Balanced h₀ none w → Balanced h₀ none (onEngine onUntradable w))
    (hconf : ∀ filled, Books code side filled fun now => confirmed now filled) :
    Ensures (placeAndConfirm cfg side code quantity price avgPrice
      (snapshotFallback side quantity) onUntradable confirmed)
      (fun _ w' => Balanced h₀ none w') w := by
  simp only [placeAndConfirm, wp_bind]
  refine wp_mono (snapshotQuantity_spec cfg h side code quantity hfree) ?_
  rintro qtyBefore w₁ ⟨h₁, hpend, hbase⟩
  simp only [wp_bind, wp_get, wp_ask, true_and]
  intro reply hrely
  have he : Balanced h₀ none (w₁.elapse reply) := balanced_elapse h₁ hrely.1
  have hfree₁ : (w₁.elapse reply).engine.pendingOrders.get? code = none := by
    simp [hpend, hfree]
  -- the books did not move during the call and no window is open, so the holding did not
  have hbase' : qtyBefore = (w₁.elapse reply).broker.holding code := by
    have hbefore := (h₁ code).booked_eq (by simp [meter, window, pendingWindow, hpend, hfree])
    have hafter := (he code).booked_eq (by simp [meter, window, pendingWindow, hpend, hfree])
    simp only [meter, World.elapse_trades] at hbefore hafter
    rw [hbase, ← hbefore, hafter]
  cases ho : reply.outcome with
  | ok =>
    simp only [serve, World.answer, ho]
    have haccept : Balanced h₀ none { w₁.elapse reply with
        broker := (w₁.elapse reply).broker.accept side code quantity
          (exchangeOf cfg w₁.engine code) } := he
    exact confirmAccepted_spec cfg haccept side code quantity price avgPrice hconf hfree₁ hbase' _
  | untradable =>
    simp only [serve, World.answer, ho]
    exact hun _ he
  | _ =>
    simp only [serve, World.answer, ho]
    exact balanced_invalidate he

theorem dbUnavailable_spec (cfg : Settings) {h₀ : Code → ℤ} {w : World} (h : Balanced h₀ none w) :
    Ensures (dbUnavailable cfg) (fun _ w' => Balanced h₀ none w' ∧
      w'.engine.pendingOrders = w.engine.pendingOrders) w := by
  unfold dbUnavailable
  split
  · simp only [wp_bind, wp_ask, wp_pure, true_and]
    intro reply hrely
    exact ⟨balanced_elapse h hrely.1, by simp [serve, World.answer]⟩
  · exact ⟨h, rfl⟩

theorem submitOrder_spec (cfg : Settings) (hcfg : cfg.reconcileOrphanFills = true)
    {h₀ : Code → ℤ} {w : World} (h : Balanced h₀ none w) (side : Side) (code : Code)
    (quantity : ℕ) (price : ℚ) (avgPrice : Option ℚ) {onUntradable : Engine → Engine}
    {confirmed : Time → ℤ → Engine → Engine × TradeRow}
    (hun : ∀ w, Balanced h₀ none w → Balanced h₀ none (onEngine onUntradable w))
    (hconf : ∀ filled, Books code side filled fun now => confirmed now filled) :
    Ensures (submitOrder cfg side code quantity price avgPrice
      (snapshotFallback side quantity) onUntradable confirmed)
      (fun _ w' => Balanced h₀ none w') w := by
  simp only [submitOrder, wp_bind]
  refine wp_mono (suppressOrReplacePending_spec cfg hcfg h code) ?_
  rintro suppressed w₁ ⟨h₁, hfree⟩
  cases suppressed with
  | true => exact h₁
  | false =>
    simp only [Bool.false_eq_true, if_false, wp_bind]
    refine wp_mono (dbUnavailable_spec cfg h₁) ?_
    rintro unavailable w₂ ⟨h₂, hpend⟩
    split
    · exact h₂
    · exact placeAndConfirm_spec cfg h₂ side code quantity price avgPrice
        (by rw [hpend, hfree rfl]) hun hconf

theorem buyBlocked_spec (cfg : Settings) {h₀ : Code → ℤ} {w : World} (h : Balanced h₀ none w)
    (code : Code) (price : ℚ) :
    Ensures (buyBlocked cfg code price) (fun _ w' => Balanced h₀ none w') w := by
  simp only [buyBlocked, wp_bind, wp_get]
  split_ifs
  · exact h
  · exact h
  · simp only [wp_bind, wp_ask, true_and]
    intro reply₁ hrely₁
    have h₁ := balanced_elapse h hrely₁.1
    split
    · exact h₁
    · simp only [wp_ask, true_and]
      intro reply₂ hrely₂
      exact balanced_elapse h₁ hrely₂.1

/-- The step lemma: every order operation keeps holdings and books in balance. -/
theorem perform_spec (cfg : Settings) (hcfg : cfg.reconcileOrphanFills = true) {h₀ : Code → ℤ}
    (op : OrderOp) {w : World} (h : Balanced h₀ none w) :
    Ensures (perform cfg op) (fun _ w' => Balanced h₀ none w') w := by
  cases op with
  | idle =>
    simp only [perform, wp_ask, true_and]
    intro reply hrely
    exact balanced_elapse h hrely.1
  | newCycle => exact h
  | buy code quantity price =>
    simp only [perform, executeBuy, wp_bind]
    refine wp_mono (buyBlocked_spec cfg h code price) ?_
    rintro blocked w₁ h₁
    split
    · exact h₁
    · exact submitOrder_spec cfg hcfg h₁ .buy code quantity price none (fun _ hw => hw)
        fun filled => books_buyConfirmed cfg code filled price
  | sell code quantity price reason avgPrice =>
    exact submitOrder_spec cfg hcfg h .sell code quantity price avgPrice
      (fun _ hw => balanced_invalidate hw)
      fun filled => books_sellConfirmed cfg code filled price reason avgPrice
  | cleanupStale =>
    exact cleanupStalePendingOrders_rule cfg 
      (fun _ _ _ hv hp => cancelPendingOrder_spec cfg hcfg hv hp) h
  | cancelAll =>
    exact cancelAllPendingOrders_rule cfg 
      (fun _ _ _ hv hp => cancelPendingOrder_spec cfg hcfg hv hp) h

/-! ### Runs -/

/-- The engine starts without registered orders and without a cached balance. -/
def Start (w : World) : Prop :=
  w.engine.pendingOrders.items = [] ∧ w.engine.balanceCache = none

theorem balanced_start {w : World} (h : Start w) :
    Balanced (fun code => w.broker.holding code - netRecorded w.trades code) none w := by
  intro code
  have hfree : w.engine.pendingOrders.get? code = none := by simp [Dict.get?, h.1, lookup]
  simp [Meter.Valid, meter, window, pendingWindow, hfree, h.2]

theorem Balanced.conserved {w₀ w : World}
    (h : Balanced (fun code => w₀.broker.holding code - netRecorded w₀.trades code) none w) :
    Conserved w₀ w := by
  intro code hfree _
  have hbooked := (h code).booked_eq (by simp [meter, window, pendingWindow, hfree])
  simp only [meter] at hbooked
  omega

/-- Every run whose calls meet the condition conserves the fills of every stock. -/
theorem fills_conserved (cfg : Settings) (hcfg : cfg.reconcileOrphanFills = true)
    (jobs : List (OrderOp × Tape)) (w : World) (hstart : Start w)
    (hrun : RunMeets serve (perform cfg) Conserving jobs w) :
    Conserved w (run serve (perform cfg) jobs w) := by
  have hinv := run_invariant
    (I := Balanced (fun code => w.broker.holding code - netRecorded w.trades code) none)
    (fun op v hv => perform_spec cfg hcfg op hv) (balanced_start hstart) hrun
  exact hinv.2.conserved

/-- An order that fills in two pieces after its polls; the closing cancellation books both. -/
def lateFillRun : List (OrderOp × Tape) := [
  (.buy "005930" 10 1000, tapeOf []),
  (.idle, tapeOf [{ events := [.fill 0 6 1000, .fill 0 4 1000] }]),
  (.cancelAll, tapeOf [])]

theorem fills_conserved_lateFill :
    Conserved paperWorld (run serve (perform paperSettings) lateFillRun paperWorld) :=
  fills_conserved paperSettings rfl lateFillRun paperWorld ⟨rfl, rfl⟩ (by decide +kernel)

/-- An order whose first piece is seen by a poll and whose second piece comes later. -/
def partialFillRun : List (OrderOp × Tape) := [
  (.buy "005930" 10 1000, tapeOf [{}, {}, {}, {}, { events := [.fill 0 4 1000] }]),
  (.idle, tapeOf [{ events := [.fill 0 6 1000] }])]

/-- The remainder of a partially confirmed order goes unrecorded. -/
theorem partialFill_not_conserved :
    ¬ ∀ (cfg : Settings) (jobs : List (OrderOp × Tape)) (w : World),
      cfg.reconcileOrphanFills = true → Start w →
        Conserved w (run serve (perform cfg) jobs w) := by
  intro h
  have hc := h paperSettings partialFillRun paperWorld rfl ⟨rfl, rfl⟩ "005930"
  revert hc
  decide +kernel

end KisAutotrader.FillConservation
