import KisAutotrader.OrderRules

/-!
# No untracked live order

Every live order is either registered under its stock or just being confirmed.
-/
namespace KisAutotrader.OrderTracking
open OrderedDict Coroutine OrderExecution OrderRules

/-- Every live order is registered under its stock. -/
def AllTracked (w : World) : Prop :=
  ∀ o ∈ w.broker.orders, o.live = true →
    (w.engine.pendingOrders.get? o.code).map PendingOrder.orderNo = some o.no

/-- A stock never has two live orders at once. -/
def SingleLive (w : World) : Prop :=
  ∀ o ∈ w.broker.orders, ∀ o' ∈ w.broker.orders, o.live = true → o'.live = true →
    o.code = o'.code → o = o'

def NoneLive (b : Broker) (code : Code) : Prop :=
  ∀ o ∈ b.orders, o.code = code → o.live = false

/-- The polls that look for a fill, and what they compare. -/
def pollOf : Site → Option (Code × Side × ℤ)
  | .confirm code side qtyBefore => some (code, side, qtyBefore)
  | .reconcile code side qtyBefore => some (code, side, qtyBefore)
  | _ => none

/-- The condition on a call: a poll sees a fill only of a finished order, a
placement never takes effect without an answer, and after a cancel call the order
is not live, whether the call succeeded or the order had filled. -/
def Tracking (r : Req) (reply : Reply) (w : World) : Prop :=
  match r with
  | .balance site => ∀ x ∈ pollOf site, reply.outcome = .ok →
      0 < filledBy x.2.1 x.2.2 ((w.elapse reply).broker.holding x.1) →
      NoneLive (w.elapse reply).broker x.1
  | .place .. => reply.outcome ≠ .lost
  | .cancel _ orderNo _ _ =>
      ∀ o ∈ (serve r reply w).2.broker.orders, o.no = orderNo → o.live = false
  | _ => True

instance (b : Broker) (code : Code) : Decidable (NoneLive b code) := by
  unfold NoneLive
  infer_instance

instance (r : Req) (reply : Reply) (w : World) : Decidable (Tracking r reply w) :=
  match r with
  | .balance site => inferInstanceAs (Decidable (∀ x ∈ pollOf site, _ → _ → _))
  | .place .. => inferInstanceAs (Decidable (_ ≠ _))
  | .cancel .. => inferInstanceAs (Decidable (∀ o ∈ (serve _ reply w).2.broker.orders, _ → _))
  | .idle | .marketActionBlock _ | .disclosureRiskBlock _ | .dbHealthcheck | .enqueueTrade _
  | .loadTrades | .loadPeaks | .daily _ | .quote .. | .analyze .. | .buyable .. | .setOrder _
  | .loadScreening | .stockMarkets _ | .accessToken | .prefetch | .executions | .enqueueSync .. =>
      isTrue trivial

abbrev Ensures {α : Type} (p : EngineM α) (Q : α → World → Prop) (w : World) : Prop :=
  wp serve Tracking (fun _ _ => True) p Q w

/-- The invariant; `k` is the accepted order that is being confirmed. -/
structure Tracked (k : Option (Code × ℕ)) (w : World) : Prop where
  live : ∀ o ∈ w.broker.orders, o.live = true →
    (w.engine.pendingOrders.get? o.code).map PendingOrder.orderNo = some o.no ∨
      k = some (o.code, o.no)
  fresh : ∀ o ∈ w.broker.orders, o.no < w.broker.nextNo
  nodup : (w.broker.orders.map BrokerOrder.no).Nodup

namespace Tracked

theorem evolve {k : Option (Code × ℕ)} {w w' : World} (h : Tracked k w)
    (hpend : w'.engine.pendingOrders = w.engine.pendingOrders)
    (hev : Broker.Evolved w.broker w'.broker) : Tracked k w' := by
  refine ⟨fun o' ho' hl => ?_, fun o' ho' => ?_, hev.nos ▸ h.nodup⟩
  · obtain ⟨o, ho, hno, hcode, hlive⟩ := hev.live o' ho' hl
    rw [hpend, ← hno, ← hcode]
    exact h.live o ho hlive
  · have hmem : o'.no ∈ w.broker.orders.map BrokerOrder.no := by
      rw [← hev.nos]
      exact List.mem_map_of_mem ho'
    obtain ⟨o, ho, hno⟩ := List.mem_map.mp hmem
    rw [hev.nextNo, ← hno]
    exact h.fresh o ho

theorem elapse {k : Option (Code × ℕ)} {w : World} (h : Tracked k w) (reply : Reply) :
    Tracked k (w.elapse reply) :=
  h.evolve (by simp) (w.elapse_evolved reply)

theorem single {w : World} (h : Tracked none w) : SingleLive w := by
  intro o ho o' ho' hl hl' hcode
  have hreg : ∀ x ∈ w.broker.orders, x.live = true →
      (w.engine.pendingOrders.get? x.code).map PendingOrder.orderNo = some x.no :=
    fun x hx hlx => (h.live x hx hlx).resolve_right (by simp)
  have hno : o.no = o'.no := by
    have heq := (hreg o ho hl).symm.trans (hcode ▸ hreg o' ho' hl')
    exact Option.some.inj heq
  exact List.inj_on_of_nodup_map h.nodup ho ho' hno

theorem allTracked {w : World} (h : Tracked none w) : AllTracked w :=
  fun o ho hl => (h.live o ho hl).resolve_right (by simp)

/-- Dropping a stock without live orders from the registry. -/
theorem pop {k : Option (Code × ℕ)} {w w' : World} {code : Code} (h : Tracked k w)
    (hk : ∀ x ∈ k, x.1 = code) (hpend : w'.engine.pendingOrders = w.engine.pendingOrders.pop code)
    (hbroker : w'.broker = w.broker) (hnone : NoneLive w.broker code) : Tracked none w' := by
  refine ⟨fun o ho hl => ?_, by rw [hbroker]; exact h.fresh, by rw [hbroker]; exact h.nodup⟩
  rw [hbroker] at ho
  have hne : o.code ≠ code := fun hc => by simp [hnone o ho hc] at hl
  rcases h.live o ho hl with hreg | hk'
  · left
    rw [hpend, Dict.get?_pop_ne _ hne]
    exact hreg
  · exact absurd (hk _ hk') hne

end Tracked

theorem tracked_steady (k : Option (Code × ℕ)) (pendings : Dict Code PendingOrder) :
    Steady Tracking (fun _ _ => True)
      (fun w => Tracked k w ∧ w.engine.pendingOrders = pendings) := by
  refine ⟨fun _ _ _ _ => trivial, fun r reply w _ h _ => ⟨h.1.elapse reply, by simp [h.2]⟩, ?_⟩
  intro f w hf h
  obtain ⟨_, _, _, _, _, heq⟩ := hf w.engine
  have hpend : (f w.engine).pendingOrders = w.engine.pendingOrders := by rw [heq]
  exact ⟨h.1.evolve hpend (Broker.Evolved.refl _), hpend.trans h.2⟩

theorem confirmFill_spec (cfg : Settings) {k : Option (Code × ℕ)} (site : Site) (code : Code)
    (side : Side) (qtyBefore : ℤ) (hsite : pollOf site = some (code, side, qtyBefore))
    (retries : ℕ) {w : World} (h : Tracked k w) :
    Ensures (confirmFill cfg site code side qtyBefore retries) (fun filled w' =>
      Tracked k w' ∧ w'.engine.pendingOrders = w.engine.pendingOrders ∧
      (0 < filled → NoneLive w'.broker code)) w := by
  refine wp_mono ((tracked_steady k w.engine.pendingOrders).confirmFill cfg site code side qtyBefore
    retries (P := fun _ v => NoneLive v.broker code) ⟨h, rfl⟩ ?_) ?_
  · intro v reply _ hrely hok filled hpos
    exact hrely _ hsite hok hpos
  · intro filled v hv
    exact ⟨hv.1.1, hv.1.2, hv.2⟩

theorem NoneLive.evolve {b b' : Broker} {code : Code} (h : NoneLive b code)
    (hev : Broker.Evolved b b') : NoneLive b' code := by
  intro o' ho' hcode
  cases hl : o'.live with
  | false => rfl
  | true =>
    obtain ⟨o, ho, -, hc, hlive⟩ := hev.live o' ho' hl
    rw [h o ho (hc.trans hcode)] at hlive
    contradiction

theorem serve_cancel (code : Code) (orderNo quantity : ℕ) (exchange : String) (reply : Reply)
    (w : World) :
    (serve (.cancel code orderNo quantity exchange) reply w).2.engine = w.engine ∧
      Broker.Evolved w.broker (serve (.cancel code orderNo quantity exchange) reply w).2.broker := by
  have hev := w.elapse_evolved reply
  cases ho : reply.outcome <;> simp only [serve, World.answer, ho] <;>
    exact ⟨by simp, by first | exact hev | exact hev.trans (Broker.evolved_cancel _ _)⟩

theorem book_spec {k : Option (Code × ℕ)} {w : World} {code : Code} (h : Tracked k w)
    (hk : ∀ x ∈ k, x.1 = code) (hnone : NoneLive w.broker code)
    {side : Side} {filled : ℤ} {f : Time → Engine → Engine × TradeRow}
    (hf : Books code side filled f) :
    Ensures (book f) (fun _ w' => Tracked none w' ∧ NoneLive w'.broker code ∧
      w'.engine.pendingOrders = w.engine.pendingOrders.pop code) w := by
  simp only [book, wp_bind, wp_get, wp_modify, wp_ask, true_and]
  intro reply _
  have hpop : Tracked none (applyBooking f w) :=
    h.pop hk (hf.pendingOrders w.clock w.engine) rfl hnone
  have hdone := hpop.elapse reply
  have hnone' : NoneLive ((applyBooking f w).elapse reply).broker code :=
    NoneLive.evolve (b := w.broker) hnone
      (World.elapse_evolved (applyBooking f w) reply)
  refine ⟨hdone.evolve ?_ ?_, ?_, ?_⟩
  all_goals
    simp only [serve, World.answer]
    split
  · rfl
  · rfl
  · exact Broker.Evolved.refl _
  · exact Broker.Evolved.refl _
  · exact hnone'
  · exact hnone'
  · simp [hf.pendingOrders]
  · simp [hf.pendingOrders]

/-- Cancelling a registered order leaves no live order of its stock. -/
theorem cancelPendingOrder_spec (cfg : Settings) {w : World} (h : Tracked none w) {code : Code}
    {pending : PendingOrder} (hp : w.engine.pendingOrders.get? code = some pending) :
    Ensures (cancelPendingOrder cfg code pending) (fun _ w' => Tracked none w' ∧
      NoneLive w'.broker code ∧
      w'.engine.pendingOrders = w.engine.pendingOrders.pop code) w := by
  have hcancel : ∀ v, Tracked none v → v.engine.pendingOrders = w.engine.pendingOrders →
      Ensures (do
        let u ← get
        let _ ← cancelOrder code pending.orderNo pending.quantity (exchangeOf cfg u.engine code)
        modify (onEngine (popPending code)))
      (fun _ w' => Tracked none w' ∧ NoneLive w'.broker code ∧
        w'.engine.pendingOrders = w.engine.pendingOrders.pop code) v := by
    intro v hv hpend
    simp only [wp_bind, wp_get, wp_ask, wp_modify, true_and]
    intro reply hrely
    obtain ⟨heng, hev⟩ := serve_cancel code pending.orderNo pending.quantity
      (exchangeOf cfg v.engine code) reply v
    have hnone : NoneLive (serve (.cancel code pending.orderNo pending.quantity
        (exchangeOf cfg v.engine code)) reply v).2.broker code := by
      intro o ho hcode
      cases hl : o.live with
      | false => rfl
      | true =>
        -- a live order of the stock is the registered one, which is not live any more
        obtain ⟨o₀, ho₀, hno, hcode₀, hl₀⟩ := hev.live o ho hl
        have hreg := hv.allTracked o₀ ho₀ hl₀
        rw [hcode₀, hcode, hpend, hp] at hreg
        have hpno : pending.orderNo = o.no := by simpa [hno] using hreg
        rw [hrely o ho hpno.symm] at hl
        contradiction
    refine ⟨(hv.evolve (by rw [heng]) hev).pop (by simp) rfl rfl hnone, hnone, ?_⟩
    simp [onEngine, popPending, hpend]
  unfold cancelPendingOrder
  split_ifs
  · simp only [reconcileOrphanFill, wp_bind]
    refine wp_mono (confirmFill_spec cfg _ code pending.side pending.qtyBefore rfl 1 h) ?_
    rintro filled w₁ ⟨h₁, hpend, hnone⟩
    split_ifs with hfilled
    · exact hcancel w₁ h₁ hpend
    · simp only [wp_bind]
      refine wp_mono (book_spec h₁ (by simp) (hnone (by omega))
        (books_orphanConfirmed cfg code pending filled)) ?_
      rintro _ w₂ ⟨h₂, hnone₂, hpop⟩
      simp only [wp_pure, if_true]
      exact ⟨h₂, hnone₂, by rw [hpop, hpend]⟩
  · exact hcancel w h rfl

theorem suppressOrReplacePending_spec (cfg : Settings) {w : World} (h : Tracked none w)
    (code : Code) :
    Ensures (suppressOrReplacePending cfg code) (fun suppressed w' => Tracked none w' ∧
      (suppressed = false → NoneLive w'.broker code ∧
        w'.engine.pendingOrders.get? code = none)) w := by
  simp only [suppressOrReplacePending, wp_bind, wp_get]
  cases hp : w.engine.pendingOrders.get? code with
  | none =>
    refine ⟨h, fun _ => ⟨fun o ho hcode => ?_, hp⟩⟩
    cases hl : o.live with
    | false => rfl
    | true =>
      have hreg := h.allTracked o ho hl
      rw [hcode, hp] at hreg
      contradiction
  | some pending =>
    simp only
    split_ifs with hage
    · simpa using h
    · simp only [wp_bind]
      refine wp_mono (cancelPendingOrder_spec cfg h hp) ?_
      rintro _ w' ⟨h', hnone, hpop⟩
      simp only [wp_pure]
      exact ⟨h', fun _ => ⟨hnone, by simp [hpop]⟩⟩

/-- An accepted order is registered unless its confirmation saw it finished. -/
theorem confirmAccepted_spec (cfg : Settings) (side : Side) (code : Code) (quantity : ℕ)
    (price : ℚ) (avgPrice : Option ℚ) {confirmed : Time → ℤ → Engine → Engine × TradeRow}
    (hconf : ∀ filled, Books code side filled fun now => confirmed now filled)
    (qtyBefore : ℤ) (orderNo : ℕ) {w : World} (h : Tracked (some (code, orderNo)) w)
    (hfree : w.engine.pendingOrders.get? code = none) :
    Ensures (confirmAccepted cfg side code quantity price avgPrice confirmed qtyBefore orderNo)
      (fun _ w' => Tracked none w') w := by
  simp only [confirmAccepted, wp_bind, wp_modify]
  have hinv : Tracked (some (code, orderNo)) (onEngine invalidateBalanceCache w) :=
    h.evolve rfl (Broker.Evolved.refl _)
  refine wp_mono (confirmFill_spec cfg _ code side qtyBefore rfl 3 hinv) ?_
  rintro filled w₁ ⟨h₁, hpend, hnone⟩
  have hfree₁ : w₁.engine.pendingOrders.get? code = none := by rw [hpend]; exact hfree
  split
  · simp only [wp_bind, wp_get, wp_modify]
    refine ⟨fun o ho hl => Or.inl ?_, h₁.fresh, h₁.nodup⟩
    rcases h₁.live o ho hl with hreg | hk
    · have hne : o.code ≠ code := by
        rintro hc
        rw [hc, hfree₁] at hreg
        contradiction
      simpa [onEngine, trackPending, hne] using hreg
    · obtain ⟨hcode, hno⟩ := Prod.mk.inj (Option.some.inj hk)
      simp [onEngine, trackPending, ← hcode, hno]
  · simp only [wp_bind]
    refine wp_mono (book_spec h₁ (by simp) (hnone (by omega)) (hconf filled)) ?_
    rintro _ w₂ ⟨h₂, -, -⟩
    split
    · simp only [wp_bind]
      exact wp_mono ((tracked_steady none _).getBalance cfg _ false ⟨h₂, rfl⟩) fun _ _ hv => hv.1
    · exact h₂

theorem tracked_accept {w : World} (h : Tracked none w) (side : Side) (code : Code)
    (quantity : ℕ) (exchange : String) :
    Tracked (some (code, w.broker.nextNo))
      { w with broker := w.broker.accept side code quantity exchange } := by
  refine ⟨fun o ho hl => ?_, fun o ho => ?_, ?_⟩
  · rcases List.mem_append.mp ho with hold | hnew
    · exact Or.inl (h.allTracked o hold hl)
    · rw [List.mem_singleton.mp hnew]
      exact Or.inr rfl
  · rcases List.mem_append.mp ho with hold | hnew
    · exact (h.fresh o hold).trans (Nat.lt_succ_self _)
    · rw [List.mem_singleton.mp hnew]
      exact Nat.lt_succ_self _
  · have hnew : w.broker.nextNo ∉ w.broker.orders.map BrokerOrder.no := by
      intro hmem
      obtain ⟨o, ho, hno⟩ := List.mem_map.mp hmem
      have hlt := h.fresh o ho
      omega
    simp only [Broker.accept, List.map_append, List.map_cons, List.map_nil]
    exact h.nodup.append (List.nodup_singleton _) (List.disjoint_singleton.mpr hnew)

theorem submitOrder_spec (cfg : Settings) {w : World} (h : Tracked none w) (side : Side)
    (code : Code) (quantity : ℕ) (price : ℚ) (avgPrice : Option ℚ) (fallback : ℤ)
    {onUntradable : Engine → Engine} {confirmed : Time → ℤ → Engine → Engine × TradeRow}
    (hun : ∀ e, (onUntradable e).pendingOrders = e.pendingOrders)
    (hconf : ∀ filled, Books code side filled fun now => confirmed now filled) :
    Ensures (submitOrder cfg side code quantity price avgPrice fallback onUntradable confirmed)
      (fun _ w' => Tracked none w') w := by
  have hsteady : Steady Tracking (fun _ _ => True)
      (fun v => Tracked none v ∧ v.engine.pendingOrders.get? code = none) := by
    refine ⟨fun _ _ _ _ => trivial, fun r reply v hr hv hrely => ?_, fun f v hf hv => ?_⟩
    · exact ⟨hv.1.elapse reply, by simp [hv.2]⟩
    · have hkept := (tracked_steady none v.engine.pendingOrders).quiet f v hf ⟨hv.1, rfl⟩
      exact ⟨hkept.1, by rw [hkept.2, hv.2]⟩
  refine submitOrder_rule cfg hsteady side code quantity price avgPrice fallback h
    (fun hfree => ⟨h, hfree⟩) (fun v hv => hv.1) ?_ ?_
  · intro pending hp _
    refine wp_mono (cancelPendingOrder_spec cfg h hp) fun _ v hv => ?_
    exact ⟨hv.1, by simp [hv.2.2]⟩
  · intro v qtyBefore exchange hv
    refine ⟨trivial, fun reply hrely => ?_⟩
    have he := hv.1.elapse reply
    cases ho : reply.outcome with
    | ok =>
      simp only [serve, World.answer, ho]
      exact confirmAccepted_spec cfg side code quantity price avgPrice hconf qtyBefore _
        (tracked_accept he side code quantity _) (by simp [hv.2])
    | lost => exact absurd ho hrely
    | untradable =>
      simp only [serve, World.answer, ho]
      exact he.evolve (hun _) (Broker.Evolved.refl _)
    | _ =>
      simp only [serve, World.answer, ho]
      exact he.evolve rfl (Broker.Evolved.refl _)

/-- The step lemma: every order operation keeps the live orders registered. -/
theorem perform_spec (cfg : Settings) (op : OrderOp) {w : World} (h : Tracked none w) :
    Ensures (perform cfg op) (fun _ w' => Tracked none w') w := by
  have hone : ∀ w code pending, Tracked none w →
      w.engine.pendingOrders.get? code = some pending →
      Ensures (cancelPendingOrder cfg code pending) (fun _ w' => Tracked none w' ∧
        w'.engine.pendingOrders = w.engine.pendingOrders.pop code) w := by
    intro w code pending hw hp
    refine wp_mono (cancelPendingOrder_spec cfg hw hp) ?_
    rintro _ w' ⟨hw', -, hpop⟩
    exact ⟨hw', hpop⟩
  cases op with
  | idle =>
    simp only [perform, wp_ask, true_and]
    intro reply _
    exact h.elapse reply
  | newCycle => exact h.evolve rfl (Broker.Evolved.refl _)
  | buy code quantity price =>
    simp only [perform, executeBuy, wp_bind]
    refine wp_mono ((tracked_steady none _).buyBlocked cfg code price ⟨h, rfl⟩) fun blocked w₁ h₁ => ?_
    split
    · exact h₁.1.1
    · refine submitOrder_spec cfg h₁.1.1 .buy code quantity price none 0 (fun _ => rfl) ?_
      exact fun filled => books_buyConfirmed cfg code filled price
  | sell code quantity price reason avgPrice =>
    refine submitOrder_spec cfg h .sell code quantity price avgPrice quantity (fun _ => rfl) ?_
    exact fun filled => books_sellConfirmed cfg code filled price reason avgPrice
  | cleanupStale => exact cleanupStalePendingOrders_rule cfg hone h
  | cancelAll => exact cancelAllPendingOrders_rule cfg hone h

/-! ### Runs -/

/-- The engine starts without registered orders, at a broker without orders. -/
def Start (w : World) : Prop := w.engine.pendingOrders.items = [] ∧ w.broker.orders = []

theorem tracked_start {w : World} (h : Start w) : Tracked none w := by
  refine ⟨?_, ?_, ?_⟩ <;> simp [h.2]

/-- In every run whose calls meet the condition, live orders are registered and
single, suppression allows an order only when no live one is left, and the
closing cancellation leaves none untracked. -/
theorem live_orders_tracked (cfg : Settings) (jobs : List (OrderOp × Tape)) (w : World)
    (hstart : Start w) (hrun : RunMeets serve (perform cfg) Tracking jobs w) :
    AllTracked (run serve (perform cfg) jobs w) ∧ SingleLive (run serve (perform cfg) jobs w) ∧
    (∀ code t, Meets serve Tracking (suppressOrReplacePending cfg code) t
        (run serve (perform cfg) jobs w) →
      (exec serve (suppressOrReplacePending cfg code) t
        (run serve (perform cfg) jobs w)).1 = false →
      NoneLive (exec serve (suppressOrReplacePending cfg code) t
        (run serve (perform cfg) jobs w)).2.broker code) ∧
    (∀ t, Meets serve Tracking (cancelAllPendingOrders cfg) t
        (run serve (perform cfg) jobs w) →
      AllTracked (exec serve (cancelAllPendingOrders cfg) t
        (run serve (perform cfg) jobs w)).2) := by
  have hinv := (run_invariant (I := Tracked none) (fun op v hv => perform_spec cfg op hv)
    (tracked_start hstart) hrun).2
  refine ⟨hinv.allTracked, hinv.single, fun code t ht hmay => ?_, fun t ht => ?_⟩
  · exact ((wp_sound (suppressOrReplacePending_spec cfg hinv code) ht).2.2 hmay).1
  · exact (wp_sound (perform_spec cfg .cancelAll hinv) ht).2.allTracked

/-- An unfilled order is registered, its cancel call finds it live, and it is gone. -/
def cancelledRun : List (OrderOp × Tape) := [
  (.buy "005930" 10 1000, tapeOf []),
  (.cancelAll, tapeOf [])]

theorem live_orders_tracked_cancelled :
    AllTracked (run serve (perform paperSettings) cancelledRun paperWorld) :=
  (live_orders_tracked paperSettings cancelledRun paperWorld ⟨rfl, rfl⟩ (by decide +kernel)).1

/-- An order of which a poll sees 4 of 10 shares. -/
def partialPollRun : List (OrderOp × Tape) := [
  (.buy "005930" 10 1000, tapeOf [{}, {}, {}, {}, { events := [.fill 0 4 1000] }])]

/-- The live remainder of a partially confirmed order is not registered. -/
theorem partialPoll_untracked :
    ¬ ∀ (cfg : Settings) (jobs : List (OrderOp × Tape)) (w : World), Start w →
      AllTracked (run serve (perform cfg) jobs w) := by
  intro h
  have ht := h paperSettings partialPollRun paperWorld ⟨rfl, rfl⟩
  revert ht
  unfold AllTracked
  decide +kernel

end KisAutotrader.OrderTracking
