import KisAutotrader.CycleRules

/-!
# Daily limits on buying

A BUY passes the gates with room for one more fill, and its stock gets no second
order while the first is pending. Fills recorded by a reconciliation have passed
the gates at an earlier time.
-/
namespace KisAutotrader.DailyLimits
open OrderedDict Coroutine OrderExecution OrderRules StockProcessing TradingCycle CycleRules History

def buysOf (code : Code) (w₀ w : World) : ℕ :=
  ((recorded .buy w₀ w).filter fun row => row.stockCode = code).length

/-- The stocks the broker has declared untradable since the world was `w₀`. -/
def declared (w₀ w : World) : List Code := since w₀.untradable.length w.untradable

/-- The instant lies in the cooldown after a sale of the stock recorded since `w₀`. -/
def CoolingDown (cfg : Settings) (w₀ w : World) (code : Code) : Prop :=
  ∃ row ∈ recorded .sell w₀ w, row.stockCode = code ∧ 0 < cfg.buyCooldownAfterSellMin ∧
    (w.clock : ℤ) - row.tradedAt < cfg.buyCooldownAfterSellMin * minute

/-- The recorded BUY fills of the day stay within both limits. -/
structure WithinLimits (cfg : Settings) (w₀ w : World) : Prop where
  day : ((recorded .buy w₀ w).length : ℤ) ≤ max 0 cfg.limits.dailyTradeLimit
  stock : ∀ code, (buysOf code w₀ w : ℤ) ≤ max 0 cfg.maxDailyTradesPerStock

/-- Where a BUY order is sent, none of the three bans holds. -/
def BuyAllowed (cfg : Settings) (w₀ : World) : Req → World → Prop
  | .place .buy code _ _ _, w => ¬ CoolingDown cfg w₀ w code ∧
      w.engine.risk.portfolioHalted = false ∧ code ∉ declared w₀ w
  | _, _ => True

/-- The condition on a call: a late BUY fill is reconciled only below the daily limit,
a late SELL fill only without a cooldown, and no SELL order is declared untradable. -/
def Timely (cfg : Settings) (w₀ : World) (r : Req) (reply : Reply) (w : World) : Prop :=
  match r with
  | .balance (.reconcile code side qtyBefore) => reply.outcome = .ok →
      0 < filledBy side qtyBefore ((w.elapse reply).broker.holding code) →
      match side with
      | .buy => ((recorded .buy w₀ w).length : ℤ) < cfg.limits.dailyTradeLimit
      | .sell => cfg.buyCooldownAfterSellMin ≤ 0
  | .place .sell _ _ _ _ => reply.outcome ≠ .untradable
  | _ => True

instance (cfg : Settings) (w₀ : World) (r : Req) (reply : Reply) (w : World) :
    Decidable (Timely cfg w₀ r reply w) := by
  unfold Timely
  split
  · cases ‹Side› <;> infer_instance
  · infer_instance
  · infer_instance

def Site (cfg : Settings) (w₀ : World) (r : Req) (w : World) : Prop :=
  BuyAllowed cfg w₀ r w ∧ WithinLimits cfg w₀ w

/-- One for a stock with a pending BUY order. -/
def pendingBuys (e : Engine) (code : Code) : ℕ :=
  match e.pendingOrders.get? code with
  | some p => if p.side = .buy then 1 else 0
  | none => 0

/-- The invariant of a day: the counters cover the recorded fills, and a pending BUY
has room for its fill below the limit of its stock. -/
structure Limited (cfg : Settings) (w₀ w : World) : Prop where
  restored : w.engine.riskStateRestored = true
  rows : w₀.trades.length ≤ w.trades.length
  refused : w₀.untradable.length ≤ w.untradable.length
  counted : (recorded .buy w₀ w).length ≤ w.engine.todayTradeCount
  day : ((recorded .buy w₀ w).length : ℤ) ≤ max 0 cfg.limits.dailyTradeLimit
  countedOf : ∀ code, buysOf code w₀ w ≤ buysToday code w.engine
  room : ∀ code, ((buysToday code w.engine + pendingBuys w.engine code : ℕ) : ℤ) ≤
    max 0 cfg.maxDailyTradesPerStock
  timed : 0 < cfg.buyCooldownAfterSellMin → SalesTimed w₀ w
  banned : ∀ code ∈ declared w₀ w, code ∈ w.engine.untradableToday

namespace Limited
variable {cfg : Settings} {w₀ w v : World}

theorem within (h : Limited cfg w₀ w) : WithinLimits cfg w₀ w := by
  refine ⟨h.day, fun code => ?_⟩
  have hcount := h.countedOf code
  have hroom := h.room code
  push_cast at hroom
  omega

/-- Time passes and other books change; the broker may have declared a stock untradable. -/
theorem advance (h : Limited cfg w₀ w) (htrades : v.trades = w.trades) (hclock : w.clock ≤ v.clock)
    (hrestored : v.engine.riskStateRestored = w.engine.riskStateRestored)
    (hcount : v.engine.todayTradeCount = w.engine.todayTradeCount)
    (hbuys : v.engine.todayBuysPerStock = w.engine.todayBuysPerStock)
    (hroom : ∀ code, ((buysToday code w.engine + pendingBuys v.engine code : ℕ) : ℤ) ≤
      max 0 cfg.maxDailyTradesPerStock)
    (hlast : v.engine.lastSellAt = w.engine.lastSellAt)
    (hrefused : w.untradable.length ≤ v.untradable.length)
    (hbanned : ∀ code ∈ declared w₀ v, code ∈ v.engine.untradableToday) : Limited cfg w₀ v := by
  have hrec : recorded .buy w₀ v = recorded .buy w₀ w := recorded_congr htrades
  have hof : ∀ code, buysOf code w₀ v = buysOf code w₀ w := fun code => by simp [buysOf, hrec]
  have htoday : ∀ code, buysToday code v.engine = buysToday code w.engine := fun code => by
    simp [buysToday, hbuys]
  refine ⟨hrestored.trans h.restored, htrades ▸ h.rows, h.refused.trans hrefused, ?_, ?_,
    fun code => ?_, fun code => ?_, fun hcool => (h.timed hcool).evolve htrades hclock hlast,
    hbanned⟩
  · rw [hrec, hcount]
    exact h.counted
  · rw [hrec]
    exact h.day
  · rw [hof, htoday]
    exact h.countedOf code
  · rw [htoday]
    exact hroom code

/-- Time passes and other books change; a BUY may have ceased to be pending. -/
theorem evolve (h : Limited cfg w₀ w) (htrades : v.trades = w.trades)
    (hun : v.untradable = w.untradable) (hclock : w.clock ≤ v.clock)
    (hrestored : v.engine.riskStateRestored = w.engine.riskStateRestored)
    (hcount : v.engine.todayTradeCount = w.engine.todayTradeCount)
    (hbuys : v.engine.todayBuysPerStock = w.engine.todayBuysPerStock)
    (hpending : ∀ code, pendingBuys v.engine code ≤ pendingBuys w.engine code)
    (hlast : v.engine.lastSellAt = w.engine.lastSellAt)
    (hbanned : v.engine.untradableToday = w.engine.untradableToday) : Limited cfg w₀ v := by
  refine h.advance htrades hclock hrestored hcount hbuys (fun code => ?_) hlast (hun ▸ le_refl _) ?_
  · have hroom := h.room code
    have hle := hpending code
    push_cast at hroom ⊢
    omega
  · rw [declared, hun, hbanned]
    exact h.banned

theorem quiet (h : Limited cfg w₀ w) {f : Engine → Engine} (hf : Quiet f) :
    Limited cfg w₀ (onEngine f w) := by
  obtain ⟨_, _, _, _, _, heq⟩ := hf w.engine
  refine h.evolve rfl rfl (le_refl _) ?_ ?_ ?_ (fun code => le_of_eq ?_) ?_ ?_ <;>
    simp [heq, pendingBuys]

/-- Every call but a queue write and an order. -/
theorem after (h : Limited cfg w₀ w) {r : Req} (henq : ∀ row, r ≠ .enqueueTrade row)
    (hplace : ∀ side code quantity price exchange, r ≠ .place side code quantity price exchange)
    (reply : Reply) : Limited cfg w₀ (serve r reply w).2 := by
  refine h.evolve (serve_trades henq reply w) (serve_untradable hplace reply w) ?_ ?_ ?_ ?_
    (fun code => le_of_eq ?_) ?_ ?_ <;> simp

theorem pendingBuys_pop {e e' : Engine} {code : Code}
    (h : e'.pendingOrders = e.pendingOrders.pop code) (c : Code) :
    pendingBuys e' c = if c = code then 0 else pendingBuys e c := by
  by_cases hc : c = code <;> simp [pendingBuys, h, hc]

/-- A booking. A BUY needs room for its fill. -/
theorem booked {code : Code} {side : Side} {filled : ℤ} {f : Time → Engine → Engine × TradeRow}
    (h : Limited cfg w₀ w) (hf : Books code side filled f)
    (hday : side = .buy → ((recorded .buy w₀ w).length : ℤ) < cfg.limits.dailyTradeLimit)
    (hstock : side = .buy →
      ((buysToday code w.engine + 1 : ℕ) : ℤ) ≤ max 0 cfg.maxDailyTradesPerStock)
    (hexit : 0 < cfg.buyCooldownAfterSellMin → BooksExit code side f)
    (hv : AfterBooking f w v) : Limited cfg w₀ v := by
  obtain ⟨hcode, -, -, -⟩ := hf.row w.clock w.engine
  have hrec := recorded_booked hf h.rows hv .buy
  have hcount : v.engine.todayTradeCount = w.engine.todayTradeCount + 1 := by
    rw [hv.engine, hf.todayTradeCount]
  have hbuys : ∀ c, buysToday c v.engine =
      buysToday c w.engine + if side = .buy ∧ c = code then 1 else 0 := by
    intro c
    simp only [buysToday, hv.engine, hf.todayBuysPerStock]
    by_cases hs : side = .buy
    · by_cases hc : c = code <;> simp [hs, hc]
    · simp [hs]
  refine ⟨?_, rows_booked h.rows hv, hv.untradable ▸ h.refused, ?_, ?_, fun c => ?_, fun c => ?_,
    fun hcool => (h.timed hcool).booked hf (hexit hcool) h.rows hv, ?_⟩
  · rw [hv.engine, hf.riskStateRestored]
    exact h.restored
  · have hle := h.counted
    obtain heq | ⟨-, heq⟩ := hrec
    · rw [heq, hcount]
      omega
    · rw [heq, hcount, List.length_append, List.length_singleton]
      omega
  · have hle := h.day
    obtain heq | ⟨hbuy, heq⟩ := hrec
    · rw [heq]
      exact hle
    · have hlt := hday hbuy
      rw [heq, List.length_append, List.length_singleton]
      push_cast
      omega
  · have hle := h.countedOf c
    rw [hbuys]
    obtain heq | ⟨hbuy, heq⟩ := hrec
    · have hsame : buysOf c w₀ v = buysOf c w₀ w := by rw [buysOf, heq, ← buysOf]
      omega
    · have hmore : buysOf c w₀ v = buysOf c w₀ w + if c = code then 1 else 0 := by
        by_cases hc : c = code
        · simp [buysOf, heq, hcode, hc]
        · simp [buysOf, heq, hcode, hc, Ne.symm hc]
      simp only [hbuy, true_and]
      omega
  · have hroom := h.room c
    have hpend : pendingBuys v.engine c = if c = code then 0 else pendingBuys w.engine c :=
      pendingBuys_pop (by rw [hv.engine, hf.pendingOrders]) c
    rw [hbuys, hpend]
    by_cases hc : c = code
    · subst hc
      by_cases hbuy : side = .buy
      · simpa [hbuy] using hstock hbuy
      · simp only [hbuy, false_and, if_false, if_true]
        push_cast at hroom ⊢
        omega
    · simpa [hc] using hroom
  · rw [declared, hv.untradable, hv.engine, hf.untradableToday]
    exact h.banned

theorem site (h : Limited cfg w₀ w) {r : Req}
    (hplace : ∀ side code quantity price exchange, r ≠ .place side code quantity price exchange) :
    Site cfg w₀ r w := by
  refine ⟨?_, h.within⟩
  cases r
  case place => exact absurd rfl (hplace _ _ _ _ _)
  all_goals trivial

end Limited

abbrev Ensures {α : Type} (cfg : Settings) (w₀ : World) (p : EngineM α) (Q : α → World → Prop)
    (w : World) : Prop :=
  wp serve (Timely cfg w₀) (Site cfg w₀) p Q w

theorem limited_steady (cfg : Settings) (w₀ : World) :
    Steady (Timely cfg w₀) (Site cfg w₀) (Limited cfg w₀) := by
  refine ⟨fun r w hr h => ?_, fun r reply w hr h _ => ?_, fun f w hf h => h.quiet hf⟩
  · exact h.site (by rintro _ _ _ _ _ rfl; simp [isRead] at hr)
  · rw [← serve_read hr]
    exact h.after (by rintro _ rfl; simp [isRead] at hr)
      (by rintro _ _ _ _ _ rfl; simp [isRead] at hr) reply

/-- A late fill is booked within the limits; a cancelled order is dropped. -/
theorem cancelPendingOrder_spec (cfg : Settings) {w₀ w : World} {code : Code}
    {pending : PendingOrder} (h : Limited cfg w₀ w)
    (hp : w.engine.pendingOrders.get? code = some pending) :
    Ensures cfg w₀ (cancelPendingOrder cfg code pending) (fun _ => Limited cfg w₀) w := by
  have hsteady := steady_and (P := fun e => e.pendingOrders.get? code = some pending)
    (limited_steady cfg w₀) fun f e hf he => by
      obtain ⟨_, _, _, _, _, heq⟩ := hf e
      rw [heq]
      exact he
  refine cancelPendingOrder_rule cfg hsteady ⟨h, hp⟩ ?_ ?_
  · intro v reply hv hrely hok filled hfilled
    have hstored := hsteady.quiet _ _ (quiet_storeBalance cfg v.clock (v.elapse reply).broker.report)
      (hsteady.wait _ reply v rfl hv hrely)
    have hbooks := books_orphanConfirmed cfg code pending filled
    have htimely := hrely hok hfilled
    have hbooked : ∀ u, AfterBooking (fun now => orphanConfirmed cfg now code pending filled)
        (onEngine (storeBalance cfg v.clock (v.elapse reply).broker.report) (v.elapse reply)) u →
        Limited cfg w₀ u := by
      refine fun u hu => hstored.1.booked hbooks (fun hbuy => ?_) (fun hbuy => ?_) (fun hcool => ?_) hu
      · simp only [hbuy] at htimely
        rwa [recorded_congr (w := v) (by simp)]
      · have hroom := hstored.1.room code
        have hone : pendingBuys (onEngine (storeBalance cfg v.clock
            (v.elapse reply).broker.report) (v.elapse reply)).engine code = 1 := by
          rw [pendingBuys, hstored.2]
          simp [hbuy]
        rwa [hone] at hroom
      · cases hside : pending.side with
        | buy =>
          refine ⟨fun now e => ?_, fun now e => ?_⟩
          · exact (orphanConfirmed_exit cfg now code pending filled e).1
          · exact (orphanConfirmed_exit cfg now code pending filled e).2
        | sell =>
          simp only [hside] at htimely
          omega
    refine book_rule ⟨trivial, ?_⟩ hbooked
    exact (hbooked _ (afterBooking_apply _ _)).within
  · intro v exchange hv
    refine ⟨hv.1.site (by simp), fun reply _ => ?_⟩
    refine (hv.1.after (by simp) (by simp) reply).evolve rfl rfl (le_refl _) rfl rfl rfl
      (fun c => ?_) rfl rfl
    rw [onEngine_engine, Limited.pendingBuys_pop rfl c]
    split_ifs <;> simp

/-! ### Orders -/

/-- What a BUY has established when it passes the gates and finds no pending order. -/
structure Passed (cfg : Settings) (w₀ : World) (code : Code) (w : World) : Prop where
  limited : Limited cfg w₀ w
  unstale : Unstale cfg w.engine code
  trades : (w.engine.todayTradeCount : ℤ) < cfg.limits.dailyTradeLimit
  buys : (buysToday code w.engine : ℤ) < cfg.maxDailyTradesPerStock
  cooled : inCooldown cfg w.clock code w.engine = false
  running : w.engine.risk.portfolioHalted = false

theorem buyReject_none {cfg : Settings} {now : Time} {code : Code} {signal : Signal} {deposit : ℚ}
    {e : Engine} (hs : signal.signalType = .buy)
    (h : buyReject cfg now code signal deposit e = none) :
    (e.todayTradeCount : ℤ) < cfg.limits.dailyTradeLimit ∧
      (buysToday code e : ℤ) < cfg.maxDailyTradesPerStock ∧
      inCooldown cfg now code e = false ∧ e.risk.portfolioHalted = false := by
  unfold buyReject at h
  split_ifs at h with htrades hbuys hcool hloss
  refine ⟨?_, by omega, by simpa using hcool, RiskManager.checkBuyGates_halted hs h⟩
  simpa [RiskManager.checkDailyTradeLimit] using htrades

/-- A cooldown that is over stays over. -/
theorem inCooldown_later {cfg : Settings} {now later : Time} {code : Code} {e : Engine}
    (hle : now ≤ later) (h : inCooldown cfg now code e = false) :
    inCooldown cfg later code e = false := by
  have hle' : (now : ℤ) ≤ later := by exact_mod_cast hle
  unfold inCooldown at h ⊢
  split at h <;> simp only [decide_eq_false_iff_not, not_and] at h ⊢
  intro hcool
  have hover := h hcool
  omega

theorem passed_steady (cfg : Settings) (w₀ : World) (code : Code) :
    Steady (Timely cfg w₀) (Site cfg w₀) (Passed cfg w₀ code) := by
  have hlimited := limited_steady cfg w₀
  refine ⟨fun r w hr h => hlimited.guar r w hr h.limited, fun r reply w hr h hrely => ?_,
    fun f w hf h => ?_⟩
  · refine ⟨hlimited.wait r reply w hr h.limited hrely, ?_, ?_, ?_, ?_, ?_⟩ <;>
      simp only [World.elapse_engine, World.elapse_clock]
    · exact h.unstale
    · exact h.trades
    · exact h.buys
    · exact inCooldown_later (Nat.le_add_right _ _) h.cooled
    · exact h.running
  · obtain ⟨_, _, _, _, _, heq⟩ := hf w.engine
    have hkept := h.limited.quiet hf
    rw [onEngine] at hkept ⊢
    rw [heq] at hkept ⊢
    exact ⟨hkept, h.unstale, h.trades, h.buys, h.cooled, h.running⟩

theorem Passed.allowed {cfg : Settings} {w₀ w : World} {code : Code} (h : Passed cfg w₀ code w)
    (hfree : code ∉ w.engine.untradableToday) (quantity : ℕ) (price : ℚ) (exchange : String) :
    Site cfg w₀ (.place .buy code quantity price exchange) w := by
  refine ⟨⟨?_, h.running, fun hd => hfree (h.limited.banned code hd)⟩, h.limited.within⟩
  rintro ⟨row, hrow, rfl, hcool, hwithin⟩
  obtain ⟨-, last, hlast, hle⟩ := h.limited.timed hcool row hrow
  have hle' : (row.tradedAt : ℤ) ≤ last := by exact_mod_cast hle
  have hcooled := h.cooled
  simp only [inCooldown, hlast, decide_eq_false_iff_not, not_and] at hcooled
  have hover := hcooled hcool
  omega

theorem Limited.served {cfg : Settings} {w₀ w : World} (h : Limited cfg w₀ w) {side : Side}
    {code : Code} {quantity : ℕ} {price : ℚ} {exchange : String} {reply : Reply}
    (hun : (serve (.place side code quantity price exchange) reply w).2.untradable = w.untradable) :
    Limited cfg w₀ (serve (.place side code quantity price exchange) reply w).2 := by
  refine h.evolve (serve_trades (by simp) reply w) hun ?_ ?_ ?_ ?_ (fun c => le_of_eq ?_) ?_ ?_ <;>
    simp

/-- A stock that the exchange refuses is banned for the rest of the day. -/
theorem Limited.refusal {cfg : Settings} {w₀ w : World} (h : Limited cfg w₀ w) {side : Side}
    {code : Code} {quantity : ℕ} {price : ℚ} {exchange : String} {reply : Reply}
    (hun : (serve (.place side code quantity price exchange) reply w).2.untradable =
      w.untradable ++ [code]) :
    Limited cfg w₀ (onEngine (markUntradable code)
      (serve (.place side code quantity price exchange) reply w).2) := by
  refine h.advance (serve_trades (by simp) reply w) (by simp) ?_ ?_ ?_ (fun c => ?_) ?_ ?_
    fun c hc => ?_
  · simp [markUntradable]
  · simp [markUntradable]
  · simp [markUntradable]
  · simpa [markUntradable, pendingBuys] using h.room c
  · simp [markUntradable]
  · simp [hun]
  · rw [declared, onEngine_untradable, hun, since_snoc h.refused, List.mem_append,
      List.mem_singleton] at hc
    obtain hc | rfl := hc
    · exact List.mem_cons_of_mem _ (by simpa using h.banned c hc)
    · simp [markUntradable]

namespace Passed
variable {cfg : Settings} {w₀ w : World} {code : Code}

theorem served (h : Passed cfg w₀ code w) {side : Side} {quantity : ℕ} {price : ℚ}
    {exchange : String} {reply : Reply}
    (hun : (serve (.place side code quantity price exchange) reply w).2.untradable = w.untradable) :
    Passed cfg w₀ code (serve (.place side code quantity price exchange) reply w).2 := by
  refine ⟨h.limited.served hun, ?_, ?_, ?_, ?_, ?_⟩ <;> simp only [serve_engine, serve_clock]
  · exact h.unstale
  · exact h.trades
  · exact h.buys
  · exact inCooldown_later (Nat.le_add_right _ _) h.cooled
  · exact h.running

/-- The pending order takes the room that was left. -/
theorem tracked (h : Passed cfg w₀ code w) {pending : PendingOrder} (hside : pending.side = .buy) :
    Limited cfg w₀ (onEngine (trackPending code pending) w) := by
  refine h.limited.advance rfl (le_refl _) rfl rfl rfl (fun c => ?_) rfl (le_refl _) h.limited.banned
  by_cases hc : c = code
  · have hbuys := h.buys
    have hone : pendingBuys (trackPending code pending w.engine) c = 1 := by
      simp [pendingBuys, trackPending, hc, hside]
    rw [onEngine_engine, hone, hc]
    push_cast
    omega
  · have hroom := h.limited.room c
    simpa [pendingBuys, trackPending, hc] using hroom

/-- And so does the fill. -/
theorem booked (h : Passed cfg w₀ code w) {filled : ℤ} {price : ℚ} {v : World}
    (hv : AfterBooking (fun now => buyConfirmed cfg now code filled price) w v) :
    Limited cfg w₀ v := by
  have hcount := h.limited.counted
  have htrades := h.trades
  have hbuys := h.buys
  refine h.limited.booked (books_buyConfirmed cfg code filled price) (fun _ => by omega)
    (fun _ => ?_) (fun _ => booksExit_buyConfirmed cfg code filled price) hv
  push_cast
  omega

end Passed

/-- A BUY behind its gates: it is allowed where it is sent and has room for its fill. -/
theorem submitBuy_spec (cfg : Settings) {w₀ w : World} (code : Code) (quantity : ℕ) (price : ℚ)
    (h : Passed cfg w₀ code w) (hfree : code ∉ w.engine.untradableToday) :
    Ensures cfg w₀ (submitOrder cfg .buy code quantity price none 0 (markUntradable code)
      fun now filled => buyConfirmed cfg now code filled price) (fun _ => Limited cfg w₀) w := by
  have hsteady := steady_and
    (P := fun e => code ∉ e.untradableToday ∧ e.pendingOrders.get? code = none)
    (passed_steady cfg w₀ code) fun f e hf he => by
      obtain ⟨_, _, _, _, _, heq⟩ := hf e
      rw [heq]
      exact he
  have hdone := limited_steady cfg w₀
  refine submitOrder_rule cfg hsteady .buy code quantity price none 0 h.limited
    (fun hnone => ⟨h, hfree, hnone⟩) (fun v hv => hv.1.limited) (fun pending hp hstale => ?_) ?_
  · simp [h.unstale pending hp] at hstale
  · intro v qtyBefore exchange hv
    obtain ⟨hv, hfree, hnone⟩ := hv
    refine ⟨hv.allowed hfree quantity price exchange, fun reply _ => ?_⟩
    have hun := serve_place_untradable .buy code quantity price exchange reply v
    split
    · rename_i hrefused
      rw [if_pos hrefused] at hun
      exact hv.limited.refusal hun.2
    · rename_i hraised
      rw [if_neg (by simp [hraised])] at hun
      exact hdone.quiet _ _ quiet_invalidateBalanceCache (hv.limited.served hun)
    · rename_i orderNo haccepted
      rw [if_neg (by simp [haccepted])] at hun
      refine confirmAccepted_rule cfg (passed_steady cfg w₀ code) hdone .buy code quantity price none
        qtyBefore orderNo (hv.served hun) (fun u pending hu hside _ => hu.tracked hside) ?_
      intro u filled hu _
      exact book_rule ⟨trivial, (hu.booked (afterBooking_apply _ _)).within⟩ fun x hx => hu.booked hx

theorem executeBuy_spec (cfg : Settings) {w₀ w : World} (code : Code) (quantity : ℕ) (price : ℚ)
    (h : Passed cfg w₀ code w) :
    Ensures cfg w₀ (executeBuy cfg code quantity price) (fun _ => Limited cfg w₀) w := by
  simp only [executeBuy, wp_bind]
  refine wp_mono ((passed_steady cfg w₀ code).buyBlocked cfg code price h) fun blocked v hv => ?_
  split
  · exact hv.1.limited
  · rename_i hblocked
    exact submitBuy_spec cfg code quantity price hv.1 (hv.2 (by simpa using hblocked)).1

theorem executeSell_spec (cfg : Settings) {w₀ w : World} (code : Code) (quantity : ℕ) (price : ℚ)
    (reason : String) (avgPrice : Option ℚ) (h : Limited cfg w₀ w)
    (hunstale : Unstale cfg w.engine code) :
    Ensures cfg w₀ (executeSell cfg code quantity price reason avgPrice)
      (fun _ => Limited cfg w₀) w := by
  have hsteady := limited_steady cfg w₀
  refine submitOrder_rule cfg hsteady .sell code quantity price avgPrice quantity h (fun _ => h)
    (fun _ hv => hv) (fun pending hp hstale => ?_) ?_
  · simp [hunstale pending hp] at hstale
  · intro v qtyBefore exchange hv
    refine ⟨⟨trivial, hv.within⟩, fun reply hrely => ?_⟩
    have hun := serve_place_untradable .sell code quantity price exchange reply v
    split
    · rename_i hrefused
      rw [if_pos hrefused] at hun
      exact absurd hun.1 hrely
    · rename_i hraised
      rw [if_neg (by simp [hraised])] at hun
      exact hsteady.quiet _ _ quiet_invalidateBalanceCache (hv.served hun)
    · rename_i orderNo haccepted
      rw [if_neg (by simp [haccepted])] at hun
      refine confirmAccepted_rule cfg hsteady hsteady .sell code quantity price avgPrice qtyBefore
        orderNo (hv.served hun) ?_ ?_
      · intro u pending hu hside _
        refine hu.evolve rfl rfl (le_refl _) rfl rfl rfl (fun c => ?_) rfl rfl
        by_cases hc : c = code
        · simp [pendingBuys, trackPending, hc, hside]
        · simp [pendingBuys, trackPending, hc]
      · intro u filled hu _
        have hbooks := books_sellConfirmed cfg code filled price reason avgPrice
        have hbooked : ∀ x,
            AfterBooking (fun now => sellConfirmed cfg now code filled price reason avgPrice) u x →
            Limited cfg w₀ x := fun x hx => hu.booked hbooks (by simp) (by simp)
          (fun _ => booksExit_sellConfirmed cfg code filled price reason avgPrice) hx
        exact book_rule ⟨trivial, (hbooked _ (afterBooking_apply _ _)).within⟩ hbooked

theorem processHeldStock_spec (cfg : Settings) {w₀ w : World} (price : ℚ) (h : Holding)
    (signal : Signal) (hw : Limited cfg w₀ w) (hunstale : Unstale cfg w.engine h.stockCode) :
    Ensures cfg w₀ (processHeldStock cfg price h signal) (fun _ => Limited cfg w₀) w := by
  unfold processHeldStock
  split
  · exact hw
  · simp only [wp_bind, wp_get, wp_modify]
    have hobserved : ∀ entry, Limited cfg w₀ (logEntry entry
        (onEngine (observeHeld w.clock h.stockCode h.avgPrice price) w)) := fun _ =>
      hw.evolve rfl rfl (le_refl _) rfl rfl rfl (fun _ => le_refl _) rfl rfl
    split
    · exact hobserved _
    · simp only [wp_bind, wp_modify]
      refine executeSell_spec cfg h.stockCode h.quantity price _ _ ?_ hunstale
      exact hw.evolve rfl rfl (le_refl _) rfl rfl rfl (fun _ => le_refl _) rfl rfl

theorem limited_dayKeeps (cfg : Settings) (w₀ : World) :
    DayKeeps cfg (Timely cfg w₀) (Site cfg w₀) (Limited cfg w₀) := by
  have hsteady := limited_steady cfg w₀
  refine ⟨hsteady, fun w h => ?_, fun w h => ?_, fun w code pending h hp => ?_,
    fun r reply w h price signal hr hw _ hunstale hrely => ?_,
    fun w code deposit price signal h _ hunstale hsignal => ?_, fun w b h => ?_⟩
  · exact h.evolve rfl rfl (le_refl _) rfl rfl rfl (fun _ => le_refl _) rfl rfl
  · simpa [RiskRestore.restoreRiskStateIfNeeded, h.restored] using h
  · exact cancelPendingOrder_spec cfg h hp
  · have hread : isRead r = true := by
      obtain rfl | rfl := hr <;> rfl
    refine processHeldStock_spec cfg price h signal (hsteady.wait r reply w hread hw hrely) ?_
    simpa using hunstale
  · refine processBuySignal_rule cfg (passed_steady cfg w₀ code) code deposit price signal h
      (fun hpass => ?_) (fun _ hv => hv.limited) fun v quantity hv =>
        executeBuy_spec cfg code quantity price hv
    obtain ⟨htrades, hbuys, hcooled, hrunning⟩ := buyReject_none hsignal hpass
    exact ⟨h, hunstale, htrades, hbuys, hcooled, hrunning⟩
  · exact ⟨h.site (by simp), fun reply _ => h.after (by simp) (by simp) reply⟩

/-! ### Runs of a day -/

/-- The engine after `pre_market`. -/
structure DayStart (e : Engine) : Prop where
  trades : e.todayTradeCount = 0
  buys : e.todayBuysPerStock = .empty
  pending : e.pendingOrders = .empty

theorem dayStart_quiet (f : Engine → Engine) (e : Engine) (hf : Quiet f) (h : DayStart e) :
    DayStart (f e) := by
  obtain ⟨_, _, _, _, _, heq⟩ := hf e
  rw [heq]
  exact ⟨h.trades, h.buys, h.pending⟩

theorem preMarket_spec (cfg : Settings) (w : World) :
    wp serve (fun _ _ _ => True) (fun _ _ => True) (preMarket cfg)
      (fun _ v => DayStart v.engine ∧ v.engine.riskStateRestored = true) w :=
  preMarket_rule cfg (steady_engine dayStart_quiet) trivial (fun _ _ => ⟨rfl, rfl, rfl⟩)
    fun _ hv => ⟨⟨hv.trades, hv.buys, hv.pending⟩, rfl⟩

theorem limited_start (cfg : Settings) {w : World} (h : DayStart w.engine)
    (hrestored : w.engine.riskStateRestored = true) : Limited cfg w w := by
  refine ⟨hrestored, le_refl _, le_refl _, by simp, by simp, fun code => by simp [buysOf],
    fun code => ?_, fun _ row hrow => by simp at hrow, fun code hc => by simp [declared] at hc⟩
  simp [buysToday, pendingBuys, h.buys, h.pending]

/-- On every trading day whose calls meet the condition, BUY orders are sent only where
they are allowed, and the recorded BUY fills stay within the limits all along. -/
theorem limits_kept (cfg : Settings) (opening : Tape) (jobs : List (DayJob × Tape)) (w : World)
    (hrun : RunMeets serve (runDayJob cfg) (Timely cfg (exec serve (preMarket cfg) opening w).2)
      jobs (exec serve (preMarket cfg) opening w).2) :
    RunAlong serve (runDayJob cfg) (Site cfg (exec serve (preMarket cfg) opening w).2) jobs
        (exec serve (preMarket cfg) opening w).2 ∧
      WithinLimits cfg (exec serve (preMarket cfg) opening w).2
        (run serve (runDayJob cfg) jobs (exec serve (preMarket cfg) opening w).2) := by
  obtain ⟨-, hstart, hrestored⟩ :=
    wp_sound (preMarket_spec cfg w) (meets_true (preMarket cfg) opening w)
  generalize (exec serve (preMarket cfg) opening w).2 = v at hrun hstart hrestored ⊢
  have hinv := run_invariant (fun job u hu => (limited_dayKeeps cfg v).runDayJob job hu)
    (limited_start cfg hstart hrestored) hrun
  exact ⟨hinv.1, hinv.2.within⟩

/-- The replies of the polls and lookups that send one BUY order, left unfilled. -/
def buyReplies (code : Code) : List Reply := [{}, { events := [.price code 1000] },
  { signal := some { signalType := .buy, confidence := 1 } }, { buyable := some 200 },
  {}, {}, {}, {}, {}, {}]

/-- Two orders of one cycle fill after their confirmations and are both reconciled. -/
def twoLateBuysRun : List (DayJob × Tape) := [
  (.cycle, tapeOf ([({} : Reply), {}] ++ buyReplies "005930" ++ buyReplies "000660")),
  (.idle, tapeOf [{ events := [.fill 0 200 1000, .fill 1 200 1000] }]),
  (.postMarket, tapeOf [])]

def watchingWorld : World := { paperWorld with watchlist := ["005930", "000660"] }

theorem limits_kept_twoLateBuys :
    WithinLimits paperSettings (exec serve (preMarket paperSettings) (tapeOf []) watchingWorld).2
      (run serve (runDayJob paperSettings) twoLateBuysRun
        (exec serve (preMarket paperSettings) (tapeOf []) watchingWorld).2) :=
  (limits_kept paperSettings (tapeOf []) twoLateBuysRun watchingWorld (by decide +kernel)).2

/-- Under a limit of one trade a day. -/
def oneTradeSettings : Settings := { paperSettings with limits := { dailyTradeLimit := 1 } }

/-- The second late fill exceeds the daily limit. -/
theorem twoLateBuys_exceed :
    ¬ ∀ (cfg : Settings) (opening : Tape) (jobs : List (DayJob × Tape)) (w : World),
      WithinLimits cfg (exec serve (preMarket cfg) opening w).2
        (run serve (runDayJob cfg) jobs (exec serve (preMarket cfg) opening w).2) := by
  intro h
  have hday := (h oneTradeSettings (tapeOf []) twoLateBuysRun watchingWorld).day
  revert hday
  decide +kernel

end KisAutotrader.DailyLimits
