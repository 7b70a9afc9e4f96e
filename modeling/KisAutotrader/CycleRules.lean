import KisAutotrader.TradingCycle
import KisAutotrader.OrderRules
import KisAutotrader.History

/-!
# Proof rules of the trading cycle

A cycle cancels its stale orders first and visits every stock once, so the order
it may send for a stock never meets a stale order of that stock.
-/
namespace KisAutotrader.CycleRules
open OrderedDict Coroutine OrderExecution OrderRules RiskRestore Screening StockProcessing
  TradingCycle History

variable {rely : Req → Reply → World → Prop} {guar : Req → World → Prop}

/-- The stock has no order that has outlived its timeout. -/
def Unstale (cfg : Settings) (e : Engine) (code : Code) : Prop :=
  ∀ pending ∈ e.pendingOrders.get? code, isStale cfg e pending = false

/-- Only the order book of one stock may have moved. -/
structure Undisturbed (code : Code) (w v : World) : Prop where
  cycleCount : v.engine.cycleCount = w.engine.cycleCount
  restored : v.engine.riskStateRestored = w.engine.riskStateRestored
  pending : ∀ c, c ≠ code → v.engine.pendingOrders.get? c = w.engine.pendingOrders.get? c

theorem Undisturbed.refl (code : Code) (w : World) : Undisturbed code w w :=
  ⟨rfl, rfl, fun _ _ => rfl⟩

theorem Undisturbed.unstale {cfg : Settings} {code c : Code} {w v : World}
    (h : Undisturbed code w v) (hc : c ≠ code) (hw : Unstale cfg w.engine c) :
    Unstale cfg v.engine c := by
  intro pending hp
  rw [h.pending c hc] at hp
  simpa [isStale, age, h.cycleCount] using hw pending hp

/-- The trades of one side recorded since the world was `w₀`. -/
def recorded (side : Side) (w₀ w : World) : List TradeRow :=
  (since w₀.trades.length w.trades).filter fun row => row.tradeType = side

/-- What was logged since the world was `w₀`. -/
def newLog (w₀ w : World) : List LogEntry := since w₀.log.length w.log

@[simp] theorem recorded_self (side : Side) (w : World) : recorded side w w = [] := by
  simp [recorded]

theorem recorded_congr {side : Side} {w₀ w v : World} (h : v.trades = w.trades) :
    recorded side w₀ v = recorded side w₀ w := by rw [recorded, recorded, h]

/-- A booking records at most its own row, under its side. -/
theorem recorded_booked {code : Code} {side : Side} {filled : ℤ}
    {f : Time → Engine → Engine × TradeRow} {w₀ w v : World} (hf : Books code side filled f)
    (h : w₀.trades.length ≤ w.trades.length) (hv : AfterBooking f w v) (s : Side) :
    recorded s w₀ v = recorded s w₀ w ∨
      side = s ∧ recorded s w₀ v = recorded s w₀ w ++ [(f w.clock w.engine).2] := by
  have hside := (hf.row w.clock w.engine).2.1
  obtain htrades | htrades := hv.trades
  · exact Or.inl (recorded_congr htrades)
  · by_cases hs : side = s
    · exact Or.inr ⟨hs, by simp [recorded, htrades, since_snoc h, hside, hs]⟩
    · exact Or.inl (by simp [recorded, htrades, since_snoc h, hside, hs])

theorem rows_booked {f : Time → Engine → Engine × TradeRow} {w₀ w v : World}
    (h : w₀.trades.length ≤ w.trades.length) (hv : AfterBooking f w v) :
    w₀.trades.length ≤ v.trades.length := by
  obtain htrades | htrades := hv.trades <;> rw [htrades]
  · exact h
  · simpa using h.trans (Nat.le_succ _)

/-- The last-sell time of a stock is no earlier than its recorded sales. -/
def SalesTimed (w₀ w : World) : Prop :=
  ∀ row ∈ recorded .sell w₀ w, row.tradedAt ≤ w.clock ∧
    ∃ last, w.engine.lastSellAt.get? row.stockCode = some last ∧ row.tradedAt ≤ last

theorem SalesTimed.evolve {w₀ w v : World} (h : SalesTimed w₀ w) (htrades : v.trades = w.trades)
    (hclock : w.clock ≤ v.clock) (hlast : v.engine.lastSellAt = w.engine.lastSellAt) :
    SalesTimed w₀ v := by
  intro row hrow
  rw [recorded_congr htrades] at hrow
  rw [hlast]
  exact ⟨(h row hrow).1.trans hclock, (h row hrow).2⟩

theorem SalesTimed.booked {code : Code} {side : Side} {filled : ℤ}
    {f : Time → Engine → Engine × TradeRow} {w₀ w v : World} (h : SalesTimed w₀ w)
    (hf : Books code side filled f) (hexit : BooksExit code side f)
    (hrows : w₀.trades.length ≤ w.trades.length) (hv : AfterBooking f w v) :
    SalesTimed w₀ v := by
  obtain ⟨hcode, -, -, htime⟩ := hf.row w.clock w.engine
  intro row hrow
  have hcases : row ∈ recorded .sell w₀ w ∨ side = .sell ∧ row = (f w.clock w.engine).2 := by
    obtain heq | ⟨hsell, heq⟩ := recorded_booked hf hrows hv .sell
    · exact Or.inl (heq ▸ hrow)
    · rw [heq, List.mem_append, List.mem_singleton] at hrow
      exact hrow.imp id fun hr => ⟨hsell, hr⟩
  rw [hv.engine, hexit.lastSellAt]
  obtain hrow | ⟨rfl, rfl⟩ := hcases
  · obtain ⟨hpast, last, hget, hle⟩ := h row hrow
    refine ⟨hpast.trans hv.clock, ?_⟩
    split_ifs
    · rw [Dict.get?_set]
      split_ifs
      · exact ⟨w.clock, rfl, hpast⟩
      · exact ⟨last, hget, hle⟩
    · exact ⟨last, hget, hle⟩
  · exact ⟨htime.le.trans hv.clock, w.clock, by simp [hcode], htime.le⟩

/-! ### Steady invariants -/

/-- A property of the order books alone joins a steady invariant. -/
theorem steady_and {I : World → Prop} (hI : Steady rely guar I) {P : Engine → Prop}
    (hP : ∀ f e, Quiet f → P e → P (f e)) : Steady rely guar fun w => I w ∧ P w.engine where
  guar r w hr h := hI.guar r w hr h.1
  wait r reply w hr h hrely := ⟨hI.wait r reply w hr h.1 hrely, by simpa using h.2⟩
  quiet f w hf h := ⟨hI.quiet f w hf h.1, hP f w.engine hf h.2⟩

/-- A property of the order books alone is steady where nothing is guaranteed. -/
theorem steady_engine {P : Engine → Prop} (hP : ∀ f e, Quiet f → P e → P (f e)) :
    Steady rely (fun _ _ => True) fun w => P w.engine where
  guar _ _ _ _ := trivial
  wait r reply w _ h _ := by simpa using h
  quiet f w hf h := hP f w.engine hf h

theorem quiet_setDailyLimitReached : Quiet setDailyLimitReached := fun _ => ⟨_, _, _, _, _, rfl⟩

theorem quiet_setScreened (codes : List Code) : Quiet (setScreened codes) :=
  fun _ => ⟨_, _, _, _, _, rfl⟩

theorem quiet_seedExchanges (cfg : Settings) (markets : List (Code × String)) :
    Quiet (seedExchanges cfg markets) := fun _ => ⟨_, _, _, _, _, rfl⟩

theorem quiet_setKillSwitchLogged (logged : Bool) : Quiet (setKillSwitchLogged logged) :=
  fun _ => ⟨_, _, _, _, _, rfl⟩

section Steady
variable {I : World → Prop} (hI : Steady rely guar I) {w : World}
include hI

theorem screenStocks_rule (cfg : Settings) (h : I w) :
    wp serve rely guar (screenStocks cfg) (fun _ => I) w := by
  simp only [screenStocks, wp_bind, wp_get]
  refine wp_mono (hI.ask rfl h) fun rows v hv => ?_
  cases rows with
  | none => exact hv
  | some rows =>
    simp only [wp_bind, wp_get, wp_modify]
    have hset := fun codes => hI.quiet _ v (quiet_setScreened codes) hv
    split
    · simp only [wp_bind]
      refine wp_mono (hI.ask rfl (hset _)) fun markets u hu => ?_
      exact hI.quiet _ u (quiet_seedExchanges cfg markets) hu
    · exact hset _

end Steady

theorem nodup_eraseDups (codes : List Code) : codes.eraseDups.Nodup := by
  induction hn : codes.length using Nat.strong_induction_on generalizing codes with
  | _ n ih =>
    cases codes with
    | nil => simp
    | cons code codes =>
      rw [List.eraseDups_cons, List.nodup_cons]
      refine ⟨by simp, ih _ ?_ _ rfl⟩
      subst hn
      simpa using Nat.lt_succ_of_le (List.length_filter_le _ codes)

/-- A cycle visits every stock at most once. -/
theorem cycleTargets_rule {I : World → Prop} (hI : Steady rely guar I) (buyLimitReached : Bool)
    (b : Balance) {w : World} (h : I w) :
    wp serve rely guar (cycleTargets buyLimitReached b)
      (fun targets v => targets.Nodup ∧ I v) w := by
  unfold cycleTargets
  split
  · exact ⟨(List.perm_insertionSort _ _).nodup_iff.mpr (nodup_eraseDups _), h⟩
  · simp only [buildMonitorTargets, wp_bind, wp_get]
    refine wp_mono (hI.ask rfl h) fun heldOrder v hv => ?_
    simp only [wp_bind]
    exact wp_mono (hI.ask rfl hv) fun screenedOrder u hu => ⟨nodup_eraseDups _, hu⟩

/-! ### Frames -/

/-- Cancelling drops the order from the registry, whether it was booked or not. -/
theorem cancelPendingOrder_frame (cfg : Settings) (code : Code) (pending : PendingOrder)
    (w : World) :
    wp serve rely (fun _ _ => True) (cancelPendingOrder cfg code pending) (fun _ v =>
      v.engine.pendingOrders = w.engine.pendingOrders.pop code ∧
      v.engine.cycleCount = w.engine.cycleCount ∧
      v.engine.riskStateRestored = w.engine.riskStateRestored) w := by
  have hsteady : Steady rely (fun _ _ => True) fun v =>
      v.engine.pendingOrders = w.engine.pendingOrders ∧
      v.engine.cycleCount = w.engine.cycleCount ∧
      v.engine.riskStateRestored = w.engine.riskStateRestored := by
    refine steady_engine (P := fun e => e.pendingOrders = w.engine.pendingOrders ∧
      e.cycleCount = w.engine.cycleCount ∧
      e.riskStateRestored = w.engine.riskStateRestored) fun f e hf he => ?_
    obtain ⟨_, _, _, _, _, heq⟩ := hf e
    rw [heq]
    exact he
  refine cancelPendingOrder_rule cfg (J := fun v =>
    v.engine.pendingOrders = w.engine.pendingOrders.pop code ∧
    v.engine.cycleCount = w.engine.cycleCount ∧
    v.engine.riskStateRestored = w.engine.riskStateRestored) hsteady ⟨rfl, rfl, rfl⟩ ?_ ?_
  · intro v reply hv hrely _ filled _
    have hbooks := books_orphanConfirmed cfg code pending filled
    have hstored := hsteady.quiet _ _ (quiet_storeBalance cfg v.clock (v.elapse reply).broker.report)
      (hsteady.wait _ reply v rfl hv hrely)
    refine book_rule trivial fun u hu => ?_
    simp only [hu.engine, hbooks.pendingOrders, hbooks.cycleCount, hbooks.riskStateRestored]
    exact ⟨congrArg (·.pop code) hstored.1, hstored.2⟩
  · intro v exchange hv
    refine ⟨trivial, fun reply _ => ?_⟩
    simpa [popPending, serve_engine, hv.1] using hv.2

theorem undisturbed_steady (code : Code) (w : World) :
    Steady rely (fun _ _ => True) (Undisturbed code w) := by
  refine ⟨fun _ _ _ _ => trivial, fun r reply v _ hv _ => ?_, fun f v hf hv => ?_⟩
  · exact ⟨by simpa using hv.cycleCount, by simpa using hv.restored, by simpa using hv.pending⟩
  · obtain ⟨_, _, _, _, _, heq⟩ := hf v.engine
    refine ⟨?_, ?_, ?_⟩ <;> simp only [onEngine_engine, heq]
    · exact hv.cycleCount
    · exact hv.restored
    · exact hv.pending

/-- An order of one stock leaves the others undisturbed. -/
theorem submitOrder_frame (cfg : Settings) (side : Side) (code : Code) (quantity : ℕ) (price : ℚ)
    (avgPrice : Option ℚ) (fallback : ℤ) {onUntradable : Engine → Engine}
    {confirmed : Time → ℤ → Engine → Engine × TradeRow}
    (hun : ∀ e, (onUntradable e).cycleCount = e.cycleCount ∧
      (onUntradable e).riskStateRestored = e.riskStateRestored ∧
      (onUntradable e).pendingOrders = e.pendingOrders)
    (hconfirmed : ∀ filled, Books code side filled fun now => confirmed now filled)
    {w v : World} (h : Undisturbed code w v) :
    wp serve rely (fun _ _ => True)
      (submitOrder cfg side code quantity price avgPrice fallback onUntradable confirmed)
      (fun _ => Undisturbed code w) v := by
  have hsteady : Steady rely (fun _ _ => True) (Undisturbed code w) := undisturbed_steady code w
  have hbook : ∀ {side filled} {f : Time → Engine → Engine × TradeRow},
      Books code side filled f → ∀ u, Undisturbed code w u →
      wp serve rely (fun _ _ => True) (book f) (fun _ => Undisturbed code w) u := by
    intro side filled f hf u hu
    refine book_rule trivial fun x hx => ⟨?_, ?_, fun c hc => ?_⟩ <;>
      simp only [hx.engine, hf.pendingOrders, hf.cycleCount, hf.riskStateRestored]
    · exact hu.cycleCount
    · exact hu.restored
    · rw [Dict.get?_pop_ne _ hc]
      exact hu.pending c hc
  refine submitOrder_rule cfg hsteady side code quantity price avgPrice fallback h (fun _ => h)
    (fun _ hu => hu) ?_ ?_
  · intro pending _ _
    refine cancelPendingOrder_rule cfg hsteady h ?_ ?_
    · intro u reply hu hrely _ filled _
      exact hbook (books_orphanConfirmed cfg code pending filled) _
        (hsteady.quiet _ _ (quiet_storeBalance _ _ _) (hsteady.wait _ reply u rfl hu hrely))
    · intro u exchange hu
      refine ⟨trivial, fun reply _ => ⟨?_, ?_, fun c hc => ?_⟩⟩ <;>
        simp only [onEngine_engine, serve_engine, popPending]
      · exact hu.cycleCount
      · exact hu.restored
      · rw [Dict.get?_pop_ne _ hc]
        exact hu.pending c hc
  · intro u qtyBefore exchange hu
    refine ⟨trivial, fun reply _ => ?_⟩
    have hserved : Undisturbed code w (serve (.place side code quantity price exchange) reply u).2 := by
      refine ⟨?_, ?_, ?_⟩ <;> simp only [serve_engine]
      · exact hu.cycleCount
      · exact hu.restored
      · exact hu.pending
    split
    · obtain ⟨hcycle, hrestored, hpending⟩ :=
        hun (serve (.place side code quantity price exchange) reply u).2.engine
      refine ⟨?_, ?_, ?_⟩ <;> simp only [onEngine_engine, hcycle, hrestored, hpending]
      · exact hserved.cycleCount
      · exact hserved.restored
      · exact hserved.pending
    · exact hsteady.quiet _ _ quiet_invalidateBalanceCache hserved
    · refine confirmAccepted_rule cfg hsteady hsteady side code quantity price avgPrice qtyBefore _
        hserved ?_ ?_
      · intro x pending hx _ _
        refine ⟨hx.cycleCount, hx.restored, fun c hc => ?_⟩
        simpa [trackPending, hc] using hx.pending c hc
      · intro x filled hx _
        exact hbook (hconfirmed filled) x hx

theorem executeBuy_frame (cfg : Settings) (code : Code) (quantity : ℕ) (price : ℚ) {w v : World}
    (h : Undisturbed code w v) :
    wp serve rely (fun _ _ => True) (executeBuy cfg code quantity price)
      (fun _ => Undisturbed code w) v := by
  simp only [executeBuy, wp_bind]
  refine wp_mono ((undisturbed_steady code w).buyBlocked cfg code price h) fun blocked u hu => ?_
  split
  · exact hu.1
  · refine submitOrder_frame cfg .buy code quantity price none 0 (fun e => ?_)
      (fun filled => books_buyConfirmed cfg code filled price) hu.1
    exact ⟨rfl, rfl, rfl⟩

theorem executeSell_frame (cfg : Settings) (code : Code) (quantity : ℕ) (price : ℚ)
    (reason : String) (avgPrice : Option ℚ) {w v : World} (h : Undisturbed code w v) :
    wp serve rely (fun _ _ => True) (executeSell cfg code quantity price reason avgPrice)
      (fun _ => Undisturbed code w) v := by
  refine submitOrder_frame cfg .sell code quantity price avgPrice quantity (fun e => ?_)
    (fun filled => books_sellConfirmed cfg code filled price reason avgPrice) h
  exact ⟨rfl, rfl, rfl⟩

theorem processHeldStock_frame (cfg : Settings) (price : ℚ) (h : Holding) (signal : Signal)
    {w v : World} (hv : Undisturbed h.stockCode w v) :
    wp serve rely (fun _ _ => True) (processHeldStock cfg price h signal)
      (fun _ => Undisturbed h.stockCode w) v := by
  unfold processHeldStock
  split
  · exact hv
  · simp only [wp_bind, wp_get, wp_modify]
    have hobserved : ∀ entry, Undisturbed h.stockCode w (logEntry entry
        (onEngine (observeHeld v.clock h.stockCode h.avgPrice price) v)) :=
      fun _ => ⟨hv.cycleCount, hv.restored, hv.pending⟩
    split
    · exact hobserved _
    · simp only [wp_bind, wp_modify]
      exact executeSell_frame cfg h.stockCode h.quantity price _ _
        ⟨hv.cycleCount, hv.restored, hv.pending⟩

/-- A BUY is sent only behind the gates; `I` is what the passed gates establish. -/
theorem processBuySignal_rule (cfg : Settings) {I J : World → Prop} (hI : Steady rely guar I)
    (code : Code) (deposit price : ℚ) (signal : Signal) {w : World} (h : J w)
    (hgate : buyReject cfg w.clock code signal deposit w.engine = none → I w)
    (hstop : ∀ v, I v → J v)
    (hbuy : ∀ v quantity, I v → wp serve rely guar (executeBuy cfg code quantity price)
      (fun _ => J) v) :
    wp serve rely guar (processBuySignal cfg code deposit price signal) (fun _ => J) w := by
  simp only [processBuySignal, wp_bind, wp_get]
  split
  · exact h
  · rename_i hpass
    have hw := hgate hpass
    split
    · exact h
    · split
      · exact h
      · simp only [wp_bind]
        refine wp_mono (hI.ask rfl hw) fun buyable v hv => ?_
        split
        · exact hstop v hv
        · simp only [wp_bind]
          exact wp_mono (hbuy v _ hv) fun _ _ hu => hu

theorem processBuySignal_frame (cfg : Settings) (code : Code) (deposit price : ℚ)
    (signal : Signal) {w v : World} (h : Undisturbed code w v) :
    wp serve rely (fun _ _ => True) (processBuySignal cfg code deposit price signal)
      (fun _ => Undisturbed code w) v :=
  processBuySignal_rule cfg (undisturbed_steady code w) code deposit price signal h (fun _ => h)
    (fun _ hu => hu) fun _ quantity hu => executeBuy_frame cfg code quantity price hu

/-- Deciding about a stock disturbs no order of another one. -/
theorem processStock_frame (cfg : Settings) (code : Code) (deposit : ℚ) (holding : Option Holding)
    (hcode : ∀ h ∈ holding, h.stockCode = code) {w v : World} (hv : Undisturbed code w v) :
    wp serve rely (fun _ _ => True) (processStock cfg code deposit holding)
      (fun _ => Undisturbed code w) v := by
  have hsteady : Steady rely (fun _ _ => True) (Undisturbed code w) := undisturbed_steady code w
  have hheld : ∀ h ∈ holding, ∀ price signal u, Undisturbed code w u →
      wp serve rely (fun _ _ => True) (processHeldStock cfg price h signal)
        (fun _ => Undisturbed code w) u := by
    intro h hh price signal u hu
    have hcase : Undisturbed h.stockCode w u := by
      rw [hcode h hh]
      exact hu
    have hframe : wp serve rely (fun _ _ => True) (processHeldStock cfg price h signal)
        (fun _ => Undisturbed h.stockCode w) u := processHeldStock_frame cfg price h signal hcase
    rwa [hcode h hh] at hframe
  simp only [processStock, wp_bind]
  refine wp_mono (hsteady.ask rfl hv) fun daily u hu => ?_
  split
  · exact hu
  · split
    · rename_i h
      simp only [evaluateHeldWithoutDaily, wp_bind]
      refine wp_mono (hsteady.ask rfl hu) fun quote x hx => ?_
      cases quote with
      | error e => exact hx
      | ok price =>
        simp only [wp_bind]
        exact wp_mono (hheld h rfl price holdSignal x hx) fun _ _ hy => hy
    · exact hu
  · simp only [wp_bind]
    refine wp_mono (hsteady.ask rfl hu) fun quote x hx => ?_
    split
    · exact hx
    · simp only [wp_bind]
      refine wp_mono (hsteady.ask rfl hx) fun analysis y hy => ?_
      split
      · exact hy
      · split
        · rename_i h
          simp only [wp_bind]
          exact wp_mono (hheld h rfl _ _ y hy) fun _ _ hz => hz
        · split
          · exact processBuySignal_frame cfg code deposit _ _ hy
          · exact hy

/-! ### The rule of a day -/

/-- The calls right after which a holding is evaluated. -/
def evaluates (r : Req) (h : Holding) : Prop :=
  r = .quote h.stockCode (some h) ∨ r = .analyze h.stockCode (some h)

/-- What an invariant owes to the parts of a trading day. -/
structure DayKeeps (cfg : Settings) (rely : Req → Reply → World → Prop) (guar : Req → World → Prop)
    (I : World → Prop) : Prop where
  steady : Steady rely guar I
  cycle : ∀ w, I w → I (onEngine beginCycle w)
  restore : ∀ w, I w → wp serve rely guar (restoreRiskStateIfNeeded cfg) (fun _ => I) w
  cancel : ∀ w code pending, I w → w.engine.pendingOrders.get? code = some pending →
    wp serve rely guar (cancelPendingOrder cfg code pending) (fun _ => I) w
  held : ∀ r reply w h price signal, evaluates r h → I w → w.engine.riskStateRestored = true →
    Unstale cfg w.engine h.stockCode → rely r reply w →
    wp serve rely guar (processHeldStock cfg price h signal) (fun _ => I) (w.elapse reply)
  buy : ∀ w code deposit price signal, I w → w.engine.riskStateRestored = true →
    Unstale cfg w.engine code → signal.signalType = .buy →
    wp serve rely guar (processBuySignal cfg code deposit price signal) (fun _ => I) w
  sync : ∀ w b, I w →
    guar (.enqueueSync (cfg.clock.date w.clock) (syncRows b w.engine)) w ∧
    ∀ reply, rely (.enqueueSync (cfg.clock.date w.clock) (syncRows b w.engine)) reply w →
      I (serve (.enqueueSync (cfg.clock.date w.clock) (syncRows b w.engine)) reply w).2

/-- What holds in a cycle before the stocks of `S` are visited. -/
def Ready (cfg : Settings) (I : World → Prop) (S : Code → Prop) (w : World) : Prop :=
  I w ∧ w.engine.riskStateRestored = true ∧ ∀ code, S code → Unstale cfg w.engine code

theorem Ready.mono {cfg : Settings} {I : World → Prop} {S T : Code → Prop} {w : World}
    (h : Ready cfg I S w) (hsub : ∀ code, T code → S code) : Ready cfg I T w :=
  ⟨h.1, h.2.1, fun code hc => h.2.2 code (hsub code hc)⟩

theorem ready_steady (cfg : Settings) {I : World → Prop} (hI : Steady rely guar I)
    (S : Code → Prop) : Steady rely guar (Ready cfg I S) :=
  steady_and (P := fun e => e.riskStateRestored = true ∧ ∀ code, S code → Unstale cfg e code) hI
    fun f e hf he => by
      obtain ⟨_, _, _, _, _, heq⟩ := hf e
      rw [heq]
      exact he

theorem findHolding_code {b : Balance} {code : Code} {h : Holding}
    (hh : h ∈ findHolding b code) : h.stockCode = code := by
  have hfound := List.find?_some hh
  simp only [decide_eq_true_eq] at hfound
  exact hfound.1

theorem restoreGates_eq (today : ℕ) (rows : List TradeRow) (e : Engine) :
    ∃ buys lastSell lossSell, restoreGates today rows e = { e with
      todayBuysPerStock := buys
      lastSellAt := lastSell
      lossSellDates := lossSell } := by
  suffices h : ∀ e, ∃ buys lastSell lossSell, rows.foldl (restoreRow today) e = { e with
      todayBuysPerStock := buys
      lastSellAt := lastSell
      lossSellDates := lossSell } by
    obtain ⟨buys, lastSell, lossSell, heq⟩ := h { e with
      todayBuysPerStock := .empty, lastSellAt := .empty, lossSellDates := .empty }
    exact ⟨buys, lastSell, lossSell, heq⟩
  induction rows with
  | nil => exact fun e => ⟨_, _, _, rfl⟩
  | cons row rows ih =>
    intro e
    obtain ⟨buys, lastSell, lossSell, heq⟩ := ih (restoreRow today e row)
    refine ⟨buys, lastSell, lossSell, ?_⟩
    rw [List.foldl_cons, heq]
    cases hside : row.tradeType <;> simp [restoreRow, hside, bumpBuys]

/-- A new process rebuilds its state from the day's trades and the stored peaks. -/
theorem restoreRiskStateIfNeeded_rule (cfg : Settings) {I : World → Prop}
    (hI : Steady rely guar I) {w : World} (hfresh : w.engine.riskStateRestored = false)
    (hmark : I (onEngine markRestored w))
    (hgates : ∀ v today rows, I v → I (onEngine (restoreGates today rows) v))
    (hrisk : ∀ v rows, I v → I (onEngine (restoreRisk cfg rows) v))
    (hpeaks : ∀ v reply, I v → rely .loadPeaks reply v →
      I (onEngine (setPeaks (serve .loadPeaks reply v).1) (v.elapse reply))) :
    wp serve rely guar (restoreRiskStateIfNeeded cfg) (fun _ => I) w := by
  simp only [restoreRiskStateIfNeeded, wp_bind, wp_get, hfresh, Bool.false_eq_true, if_false,
    wp_modify]
  refine wp_mono (hI.ask rfl hmark) fun rows v hv => ?_
  cases rows with
  | none => exact hv
  | some rows =>
    simp only [wp_bind, wp_modify]
    have hrebuilt := hgates v (cfg.clock.date w.clock)
      (getTradesByDate cfg.clock (cfg.clock.date w.clock) rows) hv
    split
    · exact hrebuilt
    · simp only [wp_bind, wp_modify, wp_ask]
      have hreplayed := hrisk _ (getTradesByDate cfg.clock (cfg.clock.date w.clock) rows) hrebuilt
      exact ⟨hI.guar _ _ rfl hreplayed, fun reply hrely => hpeaks _ reply hreplayed hrely⟩

theorem restoreRiskStateIfNeeded_restored (cfg : Settings) (w : World) :
    wp serve rely (fun _ _ => True) (restoreRiskStateIfNeeded cfg)
      (fun _ v => v.engine.riskStateRestored = true) w := by
  cases hfresh : w.engine.riskStateRestored with
  | true => simp [restoreRiskStateIfNeeded, hfresh]
  | false =>
    have hsteady : Steady rely (fun _ _ => True) fun v => v.engine.riskStateRestored = true :=
      steady_engine (P := fun e => e.riskStateRestored = true) fun f e hf he => by
        obtain ⟨_, _, _, _, _, heq⟩ := hf e
        rw [heq]
        exact he
    refine restoreRiskStateIfNeeded_rule cfg hsteady hfresh rfl (fun v today rows hv => ?_)
      (fun _ _ hv => hv) fun v reply hv _ => ?_
    · obtain ⟨_, _, _, heq⟩ := restoreGates_eq today rows v.engine
      rw [onEngine_engine, heq]
      exact hv
    · simpa [setPeaks] using hv

section Day
variable {cfg : Settings} {I : World → Prop} (hI : DayKeeps cfg rely guar I) {w : World}
include hI

theorem DayKeeps.cancelAll (h : I w) :
    wp serve rely guar (cancelAllPendingOrders cfg) (fun _ => I) w := by
  refine cancelAllPendingOrders_rule cfg (fun v code pending hv hp => ?_) h
  refine wp_mono (wp_and (hI.cancel v code pending hv hp)
    (cancelPendingOrder_frame cfg code pending v)) fun _ u hu => ⟨hu.1, hu.2.1⟩

/-- The orders a cleanup still has to cancel; every other one is within its timeout. -/
structure Cleaning (cfg : Settings) (e : Engine) (xs : List (Code × PendingOrder)) (v : World) :
    Prop where
  cycleCount : v.engine.cycleCount = e.cycleCount
  restored : v.engine.riskStateRestored = e.riskStateRestored
  nodup : (xs.map Prod.fst).Nodup
  registered : ∀ x ∈ xs, v.engine.pendingOrders.get? x.1 = some x.2
  stale : ∀ code pending, v.engine.pendingOrders.get? code = some pending →
    isStale cfg e pending = true → (code, pending) ∈ xs

omit hI in
theorem Cleaning.step {e : Engine} {x : Code × PendingOrder} {xs : List (Code × PendingOrder)}
    {v u : World} (h : Cleaning cfg e (x::xs) v)
    (hpop : u.engine.pendingOrders = v.engine.pendingOrders.pop x.1)
    (hcycle : u.engine.cycleCount = v.engine.cycleCount)
    (hrestored : u.engine.riskStateRestored = v.engine.riskStateRestored) :
    Cleaning cfg e xs u := by
  have hnodup := h.nodup
  rw [List.map_cons, List.nodup_cons] at hnodup
  refine ⟨hcycle.trans h.cycleCount, hrestored.trans h.restored, hnodup.2, fun y hy => ?_,
    fun code pending hp hs => ?_⟩
  · have hne : y.1 ≠ x.1 := fun heq => hnodup.1 (heq ▸ List.mem_map_of_mem hy)
    rw [hpop, Dict.get?_pop_ne _ hne]
    exact h.registered y (by simp [hy])
  · rw [hpop, Dict.get?_pop] at hp
    split_ifs at hp with hc
    have hmem := h.stale code pending hp hs
    simp only [List.mem_cons] at hmem
    obtain heq | hmem := hmem
    · exact absurd (congrArg Prod.fst heq) hc
    · exact hmem

/-- After the cleanup of a cycle no order has outlived its timeout. -/
theorem DayKeeps.cleanup (h : I w) (hrestored : w.engine.riskStateRestored = true) :
    wp serve rely guar (cleanupStalePendingOrders cfg) (fun _ => Ready cfg I fun _ => True) w := by
  have hstart : Cleaning cfg w.engine
      (w.engine.pendingOrders.items.filter fun x => isStale cfg w.engine x.2) w := by
    refine ⟨rfl, rfl, w.engine.pendingOrders.nodup.sublist (List.filter_sublist.map _),
      fun x hx => Dict.mem_items.mp (List.mem_of_mem_filter hx), fun code pending hp hs => ?_⟩
    exact List.mem_filter.mpr ⟨Dict.mem_items.mpr hp, by simpa using hs⟩
  simp only [cleanupStalePendingOrders, wp_bind, wp_get]
  refine wp_mono (wp_each (I := fun xs v => I v ∧ Cleaning cfg w.engine xs v) ?_ ⟨h, hstart⟩) ?_
  · intro x xs v hv
    refine wp_mono (wp_and (hI.cancel v x.1 x.2 hv.1 (hv.2.registered x (by simp)))
      (cancelPendingOrder_frame cfg x.1 x.2 v)) fun _ u hu => ?_
    obtain ⟨hu, hpop, hcycle, hres⟩ := hu
    exact ⟨hu, hv.2.step hpop hcycle hres⟩
  · intro _ v hv
    refine ⟨hv.1, hv.2.restored.trans hrestored, fun code _ pending hp => ?_⟩
    cases hs : isStale cfg v.engine pending with
    | false => rfl
    | true =>
      have hmem := hv.2.stale code pending hp (by simpa [isStale, age, hv.2.cycleCount] using hs)
      simp at hmem

theorem DayKeeps.processStock (code : Code) (deposit : ℚ) (holding : Option Holding)
    (hcode : ∀ h ∈ holding, h.stockCode = code) (hw : Ready cfg I (· = code) w) :
    wp serve rely guar (processStock cfg code deposit holding) (fun _ => I) w := by
  have hready := ready_steady cfg hI.steady (· = code)
  have hheld : ∀ r reply u h price signal, h ∈ holding → evaluates r h → Ready cfg I (· = code) u →
      rely r reply u →
      wp serve rely guar (processHeldStock cfg price h signal) (fun _ => I) (u.elapse reply) := by
    intro r reply u h price signal hh hr hu hrely
    exact hI.held r reply u h price signal hr hu.1 hu.2.1 (hu.2.2 _ (hcode h hh)) hrely
  simp only [StockProcessing.processStock, wp_bind]
  refine wp_mono (hready.ask rfl hw) fun daily u hu => ?_
  split
  · exact hu.1
  · split
    · rename_i h
      simp only [evaluateHeldWithoutDaily, wp_bind, wp_ask]
      refine ⟨hI.steady.guar _ u rfl hu.1, fun reply hrely => ?_⟩
      rw [serve_read rfl]
      split
      · exact hI.steady.wait _ reply u rfl hu.1 hrely
      · simp only [wp_bind]
        exact wp_mono (hheld _ reply u h _ _ rfl (Or.inl rfl) hu hrely) fun _ _ hy => hy
    · exact hu.1
  · simp only [wp_bind]
    refine wp_mono (hready.ask rfl hu) fun quote x hx => ?_
    split
    · exact hx.1
    · simp only [wp_bind, wp_ask]
      refine ⟨hI.steady.guar _ x rfl hx.1, fun reply hrely => ?_⟩
      rw [serve_read rfl]
      have hwait := hI.steady.wait _ reply x rfl hx.1 hrely
      split
      · exact hwait
      · split
        · rename_i _ h _
          simp only [wp_bind]
          refine wp_mono (hheld _ reply x h _ _ rfl (Or.inr ?_) hx hrely) fun _ _ hy => hy
          rw [hcode h rfl]
        · split
          · rename_i hbuy
            have hx' := hready.wait _ reply x rfl hx hrely
            exact hI.buy _ code deposit _ _ hwait hx'.2.1 (hx'.2.2 code rfl) hbuy
          · exact hwait

theorem DayKeeps.processTargets (b : Balance) {codes : List Code} (hnodup : codes.Nodup)
    (hw : Ready cfg I (· ∈ codes) w) :
    wp serve rely guar (processTargets cfg b codes) (fun _ => I) w := by
  induction codes generalizing w with
  | nil => exact hw.1
  | cons code codes ih =>
    rw [List.nodup_cons] at hnodup
    simp only [TradingCycle.processTargets, wp_bind, wp_get]
    split
    · exact hw.1
    · simp only [wp_bind]
      have hcode : ∀ h ∈ findHolding b code, h.stockCode = code := fun _ => findHolding_code
      refine wp_mono (wp_and
        (hI.processStock code b.deposit (findHolding b code) hcode (hw.mono (by simp)))
        (processStock_frame cfg code b.deposit (findHolding b code) hcode
          (Undisturbed.refl code w))) fun r v hv => ?_
      obtain ⟨hv, hframe⟩ := hv
      have hready : Ready cfg I (· ∈ codes) v := by
        refine ⟨hv, hframe.restored.trans hw.2.1, fun c hc => ?_⟩
        have hne : c ≠ code := fun heq => hnodup.1 (heq ▸ hc)
        exact hframe.unstale hne (hw.2.2 c (by simp [hc]))
      split
      · exact hI.steady.quiet _ v quiet_setDailyLimitReached hv
      · exact ih hnodup.2 hready

theorem DayKeeps.visit (limit : Bool) (h : Ready cfg I (fun _ => True) w) :
    wp serve rely guar (do
      match ← getBalance cfg .cycle false with
      | .error .dailyLimit => modify (onEngine setDailyLimitReached)
      | .error .failed => pure ()
      | .ok b => do
          let targets ← cycleTargets limit b
          TradingCycle.processTargets cfg b targets) (fun _ => I) w := by
  have hready := ready_steady cfg hI.steady fun _ => True
  simp only [wp_bind]
  refine wp_mono (hready.getBalance cfg .cycle false h) fun r x hx => ?_
  split
  · exact hI.steady.quiet _ x quiet_setDailyLimitReached hx.1
  · exact hx.1
  · rename_i b
    simp only [wp_bind]
    refine wp_mono (cycleTargets_rule hready _ b hx) fun targets y hy => ?_
    exact hI.processTargets b hy.1 (hy.2.mono fun _ _ => trivial)

theorem DayKeeps.cycleBody (h : I w) (hrestored : w.engine.riskStateRestored = true) :
    wp serve rely guar (cycleBody cfg) (fun _ => I) w := by
  have hready := ready_steady cfg hI.steady fun _ => True
  simp only [TradingCycle.cycleBody, wp_bind]
  refine wp_mono (hI.cleanup h hrestored) fun _ v hv => ?_
  simp only [wp_bind, wp_get]
  split
  · rw [wp_bind]
    exact wp_mono (screenStocks_rule hready cfg hv) fun _ _ hu => hI.visit _ hu
  · exact hI.visit _ hv

theorem DayKeeps.runTradingCycle (h : I w) :
    wp serve rely guar (runTradingCycle cfg) (fun _ => I) w := by
  simp only [TradingCycle.runTradingCycle, wp_bind, wp_modify, wp_get]
  have hbegin := hI.cycle w h
  split
  · exact hI.steady.quiet _ _ (quiet_setKillSwitchLogged true) hbegin
  · simp only [wp_bind, wp_modify]
    have hready := hI.steady.quiet _ _ (quiet_setKillSwitchLogged false) hbegin
    refine wp_mono (wp_and (hI.restore _ hready) (restoreRiskStateIfNeeded_restored cfg _))
      fun _ v hv => ?_
    simp only [wp_bind, wp_get]
    split
    · exact hv.1
    · split
      · exact hv.1
      · exact hI.cycleBody hv.1 hv.2

theorem DayKeeps.postMarket (h : I w) : wp serve rely guar (postMarket cfg) (fun _ => I) w := by
  simp only [TradingCycle.postMarket, wp_bind]
  refine wp_mono (hI.cancelAll h) fun _ v hv => ?_
  simp only [wp_bind]
  refine wp_mono (hI.steady.getBalance cfg .cycle true hv) fun r u hu => ?_
  split
  · exact hu
  · rename_i b
    simp only [wp_bind]
    refine wp_mono (hI.steady.ask rfl hu) fun executed x hx => ?_
    split
    · simp only [wp_bind, wp_get, wp_ask]
      exact hI.sync x b hx
    · exact hx

/-- The step lemma of a trading day. -/
theorem DayKeeps.runDayJob (job : DayJob) (h : I w) :
    wp serve rely guar (runDayJob cfg job) (fun _ => I) w := by
  cases job with
  | idle => exact hI.steady.ask rfl h
  | cycle => exact hI.runTradingCycle h
  | postMarket => exact hI.postMarket h

end Day

/-! ### The rule of many days -/

/-- A new process starts with an empty memory. -/
def reboot : World → World := onEngine fun _ => {}

theorem preMarket_rule (cfg : Settings) {I J : World → Prop} (hI : Steady rely guar I) {w : World}
    (hguar : guar .loadPeaks w)
    (hreset : ∀ reply, rely .loadPeaks reply w →
      I (onEngine (resetDay (serve .loadPeaks reply w).1) (w.elapse reply)))
    (hmark : ∀ v, I v → J (onEngine markRestored v)) :
    wp serve rely guar (preMarket cfg) (fun _ => J) w := by
  simp only [TradingCycle.preMarket, wp_bind, wp_modify, wp_ask]
  refine ⟨hguar, fun reply hrely => ?_⟩
  rw [serve_read rfl]
  have hw := hreset reply hrely
  refine ⟨hI.guar _ _ rfl hw, fun reply' hrely' => ?_⟩
  rw [serve_read rfl]
  have hv := hI.wait .accessToken reply' _ rfl hw hrely'
  split
  · simp only [wp_bind]
    refine wp_mono (hI.getBalance cfg .cycle true hv) fun r u hu => ?_
    split
    · exact hmark u hu
    · simp only [wp_bind]
      refine wp_mono (hI.ask rfl hu) fun ready x hx => ?_
      split
      · simp only [wp_bind]
        exact wp_mono (screenStocks_rule hI cfg hx) fun _ y hy => hmark y hy
      · exact hmark x hx
  · exact hmark _ hv

/-- What an invariant owes to the turn of the day and to a crash. -/
structure LifeKeeps (cfg : Settings) (rely : Req → Reply → World → Prop) (guar : Req → World → Prop)
    (I : World → Prop) : Prop extends DayKeeps cfg rely guar I where
  reset : ∀ w reply, I w → rely .loadPeaks reply w →
    I (onEngine (resetDay (serve .loadPeaks reply w).1) (w.elapse reply))
  mark : ∀ w, I w → I (onEngine markRestored w)
  boot : ∀ w, I w → I (reboot w)
  bootAt : ∀ r w, guar r w → I (reboot w)

section Life
variable {cfg : Settings} {I : World → Prop} (hI : LifeKeeps cfg rely guar I) {w : World}
include hI

theorem LifeKeeps.preMarket (h : I w) : wp serve rely guar (preMarket cfg) (fun _ => I) w :=
  preMarket_rule cfg hI.steady (hI.steady.guar _ w rfl h) (fun reply => hI.reset w reply h) hI.mark

/-- The step lemma of the engine's life. -/
theorem LifeKeeps.runJob (job : Job) (h : I w) :
    wp serve rely guar (runJob cfg job) (fun _ => I) w := by
  induction job with
  | day job => exact hI.toDayKeeps.runDayJob job h
  | preMarket => exact hI.preMarket h
  | crash calls job ih =>
    simp only [TradingCycle.runJob, wp_bind]
    exact wp_cut calls (R := fun v => I (reboot v)) (wp_mono ih fun _ v hv => hI.boot v hv)
      hI.bootAt

end Life

/-- An engine that has not rebuilt its state has no order registered and is not halted. -/
def Fresh (w : World) : Prop :=
  w.engine.riskStateRestored = true ∨
    w.engine.pendingOrders.items = [] ∧ w.engine.risk.portfolioHalted = false

theorem fresh_lifeKeeps (cfg : Settings) : LifeKeeps cfg rely (fun _ _ => True) Fresh := by
  have hsteady : Steady rely (fun _ _ => True) Fresh :=
    steady_engine (P := fun e => e.riskStateRestored = true ∨
      e.pendingOrders.items = [] ∧ e.risk.portfolioHalted = false) fun f e hf he => by
      obtain ⟨_, _, _, _, _, heq⟩ := hf e
      rw [heq]
      exact he
  refine ⟨⟨hsteady, fun w h => h, fun w _ => ?_, fun w code pending h hp => ?_,
    fun r reply w h price signal _ _ hrestored _ _ => ?_,
    fun w code deposit price signal _ hrestored _ _ => ?_, fun w b h => ?_⟩,
    fun w reply _ _ => ?_, fun _ _ => Or.inl rfl, fun _ _ => Or.inr ⟨rfl, rfl⟩,
    fun _ _ _ => Or.inr ⟨rfl, rfl⟩⟩
  · exact wp_mono (restoreRiskStateIfNeeded_restored cfg w) fun _ _ => Or.inl
  · refine wp_mono (cancelPendingOrder_frame cfg code pending w) fun _ v hv => Or.inl ?_
    obtain h | h := h
    · exact hv.2.2.trans h
    · simp [Dict.get?, h.1, lookup] at hp
  · refine wp_mono (processHeldStock_frame cfg price h signal (Undisturbed.refl _ _))
      fun _ _ hv => Or.inl ?_
    rw [hv.restored, World.elapse_engine, hrestored]
  · exact wp_mono (processBuySignal_frame cfg code deposit price signal (Undisturbed.refl code w))
      fun _ v hv => Or.inl (hv.restored.trans hrestored)
  · exact ⟨trivial, fun reply _ => by simpa [Fresh] using h⟩
  · exact Or.inr ⟨rfl, rfl⟩

/-- Whatever happens to the engine over its days, crashes included. -/
theorem fresh_reached (cfg : Settings) (jobs : List (Job × Tape)) {w : World} (h : Fresh w) :
    Fresh (run serve (runJob cfg) jobs w) :=
  (run_invariant (fun job _ hv => (fresh_lifeKeeps cfg).runJob job hv) h (runMeets_true jobs w)).2

end KisAutotrader.CycleRules
