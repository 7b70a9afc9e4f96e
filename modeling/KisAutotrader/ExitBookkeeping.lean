import KisAutotrader.CycleRules

/-!
# Exit bookkeeping

What the engine remembers of a stock after a recorded sale: the time of the sale
closes the stock to BUY signals for the cooldown, and nothing of the closed
position is left to the next one.
-/
namespace KisAutotrader.ExitBookkeeping
open OrderedDict Coroutine OrderExecution OrderRules RiskRestore StockProcessing TradingCycle
  CycleRules History

/-- The stock was sold and has not been observed as held since. -/
def soldSince (code : Code) (log : List LogEntry) : Bool :=
  log.foldl (fun sold entry => match entry with
    | .booked c .sell => sold || decide (c = code)
    | .held c _ _ _ _ => sold && decide (c ≠ code)
    | _ => sold) false

/-- The first observation after a sale starts the peak afresh. -/
def StartsFresh (log : List LogEntry) : LogEntry → Prop
  | .held code _ price avgPrice peak => soldSince code log = true → peak = max avgPrice price
  | _ => True

/-- What the engine keeps of the recorded sales. -/
structure ExitsKept (cfg : Settings) (w₀ w : World) : Prop where
  rejected : ∀ row ∈ recorded .sell w₀ w, ∀ (now : Time) signal deposit, 0 < cfg.buyCooldownAfterSellMin →
    (now : ℤ) - row.tradedAt < cfg.buyCooldownAfterSellMin * minute →
    buyReject cfg now row.stockCode signal deposit w.engine ≠ none
  heldSince : ∀ row ∈ recorded .sell w₀ w, ∀ t ∈ w.engine.heldSince.get? row.stockCode, row.tradedAt ≤ t
  gone : ∀ code, soldSince code (newLog w₀ w) = true →
    w.engine.peakPrices.get? code = none ∧ w.engine.heldSince.get? code = none
  starts : EachAfter StartsFresh (newLog w₀ w)

/-- Where a sale is handed to the queue, its time is the last sale of its stock, and
peak and holding start are gone. -/
def SaleBooked : Req → World → Prop
  | .enqueueTrade row, w => row.tradeType = .sell →
      w.engine.lastSellAt.get? row.stockCode = some row.tradedAt ∧
      w.engine.peakPrices.get? row.stockCode = none ∧
      w.engine.heldSince.get? row.stockCode = none
  | _, _ => True

/-- The condition on a call: no reconciliation finds a late fill of a sale. -/
def NoLateSale (r : Req) (reply : Reply) (w : World) : Prop :=
  match r with
  | .balance (.reconcile code .sell qtyBefore) => reply.outcome = .ok →
      filledBy .sell qtyBefore ((w.elapse reply).broker.holding code) ≤ 0
  | _ => True

instance (r : Req) (reply : Reply) (w : World) : Decidable (NoLateSale r reply w) := by
  unfold NoLateSale
  split <;> infer_instance

/-- The invariant behind `ExitsKept`. -/
structure Exits (w₀ w : World) : Prop where
  rows : w₀.trades.length ≤ w.trades.length
  entries : w₀.log.length ≤ w.log.length
  timed : SalesTimed w₀ w
  heldSince : ∀ row ∈ recorded .sell w₀ w, ∀ t ∈ w.engine.heldSince.get? row.stockCode, row.tradedAt ≤ t
  gone : ∀ code, soldSince code (newLog w₀ w) = true →
    w.engine.peakPrices.get? code = none ∧ w.engine.heldSince.get? code = none
  starts : EachAfter StartsFresh (newLog w₀ w)

namespace Exits
variable {w₀ w v : World}

theorem kept (cfg : Settings) (h : Exits w₀ w) : ExitsKept cfg w₀ w := by
  refine ⟨fun row hrow now signal deposit hcool hwithin => ?_, h.heldSince, h.gone, h.starts⟩
  obtain ⟨-, last, hlast, hle⟩ := h.timed row hrow
  have hcooldown : inCooldown cfg now row.stockCode w.engine = true := by
    have hle' : (row.tradedAt : ℤ) ≤ last := by exact_mod_cast hle
    simp only [inCooldown, hlast, decide_eq_true_eq]
    exact ⟨hcool, by omega⟩
  simp only [buyReject, hcooldown]
  split_ifs <;> simp_all

/-- Nothing has been sold before the first trade. -/
theorem start (htrades : w.trades = w₀.trades) (hlog : w.log = w₀.log) : Exits w₀ w := by
  constructor <;> simp [SalesTimed, recorded, newLog, htrades, hlog, soldSince, eachAfter_nil]

/-- Time passes and other books change. -/
theorem evolve (h : Exits w₀ w) (htrades : v.trades = w.trades) (hlog : v.log = w.log)
    (hclock : w.clock ≤ v.clock) (hlast : v.engine.lastSellAt = w.engine.lastSellAt)
    (hsince : v.engine.heldSince = w.engine.heldSince)
    (hpeak : v.engine.peakPrices = w.engine.peakPrices) : Exits w₀ v := by
  have hsales : recorded .sell w₀ v = recorded .sell w₀ w := recorded_congr htrades
  have hnew : newLog w₀ v = newLog w₀ w := by simp [newLog, hlog]
  refine ⟨htrades ▸ h.rows, hlog ▸ h.entries, h.timed.evolve htrades hclock hlast, ?_, ?_,
    hnew ▸ h.starts⟩
  · rw [hsales, hsince]
    exact h.heldSince
  · rw [hnew, hsince, hpeak]
    exact h.gone

/-- Observing a holding: the first time after a sale its peak and its holding start are new. -/
theorem observe (h : Exits w₀ w) (code : Code) (lot : ℕ) (price avgPrice : ℚ) :
    Exits w₀ (logEntry (.held code lot price avgPrice
      (nextPeak (w.engine.peakPrices.get? code) avgPrice price))
      (onEngine (observeHeld w.clock code avgPrice price) w)) := by
  have hnew : newLog w₀ (logEntry (.held code lot price avgPrice
      (nextPeak (w.engine.peakPrices.get? code) avgPrice price))
      (onEngine (observeHeld w.clock code avgPrice price) w)) =
      newLog w₀ w ++ [.held code lot price avgPrice
        (nextPeak (w.engine.peakPrices.get? code) avgPrice price)] := since_snoc h.entries _
  refine ⟨h.rows, ?_, h.timed, fun row hrow t ht => ?_, fun c hc => ?_, ?_⟩
  · simpa using h.entries.trans (Nat.le_succ _)
  · simp only [logEntry_engine, onEngine_engine, observeHeld, Dict.get?_setDefault] at ht
    split_ifs at ht with hcode
    · obtain rfl := Option.some.inj ht
      cases hs : w.engine.heldSince.get? code with
      | none => simpa [hs] using (h.timed row hrow).1
      | some t => simpa [hs] using h.heldSince row hrow t (by rw [hcode, hs]; rfl)
    · exact h.heldSince row hrow t ht
  · rw [hnew] at hc
    simp only [soldSince, List.foldl_append, List.foldl_cons, List.foldl_nil, Bool.and_eq_true,
      decide_eq_true_eq] at hc
    obtain ⟨hc, hne⟩ := hc
    obtain ⟨hpeak, hsince⟩ := h.gone c hc
    simp [observeHeld, Dict.get?_setDefault, Ne.symm hne, hpeak, hsince]
  · rw [hnew]
    refine h.starts.snoc fun hsold => ?_
    simp [nextPeak, (h.gone code hsold).1]

theorem attempt (h : Exits w₀ w) (code : Code) (reason : String) :
    Exits w₀ (logEntry (.sell code reason) w) := by
  have hnew : newLog w₀ (logEntry (.sell code reason) w) =
      newLog w₀ w ++ [.sell code reason] := since_snoc h.entries _
  refine ⟨h.rows, ?_, h.timed, h.heldSince, fun c hc => ?_, ?_⟩
  · simpa using h.entries.trans (Nat.le_succ _)
  · rw [hnew] at hc
    exact h.gone c (by simpa [soldSince, List.foldl_append] using hc)
  · rw [hnew]
    exact h.starts.snoc trivial

variable {code : Code} {side : Side} {filled : ℤ} {f : Time → Engine → Engine × TradeRow}

theorem saleBooked (hexit : BooksExit code side f) (hf : Books code side filled f) :
    SaleBooked (.enqueueTrade (f w.clock w.engine).2) (applyBooking f w) := by
  obtain ⟨hcode, hside, -, htime⟩ := hf.row w.clock w.engine
  intro hsell
  rw [hside] at hsell
  simp [hexit.lastSellAt, hexit.heldSince, hf.peakPrices, hsell, hcode, htime]

theorem booked (h : Exits w₀ w) (hf : Books code side filled f) (hexit : BooksExit code side f)
    (hv : AfterBooking f w v) : Exits w₀ v := by
  obtain ⟨hcode, hside, -, htime⟩ := hf.row w.clock w.engine
  have hnew : newLog w₀ v = newLog w₀ w ++ [.booked code side] := by
    simp only [newLog, hv.log, hcode, hside]
    exact since_snoc h.entries _
  refine ⟨rows_booked h.rows hv, ?_, h.timed.booked hf hexit h.rows hv, fun row hrow t ht => ?_,
    fun c hc => ?_, ?_⟩
  · rw [hv.log]
    simpa using h.entries.trans (Nat.le_succ _)
  · rw [hv.engine, hexit.heldSince] at ht
    obtain heq | ⟨hsell, heq⟩ := recorded_booked hf h.rows hv .sell
    · split_ifs at ht
      · rw [Dict.get?_pop] at ht
        split_ifs at ht
        · simp at ht
        · exact h.heldSince row (heq ▸ hrow) t ht
      · exact h.heldSince row (heq ▸ hrow) t ht
    · rw [if_pos hsell, Dict.get?_pop] at ht
      split_ifs at ht with hc
      · simp at ht
      · rw [heq, List.mem_append, List.mem_singleton] at hrow
        obtain hrow | rfl := hrow
        · exact h.heldSince row hrow t ht
        · exact absurd hcode hc
  · rw [hnew] at hc
    simp only [hv.engine, hf.peakPrices, hexit.heldSince, Dict.get?_pop]
    have hold : soldSince c (newLog w₀ w) = true ∨ side = .sell ∧ code = c := by
      cases side <;> simpa [soldSince, List.foldl_append] using hc
    obtain hold | ⟨hsell, rfl⟩ := hold
    · obtain ⟨hp, hs⟩ := h.gone c hold
      split_ifs <;> simp [hp, hs, Dict.get?_pop]
    · simp [hsell]
  · rw [hnew]
    exact h.starts.snoc trivial

end Exits

/-! ### A trading day -/

def Site (cfg : Settings) (w₀ : World) (r : Req) (w : World) : Prop :=
  SaleBooked r w ∧ ExitsKept cfg w₀ w

abbrev Ensures {α : Type} (cfg : Settings) (w₀ : World) (p : EngineM α) (Q : α → World → Prop)
    (w : World) : Prop :=
  wp serve NoLateSale (Site cfg w₀) p Q w

/-- The engine has rebuilt its state, as it does before it trades. -/
def Restored (w₀ w : World) : Prop := Exits w₀ w ∧ w.engine.riskStateRestored = true

/-- An engine that has not rebuilt its state has not traded. -/
def Sound (w₀ w : World) : Prop :=
  Restored w₀ w ∨ w.engine.pendingOrders.items = [] ∧ w.trades = w₀.trades ∧ w.log = w₀.log

theorem Sound.exits {w₀ w : World} (h : Sound w₀ w) : Exits w₀ w := by
  obtain h | ⟨-, htrades, hlog⟩ := h
  · exact h.1
  · exact Exits.start htrades hlog

theorem Exits.quiet {w₀ w : World} (h : Exits w₀ w) {f : Engine → Engine} (hf : Quiet f) :
    Exits w₀ (onEngine f w) := by
  obtain ⟨_, _, _, _, _, heq⟩ := hf w.engine
  refine h.evolve rfl rfl (le_refl _) ?_ ?_ ?_ <;> simp [heq]

theorem Exits.serve {w₀ w : World} (h : Exits w₀ w) {r : Req} (hr : ∀ row, r ≠ .enqueueTrade row)
    (reply : Reply) : Exits w₀ (serve r reply w).2 := by
  refine h.evolve (serve_trades hr reply w) (serve_log r reply w) ?_ ?_ ?_ ?_ <;> simp

theorem Exits.site {w₀ w : World} (h : Exits w₀ w) (cfg : Settings) {r : Req}
    (hr : ∀ row, r ≠ .enqueueTrade row) : Site cfg w₀ r w := by
  refine ⟨?_, h.kept cfg⟩
  cases r <;> first | trivial | exact absurd rfl (hr _)

theorem read_ne_enqueueTrade {r : Req} (hr : isRead r = true) : ∀ row, r ≠ .enqueueTrade row := by
  intro row heq
  simp [heq, isRead] at hr

theorem restored_steady (cfg : Settings) (w₀ : World) :
    Steady NoLateSale (Site cfg w₀) (Restored w₀) := by
  refine steady_and (P := fun e => e.riskStateRestored = true) ⟨fun r w hr h => ?_,
    fun r reply w hr h _ => ?_, fun f w hf h => h.quiet hf⟩ fun f e hf he => ?_
  · exact h.site cfg (read_ne_enqueueTrade hr)
  · rw [← serve_read hr]
    exact h.serve (read_ne_enqueueTrade hr) reply
  · obtain ⟨_, _, _, _, _, heq⟩ := hf e
    rw [heq]
    exact he

theorem sound_steady (cfg : Settings) (w₀ : World) :
    Steady NoLateSale (Site cfg w₀) (Sound w₀) := by
  refine ⟨fun r w hr h => h.exits.site cfg (read_ne_enqueueTrade hr), fun r reply w hr h hrely => ?_,
    fun f w hf h => ?_⟩
  · obtain h | h := h
    · exact Or.inl ((restored_steady cfg w₀).wait r reply w hr h hrely)
    · exact Or.inr (by simpa using h)
  · obtain h | h := h
    · exact Or.inl ((restored_steady cfg w₀).quiet f w hf h)
    · obtain ⟨_, _, _, _, _, heq⟩ := hf w.engine
      exact Or.inr (by simpa [heq] using h)

theorem book_spec (cfg : Settings) {w₀ w : World} {code : Code} {side : Side} {filled : ℤ}
    {f : Time → Engine → Engine × TradeRow} (hf : Books code side filled f)
    (hexit : BooksExit code side f) (h : Restored w₀ w) :
    Ensures cfg w₀ (book f) (fun _ => Restored w₀) w := by
  have hsale := Exits.saleBooked (w := w) hexit hf
  have hbooked := h.1.booked hf hexit (afterBooking_apply f w)
  refine book_rule ⟨hsale, hbooked.kept cfg⟩ fun v hv => ⟨h.1.booked hf hexit hv, ?_⟩
  rw [hv.engine, hf.riskStateRestored]
  exact h.2

theorem restored_orderKeeps (cfg : Settings) (w₀ : World) :
    OrderKeeps cfg NoLateSale (Site cfg w₀) (Restored w₀) where
  steady := restored_steady cfg w₀
  registry f w hf h := by
    obtain ⟨_, _, heq⟩ := hf w.engine
    refine ⟨h.1.evolve rfl rfl (le_refl _) ?_ ?_ ?_, ?_⟩ <;> rw [onEngine_engine, heq]
    exact h.2
  order r w hr h := by
    have hne : ∀ row, r ≠ .enqueueTrade row := by
      intro row heq
      simp [heq, isOrder] at hr
    refine ⟨h.1.site cfg hne, fun reply => ⟨h.1.serve hne reply, ?_⟩⟩
    simpa using h.2
  confirmed w code side filled f hf hexit h := book_spec cfg hf hexit h
  late w code pending reply filled h hrely hok heq hfilled := by
    have hwait := (restored_steady cfg w₀).wait _ reply w rfl h hrely
    have hstored := (restored_steady cfg w₀).quiet _ _
      (quiet_storeBalance cfg w.clock (w.elapse reply).broker.report) hwait
    have hbooks := books_orphanConfirmed cfg code pending filled
    cases hside : pending.side with
    | buy =>
      rw [hside] at hbooks
      apply book_spec cfg hbooks _ hstored
      constructor
      · exact fun now e => (orphanConfirmed_exit cfg now code pending filled e).1
      · exact fun now e => (orphanConfirmed_exit cfg now code pending filled e).2
    | sell =>
      rw [hside] at hrely
      have hnone := hrely hok
      rw [hside] at heq
      omega

theorem processHeldStock_spec (cfg : Settings) {w₀ w : World} (price : ℚ) (h : Holding)
    (signal : Signal) (hw : Restored w₀ w) :
    Ensures cfg w₀ (processHeldStock cfg price h signal) (fun _ => Restored w₀) w := by
  unfold processHeldStock
  split
  · exact hw
  · simp only [wp_bind, wp_get, wp_modify]
    have hobserved := hw.1.observe h.stockCode h.lot price h.avgPrice
    split
    · exact ⟨hobserved, hw.2⟩
    · simp only [wp_bind, wp_modify]
      exact (restored_orderKeeps cfg w₀).executeSell h.stockCode h.quantity price _ _
        ⟨hobserved.attempt _ _, hw.2⟩

/-- The state is rebuilt before the first trade. -/
theorem restoreRiskStateIfNeeded_spec (cfg : Settings) {w₀ w : World} (h : Sound w₀ w) :
    Ensures cfg w₀ (restoreRiskStateIfNeeded cfg) (fun _ => Sound w₀) w := by
  cases hfresh : w.engine.riskStateRestored with
  | true => simpa [restoreRiskStateIfNeeded, hfresh] using h
  | false =>
    have hidle : w.engine.pendingOrders.items = [] ∧ w.trades = w₀.trades ∧ w.log = w₀.log := by
      obtain h | h := h
      · simp [h.2] at hfresh
      · exact h
    have hsteady : Steady NoLateSale (Site cfg w₀) fun v =>
        v.trades = w₀.trades ∧ v.log = w₀.log ∧ v.engine.riskStateRestored = true := by
      refine ⟨fun r v hr hv => (Exits.start hv.1 hv.2.1).site cfg (read_ne_enqueueTrade hr),
        fun r reply v hr hv _ => by simpa using hv, fun f v hf hv => ?_⟩
      obtain ⟨_, _, _, _, _, heq⟩ := hf v.engine
      simpa [heq] using hv
    refine wp_mono (restoreRiskStateIfNeeded_rule cfg hsteady hfresh ⟨hidle.2.1, hidle.2.2, rfl⟩
      (fun v today rows hv => ?_) (fun _ _ hv => hv) fun v reply hv _ => ?_) fun _ v hv => ?_
    · obtain ⟨_, _, _, heq⟩ := restoreGates_eq today rows v.engine
      simpa [heq] using hv
    · simpa [setPeaks] using hv
    · exact Or.inl ⟨Exits.start hv.1 hv.2.1, hv.2.2⟩

theorem exits_dayKeeps (cfg : Settings) (w₀ : World) :
    DayKeeps cfg NoLateSale (Site cfg w₀) (Sound w₀) := by
  have hsteady := sound_steady cfg w₀
  have htraded : ∀ w, Sound w₀ w → w.engine.riskStateRestored = true → Restored w₀ w :=
    fun w h hrestored => ⟨h.exits, hrestored⟩
  refine ⟨hsteady, fun w h => ?_, fun w h => restoreRiskStateIfNeeded_spec cfg h,
    fun w code pending h hp => ?_, fun r reply w h price signal hr hw hrestored _ hrely => ?_,
    fun w code deposit price signal h hrestored _ _ => ?_, fun w b h => ?_⟩
  · obtain h | h := h
    · exact Or.inl ⟨h.1.evolve rfl rfl (le_refl _) rfl rfl rfl, h.2⟩
    · exact Or.inr h
  · obtain h | h := h
    · exact wp_mono ((restored_orderKeeps cfg w₀).cancelPendingOrder h) fun _ _ hv => Or.inl hv
    · simp [Dict.get?, h.1, lookup] at hp
  · have hread : isRead r = true := by
      obtain rfl | rfl := hr <;> rfl
    have hwait := hsteady.wait r reply w hread hw hrely
    refine wp_mono (processHeldStock_spec cfg price h signal (htraded _ hwait ?_)) fun _ _ hv =>
      Or.inl hv
    simpa using hrestored
  · have hw := htraded w h hrestored
    refine wp_mono (processBuySignal_rule cfg (restored_steady cfg w₀) code deposit price signal hw
      (fun _ => hw) (fun _ hv => hv) fun v quantity hv =>
        (restored_orderKeeps cfg w₀).executeBuy code quantity price hv)
      fun _ _ hv => Or.inl hv
  · refine ⟨h.exits.site cfg (by simp), fun reply _ => ?_⟩
    obtain h | h := h
    · exact Or.inl ⟨h.1.serve (by simp) reply, by simpa using h.2⟩
    · refine Or.inr ⟨by simpa using h.1, ?_, by simpa using h.2.2⟩
      rw [serve_trades (by simp)]
      exact h.2.1

/-! ### Runs -/

/-- In every trading session, after whatever happened to the engine before, each sale
is booked with its exit records where no late sale is reconciled; the records are
kept at every call of the session and in every state it reaches. -/
theorem exits_kept (cfg : Settings) (life : List (Job × Tape)) (jobs : List (DayJob × Tape))
    (w : World) (hboot : Fresh w)
    (hrun : RunMeets serve (runDayJob cfg) NoLateSale jobs (run serve (runJob cfg) life w)) :
    RunAlong serve (runDayJob cfg) (Site cfg (run serve (runJob cfg) life w)) jobs
        (run serve (runJob cfg) life w) ∧
      ExitsKept cfg (run serve (runJob cfg) life w)
        (run serve (runDayJob cfg) jobs (run serve (runJob cfg) life w)) := by
  generalize hv : run serve (runJob cfg) life w = v at hrun ⊢
  have hstart : Sound v v := by
    obtain h | h := hv ▸ fresh_reached cfg life hboot
    · exact Or.inl ⟨Exits.start rfl rfl, h⟩
    · exact Or.inr ⟨h.1, rfl, rfl⟩
  have hinv := run_invariant (I := Sound v)
    (fun job u hu => (exits_dayKeeps cfg v).runDayJob job hu) hstart hrun
  exact ⟨hinv.1, hinv.2.exits.kept cfg⟩

/-- A position of ten shares whose price falls by a tenth. -/
def fallingWorld : World :=
  { broker := ⟨1000000, Dict.empty.set "005930" ⟨10, 1000, "", 0⟩, [], 0, 1⟩ }

/-- The replies of the cycle that sends the stop-loss order. -/
def stopLossReplies : List Reply := [{}, {}, {}, {}, {}, { events := [.price "005930" 900] },
  { signal := some { signalType := .hold, confidence := 0 } }]

/-- A stop-loss sale that fills at once, seen by the first confirmation. -/
def directSaleRun : List (DayJob × Tape) := [
  (.cycle, tapeOf (stopLossReplies ++ [({} : Reply), { events := [.fill 0 10 900] }]))]

theorem exits_kept_directSale :
    ExitsKept paperSettings fallingWorld
      (run serve (runDayJob paperSettings) directSaleRun fallingWorld) :=
  (exits_kept paperSettings [] directSaleRun fallingWorld (Or.inr ⟨rfl, rfl⟩)
    (by decide +kernel)).2

/-- The same order fills after its confirmations; the cleanup of the fourth cycle books it. -/
def lateSaleRun : List (DayJob × Tape) := [
  (.cycle, tapeOf stopLossReplies),
  (.idle, tapeOf [{ elapsed := 2 * minute, events := [.fill 0 10 900] }]),
  (.cycle, tapeOf []), (.cycle, tapeOf []), (.cycle, tapeOf [])]

/-- A BUY signal right after the reconciled sale passes every gate. -/
theorem lateSale_not_kept :
    ¬ ∀ (cfg : Settings) (jobs : List (DayJob × Tape)) (w : World), Fresh w →
      ExitsKept cfg w (run serve (runDayJob cfg) jobs w) := by
  intro h
  have hkept := h paperSettings lateSaleRun fallingWorld (Or.inr ⟨rfl, rfl⟩)
  have hpasses : ∃ row ∈ recorded .sell fallingWorld
      (run serve (runDayJob paperSettings) lateSaleRun fallingWorld),
      0 < paperSettings.buyCooldownAfterSellMin ∧
      ((3 * minute : Time) : ℤ) - row.tradedAt < paperSettings.buyCooldownAfterSellMin * minute ∧
      buyReject paperSettings (3 * minute) row.stockCode { signalType := .buy, confidence := 1 }
        1000000 (run serve (runDayJob paperSettings) lateSaleRun fallingWorld).engine = none := by
    decide +kernel
  obtain ⟨row, hrow, hcool, hwithin, hpass⟩ := hpasses
  exact hkept.rejected row hrow _ _ _ hcool hwithin hpass

end KisAutotrader.ExitBookkeeping
