import KisAutotrader.CycleRules
import KisAutotrader.OrderSteps
import KisAutotrader.RiskCharacterisation

/-!
# The operator's commands

`/stop` and `/resume` set the halt of the portfolio from the chat. They run while a job
of the engine waits for an answer, at any of its calls.
-/
namespace KisAutotrader.OperatorCommands
open OrderedDict Coroutine OrderExecution OrderRules RiskRestore Screening StockProcessing
  TradingCycle

inductive Command
  | stop
  | resume
  deriving DecidableEq, Repr

def setHalted (halted : Bool) (e : Engine) : Engine :=
  { e with risk := { e.risk with portfolioHalted := halted } }

/-- `cmd_stop` and `cmd_resume`. -/
def Command.run : Command → World → World
  | .stop => onEngine (setHalted true)
  | .resume => onEngine (setHalted false)

/-- A reply, and the commands that run while the engine waits for it. -/
structure Operated where
  reply : Reply := {}
  commands : List Command := []

def serveOperated (r : Req) (o : Operated) (w : World) : Ans r × World :=
  serve r o.reply (o.commands.foldl (fun w c => c.run w) w)

def sendsBuy : Req → Bool
  | .place .buy .. => true
  | _ => false

def sendsOrder : Req → Bool
  | .place .. => true
  | _ => false

/-- The buys sent since the stop that stands, if one does. -/
def Command.stands : Command → Option ℕ → Option ℕ
  | .stop, sent => some (sent.getD 0)
  | .resume, _ => none

def note (r : Req) (o : Operated) (x : World × Option ℕ) : Option ℕ :=
  o.commands.foldl (fun sent c => c.stands sent) (if sendsBuy r then x.2.map (· + 1) else x.2)

/-- While a stop stands the portfolio is halted, and a number of buys has been sent at most. -/
def Level (most : ℕ) (x : World × Option ℕ) : Prop :=
  x.1.engine.riskStateRestored = true ∧
    ∀ sent ∈ x.2, sent ≤ most ∧ x.1.engine.risk.portfolioHalted = true

/-- An update that undoes neither a halt nor the restored risk state. -/
def Latched (f : World → World) : Prop :=
  ∀ w, (f w).engine.riskStateRestored = w.engine.riskStateRestored ∧
    (w.engine.risk.portfolioHalted = true → (f w).engine.risk.portfolioHalted = true)

theorem level_update {most : ℕ} {f : World → World} (hf : Latched f) {x : World × Option ℕ}
    (h : Level most x) : Level most (f x.1, x.2) := by
  obtain ⟨hrestored, hhalt⟩ := hf x.1
  refine ⟨hrestored.trans h.1, fun sent hsent => ?_⟩
  obtain ⟨hle, hstopped⟩ := h.2 sent hsent
  exact ⟨hle, hhalt hstopped⟩

theorem level_mono {most more : ℕ} (hle : most ≤ more) {x : World × Option ℕ} (h : Level most x) :
    Level more x := by
  refine ⟨h.1, fun sent hsent => ?_⟩
  obtain ⟨hmost, hstopped⟩ := h.2 sent hsent
  exact ⟨hmost.trans hle, hstopped⟩

/-- Whatever the operator sends, the stop stands exactly as long as the portfolio is halted by it. -/
theorem level_commands {most : ℕ} (commands : List Command) {w : World} {sent : Option ℕ}
    (h : Level most (w, sent)) :
    Level most (commands.foldl (fun w c => c.run w) w,
      commands.foldl (fun sent c => c.stands sent) sent) := by
  induction commands generalizing w sent with
  | nil => exact h
  | cons c cs ih =>
    apply ih
    cases c with
    | resume => exact ⟨h.1, by simp [Command.stands]⟩
    | stop =>
      refine ⟨h.1, fun n hn => ?_⟩
      obtain rfl : sent.getD 0 = n := by simpa [Command.stands] using hn
      refine ⟨?_, rfl⟩
      cases sent with
      | none => exact Nat.zero_le _
      | some n => exact (h.2 n rfl).1

theorem level_served {most : ℕ} {r : Req} {o : Operated} {x : World × Option ℕ} {sent : Option ℕ}
    (hsent : (if sendsBuy r then x.2.map (· + 1) else x.2) = sent) (h : Level most (x.1, sent)) :
    Level most ((serveOperated r o x.1).2, note r o x) := by
  have hcommands := level_commands o.commands h
  unfold Level at hcommands ⊢
  unfold note
  rw [hsent]
  simpa only [serveOperated, serve_engine] using hcommands

/-- A booking that keeps a halt. -/
def LatchedBooking (f : Time → Engine → Engine × TradeRow) : Prop :=
  ∀ now e, (f now e).1.riskStateRestored = e.riskStateRestored ∧
    (e.risk.portfolioHalted = true → (f now e).1.risk.portfolioHalted = true)

section Bookings
variable (cfg : Settings)

theorem recordTrade_halted (now : Time) (code : Code) (side : Side) (quantity : ℤ) (price : ℚ)
    (reason : String) (avgPrice : Option ℚ) {e : Engine} (h : e.risk.portfolioHalted = true) :
    (recordTrade cfg now code side quantity price reason avgPrice e).1.risk.portfolioHalted = true := by
  simp only [recordTrade]
  unfold bookRealised
  split
  · exact h
  · exact RiskCharacterisation.recordTradeResult_latched cfg.limits h _

theorem latched_buyConfirmed (code : Code) (filled : ℤ) (price : ℚ) :
    LatchedBooking fun now => buyConfirmed cfg now code filled price := by
  intro now e
  refine ⟨(books_buyConfirmed cfg code filled price).riskStateRestored now e, fun h => ?_⟩
  exact recordTrade_halted cfg now code .buy filled _ "" none h

theorem latched_sellConfirmed (code : Code) (filled : ℤ) (price : ℚ) (reason : String)
    (avgPrice : Option ℚ) :
    LatchedBooking fun now => sellConfirmed cfg now code filled price reason avgPrice := by
  intro now e
  refine ⟨(books_sellConfirmed cfg code filled price reason avgPrice).riskStateRestored now e,
    fun h => ?_⟩
  exact recordTrade_halted cfg now code .sell filled _ reason avgPrice h

theorem latched_orphanConfirmed (code : Code) (pending : PendingOrder) (filled : ℤ) :
    LatchedBooking fun now => orphanConfirmed cfg now code pending filled := by
  intro now e
  refine ⟨(books_orphanConfirmed cfg code pending filled).riskStateRestored now e, fun h => ?_⟩
  unfold orphanConfirmed
  cases pending.side
  · exact recordTrade_halted cfg now code .buy filled _ "" none h
  · exact recordTrade_halted cfg now code .sell filled _ "" pending.avgPrice h

variable {cfg} in
theorem latched_booking {f : Time → Engine → Engine × TradeRow} (hf : OrderSteps.Booking cfg f) :
    LatchedBooking f := by
  cases hf with
  | buy code filled price => exact latched_buyConfirmed cfg code filled price
  | sell code filled price reason avgPrice =>
    exact latched_sellConfirmed cfg code filled price reason avgPrice
  | orphan code pending filled => exact latched_orphanConfirmed cfg code pending filled

end Bookings

/-- What no call but an order, and no update that keeps a halt, can break. -/
structure Standing (rely : Req → Operated → World × Option ℕ → Prop)
    (site : Req → World × Option ℕ → Prop) (I : World × Option ℕ → Prop) : Prop where
  wait : ∀ r x, sendsOrder r = false → I x →
    site r x ∧ ∀ o, rely r o x → I ((serveOperated r o x.1).2, note r o x)
  latch : ∀ f x, Latched f → I x → I (f x.1, x.2)

section Procedures
variable {cfg : Settings} {rely : Req → Operated → World × Option ℕ → Prop}
  {site : Req → World × Option ℕ → Prop} {I : World × Option ℕ → Prop}
  (hI : Standing rely site I)
include hI

theorem Standing.update {f : World → World} (hf : Latched f) :
    Kept serveOperated note rely site I (modify f) :=
  kept_modify fun x hx => hI.latch f x hf hx

theorem Standing.engine {f : Engine → Engine} (hf : ∀ e, (f e).riskStateRestored = e.riskStateRestored ∧
    (f e).risk = e.risk) : Kept serveOperated note rely site I (modify (onEngine f)) := by
  apply hI.update
  intro w
  obtain ⟨hrestored, hrisk⟩ := hf w.engine
  refine ⟨hrestored, fun h => ?_⟩
  show (f w.engine).risk.portfolioHalted = true
  rw [hrisk]
  exact h

theorem Standing.logEntry (entry : LogEntry) :
    Kept serveOperated note rely site I (modify (logEntry entry)) :=
  hI.update fun _ => ⟨rfl, id⟩

theorem Standing.ask {r : Req} (h : sendsOrder r = false) :
    Kept serveOperated note rely site I (ask r) := by
  intro x hx
  rw [wp_instrument_ask]
  exact hI.wait r x h hx

theorem Standing.book {f : Time → Engine → Engine × TradeRow} (hf : LatchedBooking f) :
    Kept serveOperated note rely site I (book f) := by
  refine kept_get.bind fun w => (hI.update fun v => ?_).bind fun _ => hI.ask rfl
  exact hf v.clock v.engine

theorem Standing.getBalance (s : Site) (force : Bool) :
    Kept serveOperated note rely site I (getBalance cfg s force) := by
  refine kept_get.bind fun w => ?_
  split
  · exact kept_pure _
  · refine (hI.ask rfl).bind fun r => ?_
    cases r with
    | error e => exact kept_pure _
    | ok b =>
      exact (hI.engine (f := storeBalance cfg w.clock b) fun _ => ⟨rfl, rfl⟩).bind
        fun _ => kept_pure _

theorem Standing.steps : OrderSteps.Standing cfg serveOperated note rely site I where
  ask r hr := hI.ask (by cases r <;> simp_all [OrderSteps.besideOrder, sendsOrder])
  balance s force := hI.getBalance s force
  update f hf := hI.engine fun e => ⟨(hf e).1, (hf e).2.1⟩
  log entry := hI.logEntry entry
  book f hf := hI.book (latched_booking hf)

end Procedures

/-- A buy is the first one since the stop that stands, if one does. -/
def FirstBuy (r : Req) (x : World × Option ℕ) : Prop :=
  sendsBuy r = true → ∀ sent ∈ x.2, sent = 0

section Stop
variable {cfg : Settings} {most : ℕ} {rely : Req → Operated → World × Option ℕ → Prop} {α : Type}

/-- The procedure adds no buy to those sent since the stop. -/
abbrev Stands (most : ℕ) (rely : Req → Operated → World × Option ℕ → Prop) (p : EngineM α) : Prop :=
  Kept serveOperated note rely FirstBuy (Level most) p

theorem level_wait {r : Req} (h : sendsBuy r = false) {x : World × Option ℕ} (hx : Level most x) :
    FirstBuy r x ∧ ∀ o, rely r o x → Level most ((serveOperated r o x.1).2, note r o x) :=
  ⟨fun hbuy => absurd hbuy (by simp [h]), fun o _ => level_served (by simp [h]) hx⟩

theorem standing_level : Standing rely FirstBuy (Level most) where
  wait r x h hx := level_wait (by cases r <;> simp_all [sendsOrder, sendsBuy]) hx
  latch f x hf hx := level_update hf hx

theorem stands_ask {r : Req} (h : sendsBuy r = false) : Stands most rely (ask r) := by
  intro x hx
  rw [wp_instrument_ask]
  exact level_wait h hx

theorem steps_level : OrderSteps.Standing cfg serveOperated note rely FirstBuy (Level most) :=
  standing_level.steps

theorem stands_processHeldStock (price : ℚ) (h : Holding) (signal : Signal) :
    Stands most rely (processHeldStock cfg price h signal) :=
  steps_level.processHeldStock steps_level (fun _ hx => hx) h signal fun _ _ => stands_ask rfl

/-- The one buy that a stop may come too late for. -/
theorem placeOrder_level (code : Code) (quantity : ℕ) (price : ℚ) (exchange : String) :
    Leads serveOperated note rely FirstBuy (Level 0) (Level 1)
      (placeOrder .buy code quantity price exchange) := by
  intro x hx
  rw [wp_instrument_ask]
  refine ⟨fun _ sent hsent => Nat.le_zero.mp (hx.2 sent hsent).1, fun o _ => ?_⟩
  apply level_served rfl
  refine ⟨hx.1, fun sent hsent => ?_⟩
  obtain ⟨before, hbefore, rfl⟩ : ∃ before, x.2 = some before ∧ before + 1 = sent := by
    simpa [sendsBuy] using hsent
  obtain ⟨hle, hstopped⟩ := hx.2 before hbefore
  exact ⟨Nat.succ_le_succ hle, hstopped⟩

theorem executeBuy_level (code : Code) (quantity : ℕ) (price : ℚ) :
    Leads serveOperated note rely FirstBuy (Level 0) (Level 1) (executeBuy cfg code quantity price) := by
  have hzero : ∀ x : World × Option ℕ, Level 0 x → Level 1 x := fun _ hx => level_mono (Nat.zero_le 1) hx
  exact steps_level.executeBuy steps_level hzero
    fun _ _ exchange => placeOrder_level code quantity price exchange

/-- A passed gate has found no stop. -/
theorem buyReject_none {now : Time} {code : Code} {signal : Signal} {deposit : ℚ} {e : Engine}
    (hsignal : signal.signalType = .buy) (h : buyReject cfg now code signal deposit e = none) :
    e.risk.portfolioHalted = false := by
  unfold buyReject at h
  split_ifs at h
  exact RiskManager.checkBuyGates_halted hsignal h

theorem stands_processBuySignal (code : Code) (deposit price : ℚ) {signal : Signal}
    (hsignal : signal.signalType = .buy) :
    Stands 1 rely (processBuySignal cfg code deposit price signal) := by
  intro x hx
  simp only [processBuySignal, wp_instrument_bind, wp_instrument_get]
  split
  · exact hx
  next hnone =>
    have hrunning := buyReject_none hsignal hnone
    have hzero : Level 0 x := by
      refine ⟨hx.1, fun sent hsent => ?_⟩
      have hstopped := (hx.2 sent hsent).2
      rw [hrunning] at hstopped
      cases hstopped
    split
    · exact hx
    · split
      · exact hx
      · simp only [wp_instrument_bind]
        refine wp_mono (stands_ask rfl x hzero) fun buyable y hy => ?_
        split
        · exact level_mono (Nat.zero_le 1) hy
        · simp only [wp_instrument_bind]
          exact wp_mono (executeBuy_level code _ price y hy) fun _ _ hz => hz

theorem stands_processStock (code : Code) (deposit : ℚ) (holding : Option Holding) :
    Stands 1 rely (processStock cfg code deposit holding) := by
  refine (stands_ask rfl).bind fun daily => ?_
  split
  · exact kept_pure _
  · split
    · refine (stands_ask rfl).bind fun quote => ?_
      split
      · exact kept_pure _
      · exact (stands_processHeldStock _ _ _).bind fun _ => kept_pure _
    · exact kept_pure _
  · refine (stands_ask rfl).bind fun quote => ?_
    split
    · exact kept_pure _
    · refine (stands_ask rfl).bind fun analysis => ?_
      split
      · exact kept_pure _
      · split
        · exact (stands_processHeldStock _ _ _).bind fun _ => kept_pure _
        · split
          next hsignal => exact stands_processBuySignal code deposit _ hsignal
          next => exact kept_pure _

theorem stands_fromBalance (buyLimitReached : Bool) :
    Stands 1 rely (OrderSteps.fromBalance cfg buyLimitReached) := by
  have hsteps : OrderSteps.Standing cfg serveOperated note rely FirstBuy (Level 1) := steps_level
  refine (hsteps.balance .cycle false).bind fun r => ?_
  split
  · exact standing_level.engine fun _ => ⟨rfl, rfl⟩
  · exact kept_pure _
  next b =>
    refine (hsteps.cycleTargets buyLimitReached b).bind fun targets => ?_
    exact hsteps.processTargets (fun code => stands_processStock code b.deposit _) targets

theorem stands_runTradingCycle : Stands 1 rely (runTradingCycle cfg) := by
  refine steps_level.runTradingCycle ?_ (steps_level.cycleBody stands_fromBalance)
  intro x hx
  simp only [restoreRiskStateIfNeeded, wp_instrument_bind, wp_instrument_get, hx.1, if_true]
  exact hx

theorem stands_runDayJob (job : DayJob) : Stands 1 rely (runDayJob cfg job) := by
  cases job with
  | idle => exact stands_ask rfl
  | cycle => exact stands_runTradingCycle
  | postMarket => exact steps_level.postMarket

end Stop

section Silence
variable {cfg : Settings}

/-- The operator does not resume. -/
def NoResume (_ : Req) (o : Operated) (_ : World × Option ℕ) : Prop := .resume ∉ o.commands

/-- No order is sent. -/
def NoOrder (r : Req) (_ : World × Option ℕ) : Prop := sendsOrder r = false

def Halted (x : World × Option ℕ) : Prop :=
  x.1.engine.riskStateRestored = true ∧ x.1.engine.risk.portfolioHalted = true

theorem halted_commands {commands : List Command} (hnone : .resume ∉ commands) {w : World}
    (h : w.engine.riskStateRestored = true ∧ w.engine.risk.portfolioHalted = true) :
    let v := commands.foldl (fun w c => c.run w) w
    v.engine.riskStateRestored = true ∧ v.engine.risk.portfolioHalted = true := by
  induction commands generalizing w with
  | nil => exact h
  | cons c cs ih =>
    rw [List.mem_cons, not_or] at hnone
    apply ih hnone.2
    cases c with
    | stop => exact ⟨h.1, rfl⟩
    | resume => exact absurd rfl hnone.1

theorem standing_halted : Standing NoResume NoOrder Halted where
  wait r x h hx := by
    refine ⟨h, fun o ho => ?_⟩
    unfold Halted
    simpa only [serveOperated, serve_engine] using halted_commands ho hx
  latch f x hf hx := by
    obtain ⟨hrestored, hhalt⟩ := hf x.1
    exact ⟨hrestored.trans hx.1, hhalt hx.2⟩

/-- A job that starts while the portfolio is halted sends no order. -/
theorem halted_runDayJob (job : DayJob) :
    Kept serveOperated note NoResume NoOrder Halted (runDayJob cfg job) := by
  cases job with
  | idle => exact standing_halted.ask rfl
  | postMarket => exact standing_halted.steps.postMarket
  | cycle =>
    intro x hx
    have hbegin : ∀ logged, Halted (onEngine (setKillSwitchLogged logged) (onEngine beginCycle x.1), x.2) :=
      fun _ => hx
    simp only [runDayJob, runTradingCycle, wp_instrument_bind, wp_instrument_modify, wp_instrument_get]
    split
    · exact hbegin true
    · have hv := hbegin false
      rw [wp_instrument_bind, wp_instrument_modify]
      generalize onEngine (setKillSwitchLogged false) (onEngine beginCycle x.1) = v at hv ⊢
      have hrestored : v.engine.riskStateRestored = true := hv.1
      have hstopped : v.engine.risk.portfolioHalted = true := hv.2
      simp only [restoreRiskStateIfNeeded, wp_instrument_bind, wp_instrument_get, wp_instrument_pure,
        hrestored, hstopped, if_true, Bool.or_true]
      exact hv

end Silence

section Witness

/-- Both stocks stand at a price, and an analysis finds a buy. -/
def buyReply : Reply where
  signal := some { signalType := .buy, confidence := 1 }
  buyable := some 200
  events := [.price "005930" 1000, .price "000660" 1000]

/-- The stop comes while the order for the first stock is prepared. -/
def stoppedCycle (n : ℕ) : Operated := ⟨buyReply, if n = 7 then [.stop] else []⟩

def stoppedWorld : World :=
  { paperWorld with watchlist := ["005930", "000660"], engine := { riskStateRestored := true } }

/-- The order goes out after the stop, and the second stock is not bought. -/
example : (run (serveNoted serveOperated note) (fun job => instrument (Option ℕ)
    (runDayJob paperSettings job)) [(.cycle, stoppedCycle)] (stoppedWorld, none)).2 = some 1 := by
  decide +kernel

end Witness

end KisAutotrader.OperatorCommands
