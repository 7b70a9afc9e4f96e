import KisAutotrader.Screening
import KisAutotrader.RiskRestore
import KisAutotrader.StockProcessing

/-! The scheduled jobs of the engine: `pre_market`, `run_trading_cycle`, `post_market`. -/
namespace KisAutotrader.TradingCycle
open OrderedDict Coroutine OrderExecution RiskRestore Screening StockProcessing

def heldCodes (b : Balance) : List Code :=
  (b.holdings.filter fun h => 0 < h.quantity).map Holding.stockCode

/-- `_find_holding_from_balance`. -/
def findHolding (b : Balance) (code : Code) : Option Holding :=
  b.holdings.find? fun h => h.stockCode = code ∧ 0 < h.quantity

/-- `_build_monitor_targets`; the two sets are iterated in an order of their own. -/
def buildMonitorTargets (held : List Code) : EngineM (List Code) := do
  let w ← get
  let heldOrder ← iterationOrder held
  let screenedOrder ← iterationOrder w.engine.screenedCodes
  pure (heldOrder ++ w.watchlist ++ screenedOrder).eraseDups

def cycleTargets (buyLimitReached : Bool) (b : Balance) : EngineM (List Code) :=
  if buyLimitReached then pure ((heldCodes b).eraseDups.insertionSort (· ≤ ·))
  else buildMonitorTargets (heldCodes b).eraseDups

def setDailyLimitReached (e : Engine) : Engine := { e with dailyLimitReached := true }

def processTargets (cfg : Settings) (b : Balance) : List Code → EngineM Unit
  | [] => pure ()
  | code::codes => do
      let w ← get
      if w.breakerOpen then pure ()
      else do
        match ← processStock cfg code b.deposit (findHolding b code) with
        | .error .dailyLimit => modify (onEngine setDailyLimitReached)
        | _ => processTargets cfg b codes

def beginCycle (e : Engine) : Engine := { e with cycleCount := e.cycleCount + 1 }
def setKillSwitchLogged (logged : Bool) (e : Engine) : Engine := { e with killSwitchLogged := logged }

/-- The body of a cycle behind its early returns. -/
def cycleBody (cfg : Settings) : EngineM Unit := do
  cleanupStalePendingOrders cfg
  let w ← get
  let buyLimitReached := RiskManager.checkDailyTradeLimit cfg.limits w.engine.todayTradeCount
  if !buyLimitReached && w.engine.cycleCount % cfg.screeningIntervalCycles = 0 then
    screenStocks cfg
  else pure ()
  match ← getBalance cfg .cycle false with
  | .error .dailyLimit => modify (onEngine setDailyLimitReached)
  | .error .failed => pure ()
  | .ok b => do
      let targets ← cycleTargets buyLimitReached b
      processTargets cfg b targets

def runTradingCycle (cfg : Settings) : EngineM Unit := do
  modify (onEngine beginCycle)
  let w ← get
  if w.haltFile then modify (onEngine (setKillSwitchLogged true))
  else do
    modify (onEngine (setKillSwitchLogged false))
    restoreRiskStateIfNeeded cfg
    let w ← get
    if w.engine.dailyLimitReached || w.engine.risk.portfolioHalted then pure ()
    else if w.breakerOpen then pure ()
    else cycleBody cfg

/-- The registries and counters a new trading day starts with. -/
def resetDay (peaks : Option (Dict Code ℚ)) (e : Engine) : Engine :=
  { e with
    todayTradeCount := 0
    todayBuysPerStock := .empty
    untradableToday := []
    cycleCount := 0
    dailyLimitReached := false
    risk := e.risk.resetDailyRisk
    screenedCodes := []
    balanceCache := none
    peakPrices := peaks.getD .empty
    pendingOrders := .empty
    lastSellAt := .empty
    lossSellDates := .empty
    heldSince := .empty }

def preMarket (cfg : Settings) : EngineM Unit := do
  let peaks ← loadPeaks
  modify (onEngine (resetDay peaks))
  if ← getAccessToken then do
    match ← getBalance cfg .cycle true with
    | .error _ => pure ()
    | .ok _ =>
        if ← prefetchDaily then screenStocks cfg else pure ()
  else pure ()
  modify (onEngine markRestored)

/-- The sync payload: every holding with the peak in memory. -/
def syncRows (b : Balance) (e : Engine) : List SyncHolding :=
  b.holdings.map fun h => ⟨h.stockCode, e.peakPrices.get? h.stockCode⟩

def postMarket (cfg : Settings) : EngineM Unit := do
  cancelAllPendingOrders cfg
  match ← getBalance cfg .cycle true with
  | .error _ => pure ()
  | .ok b =>
      if ← getExecutions then do
        let w ← get
        enqueueSync (cfg.clock.date w.clock) (syncRows b w.engine)
      else pure ()

/-- The jobs of one trading day, and the time between them. -/
inductive DayJob where
  | idle
  | cycle
  | postMarket
  deriving DecidableEq, Repr

def runDayJob (cfg : Settings) : DayJob → EngineM Unit
  | .idle => ask Req.idle
  | .cycle => runTradingCycle cfg
  | .postMarket => postMarket cfg

/-- The jobs over many days. A crash leaves a new process after some calls of a job. -/
inductive Job where
  | day (job : DayJob)
  | preMarket
  | crash (calls : ℕ) (job : Job)
  deriving DecidableEq, Repr

def runJob (cfg : Settings) : Job → EngineM Unit
  | .day job => runDayJob cfg job
  | .preMarket => preMarket cfg
  | .crash calls job => do
      cut calls (runJob cfg job)
      modify (onEngine fun _ => {})

end KisAutotrader.TradingCycle
