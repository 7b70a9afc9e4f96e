import KisAutotrader.CycleRules

/-!
# Protective exits under a portfolio halt

A cycle that finds the portfolio halted returns before it looks at any stock.
-/
namespace KisAutotrader.HaltedCycle
open OrderedDict Coroutine OrderExecution RiskRestore StockProcessing TradingCycle CycleRules History

/-- The cycle evaluates every held stock with a positive quote, and attempts to sell
each one at or beyond the stop-loss rate. -/
def ProtectiveExits (cfg : Settings) (tape : Tape) (w : World) : Prop :=
  ∀ code p, w.broker.positions.get? code = some p → 0 < p.quantity → 0 < w.prices code →
    (∃ entry ∈ newLog w (exec serve (runTradingCycle cfg) tape w).2, ∃ avgPrice peak,
      entry = .held code p.lot (w.prices code) avgPrice peak) ∧
    (RiskManager.shouldStopLoss cfg.limits (w.prices code) p.avgPrice = true →
      .sell code "손절" ∈ newLog w (exec serve (runTradingCycle cfg) tape w).2)

/-- Halted by the risk manager, and by nothing else. -/
structure OnlyHalted (w : World) : Prop where
  halted : w.engine.risk.portfolioHalted = true
  haltFile : w.haltFile = false
  dailyLimit : w.engine.dailyLimitReached = false
  breaker : w.breakerOpen = false

/-- Every call succeeds and nothing else happens meanwhile. -/
def Calm (tape : Tape) : Prop :=
  ∀ n, (tape n).events = [] ∧ (tape n).outcome = .ok ∧ (tape n).signal.isSome = true

def NothingHeld (w : World) : Prop :=
  ∀ code p, w.broker.positions.get? code = some p → 0 < w.prices code → p.quantity = 0

/-- The cycle of a halted portfolio looks at no stock. -/
theorem halted_cycle_log (cfg : Settings) (tape : Tape) {w : World}
    (hrestored : w.engine.riskStateRestored = true) (hhalted : w.engine.risk.portfolioHalted = true) :
    (exec serve (runTradingCycle cfg) tape w).2.log = w.log := by
  have hwp : wp serve (fun _ _ _ => True) (fun _ _ => True) (runTradingCycle cfg)
      (fun _ v => v.log = w.log) w := by
    simp only [runTradingCycle, wp_bind, wp_get, wp_modify]
    split
    · rfl
    · simp [restoreRiskStateIfNeeded, beginCycle, setKillSwitchLogged, hrestored, hhalted]
  exact (wp_sound hwp (meets_true _ _ _)).2

/-- In every reachable state that only the risk manager has halted, the cycle keeps the
protective exits exactly when there is nothing to protect. -/
theorem halted_exits (cfg : Settings) (jobs : List (Job × Tape)) (tape : Tape) (w : World)
    (hboot : Fresh w) (hhalted : OnlyHalted (run serve (runJob cfg) jobs w)) :
    ProtectiveExits cfg tape (run serve (runJob cfg) jobs w) ↔
      NothingHeld (run serve (runJob cfg) jobs w) := by
  have hfresh := fresh_reached cfg jobs hboot
  generalize run serve (runJob cfg) jobs w = v at hhalted hfresh ⊢
  have hrestored : v.engine.riskStateRestored = true := by
    obtain h | ⟨-, h⟩ := hfresh
    · exact h
    · simp [hhalted.halted] at h
  have hlog : newLog v (exec serve (runTradingCycle cfg) tape v).2 = [] := by
    simp [newLog, halted_cycle_log cfg tape hrestored hhalted.halted]
  constructor
  · intro hexits code p hp hprice
    by_contra hheld
    obtain ⟨entry, hentry, -⟩ := (hexits code p hp (Nat.pos_of_ne_zero hheld) hprice).1
    simp [hlog] at hentry
  · intro hnone code p hp hheld hprice
    exact absurd (hnone code p hp hprice) (Nat.pos_iff_ne_zero.mp hheld)

/-- Two positions under a limit of one consecutive loss. -/
def oneLossSettings : Settings := { paperSettings with limits := { maxConsecutiveLosses := 1 } }

def twoPositionsWorld : World :=
  { broker := ⟨1000000, (Dict.empty.set "005930" ⟨10, 1000, "", 0⟩).set "000660" ⟨5, 2000, "", 1⟩,
      [], 0, 2⟩ }

def holdReply : Reply := { signal := some { signalType := .hold, confidence := 0 } }

/-- The first stock is sold at a loss, which halts the portfolio; later the second one falls. -/
def lossRun : List (Job × Tape) := [
  (.day .cycle, tapeOf [{}, {}, {}, {}, {}, { events := [.price "005930" 900] }, holdReply, {},
    { events := [.fill 0 10 900] }, {}, {}, { events := [.price "000660" 2000] }, holdReply]),
  (.day .idle, tapeOf [{ events := [.price "000660" 1000] }])]

theorem halted_exits_loss :
    ProtectiveExits oneLossSettings (fun _ => holdReply)
        (run serve (runJob oneLossSettings) lossRun twoPositionsWorld) ↔
      NothingHeld (run serve (runJob oneLossSettings) lossRun twoPositionsWorld) :=
  halted_exits oneLossSettings lossRun (fun _ => holdReply) twoPositionsWorld (Or.inr ⟨rfl, rfl⟩)
    ⟨by decide +kernel, by decide +kernel, by decide +kernel, by decide +kernel⟩

/-- The halted cycle leaves the fallen second stock unattended. -/
theorem loss_unprotected :
    ¬ ∀ (cfg : Settings) (jobs : List (Job × Tape)) (tape : Tape) (w : World), Fresh w →
      OnlyHalted (run serve (runJob cfg) jobs w) → Calm tape →
      ProtectiveExits cfg tape (run serve (runJob cfg) jobs w) := by
  intro h
  have hexits := h oneLossSettings lossRun (fun _ => holdReply) twoPositionsWorld (Or.inr ⟨rfl, rfl⟩)
    ⟨by decide +kernel, by decide +kernel, by decide +kernel, by decide +kernel⟩
    fun _ => ⟨rfl, rfl, rfl⟩
  have hsell := (hexits "000660" ⟨5, 2000, "", 1⟩ (by decide +kernel) (by decide) (by decide +kernel)).2
    (by decide +kernel)
  revert hsell
  decide +kernel

end KisAutotrader.HaltedCycle
