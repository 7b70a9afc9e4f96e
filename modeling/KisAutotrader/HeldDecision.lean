import KisAutotrader.CallBound
import KisAutotrader.StockProcessing

/-!
# The decision about a held stock

The exit rules as a table of thresholds, and `_process_held_stock` as the first rule of the
table that fires.
-/
namespace KisAutotrader.HeldDecision
open OrderedDict Coroutine OrderExecution StockProcessing

/-! ### The orders of a sale -/

/-- An order weighs one, every other call nothing. -/
def orderWeight : Req → ℕ
  | .place .. => 1
  | _ => 0

section Orders
variable (cfg : Settings)

theorem bound_ask {r : Req} (h : orderWeight r = 0) : CallBound orderWeight (ask r : EngineM _) 0 :=
  callBound_ask h.le

theorem bound_getBalance (site : Site) (force : Bool) :
    CallBound orderWeight (getBalance cfg site force) 0 := by
  refine (callBound_get 0).after fun w => ?_
  split
  · exact callBound_pure _ 0
  · refine (bound_ask rfl).after fun r => ?_
    split
    · exact callBound_pure _ 0
    · exact (callBound_modify _ 0).after fun _ => callBound_pure _ 0

theorem bound_holdingQuantity (site : Site) (code : Code) (force : Bool) :
    CallBound orderWeight (holdingQuantity cfg site code force) 0 := by
  refine (bound_getBalance cfg site force).after fun r => ?_
  split <;> exact callBound_pure _ 0

theorem bound_confirmFill (site : Site) (code : Code) (side : Side) (qtyBefore : ℤ) (retries : ℕ) :
    CallBound orderWeight (confirmFill cfg site code side qtyBefore retries) 0 := by
  induction retries with
  | zero => exact callBound_pure _ 0
  | succ retries ih =>
    refine (bound_holdingQuantity cfg site code true).after fun r => ?_
    cases r <;> dsimp only <;> split
    · exact callBound_pure _ 0
    · exact ih
    · exact callBound_pure _ 0
    · exact ih

theorem bound_book (f : Time → Engine → Engine × TradeRow) : CallBound orderWeight (book f) 0 := by
  refine (callBound_get 0).after fun w => (callBound_modify _ 0).after fun _ => ?_
  exact bound_ask rfl

theorem bound_cancelPendingOrder (code : Code) (pending : PendingOrder) :
    CallBound orderWeight (cancelPendingOrder cfg code pending) 0 := by
  have hdrop : CallBound orderWeight (do
      let w ← get
      let _ ← cancelOrder code pending.orderNo pending.quantity (exchangeOf cfg w.engine code)
      modify (onEngine (popPending code)) : EngineM Unit) 0 := by
    refine (callBound_get 0).after fun w => (bound_ask rfl).after fun _ => ?_
    exact callBound_modify _ 0
  have hreconcile : CallBound orderWeight (reconcileOrphanFill cfg code pending) 0 := by
    refine (bound_confirmFill cfg _ code pending.side pending.qtyBefore 1).after fun filled => ?_
    split
    · exact callBound_pure _ 0
    · exact (bound_book _).after fun _ => callBound_pure _ 0
  unfold cancelPendingOrder
  split
  · refine hreconcile.after fun recovered => ?_
    dsimp only
    split
    · exact callBound_pure _ 0
    · exact hdrop
  · exact hdrop

theorem bound_suppressOrReplacePending (code : Code) :
    CallBound orderWeight (suppressOrReplacePending cfg code) 0 := by
  refine (callBound_get 0).after fun w => ?_
  split
  · exact callBound_pure _ 0
  · split
    · exact callBound_pure _ 0
    · exact (bound_cancelPendingOrder cfg code _).after fun _ => callBound_pure _ 0

variable (side : Side) (code : Code) (quantity : ℕ) (price : ℚ) (avgPrice : Option ℚ)
  (confirmed : Time → ℤ → Engine → Engine × TradeRow)

theorem bound_confirmAccepted (qtyBefore : ℤ) (orderNo : ℕ) : CallBound orderWeight
    (confirmAccepted cfg side code quantity price avgPrice confirmed qtyBefore orderNo) 0 := by
  refine (callBound_modify _ 0).after fun _ => ?_
  refine (bound_confirmFill cfg _ code side qtyBefore 3).after fun filled => ?_
  split
  · exact (callBound_get 0).after fun w => callBound_modify _ 0
  · refine (bound_book _).after fun _ => ?_
    split
    · exact (bound_getBalance cfg _ false).after fun _ => callBound_pure _ 0
    · exact callBound_pure _ 0

theorem bound_placeAndConfirm (fallback : ℤ) (onUntradable : Engine → Engine) :
    CallBound orderWeight (placeAndConfirm cfg side code quantity price avgPrice fallback
      onUntradable confirmed) 1 := by
  have hsnapshot : CallBound orderWeight (snapshotQuantity cfg side code quantity fallback) 0 := by
    refine (bound_holdingQuantity cfg _ code false).after fun r => ?_
    split <;> exact callBound_pure _ 0
  refine hsnapshot.after fun qtyBefore => (callBound_get 0).after fun w => ?_
  have hplace : CallBound orderWeight
      (placeOrder side code quantity price (exchangeOf cfg w.engine code)) 1 :=
    callBound_ask (Nat.le_refl 1)
  refine CallBound.bind (n := 0) hplace fun placed => ?_
  split
  · exact callBound_modify _ 0
  · exact callBound_modify _ 0
  · exact bound_confirmAccepted cfg side code quantity price avgPrice confirmed qtyBefore _

/-- A sale places at most one order. -/
theorem bound_executeSell (reason : String) :
    CallBound orderWeight (executeSell cfg code quantity price reason avgPrice) 1 := by
  have hhealth : CallBound orderWeight (dbUnavailable cfg) 0 := by
    unfold dbUnavailable
    split
    · exact (bound_ask rfl).after fun _ => callBound_pure _ 0
    · exact callBound_pure _ 0
  refine (bound_suppressOrReplacePending cfg code).after fun suppressed => ?_
  split
  · exact callBound_pure _ 1
  · refine hhealth.after fun unavailable => ?_
    split
    · exact callBound_pure _ 1
    · exact bound_placeAndConfirm cfg .sell code quantity price avgPrice _ _ _

end Orders

/-! ### The table of rules -/

/-- The exit rules, in their order. -/
inductive Rule where
  | stopLoss
  | marketClose
  | trailingStop
  | takeProfit
  | breakeven
  | stagnation
  | strategy
  deriving DecidableEq, Repr

namespace Rule

def order : List Rule :=
  [stopLoss, marketClose, trailingStop, takeProfit, breakeven, stagnation, strategy]

def reason : Rule → String
  | stopLoss => "손절"
  | marketClose => "마감청산"
  | trailingStop => "트레일링"
  | takeProfit => "익절"
  | breakeven => "본전스톱"
  | stagnation => "정체청산"
  | strategy => "전략매도"

end Rule

/-- What the rules look at. -/
structure Case where
  price : ℚ
  avgPrice : ℚ
  peak : ℚ
  heldMinutes : ℚ
  now : Time
  signal : Signal

/-- The gain at which a fixed profit is taken: half of it near the close. -/
def profitTarget (cfg : Settings) (now : Time) : ℚ :=
  if RiskManager.isNearMarketClose cfg.limits cfg.clock now then cfg.limits.takeProfitRatio / 2
  else cfg.limits.takeProfitRatio

/-- When an enabled rule holds, by the prices it stands for. -/
def Rule.Holds (cfg : Settings) (c : Case) : Rule → Prop
  | stopLoss => 0 < c.avgPrice ∧ c.price ≤ c.avgPrice * (1 - cfg.limits.maxLossRate)
  | marketClose => 0 < c.avgPrice ∧ RiskManager.isNearMarketClose cfg.limits cfg.clock c.now = true ∧
      (c.avgPrice * (1 + cfg.limits.minProfitableClose) ≤ c.price ∨
        0 < cfg.limits.marketCloseLossCutRate ∧
          c.price ≤ c.avgPrice * (1 - cfg.limits.marketCloseLossCutRate))
  | trailingStop => cfg.trailingStopEnabled = true ∧ 0 < c.avgPrice ∧ 0 < c.peak ∧
      c.avgPrice * (1 + cfg.limits.trailingActivationRatio) ≤ c.peak ∧
      c.price ≤ c.peak * (1 - cfg.limits.trailingDrawdownRatio)
  | takeProfit => cfg.trailingStopEnabled = false ∧ 0 < c.avgPrice ∧
      c.avgPrice * (1 + profitTarget cfg c.now) ≤ c.price
  | breakeven => 0 < cfg.limits.breakevenActivationRatio ∧ 0 < c.avgPrice ∧
      c.avgPrice * (1 + cfg.limits.breakevenActivationRatio) ≤ c.peak ∧ c.price ≤ c.avgPrice
  | stagnation => 0 < cfg.limits.stagnationHours ∧ 0 < c.avgPrice ∧
      cfg.limits.stagnationHours * 60 ≤ c.heldMinutes ∧
      c.peak < c.avgPrice * (1 + cfg.limits.trailingActivationRatio)
  | strategy => c.signal.signalType = .sell ∧ 1/10 ≤ c.signal.confidence

instance (cfg : Settings) (c : Case) : DecidablePred (Rule.Holds cfg c) := fun rule => by
  cases rule <;> unfold Rule.Holds <;> infer_instance

/-- The first rule of the order that holds. -/
def firstRule (cfg : Settings) (c : Case) : Option Rule :=
  Rule.order.find? fun rule => decide (rule.Holds cfg c)

/-! ### The rules as the risk manager states them -/

section Thresholds
variable {a x r : ℚ}

theorem le_loss_iff (ha : 0 < a) : r ≤ (a - x) / a ↔ x ≤ a * (1 - r) := by
  rw [le_div_iff₀ ha]
  constructor <;> intro h <;> linarith

theorem le_gain_iff (ha : 0 < a) : r ≤ (x - a) / a ↔ a * (1 + r) ≤ x := by
  rw [le_div_iff₀ ha]
  constructor <;> intro h <;> linarith

theorem gain_lt_iff (ha : 0 < a) : (x - a) / a < r ↔ x < a * (1 + r) := by
  rw [div_lt_iff₀ ha]
  constructor <;> intro h <;> linarith

theorem gain_le_neg_iff (ha : 0 < a) : (x - a) / a ≤ -r ↔ x ≤ a * (1 - r) := by
  rw [div_le_iff₀ ha]
  constructor <;> intro h <;> linarith

end Thresholds

section Rules
variable (cfg : Settings) (c : Case)

theorem stopLoss_iff :
    RiskManager.shouldStopLoss cfg.limits c.price c.avgPrice = true ↔ Rule.stopLoss.Holds cfg c := by
  rw [RiskManager.shouldStopLoss, decide_eq_true_iff]
  exact and_congr_right fun havg => le_loss_iff havg

theorem marketClose_iff :
    RiskManager.shouldCloseForMarketEnd cfg.limits cfg.clock c.now c.price c.avgPrice = true ↔
      Rule.marketClose.Holds cfg c := by
  simp only [RiskManager.shouldCloseForMarketEnd, Bool.and_eq_true, decide_eq_true_iff, and_assoc]
  refine and_congr_right fun havg => and_congr_right fun _ => or_congr (le_gain_iff havg) ?_
  exact and_congr_right fun _ => gain_le_neg_iff havg

theorem trailingStop_iff : (cfg.trailingStopEnabled = true ∧
      RiskManager.shouldTrailingStop cfg.limits c.price c.avgPrice c.peak = true) ↔
    Rule.trailingStop.Holds cfg c := by
  rw [RiskManager.shouldTrailingStop, decide_eq_true_iff]
  refine and_congr_right fun _ => and_congr_right fun havg => and_congr_right fun hpeak => ?_
  exact and_congr (le_gain_iff havg) (le_loss_iff hpeak)

theorem takeProfit_iff : (¬ cfg.trailingStopEnabled = true ∧
      RiskManager.shouldTakeProfit cfg.limits cfg.clock c.now c.price c.avgPrice = true) ↔
    Rule.takeProfit.Holds cfg c := by
  have htarget : (if RiskManager.isNearMarketClose cfg.limits cfg.clock c.now = true then
      cfg.limits.takeProfitRatio * (1/2) else cfg.limits.takeProfitRatio) = profitTarget cfg c.now := by
    unfold profitTarget
    split_ifs
    · ring
    · rfl
  rw [RiskManager.shouldTakeProfit, decide_eq_true_iff, htarget, Bool.not_eq_true]
  exact and_congr_right fun _ => and_congr_right fun havg => le_gain_iff havg

theorem breakeven_iff :
    RiskManager.shouldBreakevenStop cfg.limits c.price c.avgPrice c.peak = true ↔
      Rule.breakeven.Holds cfg c := by
  rw [RiskManager.shouldBreakevenStop, decide_eq_true_iff]
  refine and_congr_right fun _ => and_congr_right fun havg => ?_
  exact and_congr_left fun _ => le_gain_iff havg

theorem stagnation_iff :
    RiskManager.shouldStagnationExit cfg.limits c.avgPrice c.peak c.heldMinutes = true ↔
      Rule.stagnation.Holds cfg c := by
  rw [RiskManager.shouldStagnationExit, decide_eq_true_iff]
  refine and_congr_right fun _ => and_congr_right fun havg => ?_
  exact and_congr_right fun _ => gain_lt_iff havg

/-- The chain of tests gives the reason of the first rule that holds. -/
theorem exitReason_eq : exitReason cfg c.now c.price c.avgPrice c.peak c.heldMinutes c.signal =
    (firstRule cfg c).map Rule.reason := by
  have hstrategy : (c.signal.signalType = .sell ∧ c.signal.confidence ≥ 1/10) ↔
      Rule.strategy.Holds cfg c := Iff.rfl
  unfold exitReason firstRule Rule.order
  simp only [stopLoss_iff, marketClose_iff, trailingStop_iff, takeProfit_iff, breakeven_iff,
    stagnation_iff, hstrategy, List.find?_cons, List.find?_nil]
  split_ifs <;> simp_all [Rule.reason]

end Rules

/-! ### The decision -/

section Decision
variable (cfg : Settings) (price : ℚ) (h : Holding) (signal : Signal) (w : World)

/-- What the rules look at: the peak after the present price, and the time held. -/
def caseOf : Case where
  price := price
  avgPrice := h.avgPrice
  peak := max ((w.engine.peakPrices.get? h.stockCode).getD (max h.avgPrice price)) price
  heldMinutes := ((w.clock : ℚ) - (w.engine.heldSince.get? h.stockCode).getD w.clock) / minute
  now := w.clock
  signal := signal

/-- The world once the price has been taken note of. -/
def observed : World :=
  logEntry (.held h.stockCode h.lot price h.avgPrice (caseOf price h signal w).peak)
    (onEngine (observeHeld w.clock h.stockCode h.avgPrice price) w)

theorem observed_peak : (observed price h signal w).engine.peakPrices.get? h.stockCode =
    some (caseOf price h signal w).peak := by
  simp [observed, observeHeld, caseOf, nextPeak]

theorem observed_heldMinutes :
    heldMinutes (observed price h signal w).clock h.stockCode (observed price h signal w).engine =
      (caseOf price h signal w).heldMinutes := by
  simp only [observed, heldMinutes, observeHeld, caseOf, logEntry_engine, onEngine_engine,
    logEntry_clock, onEngine_clock, Dict.get?_setDefault]
  cases w.engine.heldSince.get? h.stockCode <;> simp

/-- The sale a rule asks for. -/
def sale (rule : Rule) : EngineM Unit :=
  executeSell cfg h.stockCode h.quantity price rule.reason (some h.avgPrice)

/-- The world in which the sale is asked for. -/
def attempted (rule : Rule) : World :=
  logEntry (.sell h.stockCode rule.reason) (observed price h signal w)

/-- What follows the decision. -/
def respond : Option String → EngineM Unit
  | none => pure ()
  | some reason => do
      modify (logEntry (.sell h.stockCode reason))
      executeSell cfg h.stockCode h.quantity price reason (some h.avgPrice)

variable (t : Tape) {price}

/-- Between the observation and the sale nothing else happens. -/
theorem processHeldStock_decides (hprice : 0 < price) :
    (exec serve (processHeldStock cfg price h signal) t w =
      match firstRule cfg (caseOf price h signal w) with
      | none => ((), observed price h signal w)
      | some rule => exec serve (sale cfg price h rule) t (attempted price h signal w rule)) ∧
    calls serve (processHeldStock cfg price h signal) t w =
      match firstRule cfg (caseOf price h signal w) with
      | none => []
      | some rule => calls serve (sale cfg price h rule) t (attempted price h signal w rule) := by
  have hreason := exitReason_eq cfg (caseOf price h signal w)
  rw [← observed_heldMinutes] at hreason
  have hstep : exec serve (processHeldStock cfg price h signal) t w =
        exec serve (respond cfg price h ((firstRule cfg (caseOf price h signal w)).map Rule.reason))
          t (observed price h signal w) ∧
      calls serve (processHeldStock cfg price h signal) t w =
        calls serve (respond cfg price h ((firstRule cfg (caseOf price h signal w)).map Rule.reason))
          t (observed price h signal w) := by
    rw [← hreason, processHeldStock, if_neg hprice.not_ge]
    exact ⟨rfl, rfl⟩
  rw [hstep.1, hstep.2]
  cases firstRule cfg (caseOf price h signal w) with
  | none => exact ⟨rfl, rfl⟩
  | some rule => exact ⟨rfl, rfl⟩

theorem firstRule_none_iff (c : Case) : firstRule cfg c = none ↔ ∀ rule : Rule, ¬ rule.Holds cfg c := by
  simp only [firstRule, List.find?_eq_none, decide_eq_true_iff]
  refine ⟨fun hnone rule => hnone rule ?_, fun hnone rule _ => hnone rule⟩
  cases rule <;> simp [Rule.order]

end Decision

end KisAutotrader.HeldDecision
