import KisAutotrader.HeldDecision
import KisAutotrader.CycleRules

/-!
# What stands before the stop-loss

A pass over a held stock reads the daily bars, then the quote, then runs the analysis, and
only after that the exit rules. Too few bars have a path of their own to the rules; an
exception of the fetch or of the analysis ends the pass.
-/
namespace KisAutotrader.StopLossMasking
open OrderedDict Coroutine OrderExecution OrderRules StockProcessing TradingCycle CycleRules History
  HeldDecision

/-! ### Orders only add to the log -/

section Log
variable (cfg : Settings) {log₀ : List LogEntry}

/-- The log still starts with `log₀`. -/
def Extends (log₀ : List LogEntry) (w : World) : Prop := log₀ <+: w.log

theorem Extends.of_log {w v : World} (h : Extends log₀ w) (hlog : v.log = w.log) :
    Extends log₀ v := by
  unfold Extends at h ⊢
  rwa [hlog]

theorem Extends.book {f : Time → Engine → Engine × TradeRow} {w : World} (h : Extends log₀ w) :
    wp serve (fun _ _ _ => True) (fun _ _ => True) (book f) (fun _ => Extends log₀) w := by
  refine book_rule trivial fun v hv => ?_
  unfold Extends at h ⊢
  rw [hv.log]
  exact h.trans (List.prefix_append _ _)

theorem extends_orderKeeps :
    OrderKeeps cfg (fun _ _ _ => True) (fun _ _ => True) (Extends log₀) where
  steady :=
    { guar := fun _ _ _ _ => trivial
      wait := fun _ reply w _ h _ => h.of_log (World.elapse_log w reply)
      quiet := fun _ _ _ h => h.of_log rfl }
  registry _ _ _ h := h.of_log rfl
  order r w _ h := ⟨trivial, fun reply => h.of_log (serve_log r reply w)⟩
  confirmed _ _ _ _ _ _ _ h := h.book
  late w _ _ reply _ h _ _ _ _ := by
    have hwait := h.of_log (World.elapse_log w reply)
    exact Extends.book (hwait.of_log rfl)

end Log

/-! ### The rule comes first -/

theorem firstRule_stopLoss {cfg : Settings} {c : Case} (h : Rule.stopLoss.Holds cfg c) :
    firstRule cfg c = some .stopLoss := by
  simp [firstRule, Rule.order, h]

section Evaluation
variable (cfg : Settings) (h : Holding) (t : Tape) (w : World) {price : ℚ}

/-- A price at or beyond the loss the holding may make. -/
def AtStopLoss (price : ℚ) : Prop :=
  0 < h.avgPrice ∧ price ≤ h.avgPrice * (1 - cfg.limits.maxLossRate)

variable {cfg h}

theorem mem_newLog {w v : World} {entries : List LogEntry} {entry : LogEntry}
    (hextends : Extends (w.log ++ entries) v) (hmem : entry ∈ entries) : entry ∈ newLog w v := by
  obtain ⟨later, hlog⟩ := hextends
  have hnew : newLog w v = entries ++ later := by
    rw [newLog, since, ← hlog, List.append_assoc, List.drop_left]
  rw [hnew]
  exact List.mem_append_left _ hmem

/-- Whatever the signal, the exit rules sell for the stop-loss. -/
theorem processHeldStock_attempts (hprice : 0 < price) (hloss : AtStopLoss cfg h price)
    (signal : Signal) : .sell h.stockCode Rule.stopLoss.reason ∈
      newLog w (exec serve (processHeldStock cfg price h signal) t w).2 := by
  have hrule : firstRule cfg (caseOf price h signal w) = some .stopLoss := firstRule_stopLoss hloss
  rw [(processHeldStock_decides cfg h signal w t hprice).1, hrule]
  have hstart : Extends (attempted price h signal w .stopLoss).log
      (attempted price h signal w .stopLoss) := List.prefix_refl _
  have hextends := (wp_sound ((extends_orderKeeps cfg).executeSell h.stockCode h.quantity price
    Rule.stopLoss.reason (some h.avgPrice) hstart) (meets_true _ t _)).2
  have hlog : (attempted price h signal w .stopLoss).log = w.log ++
      [.held h.stockCode h.lot price h.avgPrice (caseOf price h signal w).peak,
        .sell h.stockCode Rule.stopLoss.reason] := by
    simp [attempted, observed, onEngine]
  rw [hlog] at hextends
  exact mem_newLog hextends (by simp)

end Evaluation

/-! ### The pass -/

section Pass
variable (cfg : Settings) (b : Balance) (h : Holding) (t : Tape) (w : World)

/-- The loop body over one stock, with its exceptions caught. -/
def pass (code : Code) : EngineM Unit := processTargets cfg b [code]

/-- The pass decides to sell for the stop-loss. -/
def Attempted : Prop :=
  .sell h.stockCode Rule.stopLoss.reason ∈ newLog w (exec serve (pass cfg b h.stockCode) t w).2

/-- The quote the pass is given if it asks for one. -/
def quoted (code : Code) : ℚ := ((serve (.daily code) (t 0) w).2.elapse (t 1)).prices code

/-- Neither the daily fetch nor the analysis raises. -/
def Unraised : Prop := (t 0).outcome = .lost ∨ (t 0).outcome = .ok ∧ (t 2).signal.isSome = true

variable {cfg b h t w}

theorem exec_pass (hbreaker : w.breakerOpen = false)
    (hheld : findHolding b h.stockCode = some h) :
    exec serve (pass cfg b h.stockCode) t w =
      exec serve (do
        match ← processStock cfg h.stockCode b.deposit (some h) with
        | .error .dailyLimit => modify (onEngine setDailyLimitReached)
        | _ => processTargets cfg b [] : EngineM Unit) t w := by
  rw [← hheld]
  simp only [pass, processTargets, Coroutine.get]
  change exec serve (if w.breakerOpen then _ else _) t w = _
  rw [hbreaker]
  rfl

/-- What the loop does with the outcome of a stock is not logged. -/
theorem pass_log (hbreaker : w.breakerOpen = false)
    (hheld : findHolding b h.stockCode = some h) :
    (exec serve (pass cfg b h.stockCode) t w).2.log =
      (exec serve (processStock cfg h.stockCode b.deposit (some h)) t w).2.log := by
  rw [exec_pass hbreaker hheld]
  refine exec_bind_observe World.log (fun a u v => ?_) _ t w
  split <;> rfl

theorem serve_daily_world (code : Code) (reply : Reply) :
    (serve (.daily code) reply w).2 = w.elapse reply := by
  simp only [serve, World.answer]
  split <;> rfl

theorem serve_quote (code : Code) (evaluated : Option Holding) (hquote : (t 1).outcome = .ok) :
    serve (.quote code evaluated) (t 1) (w.elapse (t 0)) =
      (.ok (quoted t w code), (w.elapse (t 0)).elapse (t 1)) := by
  rw [quoted, serve_daily_world]
  simp [serve, World.answer, hquote]

/-- The decision about a held stock is all that reaches the log after it. -/
theorem decided_log (price : ℚ) (signal : Signal) (u : Tape) (v : World) :
    (exec serve (do processHeldStock cfg price h signal; pure (.ok ()) :
      EngineM (Except CallError Unit)) u v).2.log =
      (exec serve (processHeldStock cfg price h signal) u v).2.log :=
  exec_bind_observe World.log (fun _ _ _ => rfl) _ u v

/-- Where nothing raises, the pass reaches the exit rules with its quote. -/
theorem processStock_reaches (hquote : (t 1).outcome = .ok) (hunraised : Unraised t) :
    ∃ signal u v, v.log = w.log ∧
      (exec serve (processStock cfg h.stockCode b.deposit (some h)) t w).2.log =
        (exec serve (processHeldStock cfg (quoted t w h.stockCode) h signal) u v).2.log := by
  rcases hunraised with hfew | ⟨hbars, hsignal⟩
  · -- too few bars: the rules run on the quote alone
    have hdaily : serve (.daily h.stockCode) (t 0) w = (.ok false, w.elapse (t 0)) := by
      simp [serve, World.answer, hfew]
    refine ⟨holdSignal, fun n => t (n+2), (w.elapse (t 0)).elapse (t 1), by simp, ?_⟩
    rw [processStock, exec_ask_bind, hdaily]
    dsimp only
    rw [evaluateHeldWithoutDaily, exec_ask_bind, serve_quote _ _ hquote]
    exact decided_log _ _ _ _
  · obtain ⟨signal, hsome⟩ := Option.isSome_iff_exists.mp hsignal
    have hdaily : serve (.daily h.stockCode) (t 0) w = (.ok true, w.elapse (t 0)) := by
      simp [serve, World.answer, hbars]
    have hanalyze : serve (.analyze h.stockCode (some h)) (t 2) ((w.elapse (t 0)).elapse (t 1)) =
        (some signal, ((w.elapse (t 0)).elapse (t 1)).elapse (t 2)) := by
      simp [serve, World.answer, hsome]
    refine ⟨signal, fun n => t (n+3), ((w.elapse (t 0)).elapse (t 1)).elapse (t 2), by simp, ?_⟩
    rw [processStock, exec_ask_bind, hdaily]
    dsimp only
    rw [exec_ask_bind, serve_quote _ _ hquote]
    dsimp only
    rw [exec_ask_bind, hanalyze]
    exact decided_log _ _ _ _

/-- An exception before the exit rules leaves nothing in the log. -/
theorem processStock_raised (hquote : (t 1).outcome = .ok) (hraised : ¬ Unraised t) :
    (exec serve (processStock cfg h.stockCode b.deposit (some h)) t w).2.log = w.log := by
  simp only [Unraised, not_or, not_and, Bool.not_eq_true, Option.isSome_eq_false_iff,
    Option.isNone_iff_eq_none] at hraised
  obtain ⟨hfew, hsignal⟩ := hraised
  rw [processStock, exec_ask_bind]
  cases hbars : (t 0).outcome with
  | lost => exact absurd hbars hfew
  | ok =>
    have hdaily : serve (.daily h.stockCode) (t 0) w = (.ok true, w.elapse (t 0)) := by
      simp [serve, World.answer, hbars]
    have hanalyze : serve (.analyze h.stockCode (some h)) (t 2) ((w.elapse (t 0)).elapse (t 1)) =
        (none, ((w.elapse (t 0)).elapse (t 1)).elapse (t 2)) := by
      simp [serve, World.answer, hsignal hbars]
    rw [hdaily]
    dsimp only
    rw [exec_ask_bind, serve_quote _ _ hquote]
    dsimp only
    rw [exec_ask_bind, hanalyze]
    change (((w.elapse (t 0)).elapse (t 1)).elapse (t 2)).log = w.log
    simp
  | dailyLimit | failed | untradable =>
    have hdaily : serve (.daily h.stockCode) (t 0) w =
        (.error (t 0).outcome.error, w.elapse (t 0)) := by
      simp [serve, World.answer, hbars]
    rw [hdaily]
    exact World.elapse_log w (t 0)

end Pass

def fallen : Holding where
  stockCode := "005930"
  quantity := 10
  avgPrice := 1000
  exchange := ""
  lot := 0

def heldWorld : World where
  broker := ⟨0, Dict.empty.set "005930" fallen.toPosition, [], 0, 1⟩

/-- The bars arrive, the quote has fallen by a tenth, and the strategy says hold. -/
def heldReplies : List Reply := [{}, { events := [.price "005930" 900] }, { signal := some holdSignal }]

/-- The same, but for a fetch of the bars that raises. -/
def barlessReplies : List Reply := { outcome := .failed } :: heldReplies.tail

end KisAutotrader.StopLossMasking
