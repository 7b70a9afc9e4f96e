import KisAutotrader.OrderedDict
import KisAutotrader.RiskCharacterisation

/-!
# Snapshots of the risk manager

A snapshot brings back the state it was taken of. A dict that is not a snapshot should leave the
fields it says nothing about, and should not lift a halt.
-/
namespace KisAutotrader.RiskSnapshot
open OrderedDict RiskCharacterisation

/-- The fields of a risk manager; a restored streak may be any integer. -/
structure RiskState where
  dailyPeakPnl : ℚ := 0
  dailyCumulativePnl : ℚ := 0
  consecutiveLosses : ℤ := 0
  portfolioHalted : Bool := false
  haltReason : Option String := none
  deriving DecidableEq, Repr

def stateOf (r : RiskManager) : RiskState where
  dailyPeakPnl := r.dailyPeakPnl
  dailyCumulativePnl := r.dailyCumulativePnl
  consecutiveLosses := r.consecutiveLosses
  portfolioHalted := r.portfolioHalted
  haltReason := r.haltReason

/-- The values a dict can have, as far as `restore` tells them apart. -/
inductive Value where
  | int (z : ℤ)
  | float (x : ℚ)
  | bool (b : Bool)
  | str (s : String)
  | none
  | other
  deriving DecidableEq, Repr

namespace Value

/-- `isinstance(v, (int, float))`, booleans excluded. -/
def number? : Value → Option ℚ
  | .int z => some z
  | .float x => some x
  | _ => Option.none

def integer? : Value → Option ℤ
  | .int z => some z
  | _ => Option.none

def bool? : Value → Option Bool
  | .bool b => some b
  | _ => Option.none

def ofReason : Option String → Value
  | Option.none => .none
  | some reason => .str reason

end Value

def snapshot (r : RiskState) : Dict String Value :=
  (((((Dict.empty.set "daily_peak_pnl" (.float r.dailyPeakPnl)).set
    "daily_cumulative_pnl" (.float r.dailyCumulativePnl)).set
    "consecutive_losses" (.int r.consecutiveLosses)).set
    "portfolio_halted" (.bool r.portfolioHalted)).set
    "halt_reason" (.ofReason r.haltReason))

/-- A reason that is absent reads as `None`. -/
def restore (state : Dict String Value) (r : RiskState) : RiskState where
  dailyPeakPnl := ((state.get? "daily_peak_pnl").bind Value.number?).getD r.dailyPeakPnl
  dailyCumulativePnl :=
    ((state.get? "daily_cumulative_pnl").bind Value.number?).getD r.dailyCumulativePnl
  consecutiveLosses :=
    ((state.get? "consecutive_losses").bind Value.integer?).getD r.consecutiveLosses
  portfolioHalted := ((state.get? "portfolio_halted").bind Value.bool?).getD r.portfolioHalted
  haltReason := match (state.get? "halt_reason").getD .none with
    | .none => none
    | .str reason => some reason
    | _ => r.haltReason

/-! ### Results recorded later -/

namespace RiskState

def halt (reason : String) (r : RiskState) : RiskState :=
  { r with portfolioHalted := true, haltReason := some (r.haltReason.getD reason) }

def accumulate (pl : ℚ) (r : RiskState) : RiskState :=
  let cumulative := r.dailyCumulativePnl + pl
  { r with
    dailyCumulativePnl := cumulative
    dailyPeakPnl := if cumulative > r.dailyPeakPnl then cumulative else r.dailyPeakPnl
    consecutiveLosses :=
      if pl < 0 then r.consecutiveLosses + 1 else if pl > 0 then 0 else r.consecutiveLosses }

def checkDrawdown (l : RiskLimits) (r : RiskState) : RiskState :=
  if 0 < r.dailyPeakPnl ∧ r.dailyCumulativePnl < 0 ∧
      (r.dailyPeakPnl - r.dailyCumulativePnl) / r.dailyPeakPnl ≥ l.maxDailyDrawdown then
    r.halt "MAX_DAILY_DRAWDOWN"
  else r

def checkDailyLossAbs (l : RiskLimits) (r : RiskState) : RiskState :=
  if 0 < l.maxDailyLossAbs ∧ r.dailyCumulativePnl ≤ -l.maxDailyLossAbs then
    r.halt "MAX_DAILY_LOSS_ABS"
  else r

def checkConsecutiveLosses (l : RiskLimits) (r : RiskState) : RiskState :=
  if r.consecutiveLosses ≥ l.maxConsecutiveLosses then r.halt "MAX_CONSECUTIVE_LOSSES" else r

/-- `record_trade_result` on any integer streak. -/
def recordTradeResult (l : RiskLimits) (pl : ℚ) (r : RiskState) : RiskState :=
  (((r.accumulate pl).checkDrawdown l).checkDailyLossAbs l).checkConsecutiveLosses l

/-- The state after the amounts have been recorded one after the other. -/
def recordAll (l : RiskLimits) (r : RiskState) (amounts : List ℚ) : RiskState :=
  amounts.foldl (fun r pl => r.recordTradeResult l pl) r

end RiskState

section Simulation
variable (l : RiskLimits) (r : RiskManager)

theorem stateOf_accumulate (pl : ℚ) : stateOf (r.accumulate pl) = (stateOf r).accumulate pl := by
  have hstreak : ((r.accumulate pl).consecutiveLosses : ℤ) =
      ((stateOf r).accumulate pl).consecutiveLosses := by
    simp only [RiskManager.accumulate, RiskState.accumulate, stateOf]
    split_ifs <;> simp
  simp only [stateOf] at hstreak ⊢
  rw [hstreak]
  rfl

theorem stateOf_checkDrawdown : stateOf (r.checkDrawdown l) = (stateOf r).checkDrawdown l :=
  apply_ite stateOf _ _ _

theorem stateOf_checkDailyLossAbs :
    stateOf (r.checkDailyLossAbs l) = (stateOf r).checkDailyLossAbs l :=
  apply_ite stateOf _ _ _

theorem stateOf_checkConsecutiveLosses :
    stateOf (r.checkConsecutiveLosses l) = (stateOf r).checkConsecutiveLosses l :=
  apply_ite stateOf _ _ _

theorem stateOf_recordTradeResult (pl : ℚ) :
    stateOf (r.recordTradeResult l pl) = (stateOf r).recordTradeResult l pl := by
  unfold RiskManager.recordTradeResult RiskState.recordTradeResult
  rw [stateOf_checkConsecutiveLosses, stateOf_checkDailyLossAbs, stateOf_checkDrawdown,
    stateOf_accumulate]

theorem stateOf_recordAll (amounts : List ℚ) :
    stateOf (recordAll l r amounts) = (stateOf r).recordAll l amounts := by
  induction amounts generalizing r with
  | nil => rfl
  | cons pl amounts ih =>
    calc stateOf (recordAll l r (pl::amounts))
      _ = stateOf (recordAll l (r.recordTradeResult l pl) amounts) := rfl
      _ = (stateOf (r.recordTradeResult l pl)).recordAll l amounts := ih _
      _ = (stateOf r).recordAll l (pl::amounts) := by
        rw [stateOf_recordTradeResult]
        rfl

end Simulation

/-! ### What a dict leaves alone -/

inductive Field where
  | dailyPeakPnl
  | dailyCumulativePnl
  | consecutiveLosses
  | portfolioHalted
  | haltReason
  deriving DecidableEq, Repr

namespace Field

def key : Field → String
  | dailyPeakPnl => "daily_peak_pnl"
  | dailyCumulativePnl => "daily_cumulative_pnl"
  | consecutiveLosses => "consecutive_losses"
  | portfolioHalted => "portfolio_halted"
  | haltReason => "halt_reason"

/-- The values of the field's type. -/
def Accepts : Field → Value → Prop
  | dailyPeakPnl, v | dailyCumulativePnl, v => v.number?.isSome
  | consecutiveLosses, v => v.integer?.isSome
  | portfolioHalted, v => v.bool?.isSome
  | haltReason, v => ∃ reason, v = .ofReason reason

def value (r : RiskState) : Field → Value
  | dailyPeakPnl => .float r.dailyPeakPnl
  | dailyCumulativePnl => .float r.dailyCumulativePnl
  | consecutiveLosses => .int r.consecutiveLosses
  | portfolioHalted => .bool r.portfolioHalted
  | haltReason => .ofReason r.haltReason

/-- The dict has nothing for the field: its key is absent, or its value is of another type. -/
def Missing (state : Dict String Value) (f : Field) : Prop :=
  ∀ v, state.get? f.key = some v → ¬ f.Accepts v

end Field

/-- What the docstring of `restore` says of a dict. -/
structure Conservative (state : Dict String Value) (r : RiskState) : Prop where
  kept : ∀ f : Field, f.Missing state → f.value (restore state r) = f.value r
  halted : r.portfolioHalted = true → (restore state r).portfolioHalted = true

/-- The dict has a reason, or there is none to lose; and it does not say that a halted portfolio
is not halted. -/
def Harmless (state : Dict String Value) (r : RiskState) : Prop :=
  (state.get? "halt_reason" = none → r.haltReason = none) ∧
    (state.get? "portfolio_halted" = some (.bool false) → r.portfolioHalted = false)

theorem ofReason_injective : Function.Injective Value.ofReason := by
  intro a b h
  cases a <;> cases b <;> simp_all [Value.ofReason]

theorem restore_snapshot (r r' : RiskState) : restore (snapshot r) r' = r := by
  obtain ⟨peak, cumulative, losses, halted, reason⟩ := r
  cases reason <;>
    simp [restore, snapshot, Value.number?, Value.integer?, Value.bool?, Value.ofReason]

section Restore
variable {state : Dict String Value} {r : RiskState}

/-- A value that is not of the type does not count. -/
theorem getD_of_missing {α : Type} {o : Option Value} {read : Value → Option α}
    (h : ∀ v, o = some v → ¬ (read v).isSome) (a : α) : (o.bind read).getD a = a := by
  cases o with
  | none => rfl
  | some v =>
    have hnone : read v = none := by simpa using h v rfl
    simp [hnone]

/-- Every field but the reason is kept when the dict has nothing for it. -/
theorem value_restore_of_missing {f : Field} (hf : f ≠ .haltReason) (h : f.Missing state) :
    f.value (restore state r) = f.value r := by
  cases f with
  | dailyPeakPnl => exact congrArg Value.float (getD_of_missing h _)
  | dailyCumulativePnl => exact congrArg Value.float (getD_of_missing h _)
  | consecutiveLosses => exact congrArg Value.int (getD_of_missing h _)
  | portfolioHalted => exact congrArg Value.bool (getD_of_missing h _)
  | haltReason => exact absurd rfl hf

theorem haltReason_restore_of_absent (h : state.get? "halt_reason" = none) :
    (restore state r).haltReason = none := by
  simp [restore, h]

/-- A reason of another type is ignored. -/
theorem haltReason_restore_of_other {v : Value} (h : state.get? "halt_reason" = some v)
    (hv : ¬ Field.haltReason.Accepts v) : (restore state r).haltReason = r.haltReason := by
  simp only [restore, h, Option.getD_some]
  cases v with
  | none => exact absurd ⟨none, rfl⟩ hv
  | str reason => exact absurd ⟨some reason, rfl⟩ hv
  | _ => rfl

theorem haltReason_kept_iff : (Field.haltReason.Missing state →
      Field.haltReason.value (restore state r) = Field.haltReason.value r) ↔
    (state.get? "halt_reason" = none → r.haltReason = none) := by
  constructor
  · intro hkept habsent
    have hmissing : Field.haltReason.Missing state := by
      intro v hv
      simp [Field.key, habsent] at hv
    have hsame := ofReason_injective (hkept hmissing)
    rw [haltReason_restore_of_absent habsent] at hsame
    exact hsame.symm
  · intro h hmissing
    cases hreason : state.get? "halt_reason" with
    | none => simp only [Field.value, haltReason_restore_of_absent hreason, h hreason]
    | some v => simp only [Field.value, haltReason_restore_of_other hreason (hmissing v hreason)]

theorem halted_restore_iff : (r.portfolioHalted = true → (restore state r).portfolioHalted = true) ↔
    (state.get? "portfolio_halted" = some (.bool false) → r.portfolioHalted = false) := by
  cases hhalted : r.portfolioHalted with
  | false => simp
  | true =>
    simp only [restore, hhalted]
    cases state.get? "portfolio_halted" with
    | none => simp
    | some v => cases v <;> simp [Value.bool?]

theorem conservative_iff : Conservative state r ↔ Harmless state r := by
  constructor
  · intro h
    exact ⟨haltReason_kept_iff.mp (h.kept .haltReason), halted_restore_iff.mp h.halted⟩
  · rintro ⟨hreason, hhalted⟩
    refine ⟨fun f hf => ?_, halted_restore_iff.mpr hhalted⟩
    by_cases hother : f = .haltReason
    · subst hother
      exact haltReason_kept_iff.mpr hreason hf
    · exact value_restore_of_missing hother hf

end Restore

/-- A snapshot brings back its state, and with it every later halt; any other dict keeps what it
says nothing about, and the halt, exactly if it is harmless. -/
theorem risk_snapshot (l : RiskLimits) (m : RiskManager) (amounts : List ℚ)
    (state : Dict String Value) (r r' : RiskState) :
    restore (snapshot r) r' = r ∧
      (restore (snapshot (stateOf m)) r').recordAll l amounts = stateOf (recordAll l m amounts) ∧
      (Conservative state r ↔ Harmless state r) := by
  refine ⟨restore_snapshot r r', ?_, conservative_iff⟩
  rw [restore_snapshot, stateOf_recordAll]

/-- A halted portfolio, and dicts that say that it is not halted, or nothing at all. -/
theorem halt_lifted :
    let r : RiskState := { portfolioHalted := true, haltReason := some "MAX_DAILY_DRAWDOWN" }
    ¬ Conservative (.set .empty "portfolio_halted" (.bool false)) r ∧ ¬ Conservative .empty r := by
  simp [conservative_iff, Harmless]

end KisAutotrader.RiskSnapshot
