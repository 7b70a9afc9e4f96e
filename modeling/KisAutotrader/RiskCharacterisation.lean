import Mathlib.Data.List.DropRight
import KisAutotrader.RiskManager

/-!
# What a day of realised results makes of the risk state

The accumulators of `record_trade_result` are closed forms of the recorded
amounts, and the latched halt is the first prefix that meets a limit.
-/
namespace KisAutotrader.RiskCharacterisation
open RiskManager

/-- The state after the amounts have been recorded one after the other. -/
def recordAll (l : RiskLimits) (r : RiskManager) (amounts : List ℚ) : RiskManager :=
  amounts.foldl (fun r pl => r.recordTradeResult l pl) r

@[simp] theorem recordAll_snoc (l : RiskLimits) (r : RiskManager) (amounts : List ℚ) (pl : ℚ) :
    recordAll l r (amounts ++ [pl]) = (recordAll l r amounts).recordTradeResult l pl := by
  simp [recordAll]

theorem recordAll_append (l : RiskLimits) (r : RiskManager) (xs ys : List ℚ) :
    recordAll l r (xs ++ ys) = recordAll l (recordAll l r xs) ys := by
  simp [recordAll]

/-- The largest sum of a prefix; the empty one counts as zero. -/
def peakOf : List ℚ → ℚ
  | [] => 0
  | x::xs => max 0 (x + peakOf xs)

/-- The negative amounts after the last positive one. -/
def lossStreak (amounts : List ℚ) : ℕ :=
  ((amounts.rtakeWhile (· ≤ 0)).filter (· < 0)).length

def DrawdownMet (l : RiskLimits) (amounts : List ℚ) : Prop :=
  0 < peakOf amounts ∧ amounts.sum < 0 ∧
    (peakOf amounts - amounts.sum) / peakOf amounts ≥ l.maxDailyDrawdown

def LossAbsMet (l : RiskLimits) (amounts : List ℚ) : Prop :=
  0 < l.maxDailyLossAbs ∧ amounts.sum ≤ -l.maxDailyLossAbs

def StreakMet (l : RiskLimits) (amounts : List ℚ) : Prop :=
  (lossStreak amounts : ℤ) ≥ l.maxConsecutiveLosses

instance (l : RiskLimits) (amounts : List ℚ) : Decidable (DrawdownMet l amounts) := by
  unfold DrawdownMet
  infer_instance

instance (l : RiskLimits) (amounts : List ℚ) : Decidable (LossAbsMet l amounts) := by
  unfold LossAbsMet
  infer_instance

instance (l : RiskLimits) (amounts : List ℚ) : Decidable (StreakMet l amounts) := by
  unfold StreakMet
  infer_instance

def LimitMet (l : RiskLimits) (amounts : List ℚ) : Prop :=
  DrawdownMet l amounts ∨ LossAbsMet l amounts ∨ StreakMet l amounts

/-- The limit the amounts meet, in the order drawdown, absolute loss, streak. -/
def causeOf (l : RiskLimits) (amounts : List ℚ) : Option String :=
  if DrawdownMet l amounts then some "MAX_DAILY_DRAWDOWN"
  else if LossAbsMet l amounts then some "MAX_DAILY_LOSS_ABS"
  else if StreakMet l amounts then some "MAX_CONSECUTIVE_LOSSES"
  else none

/-- The cause at the first trade that meets a limit. -/
def FirstCause (l : RiskLimits) (amounts : List ℚ) (cause : String) : Prop :=
  ∃ p, p ≠ [] ∧ p <+: amounts ∧ causeOf l p = some cause ∧
    ∀ q, q ≠ [] → q <+: p → q ≠ p → causeOf l q = none

theorem causeOf_isSome (l : RiskLimits) (amounts : List ℚ) :
    (causeOf l amounts).isSome = true ↔ LimitMet l amounts := by
  unfold causeOf LimitMet
  split_ifs <;> simp_all

theorem peakOf_snoc (xs : List ℚ) (x : ℚ) :
    peakOf (xs ++ [x]) = max (peakOf xs) (xs ++ [x]).sum := by
  induction xs with
  | nil => simp [peakOf]
  | cons y ys ih =>
    simp only [List.cons_append, peakOf, ih, List.sum_cons]
    rw [← max_add_add_left, max_assoc]

theorem peakOf_isGreatest (xs : List ℚ) :
    IsGreatest {t | ∃ p, p <+: xs ∧ p.sum = t} (peakOf xs) := by
  induction xs using List.reverseRecOn with
  | nil => exact ⟨⟨[], List.prefix_rfl, rfl⟩, by simp [peakOf]⟩
  | append_singleton xs x ih =>
    obtain ⟨⟨p, hp, hsum⟩, hub⟩ := ih
    rw [peakOf_snoc]
    constructor
    · rcases max_choice (peakOf xs) (xs ++ [x]).sum with hmax | hmax <;> rw [hmax]
      · exact ⟨p, hp.trans (List.prefix_append _ _), hsum⟩
      · exact ⟨xs ++ [x], List.prefix_rfl, rfl⟩
    · rintro t ⟨q, hq, rfl⟩
      obtain rfl | hq := List.prefix_concat_iff.mp hq
      · exact le_max_right _ _
      · exact (hub ⟨q, hq, rfl⟩).trans (le_max_left _ _)

theorem lossStreak_snoc (xs : List ℚ) (x : ℚ) : lossStreak (xs ++ [x]) =
    if x < 0 then lossStreak xs + 1 else if 0 < x then 0 else lossStreak xs := by
  unfold lossStreak
  rcases lt_trichotomy x 0 with hx | rfl | hx
  · rw [List.rtakeWhile_concat_pos _ _ _ (by simpa using hx.le)]
    simp [hx, List.filter_append]
  · rw [List.rtakeWhile_concat_pos _ _ _ (by simp)]
    simp [List.filter_append]
  · rw [List.rtakeWhile_concat_neg _ _ _ (by simpa using hx)]
    simp [hx, hx.le.not_gt]

/-- A prefix that meets a limit either does so already without its last amount or is whole. -/
theorem firstCause_snoc (l : RiskLimits) (xs : List ℚ) (x : ℚ) (cause : String) :
    FirstCause l (xs ++ [x]) cause ↔ FirstCause l xs cause ∨
      (∀ q, q ≠ [] → q <+: xs → causeOf l q = none) ∧ causeOf l (xs ++ [x]) = some cause := by
  constructor
  · rintro ⟨p, hne, hp, hcause, hfirst⟩
    obtain rfl | hp := List.prefix_concat_iff.mp hp
    · refine Or.inr ⟨fun q hq hqx => hfirst q hq (hqx.trans (List.prefix_append _ _)) ?_, hcause⟩
      rintro rfl
      have hlen := hqx.length_le
      simp at hlen
    · exact Or.inl ⟨p, hne, hp, hcause, hfirst⟩
  · rintro (⟨p, hne, hp, hcause, hfirst⟩ | ⟨hnone, hcause⟩)
    · exact ⟨p, hne, hp.trans (List.prefix_append _ _), hcause, hfirst⟩
    · refine ⟨xs ++ [x], by simp, List.prefix_rfl, hcause, fun q hq hqx hne => ?_⟩
      obtain rfl | hqx := List.prefix_concat_iff.mp hqx
      · exact absurd rfl hne
      · exact hnone q hq hqx

/-- The risk state of a day, by the amounts recorded on it. -/
structure Characterised (l : RiskLimits) (amounts : List ℚ) (r : RiskManager) : Prop where
  cumulative : r.dailyCumulativePnl = amounts.sum
  peak : r.dailyPeakPnl = peakOf amounts
  streak : r.consecutiveLosses = lossStreak amounts
  halted : r.portfolioHalted = r.haltReason.isSome
  running : r.haltReason = none ↔ ∀ p, p ≠ [] → p <+: amounts → causeOf l p = none
  cause : ∀ cause, r.haltReason = some cause ↔ FirstCause l amounts cause

/-- The three halt checks after the amounts have been accumulated: the first reason stays. -/
theorem checks_cause (l : RiskLimits) (amounts : List ℚ) {r : RiskManager}
    (hcum : r.dailyCumulativePnl = amounts.sum) (hpeak : r.dailyPeakPnl = peakOf amounts)
    (hstreak : r.consecutiveLosses = lossStreak amounts)
    (hhalted : r.portfolioHalted = r.haltReason.isSome) :
    ((r.checkDrawdown l).checkDailyLossAbs l).checkConsecutiveLosses l =
      { r with
        portfolioHalted := (r.haltReason.or (causeOf l amounts)).isSome
        haltReason := r.haltReason.or (causeOf l amounts) } := by
  have hdrawdown : r.checkDrawdown l = if DrawdownMet l amounts then r.halt "MAX_DAILY_DRAWDOWN"
      else r := by
    simp only [checkDrawdown, DrawdownMet, hcum, hpeak]
  have hloss : ∀ s : RiskManager, s.dailyCumulativePnl = amounts.sum →
      s.checkDailyLossAbs l = if LossAbsMet l amounts then s.halt "MAX_DAILY_LOSS_ABS" else s := by
    intro s hs
    simp only [checkDailyLossAbs, LossAbsMet, hs]
  have hlosses : ∀ s : RiskManager, s.consecutiveLosses = lossStreak amounts →
      s.checkConsecutiveLosses l =
        if StreakMet l amounts then s.halt "MAX_CONSECUTIVE_LOSSES" else s := by
    intro s hs
    simp only [checkConsecutiveLosses, StreakMet, hs]
  obtain ⟨peak, cum, streak, halted, reason⟩ := r
  simp only at hcum hpeak hstreak hhalted
  rw [hdrawdown]
  unfold causeOf
  cases reason <;> split_ifs <;> simp_all [halt]

theorem recordTradeResult_characterised (l : RiskLimits) {xs : List ℚ} {r : RiskManager}
    (h : Characterised l xs r) (x : ℚ) :
    Characterised l (xs ++ [x]) (r.recordTradeResult l x) := by
  have hcum : (r.accumulate x).dailyCumulativePnl = (xs ++ [x]).sum := by
    simp [accumulate, h.cumulative]
  have hpeak : (r.accumulate x).dailyPeakPnl = peakOf (xs ++ [x]) := by
    rw [peakOf_snoc, ← hcum, ← h.peak]
    simp only [accumulate]
    split_ifs with hgt
    · exact (max_eq_right hgt.le).symm
    · exact (max_eq_left (not_lt.mp hgt)).symm
  have hstreak : (r.accumulate x).consecutiveLosses = lossStreak (xs ++ [x]) := by
    simp [accumulate, lossStreak_snoc, h.streak]
  rw [recordTradeResult, checks_cause l (xs ++ [x]) hcum hpeak hstreak h.halted]
  have hreason : (r.accumulate x).haltReason = r.haltReason := rfl
  have hlonger : ∀ p, p <+: xs ++ [x] ↔ p = xs ++ [x] ∨ p <+: xs :=
    fun p => List.prefix_concat_iff
  refine ⟨hcum, hpeak, hstreak, rfl, ?_, fun cause => ?_⟩
  · simp only [hreason, Option.or_eq_none_iff, h.running]
    constructor
    · rintro ⟨hold, hnow⟩ p hne hp
      obtain rfl | hp := (hlonger p).mp hp
      · exact hnow
      · exact hold p hne hp
    · intro hall
      exact ⟨fun p hne hp => hall p hne ((hlonger p).mpr (Or.inr hp)),
        hall (xs ++ [x]) (by simp) List.prefix_rfl⟩
  · simp only [hreason, Option.or_eq_some_iff, firstCause_snoc, h.cause, h.running]

theorem recordAll_characterised (l : RiskLimits) (r : RiskManager) (xs : List ℚ) :
    Characterised l xs (recordAll l r.resetDailyRisk xs) := by
  induction xs using List.reverseRecOn with
  | nil =>
    refine ⟨rfl, rfl, rfl, rfl, ?_, fun cause => ?_⟩
    · refine ⟨fun _ p hne hp => absurd (List.prefix_nil.mp hp) hne, fun _ => rfl⟩
    · refine ⟨fun h => by simp [recordAll, resetDailyRisk] at h, ?_⟩
      rintro ⟨p, hne, hp, -⟩
      exact absurd (List.prefix_nil.mp hp) hne
  | append_singleton xs x ih =>
    rw [recordAll_snoc]
    exact recordTradeResult_characterised l ih x

theorem Characterised.halted_iff {l : RiskLimits} {xs : List ℚ} {r : RiskManager}
    (h : Characterised l xs r) :
    r.portfolioHalted = true ↔ ∃ p, p ≠ [] ∧ p <+: xs ∧ LimitMet l p := by
  rw [h.halted, Option.isSome_iff_ne_none, ne_eq, h.running]
  push Not
  refine exists_congr fun p => and_congr_right fun _ => and_congr_right fun _ => ?_
  rw [← causeOf_isSome, Option.isSome_iff_ne_none]

/-- The halt and its reason outlast every later amount. -/
theorem recordTradeResult_latched (l : RiskLimits) {r : RiskManager}
    (h : r.portfolioHalted = true) (x : ℚ) : (r.recordTradeResult l x).portfolioHalted = true := by
  have hhalt : ∀ reason (s : RiskManager), (s.halt reason).portfolioHalted = true :=
    fun _ _ => rfl
  have hdrawdown : ((r.accumulate x).checkDrawdown l).portfolioHalted = true := by
    unfold checkDrawdown
    split_ifs
    · exact hhalt _ _
    · exact h
  have hloss : (((r.accumulate x).checkDrawdown l).checkDailyLossAbs l).portfolioHalted = true := by
    unfold checkDailyLossAbs
    split_ifs
    · exact hhalt _ _
    · exact hdrawdown
  unfold recordTradeResult checkConsecutiveLosses
  split_ifs
  · exact hhalt _ _
  · exact hloss

/-- The risk state after a day's reset, characterised by the amounts recorded since. -/
theorem risk_state (l : RiskLimits) (r : RiskManager) (xs : List ℚ) :
    (recordAll l r.resetDailyRisk xs).dailyCumulativePnl = xs.sum ∧
    IsGreatest {t | ∃ p, p <+: xs ∧ p.sum = t} (recordAll l r.resetDailyRisk xs).dailyPeakPnl ∧
    (recordAll l r.resetDailyRisk xs).consecutiveLosses = lossStreak xs ∧
    ((recordAll l r.resetDailyRisk xs).portfolioHalted = true ↔
      ∃ p, p ≠ [] ∧ p <+: xs ∧ LimitMet l p) ∧
    (∀ ys, (recordAll l r.resetDailyRisk xs).portfolioHalted = true →
      (recordAll l r.resetDailyRisk (xs ++ ys)).portfolioHalted = true) ∧
    ∀ cause, (recordAll l r.resetDailyRisk xs).haltReason = some cause ↔
      FirstCause l xs cause := by
  have h := recordAll_characterised l r xs
  refine ⟨h.cumulative, h.peak ▸ peakOf_isGreatest xs, h.streak, h.halted_iff, fun ys hh => ?_,
    h.cause⟩
  rw [recordAll_append]
  induction ys using List.reverseRecOn with
  | nil => exact hh
  | append_singleton ys y ih =>
    rw [recordAll_snoc]
    exact recordTradeResult_latched l ih y

/-! ### The drawdown percentage -/

/-- A negative total below a positive peak exceeds every percentage up to one hundred. -/
theorem drawdownMet_iff (l : RiskLimits) (hd : l.maxDailyDrawdown ≤ 1) (xs : List ℚ) :
    DrawdownMet l xs ↔ (∃ p, p <+: xs ∧ 0 < p.sum) ∧ xs.sum < 0 := by
  obtain ⟨⟨top, htop, hsum⟩, hub⟩ := peakOf_isGreatest xs
  have hpeak : 0 < peakOf xs ↔ ∃ p, p <+: xs ∧ 0 < p.sum := by
    constructor
    · exact fun hpos => ⟨top, htop, hsum ▸ hpos⟩
    · rintro ⟨p, hp, hpos⟩
      exact hpos.trans_le (hub ⟨p, hp, rfl⟩)
  unfold DrawdownMet
  rw [hpeak]
  constructor
  · rintro ⟨hp, hneg, -⟩
    exact ⟨hp, hneg⟩
  · rintro ⟨hp, hneg⟩
    have hpos := hpeak.mpr hp
    refine ⟨hp, hneg, hd.trans ?_⟩
    rw [one_le_div hpos]
    linarith

end KisAutotrader.RiskCharacterisation
