import Mathlib.Order.Bounds.Basic
import KisAutotrader.VirtualBroker

/-!
# The largest purchase

How many shares a call of `buy` can pay for, and when it buys that many. The commission is
looked at after the quantity is chosen, and then one share is given back.
-/
namespace KisAutotrader.Backtest.MaximalBuy
open OrderedDict

/-- A number of shares within the ratio of the cash that the cash pays for with commission. -/
structure Payable (b : VirtualBroker) (price : ℚ) (n : ℤ) : Prop where
  invested : b.buyPrice price * n ≤ b.cash * b.config.maxPositionRatio
  paid : b.totalCost (b.buyPrice price) n ≤ b.cash

/-- The call buys the largest payable number of shares, and none only where not one is payable. -/
def BuysMost (b : VirtualBroker) (code : Code) (price : ℚ) (date : String) : Prop :=
  ∃ r b', b.buy code price date = .ok (r, b') ∧ match r with
    | none => b' = b ∧ ∀ n, 1 ≤ n → ¬Payable b price n
    | some record => 1 ≤ record.quantity ∧ IsGreatest {n | Payable b price n} record.quantity ∧
        b' = b.enter code (b.buyPrice price) record.quantity date

/-- The shares the ratio pays for before commission. -/
def chosen (b : VirtualBroker) (price : ℚ) : ℤ :=
  ⌊b.cash * b.config.maxPositionRatio / b.buyPrice price⌋

section Costs
variable {b : VirtualBroker} {price : ℚ} {n m : ℤ}

theorem totalCost_eq (b : VirtualBroker) (adjustedPrice : ℚ) (n : ℤ) :
    b.totalCost adjustedPrice n = adjustedPrice * (1 + b.config.commissionRate) * n := by
  rw [VirtualBroker.totalCost, VirtualBroker.commission]
  ring

theorem totalCost_mono (hprice : 0 < b.buyPrice price) (hrate : 0 ≤ b.config.commissionRate)
    (hnm : n ≤ m) : b.totalCost (b.buyPrice price) n ≤ b.totalCost (b.buyPrice price) m := by
  rw [totalCost_eq, totalCost_eq]
  have hcast : (n : ℚ) ≤ m := by exact_mod_cast hnm
  exact mul_le_mul_of_nonneg_left hcast (by positivity)

theorem invested_iff (hprice : 0 < b.buyPrice price) (n : ℤ) :
    b.buyPrice price * n ≤ b.cash * b.config.maxPositionRatio ↔ n ≤ chosen b price := by
  rw [chosen, Int.le_floor, le_div_iff₀ hprice, mul_comm]

theorem payable_iff (hprice : 0 < b.buyPrice price) (n : ℤ) :
    Payable b price n ↔ n ≤ chosen b price ∧ b.totalCost (b.buyPrice price) n ≤ b.cash :=
  ⟨fun h => ⟨(invested_iff hprice n).mp h.invested, h.paid⟩,
    fun h => ⟨(invested_iff hprice n).mpr h.1, h.2⟩⟩

/-- No shares are bought for a negative amount, whichever way it is rounded. -/
theorem affordable_truncate (b : VirtualBroker) (adjustedPrice x : ℚ) :
    b.affordable adjustedPrice (truncate x) = b.affordable adjustedPrice ⌊x⌋ := by
  by_cases hx : 0 ≤ x
  · rw [truncate, if_pos hx]
  · have hnegative := (not_le.mp hx).le
    have hdown : ⌊x⌋ ≤ 0 := Int.floor_le_iff.mpr (by push_cast; linarith)
    unfold VirtualBroker.affordable
    rw [if_pos (truncate_nonpos hnegative), if_pos hdown]

end Costs

section Purchase
variable {b : VirtualBroker} {code : Code} {price : ℚ}

/-- A call for a new code, from the number of shares it settles for. -/
theorem buy_eq (hnew : b.positions.get? code = none) (hprice : 0 < b.buyPrice price) (date : String) :
    b.buy code price date = .ok (match b.affordable (b.buyPrice price) (chosen b price) with
      | none => (none, b)
      | some quantity => (some (b.buyRecord code (b.buyPrice price) quantity date),
          b.enter code (b.buyPrice price) quantity date)) := by
  have hdivide : divide (b.cash * b.config.maxPositionRatio) (b.buyPrice price) =
      .ok (b.cash * b.config.maxPositionRatio / b.buyPrice price) := if_neg hprice.ne'
  unfold VirtualBroker.buy
  simp only [hnew, hdivide, affordable_truncate, chosen]
  cases b.affordable (b.buyPrice price) ⌊b.cash * b.config.maxPositionRatio / b.buyPrice price⌋ with
  | none => rfl
  | some quantity => rfl

theorem buysMost_none (hnew : b.positions.get? code = none) (hprice : 0 < b.buyPrice price)
    (date : String) (h : b.affordable (b.buyPrice price) (chosen b price) = none) :
    BuysMost b code price date ↔ ∀ n, 1 ≤ n → ¬Payable b price n := by
  have hbuy : b.buy code price date = .ok (none, b) := by rw [buy_eq hnew hprice date, h]
  constructor
  · rintro ⟨r, b', hcall, hmost⟩
    obtain ⟨rfl, rfl⟩ := Prod.mk.inj (Except.ok.inj (hbuy.symm.trans hcall))
    exact hmost.2
  · intro hnone
    exact ⟨none, b, hbuy, rfl, hnone⟩

theorem buysMost_some (hnew : b.positions.get? code = none) (hprice : 0 < b.buyPrice price)
    (date : String) {quantity : ℤ}
    (h : b.affordable (b.buyPrice price) (chosen b price) = some quantity)
    (hgreatest : IsGreatest {n | Payable b price n} quantity) : BuysMost b code price date := by
  obtain ⟨hone, -⟩ := VirtualBroker.affordable_eq_some h
  refine ⟨some (b.buyRecord code (b.buyPrice price) quantity date), _, ?_, hone, hgreatest, rfl⟩
  rw [buy_eq hnew hprice date, h]
  rfl

/-- The ways to settle for a quantity. -/
theorem affordable_cases {adjustedPrice : ℚ} {n quantity : ℤ}
    (h : b.affordable adjustedPrice n = some quantity) :
    quantity = n ∨ quantity = n - 1 ∧ b.cash < b.totalCost adjustedPrice n := by
  unfold VirtualBroker.affordable at h
  split_ifs at h with hnone hall hone hless
  · exact Or.inl (Option.some.inj h).symm
  · exact Or.inr ⟨(Option.some.inj h).symm, not_le.mp hall⟩

/-- The ways to settle for nothing. -/
theorem affordable_eq_none {adjustedPrice : ℚ} {n : ℤ} (h : b.affordable adjustedPrice n = none) :
    n ≤ 0 ∨ b.cash < b.totalCost adjustedPrice n ∧
      (n ≤ 1 ∨ b.cash < b.totalCost adjustedPrice (n - 1)) := by
  unfold VirtualBroker.affordable at h
  split_ifs at h with hnone hall hone hless
  · exact Or.inl hnone
  · exact Or.inr ⟨not_le.mp hall, Or.inl (by omega)⟩
  · exact Or.inr ⟨not_le.mp hall, Or.inr (not_le.mp hless)⟩

theorem settled_greatest (hprice : 0 < b.buyPrice price) {quantity : ℤ}
    (h : b.affordable (b.buyPrice price) (chosen b price) = some quantity) :
    IsGreatest {n | Payable b price n} quantity := by
  obtain ⟨-, hpaid⟩ := VirtualBroker.affordable_eq_some h
  rcases affordable_cases h with rfl | ⟨rfl, hmore⟩
  · exact ⟨(payable_iff hprice _).mpr ⟨le_rfl, hpaid⟩, fun n hn => ((payable_iff hprice n).mp hn).1⟩
  · refine ⟨(payable_iff hprice _).mpr ⟨by omega, hpaid⟩, fun n hn => ?_⟩
    obtain ⟨hle, hcost⟩ := (payable_iff hprice n).mp hn
    by_contra hlt
    obtain rfl : n = chosen b price := by omega
    exact absurd hcost (not_le.mpr hmore)

/-- No share is payable where the first one is not. -/
theorem unpayable_iff (hprice : 0 < b.buyPrice price) (hrate : 0 ≤ b.config.commissionRate) :
    (∀ n, 1 ≤ n → ¬Payable b price n) ↔ chosen b price ≤ 0 ∨ b.cash < b.totalCost (b.buyPrice price) 1 := by
  constructor
  · intro hnone
    by_contra hsome
    push Not at hsome
    exact hnone 1 le_rfl ((payable_iff hprice 1).mpr ⟨by omega, hsome.2⟩)
  · intro hbound n hn hpay
    obtain ⟨hle, hcost⟩ := (payable_iff hprice n).mp hpay
    rcases hbound with hnone | hone
    · omega
    · exact absurd ((totalCost_mono hprice hrate hn).trans hcost) (not_le.mpr hone)

/-- A purchase is as large as it can be exactly when giving back one share is enough to pay the
commission, or not even one share can be paid with it. -/
theorem buysMost_iff (b : VirtualBroker) (code : Code) (price : ℚ) (date : String)
    (hnew : b.positions.get? code = none) (hpositive : 0 < price)
    (hslippage : -1 < b.config.slippageRate) (hrate : 0 ≤ b.config.commissionRate) :
    BuysMost b code price date ↔
      b.totalCost (b.buyPrice price) (chosen b price - 1) ≤ b.cash ∨
        b.cash < b.totalCost (b.buyPrice price) 1 := by
  have hprice : 0 < b.buyPrice price := mul_pos hpositive (by linarith)
  have hmono {n m : ℤ} (hnm : n ≤ m) := totalCost_mono hprice hrate hnm
  cases hsettled : b.affordable (b.buyPrice price) (chosen b price) with
  | some quantity =>
    have hgreatest := settled_greatest hprice hsettled
    refine iff_of_true (buysMost_some hnew hprice date hsettled hgreatest) (Or.inl ?_)
    have hnear : chosen b price - 1 ≤ quantity := by
      rcases affordable_cases hsettled with h | ⟨h, -⟩ <;> omega
    exact (hmono hnear).trans hgreatest.1.paid
  | none =>
    rw [buysMost_none hnew hprice date hsettled, unpayable_iff hprice hrate]
    refine or_congr_left' fun hone => ?_
    constructor
    · intro hnone
      exact (hmono (by omega)).trans (not_lt.mp hone)
    · intro hless
      rcases affordable_eq_none hsettled with hnone | ⟨hall, hfew | hstill⟩
      · exact hnone
      · exact absurd ((hmono hfew).trans (not_lt.mp hone)) (not_le.mpr hall)
      · exact absurd hless (not_le.mpr hstill)

end Purchase

/-- A broker that may invest all its cash, without slippage. -/
def allIn : VirtualBroker := .init { initialCapital := 10000, slippageRate := 0, maxPositionRatio := 1 }

/-- At 7000 one share is bought. -/
theorem buysMost_iff_dear : BuysMost allIn "005930" 7000 "2026-01-05" :=
  (buysMost_iff allIn "005930" 7000 "2026-01-05" rfl (by norm_num) (by decide +kernel)
    (by decide +kernel)).mpr (by decide +kernel)

/-- At one won 9998 shares could be paid for, but 10000 and 9999 cannot, and nothing is bought. -/
theorem cheap_not_bought :
    allIn.buy "005930" 1 "2026-01-05" = .ok (none, allIn) ∧ Payable allIn 1 9998 ∧
      ¬BuysMost allIn "005930" 1 "2026-01-05" := by
  have hpay : Payable allIn 1 9998 := ⟨by decide +kernel, by decide +kernel⟩
  have hsettled : allIn.affordable (allIn.buyPrice 1) (chosen allIn 1) = none := by decide +kernel
  have hprice : 0 < allIn.buyPrice 1 := by decide +kernel
  refine ⟨by rw [buy_eq rfl hprice, hsettled], hpay, fun hmost => ?_⟩
  exact (buysMost_none rfl hprice _ hsettled).mp hmost 9998 (by norm_num) hpay

end KisAutotrader.Backtest.MaximalBuy
