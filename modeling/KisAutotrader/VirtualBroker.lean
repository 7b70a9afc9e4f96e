import KisAutotrader.Market
import KisAutotrader.OrderedDict

/-!
# The virtual broker

Cash, positions and trade history of a backtest, with commission and slippage on
both legs. A call that raises leaves the broker as it was.
-/
namespace KisAutotrader.Backtest
open OrderedDict

structure BacktestConfig where
  initialCapital : ℤ := 10000000
  commissionRate : ℚ := 15 / 100000
  slippageRate : ℚ := 1 / 1000
  maxPositionRatio : ℚ := 1 / 5
  maxLossRate : ℚ := 3 / 100
  takeProfitRatio : ℚ := 5 / 100

structure Position where
  stockCode : Code
  quantity : ℤ
  avgPrice : ℚ
  entryDate : String
deriving DecidableEq

structure TradeRecord where
  date : String
  stockCode : Code
  side : Side
  price : ℚ
  quantity : ℤ
  commission : ℚ
  profitLoss : ℚ := 0
  profitRate : ℚ := 0
deriving DecidableEq

inductive PyError where
  | valueError (message : String)
  | zeroDivision
  | indexError
deriving DecidableEq

/-- Python's `/` on exact numbers. -/
def divide (x y : ℚ) : Except PyError ℚ :=
  if y = 0 then .error .zeroDivision else .ok (x / y)

structure VirtualBroker where
  config : BacktestConfig
  cash : ℚ
  positions : Dict Code Position
  tradeHistory : List TradeRecord

namespace VirtualBroker

def init (config : BacktestConfig) : VirtualBroker := ⟨config, config.initialCapital, .empty, []⟩

def commission (b : VirtualBroker) (adjustedPrice : ℚ) (quantity : ℤ) : ℚ :=
  adjustedPrice * quantity * b.config.commissionRate

def totalCost (b : VirtualBroker) (adjustedPrice : ℚ) (quantity : ℤ) : ℚ :=
  adjustedPrice * quantity + b.commission adjustedPrice quantity

/-- The quantity `buy` settles for: one share less where the commission exceeds the cash. -/
def affordable (b : VirtualBroker) (adjustedPrice : ℚ) (quantity : ℤ) : Option ℤ :=
  if quantity ≤ 0 then none
  else if b.totalCost adjustedPrice quantity ≤ b.cash then some quantity
  else if quantity - 1 ≤ 0 then none
  else if b.totalCost adjustedPrice (quantity - 1) ≤ b.cash then some (quantity - 1)
  else none

def buyRecord (b : VirtualBroker) (code : Code) (adjustedPrice : ℚ) (quantity : ℤ)
    (date : String) : TradeRecord :=
  { date, stockCode := code, side := .buy, price := adjustedPrice, quantity
    commission := b.commission adjustedPrice quantity }

def enter (b : VirtualBroker) (code : Code) (adjustedPrice : ℚ) (quantity : ℤ) (date : String) :
    VirtualBroker :=
  { b with
    cash := b.cash - b.totalCost adjustedPrice quantity
    positions := b.positions.set code ⟨code, quantity, adjustedPrice, date⟩
    tradeHistory := b.tradeHistory ++ [b.buyRecord code adjustedPrice quantity date] }

def buyPrice (b : VirtualBroker) (price : ℚ) : ℚ := price * (1 + b.config.slippageRate)

def buy (b : VirtualBroker) (code : Code) (price : ℚ) (date : String) :
    Except PyError (Option TradeRecord × VirtualBroker) :=
  match b.positions.get? code with
  | some _ => .ok (none, b)
  | none =>
      match divide (b.cash * b.config.maxPositionRatio) (b.buyPrice price) with
      | .error e => .error e
      | .ok shares =>
          match b.affordable (b.buyPrice price) (truncate shares) with
          | none => .ok (none, b)
          | some quantity =>
              .ok (some (b.buyRecord code (b.buyPrice price) quantity date),
                b.enter code (b.buyPrice price) quantity date)

def sellRecord (b : VirtualBroker) (position : Position) (code : Code) (adjustedPrice : ℚ)
    (profitRate : ℚ) (date : String) : TradeRecord :=
  { date, stockCode := code, side := .sell, price := adjustedPrice
    quantity := position.quantity
    commission := b.commission adjustedPrice position.quantity
    profitLoss := (adjustedPrice - position.avgPrice) * position.quantity -
      b.commission adjustedPrice position.quantity
    profitRate }

/-- The cash grows by the proceeds and the position goes. -/
def leave (b : VirtualBroker) (code : Code) (record : TradeRecord) : VirtualBroker :=
  { b with
    cash := b.cash + (record.price * record.quantity - record.commission)
    positions := b.positions.pop code
    tradeHistory := b.tradeHistory ++ [record] }

def sellPrice (b : VirtualBroker) (price : ℚ) : ℚ := price * (1 - b.config.slippageRate)

def sell (b : VirtualBroker) (code : Code) (price : ℚ) (date : String) :
    Except PyError (Option TradeRecord × VirtualBroker) :=
  match b.positions.get? code with
  | none => .ok (none, b)
  | some position =>
      match divide (b.sellPrice price - position.avgPrice) position.avgPrice with
      | .error e => .error e
      | .ok gain =>
          let record := b.sellRecord position code (b.sellPrice price) (gain * 100) date
          .ok (some record, b.leave code record)

def checkStopLoss (b : VirtualBroker) (code : Code) (currentPrice : ℚ) : Except PyError Bool :=
  match b.positions.get? code with
  | none => .ok false
  | some position =>
      (divide (position.avgPrice - currentPrice) position.avgPrice).map fun lossRate =>
        decide (lossRate ≥ b.config.maxLossRate)

def checkTakeProfit (b : VirtualBroker) (code : Code) (currentPrice : ℚ) : Except PyError Bool :=
  match b.positions.get? code with
  | none => .ok false
  | some position =>
      (divide (currentPrice - position.avgPrice) position.avgPrice).map fun gainRate =>
        decide (gainRate ≥ b.config.takeProfitRatio)

def holdingValue (prices : Dict Code ℚ) (p : Position) : ℚ :=
  p.quantity * (prices.get? p.stockCode).getD p.avgPrice

def portfolioValue (b : VirtualBroker) (prices : Dict Code ℚ) : ℚ :=
  b.cash + (b.positions.items.map fun x => holdingValue prices x.2).sum

/-- What a call of `buy` can do. -/
inductive Bought (b : VirtualBroker) (code : Code) (price : ℚ) (date : String) :
    Option TradeRecord → VirtualBroker → Prop
  | refused : Bought b code price date none b
  | filled (quantity : ℤ) (hnew : b.positions.get? code = none) (hprice : b.buyPrice price ≠ 0)
      (hquantity : 1 ≤ quantity) (hcost : b.totalCost (b.buyPrice price) quantity ≤ b.cash) :
      Bought b code price date (some (b.buyRecord code (b.buyPrice price) quantity date))
        (b.enter code (b.buyPrice price) quantity date)

/-- What a call of `sell` can do. -/
inductive Sold (b : VirtualBroker) (code : Code) (price : ℚ) (date : String) :
    Option TradeRecord → VirtualBroker → Prop
  | refused (hnone : b.positions.get? code = none) : Sold b code price date none b
  | filled (position : Position) (rate : ℚ) (hheld : b.positions.get? code = some position) :
      Sold b code price date (some (b.sellRecord position code (b.sellPrice price) rate date))
        (b.leave code (b.sellRecord position code (b.sellPrice price) rate date))

section Specs
variable {b b' : VirtualBroker} {code : Code} {price : ℚ} {date : String} {r : Option TradeRecord}

theorem divide_eq_ok {x y z : ℚ} (h : divide x y = .ok z) : y ≠ 0 ∧ z = x / y := by
  unfold divide at h
  split_ifs at h with hy
  exact ⟨hy, (Except.ok.inj h).symm⟩

theorem affordable_eq_some {adjustedPrice : ℚ} {n quantity : ℤ}
    (h : b.affordable adjustedPrice n = some quantity) :
    1 ≤ quantity ∧ b.totalCost adjustedPrice quantity ≤ b.cash := by
  unfold affordable at h
  split_ifs at h with hnone hcost hone hless
  · obtain rfl := Option.some.inj h
    exact ⟨by omega, hcost⟩
  · obtain rfl := Option.some.inj h
    exact ⟨by omega, hless⟩

theorem buy_bought (h : b.buy code price date = .ok (r, b')) : Bought b code price date r b' := by
  unfold buy at h
  split at h
  next hheld =>
    cases h
    exact .refused
  next hnew =>
    split at h
    next => cases h
    next shares hshares =>
      obtain ⟨hprice, -⟩ := divide_eq_ok hshares
      split at h
      next =>
        cases h
        exact .refused
      next quantity hquantity =>
        cases h
        obtain ⟨hone, hcost⟩ := affordable_eq_some hquantity
        exact .filled quantity hnew hprice hone hcost

theorem sell_sold (h : b.sell code price date = .ok (r, b')) : Sold b code price date r b' := by
  unfold sell at h
  split at h
  next hnone =>
    cases h
    exact .refused hnone
  next position hheld =>
    split at h
    next => cases h
    next gain hgain =>
      cases h
      exact .filled position _ hheld

end Specs

end VirtualBroker

end KisAutotrader.Backtest
