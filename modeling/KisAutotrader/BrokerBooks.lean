import KisAutotrader.VirtualBroker

/-!
# The books of the virtual broker

Whatever calls are made, the records of a stock are round trips, the cash is what they
leave of the capital, and with rates below one the cash does not become negative.
-/
namespace KisAutotrader.Backtest.BrokerBooks
open OrderedDict

/-- What a record does to the cash. -/
def cashFlow (r : TradeRecord) : ℚ :=
  match r.side with
  | .buy => -(r.price * r.quantity + r.commission)
  | .sell => r.price * r.quantity - r.commission

/-- A purchase and the sale of what it bought. -/
structure RoundTrip where
  bought : TradeRecord
  sold : TradeRecord
  bought_side : bought.side = .buy
  sold_side : sold.side = .sell
  quantity_eq : sold.quantity = bought.quantity
  profit_eq : sold.profitLoss = (sold.price - bought.price) * sold.quantity - sold.commission

def RoundTrip.records (t : RoundTrip) : List TradeRecord := [t.bought, t.sold]

def recordsOf (code : Code) (history : List TradeRecord) : List TradeRecord :=
  history.filter fun r => r.stockCode = code

/-- The purchase of an open position. -/
structure Opens (r : TradeRecord) (p : Position) : Prop where
  side : r.side = .buy
  quantity : r.quantity = p.quantity
  price : r.price = p.avgPrice

/-- The records of a stock: round trips, and a purchase at the end where a position is open. -/
def Paired (b : VirtualBroker) (code : Code) : Prop :=
  ∃ trips : List RoundTrip, match b.positions.get? code with
    | none => recordsOf code b.tradeHistory = trips.flatMap RoundTrip.records
    | some p => ∃ r, Opens r p ∧
        recordsOf code b.tradeHistory = trips.flatMap RoundTrip.records ++ [r]

/-- What holds of a broker after any calls. -/
structure Booked (config : BacktestConfig) (b : VirtualBroker) : Prop where
  config_eq : b.config = config
  cash : b.cash = config.initialCapital + (b.tradeHistory.map cashFlow).sum
  held : ∀ code, ∀ p ∈ b.positions.get? code, p.stockCode = code ∧ 1 ≤ p.quantity
  paired : ∀ code, Paired b code

theorem recordsOf_snoc (code : Code) (history : List TradeRecord) (r : TradeRecord) :
    recordsOf code (history ++ [r]) =
      recordsOf code history ++ if r.stockCode = code then [r] else [] := by
  unfold recordsOf
  rw [List.filter_append]
  by_cases hcode : r.stockCode = code <;> simp [hcode]

theorem flatMap_snoc (trips : List RoundTrip) (t : RoundTrip) :
    (trips ++ [t]).flatMap RoundTrip.records = trips.flatMap RoundTrip.records ++ t.records := by
  simp

section Steps
variable {config : BacktestConfig} {b b' : VirtualBroker} {code : Code} {price : ℚ}
  {date : String} {r : Option TradeRecord}

theorem booked_init (config : BacktestConfig) : Booked config (.init config) := by
  refine ⟨rfl, by simp [VirtualBroker.init], fun code p hp => ?_, fun code => ⟨[], ?_⟩⟩
  · simp [VirtualBroker.init] at hp
  · simp [VirtualBroker.init, recordsOf]

theorem Booked.bought (h : Booked config b) (hbuy : VirtualBroker.Bought b code price date r b') :
    Booked config b' := by
  cases hbuy with
  | refused => exact h
  | filled quantity hnew hprice hquantity hcost =>
    refine ⟨h.config_eq, ?_, fun c p hp => ?_, fun c => ?_⟩
    · simp only [VirtualBroker.enter, List.map_append, List.map_cons, List.map_nil,
        List.sum_append, List.sum_cons, List.sum_nil, add_zero, cashFlow, VirtualBroker.buyRecord]
      rw [h.cash, VirtualBroker.totalCost]
      ring
    · simp only [VirtualBroker.enter, Dict.get?_set] at hp
      split_ifs at hp with hc
      · obtain rfl := Option.some.inj hp
        exact ⟨hc.symm, hquantity⟩
      · exact h.held c p hp
    · obtain ⟨trips, htrips⟩ := h.paired c
      refine ⟨trips, ?_⟩
      simp only [VirtualBroker.enter, Dict.get?_set, recordsOf_snoc]
      by_cases hc : c = code
      · subst hc
        rw [hnew] at htrips
        simp only [if_true]
        refine ⟨b.buyRecord c (b.buyPrice price) quantity date, ⟨rfl, rfl, rfl⟩, ?_⟩
        simp [htrips, VirtualBroker.buyRecord]
      · simpa [hc, Ne.symm hc, VirtualBroker.buyRecord] using htrips

theorem Booked.sold (h : Booked config b) (hsell : VirtualBroker.Sold b code price date r b') :
    Booked config b' := by
  cases hsell with
  | refused => exact h
  | filled position rate hheld =>
    refine ⟨h.config_eq, ?_, fun c p hp => ?_, fun c => ?_⟩
    · simp only [VirtualBroker.leave, List.map_append, List.map_cons, List.map_nil,
        List.sum_append, List.sum_cons, List.sum_nil, add_zero, cashFlow, VirtualBroker.sellRecord]
      rw [h.cash]
      ring
    · simp only [VirtualBroker.leave, Dict.get?_pop] at hp
      split_ifs at hp
      · simp at hp
      · exact h.held c p hp
    · obtain ⟨trips, htrips⟩ := h.paired c
      simp only [Paired, VirtualBroker.leave, Dict.get?_pop, recordsOf_snoc]
      by_cases hc : c = code
      · subst hc
        rw [hheld] at htrips
        obtain ⟨bought, hopens, hrecords⟩ := htrips
        let trip : RoundTrip := ⟨bought, b.sellRecord position c (b.sellPrice price) rate date,
          hopens.side, rfl, hopens.quantity.symm, by rw [hopens.price]; rfl⟩
        refine ⟨trips ++ [trip], ?_⟩
        rw [flatMap_snoc, hrecords]
        simp [trip, RoundTrip.records, VirtualBroker.sellRecord]
      · refine ⟨trips, ?_⟩
        simpa [hc, Ne.symm hc, VirtualBroker.sellRecord] using htrips

end Steps

/-! ### Sequences of calls -/

inductive Call where
  | buy (code : Code) (price : ℚ) (date : String)
  | sell (code : Code) (price : ℚ) (date : String)
deriving DecidableEq

namespace Call

def price : Call → ℚ
  | buy _ price _ => price
  | sell _ price _ => price

def perform (b : VirtualBroker) : Call → Except PyError (Option TradeRecord × VirtualBroker)
  | buy code price date => b.buy code price date
  | sell code price date => b.sell code price date

end Call

/-- The broker after a call. -/
def step (b : VirtualBroker) (c : Call) : VirtualBroker :=
  match c.perform b with
  | .ok (_, b') => b'
  | .error _ => b

def runCalls (calls : List Call) (b : VirtualBroker) : VirtualBroker := calls.foldl step b

theorem Booked.step {config : BacktestConfig} {b : VirtualBroker} (h : Booked config b)
    (c : Call) : Booked config (step b c) := by
  unfold BrokerBooks.step
  split
  next r b' hok =>
    cases c with
    | buy code price date => exact h.bought (VirtualBroker.buy_bought hok)
    | sell code price date => exact h.sold (VirtualBroker.sell_sold hok)
  next => exact h

theorem booked_runCalls (config : BacktestConfig) (calls : List Call) :
    Booked config (runCalls calls (.init config)) := by
  induction calls using List.reverseRecOn with
  | nil => exact booked_init config
  | append_singleton calls c ih =>
    rw [runCalls, List.foldl_append]
    exact ih.step c

/-! ### Rates below one -/

/-- The rates the broker is made for. -/
structure ValidRates (config : BacktestConfig) : Prop where
  commission_nonneg : 0 ≤ config.commissionRate
  commission_le : config.commissionRate ≤ 1
  slippage_nonneg : 0 ≤ config.slippageRate
  slippage_lt : config.slippageRate < 1

/-- What holds besides when every price is positive: cash, and prices of positions. -/
structure Solvent (config : BacktestConfig) (b : VirtualBroker) : Prop where
  cash : min 0 (config.initialCapital : ℚ) ≤ b.cash
  avgPrice : ∀ code, ∀ p ∈ b.positions.get? code, 0 < p.avgPrice

section Solvency
variable {config : BacktestConfig} {b b' : VirtualBroker} {code : Code} {price : ℚ}
  {date : String} {r : Option TradeRecord}

theorem buyPrice_pos (hrates : ValidRates b.config) (hprice : 0 < price) : 0 < b.buyPrice price := by
  have hslip := hrates.slippage_nonneg
  unfold VirtualBroker.buyPrice
  positivity

theorem sellPrice_pos (hrates : ValidRates b.config) (hprice : 0 < price) :
    0 < b.sellPrice price := by
  have hslip := hrates.slippage_lt
  unfold VirtualBroker.sellPrice
  exact mul_pos hprice (by linarith)

theorem Solvent.bought (h : Solvent config b) (hrates : ValidRates b.config) (hprice : 0 < price)
    (hbuy : VirtualBroker.Bought b code price date r b') : Solvent config b' := by
  cases hbuy with
  | refused => exact h
  | filled quantity hnew hne hquantity hcost =>
    refine ⟨?_, fun c p hp => ?_⟩
    · simp only [VirtualBroker.enter]
      exact (min_le_left _ _).trans (by linarith)
    · simp only [VirtualBroker.enter, Dict.get?_set] at hp
      split_ifs at hp
      · obtain rfl := Option.some.inj hp
        exact buyPrice_pos hrates hprice
      · exact h.avgPrice c p hp

theorem Solvent.sold (h : Solvent config b) (hbooked : Booked config b)
    (hrates : ValidRates b.config) (hprice : 0 < price)
    (hsell : VirtualBroker.Sold b code price date r b') : Solvent config b' := by
  cases hsell with
  | refused => exact h
  | filled position rate hheld =>
    refine ⟨?_, fun c p hp => ?_⟩
    · obtain ⟨-, hquantity⟩ := hbooked.held code position hheld
      have hq : (1 : ℚ) ≤ position.quantity := by exact_mod_cast hquantity
      have hvalue : 0 ≤ b.sellPrice price * position.quantity :=
        mul_nonneg (sellPrice_pos hrates hprice).le (by linarith)
      have hkept : 0 ≤ b.sellPrice price * position.quantity * (1 - b.config.commissionRate) :=
        mul_nonneg hvalue (by linarith [hrates.commission_le])
      have hcash := h.cash
      simp only [VirtualBroker.leave, VirtualBroker.sellRecord, VirtualBroker.commission]
      linarith
    · simp only [VirtualBroker.leave, Dict.get?_pop] at hp
      split_ifs at hp
      · simp at hp
      · exact h.avgPrice c p hp

theorem buy_total (code : Code) (date : String) (hrates : ValidRates b.config) (hprice : 0 < price) :
    ∃ r b', b.buy code price date = .ok (r, b') := by
  have hne := (buyPrice_pos hrates hprice).ne'
  unfold VirtualBroker.buy
  split
  · exact ⟨_, _, rfl⟩
  · simp only [divide, hne, if_false]
    split
    · exact ⟨_, _, rfl⟩
    · exact ⟨_, _, rfl⟩

theorem sell_total (h : Solvent config b) (code : Code) (price : ℚ) (date : String) :
    ∃ r b', b.sell code price date = .ok (r, b') := by
  unfold VirtualBroker.sell
  split
  · exact ⟨_, _, rfl⟩
  next position hheld =>
    have hne := (h.avgPrice code position hheld).ne'
    simp only [divide, hne, if_false]
    exact ⟨_, _, rfl⟩

theorem step_solvent (h : Solvent config b) (hbooked : Booked config b) (hrates : ValidRates config)
    {c : Call} (hprice : 0 < c.price) : Solvent config (step b c) := by
  rw [← hbooked.config_eq] at hrates
  unfold step
  split
  next r b' hok =>
    cases c with
    | buy code price date => exact h.bought hrates hprice (VirtualBroker.buy_bought hok)
    | sell code price date => exact h.sold hbooked hrates hprice (VirtualBroker.sell_sold hok)
  next => exact h

theorem solvent_runCalls (hrates : ValidRates config) (calls : List Call)
    (hprices : ∀ c ∈ calls, 0 < c.price) : Solvent config (runCalls calls (.init config)) := by
  induction calls using List.reverseRecOn with
  | nil =>
    refine ⟨min_le_right _ _, fun code p hp => ?_⟩
    simp [runCalls, VirtualBroker.init] at hp
  | append_singleton calls c ih =>
    have hbefore := ih fun c hc => hprices c (by simp [hc])
    rw [runCalls, List.foldl_append]
    exact step_solvent hbefore (booked_runCalls config calls) hrates (hprices c (by simp))

/-- A call that goes through does so without an exception, and one that returns nothing
does nothing. -/
theorem perform_total (h : Solvent config b) (hrates : ValidRates b.config) (c : Call)
    (hprice : 0 < c.price) : ∃ r b', c.perform b = .ok (r, b') ∧ (r = none → b' = b) := by
  cases c with
  | buy code price date =>
    obtain ⟨r, b', hok⟩ := buy_total code date hrates hprice
    refine ⟨r, b', hok, fun hnone => ?_⟩
    cases VirtualBroker.buy_bought hok with
    | refused => rfl
    | filled => cases hnone
  | sell code price date =>
    obtain ⟨r, b', hok⟩ := sell_total h code price date
    refine ⟨r, b', hok, fun hnone => ?_⟩
    cases VirtualBroker.sell_sold hok with
    | refused => rfl
    | filled => cases hnone

/-- A purchase costs its commission and nothing else. -/
theorem buy_portfolioValue {record : TradeRecord} {prices : Dict Code ℚ}
    (hbuy : VirtualBroker.Bought b code price date (some record) b')
    (hprices : prices.get? code = some record.price) :
    b'.portfolioValue prices = b.portfolioValue prices - record.commission := by
  cases hbuy with
  | filled quantity hnew hne hquantity hcost =>
    simp only [VirtualBroker.buyRecord] at hprices ⊢
    simp only [VirtualBroker.portfolioValue, VirtualBroker.enter, Dict.items_set_of_absent hnew,
      List.map_append, List.map_cons, List.map_nil, List.sum_append, List.sum_cons, List.sum_nil,
      VirtualBroker.holdingValue, hprices, Option.getD_some, VirtualBroker.totalCost]
    ring

end Solvency

/-! ### Any calls from the start -/

/-- Purchases and sales in turn, each sale of the quantity bought before it. -/
def Alternate : List TradeRecord → Prop
  | [] => True
  | [r] => r.side = .buy
  | r::s::rest => r.side = .buy ∧ s.side = .sell ∧ s.quantity = r.quantity ∧ Alternate rest

theorem alternate_trips (trips : List RoundTrip) {rest : List TradeRecord} (h : Alternate rest) :
    Alternate (trips.flatMap RoundTrip.records ++ rest) := by
  induction trips with
  | nil => exact h
  | cons t trips ih => exact ⟨t.bought_side, t.sold_side, t.quantity_eq, ih⟩

theorem Paired.alternate {b : VirtualBroker} {code : Code} (h : Paired b code) :
    Alternate (recordsOf code b.tradeHistory) := by
  obtain ⟨trips, htrips⟩ := h
  cases hheld : b.positions.get? code with
  | none =>
    rw [hheld] at htrips
    rw [show recordsOf code b.tradeHistory = trips.flatMap RoundTrip.records from htrips,
      ← List.append_nil (trips.flatMap RoundTrip.records)]
    exact alternate_trips trips trivial
  | some p =>
    rw [hheld] at htrips
    obtain ⟨r, hopens, hrecords⟩ := htrips
    rw [hrecords]
    exact alternate_trips trips hopens.side

theorem Booked.codes_nodup {config : BacktestConfig} {b : VirtualBroker} (h : Booked config b) :
    (b.positions.items.map fun x => x.2.stockCode).Nodup := by
  have hkeys : (b.positions.items.map fun x => x.2.stockCode) = b.positions.items.map Prod.fst := by
    apply List.map_congr_left
    intro x hx
    exact (h.held x.1 x.2 (Dict.mem_items.mp hx)).1
  rw [hkeys]
  exact b.positions.nodup

/-- After any calls at positive prices: the cash has not become negative, each code has at most
one position and it is of at least one share, the records of a code alternate, no call raises,
one that returns nothing changes nothing, and a purchase lowers the value by its commission. -/
theorem broker_books (config : BacktestConfig) (hrates : ValidRates config) (calls : List Call)
    (hprices : ∀ c ∈ calls, 0 < c.price) :
    let b := runCalls calls (.init config)
    min 0 (config.initialCapital : ℚ) ≤ b.cash ∧
    (∀ code, ∀ p ∈ b.positions.get? code, 1 ≤ p.quantity) ∧
    (b.positions.items.map fun x => x.2.stockCode).Nodup ∧
    (∀ code, Alternate (recordsOf code b.tradeHistory)) ∧
    (∀ c : Call, 0 < c.price → ∃ r b', c.perform b = .ok (r, b') ∧ (r = none → b' = b)) ∧
    ∀ code price date record b', b.buy code price date = .ok (some record, b') →
      ∀ prices : Dict Code ℚ, prices.get? code = some record.price →
        b'.portfolioValue prices = b.portfolioValue prices - record.commission := by
  intro b
  have hbooked : Booked config b := booked_runCalls config calls
  have hsolvent : Solvent config b := solvent_runCalls hrates calls hprices
  refine ⟨hsolvent.cash, fun code p hp => (hbooked.held code p hp).2, hbooked.codes_nodup,
    fun code => (hbooked.paired code).alternate, fun c hc => ?_, ?_⟩
  · exact perform_total hsolvent (hbooked.config_eq ▸ hrates) c hc
  · intro code price date record b' hok prices hprice
    exact buy_portfolioValue (VirtualBroker.buy_bought hok) hprice

/-- Two purchases of which the second is refused, and the sale of the first. -/
def tradedCalls : List Call :=
  [.buy "005930" 70000 "2026-01-05", .buy "005930" 71000 "2026-01-06", .sell "005930" 72000 "2026-01-07"]

theorem broker_books_traded :
    min 0 10000000 ≤ (runCalls tradedCalls (.init {})).cash :=
  (broker_books {} ⟨by norm_num, by norm_num, by norm_num, by norm_num⟩ tradedCalls
    (by simp [tradedCalls, Call.price])).1

end KisAutotrader.Backtest.BrokerBooks
