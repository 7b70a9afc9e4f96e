import KisAutotrader.Market
import KisAutotrader.OrderedDict
import KisAutotrader.BaselineMeter

/-! The broker as the engine's environment: accepted orders, the fills that land
on them, cancellations, and the holdings a successful balance call reports. -/
namespace KisAutotrader
open OrderedDict

/-- The way a filled order moves the holding. -/
def Side.direction : Side → BaselineMeter.Direction
  | .buy => .up
  | .sell => .down

structure BrokerOrder where
  no : ℕ
  code : Code
  side : Side
  quantity : ℕ
  exchange : String
  filled : ℕ := 0
  cancelled : Bool := false
  deriving DecidableEq, Repr

/-- Accepted, not cancelled and not completely filled. -/
def BrokerOrder.live (o : BrokerOrder) : Bool := !o.cancelled && decide (o.filled < o.quantity)

/-- A holding; `lot` numbers the position from its opening to its closing. -/
structure Position where
  quantity : ℕ
  avgPrice : ℚ
  exchange : String
  lot : ℕ
  deriving DecidableEq, Repr

namespace Position

/-- Added shares average the price by quantity. -/
def buy (p : Position) (shares : ℕ) (price : ℚ) : Position :=
  { p with
    quantity := p.quantity + shares
    avgPrice := (p.avgPrice * p.quantity + price * shares) / ((p.quantity + shares : ℕ) : ℚ) }

def sell (p : Position) (shares : ℕ) : Position := { p with quantity := p.quantity - shares }

end Position

structure Holding extends Position where
  stockCode : Code
  deriving DecidableEq, Repr

structure Balance where
  deposit : ℚ
  holdings : List Holding
  deriving DecidableEq, Repr

namespace Balance

/-- The row scan of `_holding_quantity`. -/
def quantityIn (code : Code) : List Holding → ℕ
  | [] => 0
  | h::hs => if h.stockCode = code then h.quantity else quantityIn code hs

def quantityOf (b : Balance) (code : Code) : ℕ := quantityIn code b.holdings

end Balance

structure Broker where
  deposit : ℚ
  positions : Dict Code Position
  orders : List BrokerOrder
  nextNo : ℕ
  nextLot : ℕ

namespace Broker

def holding (b : Broker) (code : Code) : ℕ := ((b.positions.get? code).map Position.quantity).getD 0

/-- The balance a successful call reports. -/
def report (b : Broker) : Balance :=
  ⟨b.deposit, b.positions.items.map fun x => { toPosition := x.2, stockCode := x.1 }⟩

def order? (b : Broker) (no : ℕ) : Option BrokerOrder := b.orders.find? fun o => o.no = no

def updateOrder (no : ℕ) (f : BrokerOrder → BrokerOrder) (b : Broker) : Broker :=
  { b with orders := b.orders.map fun o => if o.no = no then f o else o }

def put (code : Code) (p : Position) (b : Broker) : Broker :=
  { b with positions := b.positions.set code p }

/-- The first bought shares of a stock not held open a new lot at the fill price. -/
def openLot (o : BrokerOrder) (shares : ℕ) (price : ℚ) (b : Broker) : Broker :=
  { b.put o.code ⟨shares, price, o.exchange, b.nextLot⟩ with nextLot := b.nextLot + 1 }

def settleBuy (o : BrokerOrder) (shares : ℕ) (price : ℚ) (b : Broker) : Broker :=
  match b.positions.get? o.code with
  | none => b.openLot o shares price
  | some p => if p.quantity = 0 then b.openLot o shares price else b.put o.code (p.buy shares price)

def settleSell (o : BrokerOrder) (shares : ℕ) (b : Broker) : Broker :=
  match b.positions.get? o.code with
  | none => b
  | some p => b.put o.code (p.sell shares)

def settle (o : BrokerOrder) (shares : ℕ) (price : ℚ) (b : Broker) : Broker :=
  match o.side with
  | .buy => b.settleBuy o shares price
  | .sell => b.settleSell o shares

/-- A fill can land on an order that is live, within its remainder and the holding. -/
def Fillable (b : Broker) (o : BrokerOrder) (shares : ℕ) : Prop :=
  o.live = true ∧ 0 < shares ∧ shares ≤ o.quantity - o.filled ∧
    (o.side = .sell → shares ≤ b.holding o.code)

instance (b : Broker) (o : BrokerOrder) (shares : ℕ) : Decidable (b.Fillable o shares) := by
  unfold Fillable
  infer_instance

def fill (no shares : ℕ) (price : ℚ) (b : Broker) : Broker :=
  match b.order? no with
  | none => b
  | some o =>
      if b.Fillable o shares then
        (b.updateOrder no fun x => { x with filled := x.filled + shares }).settle o shares price
      else b

/-- Accept a new order under a fresh number. -/
def accept (side : Side) (code : Code) (quantity : ℕ) (exchange : String) (b : Broker) : Broker :=
  { b with orders := b.orders ++ [{ no := b.nextNo, code, side, quantity, exchange }]
           nextNo := b.nextNo + 1 }

def cancel (no : ℕ) (b : Broker) : Broker := b.updateOrder no fun x => { x with cancelled := true }

theorem report_quantityOf (b : Broker) (code : Code) : b.report.quantityOf code = b.holding code := by
  suffices h : ∀ xs : List (Code × Position),
      Balance.quantityIn code (xs.map fun x => { toPosition := x.2, stockCode := x.1 }) =
        ((lookup code xs).map Position.quantity).getD 0 from h b.positions.items
  intro xs
  induction xs with
  | nil => rfl
  | cons x xs ih =>
    by_cases hx : x.1 = code
    · simp [Balance.quantityIn, lookup, hx]
    · simp [Balance.quantityIn, lookup, hx, ih]

theorem holding_put (b : Broker) (code c : Code) (p : Position) :
    (b.put code p).holding c = if c = code then p.quantity else b.holding c := by
  by_cases h : c = code <;> simp [holding, put, h]

@[simp] theorem holding_updateOrder (b : Broker) (no : ℕ) (f : BrokerOrder → BrokerOrder) (c : Code) :
    (b.updateOrder no f).holding c = b.holding c := rfl

@[simp] theorem holding_accept (b : Broker) (side : Side) (code : Code) (quantity : ℕ)
    (exchange : String) (c : Code) : (b.accept side code quantity exchange).holding c = b.holding c :=
  rfl

@[simp] theorem holding_cancel (b : Broker) (no : ℕ) (c : Code) :
    (b.cancel no).holding c = b.holding c := rfl

theorem holding_settleBuy (b : Broker) (o : BrokerOrder) (shares : ℕ) (price : ℚ) (c : Code) :
    (b.settleBuy o shares price).holding c = b.holding c + if c = o.code then shares else 0 := by
  have hopen : ∀ b : Broker, (b.openLot o shares price).holding c =
      if c = o.code then shares else b.holding c := fun b => holding_put b o.code c _
  unfold settleBuy
  cases hp : b.positions.get? o.code with
  | none =>
    rw [hopen]
    by_cases hc : c = o.code <;> simp [hc, holding, hp]
  | some p =>
    by_cases hq : p.quantity = 0
    · simp only [hq, if_true]
      rw [hopen]
      by_cases hc : c = o.code <;> simp [hc, holding, hp, hq]
    · simp only [hq, if_false]
      rw [holding_put]
      by_cases hc : c = o.code <;> simp [hc, holding, hp, Position.buy]

theorem holding_settleSell (b : Broker) (o : BrokerOrder) (shares : ℕ) (c : Code) :
    (b.settleSell o shares).holding c = b.holding c - if c = o.code then shares else 0 := by
  unfold settleSell
  cases hp : b.positions.get? o.code with
  | none => by_cases hc : c = o.code <;> simp [hc, holding, hp]
  | some p =>
    rw [holding_put]
    by_cases hc : c = o.code <;> simp [hc, holding, hp, Position.sell]

/-- A fill moves the holding of its stock by the filled shares, in the direction of its side. -/
theorem holding_settle (b : Broker) (o : BrokerOrder) {shares : ℕ} (price : ℚ) (c : Code)
    (h : o.side = .sell → shares ≤ b.holding o.code) :
    ((b.settle o shares price).holding c : ℤ) =
      b.holding c + if c = o.code then o.side.direction.sign * shares else 0 := by
  unfold settle
  cases hs : o.side with
  | buy =>
    simp only [holding_settleBuy, Side.direction, BaselineMeter.Direction.sign]
    split_ifs <;> simp
  | sell =>
    simp only [holding_settleSell, Side.direction, BaselineMeter.Direction.sign]
    split_ifs with hc
    · subst hc
      have hle := h hs
      omega
    · simp

theorem orders_settle (b : Broker) (o : BrokerOrder) (shares : ℕ) (price : ℚ) :
    (b.settle o shares price).orders = b.orders ∧ (b.settle o shares price).nextNo = b.nextNo := by
  unfold settle settleBuy settleSell
  split
  · split
    · exact ⟨rfl, rfl⟩
    · split_ifs <;> exact ⟨rfl, rfl⟩
  · split <;> exact ⟨rfl, rfl⟩

/-- What a fill can do. -/
theorem fill_cases (b : Broker) (no shares : ℕ) (price : ℚ) :
    b.fill no shares price = b ∨ ∃ o, b.order? no = some o ∧ b.Fillable o shares ∧
      b.fill no shares price =
        (b.updateOrder no fun x => { x with filled := x.filled + shares }).settle o shares price := by
  unfold fill
  cases ho : b.order? no with
  | none => exact Or.inl rfl
  | some o =>
    by_cases hf : b.Fillable o shares
    · exact Or.inr ⟨o, rfl, hf, by simp [hf]⟩
    · exact Or.inl (by simp [hf])

/-- The orders kept their numbers and stocks, and none came back to life. -/
structure Evolved (b b' : Broker) : Prop where
  nextNo : b'.nextNo = b.nextNo
  nos : b'.orders.map BrokerOrder.no = b.orders.map BrokerOrder.no
  live : ∀ o' ∈ b'.orders, o'.live = true →
    ∃ o ∈ b.orders, o.no = o'.no ∧ o.code = o'.code ∧ o.live = true

theorem Evolved.refl (b : Broker) : Evolved b b := ⟨rfl, rfl, fun o ho hl => ⟨o, ho, rfl, rfl, hl⟩⟩

theorem Evolved.trans {a b c : Broker} (hab : Evolved a b) (hbc : Evolved b c) : Evolved a c := by
  refine ⟨hbc.nextNo.trans hab.nextNo, hbc.nos.trans hab.nos, fun o ho hl => ?_⟩
  obtain ⟨p, hp, hno, hcode, hlive⟩ := hbc.live o ho hl
  obtain ⟨q, hq, hno', hcode', hlive'⟩ := hab.live p hp hlive
  exact ⟨q, hq, hno'.trans hno, hcode'.trans hcode, hlive'⟩

theorem evolved_updateOrder (b : Broker) (no : ℕ) {f : BrokerOrder → BrokerOrder}
    (hf : ∀ o, (f o).no = o.no ∧ (f o).code = o.code ∧ ((f o).live = true → o.live = true)) :
    Evolved b (b.updateOrder no f) := by
  refine ⟨rfl, ?_, fun o' ho' hl => ?_⟩
  · simp only [updateOrder, List.map_map]
    refine List.map_congr_left fun o _ => ?_
    by_cases hno : o.no = no <;> simp [hno, (hf o).1]
  · obtain ⟨o, ho, rfl⟩ := List.mem_map.mp ho'
    refine ⟨o, ho, ?_⟩
    by_cases hno : o.no = no
    · simp only [hno, if_true] at hl ⊢
      exact ⟨by rw [(hf o).1, hno], (hf o).2.1.symm, (hf o).2.2 hl⟩
    · simp only [hno, if_false] at hl ⊢
      exact ⟨trivial, trivial, hl⟩

theorem evolved_fill (b : Broker) (no shares : ℕ) (price : ℚ) :
    Evolved b (b.fill no shares price) := by
  obtain hsame | ⟨o, -, -, heq⟩ := b.fill_cases no shares price
  · rw [hsame]
    exact Evolved.refl b
  · have hupd := b.evolved_updateOrder no (f := fun x => { x with filled := x.filled + shares })
      fun x => ⟨rfl, rfl, fun hl => by
        simp only [BrokerOrder.live, Bool.and_eq_true, decide_eq_true_eq] at hl ⊢
        exact ⟨hl.1, by omega⟩⟩
    obtain ⟨horders, hnext⟩ := orders_settle
      (b.updateOrder no fun x => { x with filled := x.filled + shares }) o shares price
    rw [heq]
    exact ⟨hnext.trans hupd.nextNo, by rw [horders]; exact hupd.nos, by rw [horders]; exact hupd.live⟩

theorem evolved_cancel (b : Broker) (no : ℕ) : Evolved b (b.cancel no) :=
  b.evolved_updateOrder no fun _ => ⟨rfl, rfl, by simp [BrokerOrder.live]⟩

end Broker
end KisAutotrader
