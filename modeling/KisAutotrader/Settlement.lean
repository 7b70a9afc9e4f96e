import Mathlib.Algebra.Order.BigOperators.Group.List
import KisAutotrader.Grouping
import KisAutotrader.Market

/-!
# The settlement of a day

The trades of a day grouped by stock for the calendar. The price of an entry is a floor
division of amounts that have cents in one of the markets.
-/
namespace KisAutotrader.Settlement
open Grouping OrderedDict

/-- A row of `trades`, as far as the settlement reads it, and its price. -/
structure Trade where
  stockCode : Code
  stockName : String
  tradeType : Side
  quantity : ℤ
  price : ℚ
  totalAmount : ℚ
  profitLossPct : Option ℚ := none
  profitLossAmount : Option ℚ := none

/-- What is gathered of one stock. -/
structure Entry where
  name : String
  code : Code
  buyQty : ℤ := 0
  buyAmount : ℚ := 0
  sellQty : ℤ := 0
  sellAmount : ℚ := 0
  profitLoss : ℚ := 0
  plBaseAmount : ℚ := 0
  plWeightedPct : ℚ := 0

structure CalendarRow where
  name : String
  code : Code
  buyPrice : ℤ
  buyQty : ℤ
  sellPrice : ℤ
  sellQty : ℤ
  profitLoss : ℚ
  profitRate : ℚ
  deriving DecidableEq

namespace Entry

/-- The default of `setdefault`. -/
def start (t : Trade) : Entry :=
  { name := if t.stockName ≠ "" then t.stockName else t.stockCode, code := t.stockCode }

def rename (e : Entry) (t : Trade) : Entry :=
  if t.stockName ≠ "" ∧ e.name = t.stockCode then { e with name := t.stockName } else e

def weigh (e : Entry) (t : Trade) : Entry :=
  match t.profitLossPct with
  | some pct =>
      if t.totalAmount > 0 then
        { e with
          plBaseAmount := e.plBaseAmount + t.totalAmount
          plWeightedPct := e.plWeightedPct + pct * t.totalAmount }
      else e
  | none => e

def book (e : Entry) (t : Trade) : Entry :=
  match t.tradeType with
  | .buy => { e with buyQty := e.buyQty + t.quantity, buyAmount := e.buyAmount + t.totalAmount }
  | .sell =>
      { e with
        sellQty := e.sellQty + t.quantity
        sellAmount := e.sellAmount + t.totalAmount
        profitLoss := e.profitLoss + t.profitLossAmount.getD 0 }.weigh t

/-- The body of the loop after `setdefault`. -/
def take (e : Entry) (t : Trade) : Entry := (e.rename t).book t

/-- `amount // qty` where there is a quantity. -/
def unitPrice (amount : ℚ) (qty : ℤ) : ℤ := if qty > 0 then ⌊amount / qty⌋ else 0

def row (e : Entry) : CalendarRow where
  name := e.name
  code := e.code
  buyPrice := unitPrice e.buyAmount e.buyQty
  buyQty := e.buyQty
  sellPrice := unitPrice e.sellAmount e.sellQty
  sellQty := e.sellQty
  profitLoss := e.profitLoss
  profitRate := if e.plBaseAmount > 0 then e.plWeightedPct / e.plBaseAmount else 0

end Entry

def group (grouped : Dict Code Entry) (t : Trade) : Dict Code Entry :=
  grouped.set t.stockCode (((grouped.get? t.stockCode).getD (.start t)).take t)

/-- `_group_trades_for_calendar`. -/
def groupTradesForCalendar (trades : List Trade) : List CalendarRow :=
  (trades.foldl group .empty).items.map fun x => { x.2.row with code := x.1 }

/-- `realized_pl` of `post_market`. -/
def realizedPl (trades : List Trade) : ℚ :=
  ((trades.filter fun t => t.tradeType = .sell).map fun t => t.profitLossAmount.getD 0).sum

/-! ### What a settlement should give -/

def ofStock (code : Code) (trades : List Trade) : List Trade :=
  trades.filter fun t => t.stockCode = code

def ofSide (side : Side) (trades : List Trade) : List Trade :=
  trades.filter fun t => t.tradeType = side

def quantityOf (trades : List Trade) : ℤ := (trades.map Trade.quantity).sum

def amountOf (trades : List Trade) : ℚ := (trades.map Trade.totalAmount).sum

def averageOf (trades : List Trade) : ℚ := amountOf trades / quantityOf trades

/-- Between the lowest price and the highest. -/
def Between (trades : List Trade) (x : ℚ) : Prop :=
  (∃ t ∈ trades, t.price ≤ x) ∧ ∃ t ∈ trades, x ≤ t.price

/-- A name of the trades, or the code where none has a name. -/
def Named (trades : List Trade) (code : Code) (name : String) : Prop :=
  (∃ t ∈ trades, t.stockName = name ∧ name ≠ "") ∨ (name = code ∧ ∀ t ∈ trades, t.stockName = "")

def CalendarRow.unnamed (row : CalendarRow) : CalendarRow := { row with name := "" }

/-- The law of one row. -/
structure RowSettled (trades : List Trade) (row : CalendarRow) : Prop where
  named : Named (ofStock row.code trades) row.code row.name
  buyQty : row.buyQty = quantityOf (ofSide .buy (ofStock row.code trades))
  sellQty : row.sellQty = quantityOf (ofSide .sell (ofStock row.code trades))
  buyPrice : ofSide .buy (ofStock row.code trades) ≠ [] →
    Between (ofSide .buy (ofStock row.code trades)) row.buyPrice
  sellPrice : ofSide .sell (ofStock row.code trades) ≠ [] →
    Between (ofSide .sell (ofStock row.code trades)) row.sellPrice

structure Settled (trades : List Trade) : Prop where
  once : ((groupTradesForCalendar trades).map CalendarRow.code).Nodup
  stocks : ∀ code, code ∈ (groupTradesForCalendar trades).map CalendarRow.code ↔
    ∃ t ∈ trades, t.stockCode = code
  profit : ((groupTradesForCalendar trades).map CalendarRow.profitLoss).sum = realizedPl trades
  rows : ∀ row ∈ groupTradesForCalendar trades, RowSettled trades row
  order : ∀ trades', trades'.Perm trades →
    ((groupTradesForCalendar trades').map CalendarRow.unnamed).Perm
      ((groupTradesForCalendar trades).map CalendarRow.unnamed) ∧
    ∀ row' ∈ groupTradesForCalendar trades', Named (ofStock row'.code trades) row'.code row'.name

/-- A whole number lies between the lowest price and the average. -/
def WholeBetween (trades : List Trade) : Prop :=
  ∃ z : ℤ, (∃ t ∈ trades, t.price ≤ z) ∧ z ≤ averageOf trades

/-! ### The entry of a stock -/

/-- A sell that counts for the rate. -/
def Trade.weighted (t : Trade) : Bool :=
  t.tradeType = .sell ∧ t.profitLossPct.isSome ∧ t.totalAmount > 0

/-- The entry has the sums of its trades. -/
structure Sums (trades : List Trade) (e : Entry) : Prop where
  buyQty : e.buyQty = quantityOf (ofSide .buy trades)
  buyAmount : e.buyAmount = amountOf (ofSide .buy trades)
  sellQty : e.sellQty = quantityOf (ofSide .sell trades)
  sellAmount : e.sellAmount = amountOf (ofSide .sell trades)
  profitLoss : e.profitLoss = realizedPl trades
  plBaseAmount : e.plBaseAmount = amountOf (trades.filter Trade.weighted)
  plWeightedPct : e.plWeightedPct =
    ((trades.filter Trade.weighted).map fun t => t.profitLossPct.getD 0 * t.totalAmount).sum

section Entries
variable {trades : List Trade} {t : Trade} {e : Entry} {code : Code}

theorem ofSide_append (side : Side) (xs ys : List Trade) :
    ofSide side (xs ++ ys) = ofSide side xs ++ ofSide side ys := List.filter_append xs ys

theorem quantityOf_append (xs ys : List Trade) :
    quantityOf (xs ++ ys) = quantityOf xs + quantityOf ys := by
  simp [quantityOf]

theorem amountOf_append (xs ys : List Trade) : amountOf (xs ++ ys) = amountOf xs + amountOf ys := by
  simp [amountOf]

theorem sums_nil (name : String) (code : Code) : Sums [] { name, code } :=
  ⟨rfl, rfl, rfl, rfl, rfl, rfl, rfl⟩

theorem sums_rename (h : Sums trades e) (t : Trade) : Sums trades (e.rename t) := by
  unfold Entry.rename
  split_ifs
  · exact ⟨h.buyQty, h.buyAmount, h.sellQty, h.sellAmount, h.profitLoss, h.plBaseAmount, h.plWeightedPct⟩
  · exact h

theorem sums_book (h : Sums trades e) (t : Trade) : Sums (trades ++ [t]) (e.book t) := by
  have hbuy : ∀ side, ofSide side [t] = if t.tradeType = side then [t] else [] := by
    intro side
    by_cases hside : t.tradeType = side <;> simp [ofSide, hside]
  have hone : quantityOf [t] = t.quantity ∧ amountOf [t] = t.totalAmount := by
    simp [quantityOf, amountOf]
  have hnone : quantityOf [] = 0 ∧ amountOf [] = 0 := ⟨rfl, rfl⟩
  obtain ⟨hbuyQty, hbuyAmount, hsellQty, hsellAmount, hprofit, hbase, hpct⟩ := h
  unfold Entry.book
  cases htype : t.tradeType with
  | buy =>
    constructor <;>
      simp [ofSide_append, quantityOf_append, amountOf_append, List.filter_append,
        Trade.weighted, realizedPl, *]
  | sell =>
    unfold Entry.weigh
    cases hrate : t.profitLossPct with
    | none =>
      constructor <;>
        simp [ofSide_append, quantityOf_append, amountOf_append, List.filter_append,
          Trade.weighted, realizedPl, *]
    | some pct =>
      dsimp only
      split_ifs with hpos <;> constructor <;>
        simp [ofSide_append, quantityOf_append, amountOf_append, List.filter_append,
          Trade.weighted, realizedPl, *]

theorem name_book (e : Entry) (t : Trade) : (e.book t).name = e.name := by
  unfold Entry.book Entry.weigh
  split
  · rfl
  · split
    · split_ifs <;> rfl
    · rfl

theorem name_take (e : Entry) (t : Trade) : (e.take t).name =
    if t.stockName ≠ "" ∧ e.name = t.stockCode then t.stockName else e.name := by
  rw [Entry.take, name_book, Entry.rename]
  split_ifs <;> rfl

theorem named_start (h : t.stockCode = code) : Named [t] code ((Entry.start t).take t).name := by
  rw [name_take]
  by_cases hname : t.stockName = ""
  · right
    simp [Entry.start, hname, h]
  · left
    refine ⟨t, List.mem_singleton_self t, ?_⟩
    simp [Entry.start, hname]

/-- A trade with a name gives it to an entry that has none yet. -/
theorem named_take (h : Named trades code e.name) (ht : t.stockCode = code) :
    Named (trades ++ [t]) code (e.take t).name := by
  rw [name_take, ht]
  split_ifs with hgive
  · exact Or.inl ⟨t, by simp, rfl, hgive.1⟩
  · rcases h with ⟨u, hu, hname⟩ | ⟨hcode, hnone⟩
    · exact Or.inl ⟨u, List.mem_append_left _ hu, hname⟩
    · refine Or.inr ⟨hcode, fun u hu => ?_⟩
      rcases List.mem_append.mp hu with hold | hlast
      · exact hnone u hold
      · rw [List.mem_singleton.mp hlast]
        by_contra hname
        exact hgive ⟨hname, hcode⟩

end Entries

/-! ### The grouping -/

theorem group_eq_absorb :
    group = absorb Trade.stockCode (fun t => (Entry.start t).take t) Entry.take := by
  funext grouped t
  unfold group absorb
  cases grouped.get? t.stockCode <;> rfl

/-- The entries of the dictionary. -/
def gathered (trades : List Trade) : Dict Code Entry := trades.foldl group .empty

section Rows
variable {trades trades' : List Trade} {code : Code} {e : Entry}

theorem entry_of_mem (h : (code, e) ∈ (gathered trades).items) :
    Sums (ofStock code trades) e ∧ Named (ofStock code trades) code e.name := by
  have hget := Dict.mem_items.mp h
  rw [gathered, group_eq_absorb, get?_foldl_absorb, Dict.get?_empty] at hget
  have hcodes : ∀ t ∈ ofStock code trades, t.stockCode = code := fun t ht =>
    of_decide_eq_true (List.mem_filter.mp ht).2
  have hentry : ∀ (ts : List Trade) (v : Entry),
      ts.foldl (taken (fun t => (Entry.start t).take t) Entry.take) none = some v →
        Sums ts v ∧ ((∀ t ∈ ts, t.stockCode = code) → Named ts code v.name) := by
    intro ts v hv
    refine entry_induction (P := fun ts v => Sums ts v ∧
      ((∀ t ∈ ts, t.stockCode = code) → Named ts code v.name)) ?_ ?_ hv
    · intro t
      exact ⟨sums_book (sums_rename (sums_nil _ _) t) t, fun hts => named_start (hts t (by simp))⟩
    · intro ts t v hts
      refine ⟨sums_book (sums_rename hts.1 t) t, fun hall => ?_⟩
      exact named_take (hts.2 fun u hu => hall u (List.mem_append_left _ hu)) (hall t (by simp))
  obtain ⟨hsums, hnamed⟩ := hentry _ _ hget
  exact ⟨hsums, hnamed hcodes⟩

theorem mem_keys_gathered : code ∈ keys (gathered trades) ↔ ∃ t ∈ trades, t.stockCode = code := by
  rw [gathered, group_eq_absorb, keys_foldl_absorb]
  simp

theorem codes_eq (trades : List Trade) :
    (groupTradesForCalendar trades).map CalendarRow.code = keys (gathered trades) := by
  simp [groupTradesForCalendar, gathered, keys, Function.comp_def]

/-- A row without its name, from the sums of the stock's trades. -/
def rowOf (code : Code) (trades : List Trade) : CalendarRow where
  name := ""
  code := code
  buyPrice := Entry.unitPrice (amountOf (ofSide .buy trades)) (quantityOf (ofSide .buy trades))
  buyQty := quantityOf (ofSide .buy trades)
  sellPrice := Entry.unitPrice (amountOf (ofSide .sell trades)) (quantityOf (ofSide .sell trades))
  sellQty := quantityOf (ofSide .sell trades)
  profitLoss := realizedPl trades
  profitRate :=
    if amountOf (trades.filter Trade.weighted) > 0 then
      ((trades.filter Trade.weighted).map fun t => t.profitLossPct.getD 0 * t.totalAmount).sum /
        amountOf (trades.filter Trade.weighted)
    else 0

theorem Sums.unnamed (h : Sums trades e) : { e.row with code }.unnamed = rowOf code trades := by
  simp only [CalendarRow.unnamed, Entry.row, rowOf, h.buyQty, h.buyAmount, h.sellQty, h.sellAmount,
    h.profitLoss, h.plBaseAmount, h.plWeightedPct]

theorem unnamed_eq (trades : List Trade) : (groupTradesForCalendar trades).map CalendarRow.unnamed =
    (keys (gathered trades)).map fun code => rowOf code (ofStock code trades) := by
  rw [groupTradesForCalendar, ← gathered, keys, List.map_map, List.map_map]
  apply List.map_congr_left
  rintro ⟨code, e⟩ hmem
  exact (entry_of_mem hmem).1.unnamed

/-- Every row is that of its stock, under a name of it. -/
theorem row_of_mem {row : CalendarRow} (h : row ∈ groupTradesForCalendar trades) :
    row.unnamed = rowOf row.code (ofStock row.code trades) ∧
      Named (ofStock row.code trades) row.code row.name := by
  obtain ⟨⟨code, e⟩, hmem, rfl⟩ := List.mem_map.mp h
  obtain ⟨hsums, hnamed⟩ := entry_of_mem hmem
  exact ⟨hsums.unnamed, hnamed⟩

theorem values_of_mem {row : CalendarRow} (h : row ∈ groupTradesForCalendar trades) :
    row.buyQty = quantityOf (ofSide .buy (ofStock row.code trades)) ∧
      row.sellQty = quantityOf (ofSide .sell (ofStock row.code trades)) ∧
      row.buyPrice = Entry.unitPrice (amountOf (ofSide .buy (ofStock row.code trades)))
        (quantityOf (ofSide .buy (ofStock row.code trades))) ∧
      row.sellPrice = Entry.unitPrice (amountOf (ofSide .sell (ofStock row.code trades)))
        (quantityOf (ofSide .sell (ofStock row.code trades))) := by
  have hvalue := (row_of_mem h).1
  have hbuyQty := congrArg CalendarRow.buyQty hvalue
  have hsellQty := congrArg CalendarRow.sellQty hvalue
  have hbuyPrice := congrArg CalendarRow.buyPrice hvalue
  have hsellPrice := congrArg CalendarRow.sellPrice hvalue
  exact ⟨hbuyQty, hsellQty, hbuyPrice, hsellPrice⟩

theorem rowOf_perm (h : trades'.Perm trades) (code : Code) : rowOf code trades' = rowOf code trades := by
  have hquantity : ∀ side, quantityOf (ofSide side trades') = quantityOf (ofSide side trades) :=
    fun side => ((h.filter _).map _).sum_eq
  have hamount : ∀ side, amountOf (ofSide side trades') = amountOf (ofSide side trades) :=
    fun side => ((h.filter _).map _).sum_eq
  have hprofit : realizedPl trades' = realizedPl trades := ((h.filter _).map _).sum_eq
  have hbase : amountOf (trades'.filter Trade.weighted) = amountOf (trades.filter Trade.weighted) :=
    ((h.filter _).map _).sum_eq
  have hpct := ((h.filter Trade.weighted).map fun t => t.profitLossPct.getD 0 * t.totalAmount).sum_eq
  simp only [rowOf, hquantity, hamount, hprofit, hbase, hpct]

theorem keys_perm (h : trades'.Perm trades) : (keys (gathered trades')).Perm (keys (gathered trades)) := by
  refine (List.perm_ext_iff_of_nodup (gathered trades').nodup (gathered trades).nodup).mpr fun code => ?_
  change code ∈ keys _ ↔ code ∈ keys _
  rw [mem_keys_gathered, mem_keys_gathered]
  simp only [h.mem_iff]

theorem unnamed_perm (h : trades'.Perm trades) :
    ((groupTradesForCalendar trades').map CalendarRow.unnamed).Perm
      ((groupTradesForCalendar trades).map CalendarRow.unnamed) := by
  rw [unnamed_eq, unnamed_eq]
  have hrows : (fun code => rowOf code (ofStock code trades')) =
      fun code => rowOf code (ofStock code trades) :=
    funext fun code => rowOf_perm (h.filter _) code
  rw [hrows]
  exact (keys_perm h).map _

theorem Named.perm {name : String} (hperm : trades'.Perm trades) (h : Named trades' code name) :
    Named trades code name := by
  rcases h with ⟨t, ht, hname⟩ | ⟨hcode, hnone⟩
  · exact Or.inl ⟨t, hperm.mem_iff.mp ht, hname⟩
  · exact Or.inr ⟨hcode, fun t ht => hnone t (hperm.mem_iff.mpr ht)⟩

theorem profit_sum (trades : List Trade) :
    ((groupTradesForCalendar trades).map CalendarRow.profitLoss).sum = realizedPl trades := by
  have hparts : (groupTradesForCalendar trades).map CalendarRow.profitLoss =
      (keys (gathered trades)).map fun code => realizedPl (ofStock code trades) := by
    have hunnamed := congrArg (List.map CalendarRow.profitLoss) (unnamed_eq trades)
    rw [List.map_map, List.map_map] at hunnamed
    exact hunnamed
  have hsell : ∀ code, realizedPl (ofStock code trades) =
      (((ofSide .sell trades).filter fun t => t.stockCode = code).map fun t =>
        t.profitLossAmount.getD 0).sum := by
    intro code
    rw [realizedPl, ofStock, ofSide, List.filter_comm]
  rw [hparts]
  simp only [hsell]
  apply sum_map_parts _ (gathered trades).nodup
  intro t ht
  exact mem_keys_gathered.mpr ⟨t, (List.mem_filter.mp ht).1, rfl⟩

end Rows

/-! ### Prices -/

section Prices
variable {trades : List Trade}

theorem quantityOf_pos (hquantity : ∀ t ∈ trades, 0 < t.quantity) (hne : trades ≠ []) :
    0 < quantityOf trades := by
  apply List.sum_pos
  · intro q hq
    obtain ⟨t, ht, rfl⟩ := List.mem_map.mp hq
    exact hquantity t ht
  · simpa using hne

/-- The average price lies between two prices. -/
theorem averageOf_between (hquantity : ∀ t ∈ trades, 0 < t.quantity)
    (hamount : ∀ t ∈ trades, t.totalAmount = t.price * t.quantity) (hne : trades ≠ []) :
    Between trades (averageOf trades) := by
  have hpos : (0 : ℚ) < quantityOf trades := by exact_mod_cast quantityOf_pos hquantity hne
  have hsum : (trades.map fun t => t.price * (t.quantity : ℚ)).sum =
      (trades.map fun t => averageOf trades * (t.quantity : ℚ)).sum := by
    have hcast : (quantityOf trades : ℚ) = (trades.map fun t => (t.quantity : ℚ)).sum := by
      rw [quantityOf, Int.cast_list_sum, List.map_map]
      rfl
    rw [List.sum_map_mul_left, ← hcast, averageOf, div_mul_cancel₀ _ hpos.ne', amountOf,
      List.map_congr_left hamount]
  have hcancel : ∀ t ∈ trades, (0 : ℚ) < t.quantity := fun t ht => by exact_mod_cast hquantity t ht
  constructor
  · obtain ⟨t, ht, hle⟩ := List.exists_le_of_sum_le hne _ _ hsum.le
    exact ⟨t, ht, le_of_mul_le_mul_right hle (hcancel t ht)⟩
  · obtain ⟨t, ht, hle⟩ := List.exists_le_of_sum_le hne _ _ hsum.ge
    exact ⟨t, ht, le_of_mul_le_mul_right hle (hcancel t ht)⟩

/-- The floor of the average is not too low exactly if it leaves room for a whole number. -/
theorem unitPrice_between_iff (hquantity : ∀ t ∈ trades, 0 < t.quantity)
    (hamount : ∀ t ∈ trades, t.totalAmount = t.price * t.quantity) (hne : trades ≠ []) :
    Between trades (Entry.unitPrice (amountOf trades) (quantityOf trades)) ↔ WholeBetween trades := by
  have hprice : Entry.unitPrice (amountOf trades) (quantityOf trades) = ⌊averageOf trades⌋ :=
    if_pos (quantityOf_pos hquantity hne)
  obtain ⟨-, high, hhigh, hle⟩ := averageOf_between hquantity hamount hne
  rw [hprice]
  constructor
  · intro h
    exact ⟨⌊averageOf trades⌋, h.1, Int.floor_le _⟩
  · rintro ⟨z, ⟨low, hlow, hbelow⟩, hz⟩
    have hfloor : (z : ℚ) ≤ ⌊averageOf trades⌋ := by exact_mod_cast Int.le_floor.mpr hz
    exact ⟨⟨low, hlow, hbelow.trans hfloor⟩, high, hhigh, (Int.floor_le _).trans hle⟩

end Prices

/-- A share bought for 10.55 dollars. -/
def centsBuy : Trade :=
  { stockCode := "AAPL", stockName := "Apple", tradeType := .buy, quantity := 1, price := 1055 / 100
    totalAmount := 1055 / 100 }

/-- A purchase in whole won. -/
def wonBuy : Trade := { centsBuy with price := 10000, totalAmount := 10000 }

end KisAutotrader.Settlement
