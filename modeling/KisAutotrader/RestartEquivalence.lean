import KisAutotrader.RiskRestore

/-!
# Restart equivalence

The gating state of the running engine is a fold of its bookkeeping over the
fills of a day; the restarted engine rebuilds it from the rows these fills left.
-/
namespace KisAutotrader.RestartEquivalence
open OrderedDict Coroutine OrderExecution RiskRestore

/-- The three code paths that book a fill. -/
inductive FillKind where
  | buy (price : ℚ)
  | sell (price : ℚ) (reason : String) (avgPrice : Option ℚ)
  | orphan (pending : PendingOrder)

structure DayFill where
  code : Code
  time : Time
  quantity : ℤ
  kind : FillKind

namespace DayFill

def book (cfg : Settings) (f : DayFill) (e : Engine) : Engine × TradeRow :=
  match f.kind with
  | .buy price => buyConfirmed cfg f.time f.code f.quantity price e
  | .sell price reason avgPrice =>
      sellConfirmed cfg f.time f.code f.quantity price reason avgPrice e
  | .orphan pending => orphanConfirmed cfg f.time f.code pending f.quantity e

def side (f : DayFill) : Side :=
  match f.kind with
  | .buy _ => .buy
  | .sell .. => .sell
  | .orphan pending => pending.side

def direct (f : DayFill) : Bool :=
  match f.kind with
  | .orphan _ => false
  | _ => true

/-- The realised amount the fill books and stores. -/
def result (cfg : Settings) (f : DayFill) : Option ℚ :=
  let norm := normPrice cfg.market.pricePrecision
  match f.kind with
  | .buy _ => none
  | .sell price _ avgPrice =>
      (realised cfg .sell f.quantity (norm (norm price)) avgPrice).map Prod.snd
  | .orphan pending =>
      (realised cfg pending.side f.quantity (norm (norm pending.price)) pending.avgPrice).map Prod.snd

end DayFill

/-- The running engine after the fills of a day, and the rows they left. -/
def live (cfg : Settings) (fills : List DayFill) : Engine × List TradeRow :=
  fills.foldl (fun s f => ((f.book cfg s.1).1, s.2 ++ [(f.book cfg s.1).2])) ({}, [])

theorem live_snoc (cfg : Settings) (fills : List DayFill) (f : DayFill) :
    live cfg (fills ++ [f]) = ((f.book cfg (live cfg fills).1).1,
      (live cfg fills).2 ++ [(f.book cfg (live cfg fills).1).2]) := by
  simp [live]

/-- The state that every buy gate reads. -/
structure SameGates (e e' : Engine) : Prop where
  tradeCount : e.todayTradeCount = e'.todayTradeCount
  buys : ∀ code, e.todayBuysPerStock.get? code = e'.todayBuysPerStock.get? code
  lastSell : ∀ code, e.lastSellAt.get? code = e'.lastSellAt.get? code
  lossSell : ∀ code, e.lossSellDates.get? code = e'.lossSellDates.get? code
  risk : e.risk = e'.risk

/-- What booking a fill does to the gates, and what its row says. -/
structure BookEffect (cfg : Settings) (f : DayFill) (e : Engine) (r : Engine × TradeRow) :
    Prop where
  stockCode : r.2.stockCode = f.code
  tradeType : r.2.tradeType = f.side
  tradedAt : r.2.tradedAt = f.time
  amount : r.2.profitLossAmount = f.result cfg
  tradeCount : r.1.todayTradeCount = e.todayTradeCount + 1
  buys : ∀ code, r.1.todayBuysPerStock.get? code =
    if f.side = .buy ∧ code = f.code then some ((e.todayBuysPerStock.get? code).getD 0 + 1)
    else e.todayBuysPerStock.get? code
  lastSell : ∀ code, r.1.lastSellAt.get? code =
    if f.side = .sell ∧ f.direct = true ∧ code = f.code then some f.time
    else e.lastSellAt.get? code
  lossSell : ∀ code, r.1.lossSellDates.get? code = match f.result cfg with
    | none => e.lossSellDates.get? code
    | some a => if a < 0 ∧ code = f.code then some (cfg.clock.date f.time)
        else e.lossSellDates.get? code
  risk : r.1.risk = match f.result cfg with
    | none => e.risk
    | some a => e.risk.recordTradeResult cfg.limits a

section
variable (cfg : Settings) (now : Time) (code : Code) (pl : Option (ℚ × ℚ)) (e : Engine)

theorem bookRealised_gates :
    (bookRealised cfg now code pl e).todayTradeCount = e.todayTradeCount ∧
    (bookRealised cfg now code pl e).todayBuysPerStock = e.todayBuysPerStock ∧
    (bookRealised cfg now code pl e).lastSellAt = e.lastSellAt := by
  cases pl <;> exact ⟨rfl, rfl, rfl⟩

theorem bookRealised_lossSell (c : Code) :
    (bookRealised cfg now code pl e).lossSellDates.get? c = match pl.map Prod.snd with
      | none => e.lossSellDates.get? c
      | some a => if a < 0 ∧ c = code then some (cfg.clock.date now)
          else e.lossSellDates.get? c := by
  cases pl with
  | none => simp [bookRealised]
  | some x =>
    by_cases hneg : x.2 < 0
    · simp [bookRealised, bookProfitLoss, hneg, Dict.get?_set]
    · simp [bookRealised, bookProfitLoss, hneg]

theorem bookRealised_risk :
    (bookRealised cfg now code pl e).risk = match pl.map Prod.snd with
      | none => e.risk
      | some a => e.risk.recordTradeResult cfg.limits a := by
  cases pl <;> rfl

end

theorem book_effect (cfg : Settings) (f : DayFill) (e : Engine) :
    BookEffect cfg f e (f.book cfg e) := by
  obtain ⟨code, time, quantity, kind⟩ := f
  cases kind with
  | buy price =>
    constructor <;>
      simp [DayFill.book, DayFill.side, DayFill.result, buyConfirmed, recordTrade, realised,
        bookRealised, settlePending, bumpBuys, dropPeak, Dict.get?_set]
    intro c
    split_ifs with hc
    · rw [hc]
    · rfl
  | sell price reason avgPrice =>
    constructor <;>
      simp [DayFill.book, DayFill.side, DayFill.direct, DayFill.result, sellConfirmed, recordTrade,
        bookRealised_gates, bookRealised_lossSell, bookRealised_risk, settlePending, dropPeak,
        Dict.get?_set]
  | orphan pending =>
    cases hs : pending.side with
    | buy =>
      constructor <;>
        simp [DayFill.book, DayFill.side, DayFill.result, orphanConfirmed, hs, recordTrade, realised,
          bookRealised, settlePending, bumpBuys, dropPeak, Dict.get?_set]
      intro c
      split_ifs with hc
      · rw [hc]
      · rfl
    | sell =>
      constructor <;>
        simp [DayFill.book, DayFill.side, DayFill.direct, DayFill.result, orphanConfirmed, hs,
          recordTrade, bookRealised_gates, bookRealised_lossSell, bookRealised_risk,
          settlePending, dropPeak]

/-! ### The two folds, one fill further -/

/-- `t` is the time of the last fill with the property, if there is one. -/
def IsLatest (P : DayFill → Prop) (fills : List DayFill) : Option Time → Prop
  | none => ∀ f ∈ fills, ¬ P f
  | some t => (∃ f ∈ fills, P f ∧ f.time = t) ∧ ∀ f ∈ fills, P f → f.time ≤ t

theorem IsLatest.hit {P : DayFill → Prop} {fills : List DayFill} {f : DayFill}
    (hle : ∀ g ∈ fills, g.time ≤ f.time) (hf : P f) :
    IsLatest P (fills ++ [f]) (some f.time) := by
  refine ⟨⟨f, by simp, hf, rfl⟩, fun g hg _ => ?_⟩
  rcases List.mem_append.mp hg with hg | hg
  · exact hle g hg
  · rw [List.mem_singleton.mp hg]

theorem IsLatest.miss {P : DayFill → Prop} {fills : List DayFill} {f : DayFill} {o : Option Time}
    (h : IsLatest P fills o) (hf : ¬ P f) : IsLatest P (fills ++ [f]) o := by
  cases o with
  | none =>
    intro g hg
    rcases List.mem_append.mp hg with hg | hg
    · exact h g hg
    · rwa [List.mem_singleton.mp hg]
  | some t =>
    obtain ⟨⟨g, hg, hPg, hgt⟩, hmax⟩ := h
    refine ⟨⟨g, by simp [hg], hPg, hgt⟩, fun x hx hPx => ?_⟩
    rcases List.mem_append.mp hx with hx | hx
    · exact hmax x hx hPx
    · rw [List.mem_singleton.mp hx] at hPx
      exact absurd hPx hf

theorem IsLatest.le {P : DayFill → Prop} {fills : List DayFill} {f : DayFill} {t : Time}
    (h : IsLatest P fills (some t)) (hle : ∀ g ∈ fills, g.time ≤ f.time) : t ≤ f.time := by
  obtain ⟨⟨g, hg, -, rfl⟩, -⟩ := h
  exact hle g hg

def SellOf (code : Code) (f : DayFill) : Prop := f.side = .sell ∧ f.code = code

def DirectSellOf (code : Code) (f : DayFill) : Prop :=
  f.side = .sell ∧ f.code = code ∧ f.direct = true

instance (code : Code) (f : DayFill) : Decidable (SellOf code f) := by
  unfold SellOf
  infer_instance

instance (code : Code) (f : DayFill) : Decidable (DirectSellOf code f) := by
  unfold DirectSellOf
  infer_instance

/-- The engine before its first cycle after a crash, up to the first flag it sets. -/
def rebooted : Engine := markRestored {}

def rebuilt (today : ℕ) (rows : List TradeRow) : Engine := restoreGates today rows rebooted

theorem rebuilt_snoc (today : ℕ) (rows : List TradeRow) (row : TradeRow) :
    rebuilt today (rows ++ [row]) = restoreRow today (rebuilt today rows) row := by
  simp [rebuilt, restoreGates]

/-- The running engine and the rebuilt gates, related to the fills of the day. -/
structure Related (cfg : Settings) (today : ℕ) (fills : List DayFill) (e : Engine)
    (rows : List TradeRow) (r : Engine) : Prop where
  times : rows.map TradeRow.tradedAt = fills.map DayFill.time
  results : (rows.filter fun t => t.tradeType = .sell ∧ t.profitLossAmount.isSome).filterMap
    TradeRow.profitLossAmount = fills.filterMap (DayFill.result cfg)
  tradeCount : e.todayTradeCount = fills.length
  risk : e.risk = RiskManager.replay cfg.limits (fills.filterMap (DayFill.result cfg))
  buys : ∀ code, r.todayBuysPerStock.get? code = e.todayBuysPerStock.get? code
  lossSell : ∀ code, r.lossSellDates.get? code = e.lossSellDates.get? code
  liveSell : ∀ code, IsLatest (DirectSellOf code) fills (e.lastSellAt.get? code)
  rebuiltSell : ∀ code, IsLatest (SellOf code) fills (r.lastSellAt.get? code)
  untouched : r.risk = {} ∧ r.todayTradeCount = 0

theorem result_buy (cfg : Settings) {f : DayFill} (h : f.side = .buy) : f.result cfg = none := by
  obtain ⟨code, time, quantity, kind⟩ := f
  cases kind with
  | buy price => rfl
  | sell price reason avgPrice => simp [DayFill.side] at h
  | orphan pending =>
    have hs : pending.side = .buy := h
    simp [DayFill.result, hs, realised]

/-- A replayed amount is the booked one: it was normalised before it was stored. -/
theorem replayAmount_result (cfg : Settings) {f : DayFill} {a : ℚ} (h : f.result cfg = some a) :
    replayAmount cfg a = a := by
  have hnorm : ∃ x, a = normPrice cfg.market.pricePrecision x := by
    obtain ⟨code, time, quantity, kind⟩ := f
    cases kind with
    | buy price => simp [DayFill.result] at h
    | sell price reason avgPrice =>
      simp only [DayFill.result, realised, Option.map_map, Option.map_eq_some_iff] at h
      obtain ⟨avg, -, rfl⟩ := h
      exact ⟨_, rfl⟩
    | orphan pending =>
      cases hs : pending.side with
      | buy => simp [DayFill.result, hs, realised] at h
      | sell =>
        simp only [DayFill.result, hs, realised, Option.map_map, Option.map_eq_some_iff] at h
        obtain ⟨avg, -, rfl⟩ := h
        exact ⟨_, rfl⟩
  obtain ⟨x, rfl⟩ := hnorm
  cases hm : cfg.market with
  | us => simp [replayAmount, hm, MarketProfile.isOverseas]
  | krx =>
    simp only [replayAmount, hm, MarketProfile.isOverseas, MarketProfile.pricePrecision,
      Bool.false_eq_true, if_false]
    exact truncate_normPrice x

theorem restoreRow_buys (today : ℕ) (r : Engine) (t : TradeRow) (code : Code) :
    (restoreRow today r t).todayBuysPerStock.get? code =
      if t.tradeType = .buy ∧ code = t.stockCode then
        some ((r.todayBuysPerStock.get? code).getD 0 + 1)
      else r.todayBuysPerStock.get? code := by
  cases ht : t.tradeType with
  | buy =>
    simp only [restoreRow, ht, bumpBuys, Dict.get?_set]
    by_cases hc : code = t.stockCode <;> simp [hc]
  | sell => simp [restoreRow, ht]

theorem restoreRow_lossSell (today : ℕ) (r : Engine) (t : TradeRow) (code : Code) :
    (restoreRow today r t).lossSellDates.get? code =
      match (if t.tradeType = .sell then t.profitLossAmount else none) with
      | none => r.lossSellDates.get? code
      | some a => if a < 0 ∧ code = t.stockCode then some today else r.lossSellDates.get? code := by
  cases ht : t.tradeType with
  | buy => simp [restoreRow, ht, bumpBuys]
  | sell =>
    cases hp : t.profitLossAmount with
    | none => simp [restoreRow, ht, hp]
    | some a => by_cases hneg : a < 0 <;> simp [restoreRow, ht, hp, hneg, Dict.get?_set]

theorem restoreRow_lastSell (today : ℕ) (r : Engine) (t : TradeRow) (code : Code)
    (hle : ∀ prev, r.lastSellAt.get? code = some prev → prev ≤ t.tradedAt) :
    (restoreRow today r t).lastSellAt.get? code =
      if t.tradeType = .sell ∧ code = t.stockCode then some t.tradedAt
      else r.lastSellAt.get? code := by
  cases ht : t.tradeType with
  | buy => simp [restoreRow, ht, bumpBuys]
  | sell =>
    cases hp : r.lastSellAt.get? t.stockCode with
    | none => by_cases hc : code = t.stockCode <;> simp [restoreRow, ht, hp, hc]
    | some prev =>
      by_cases hc : code = t.stockCode
      · subst hc
        have hprev := hle prev hp
        by_cases hlt : prev < t.tradedAt
        · simp [restoreRow, ht, hp, hlt]
        · have heq : prev = t.tradedAt := le_antisymm hprev (not_lt.mp hlt)
          simp [restoreRow, ht, hp, heq]
      · by_cases hlt : prev < t.tradedAt <;> simp [restoreRow, ht, hp, hlt, hc]

theorem restoreRow_untouched (today : ℕ) (r : Engine) (t : TradeRow) :
    (restoreRow today r t).risk = r.risk ∧
      (restoreRow today r t).todayTradeCount = r.todayTradeCount := by
  cases ht : t.tradeType <;> simp [restoreRow, ht, bumpBuys]

theorem related_nil (cfg : Settings) (today : ℕ) :
    Related cfg today [] {} [] (rebuilt today []) := by
  constructor <;> simp [rebuilt, restoreGates, rebooted, markRestored, IsLatest]

/-- One more fill at the end of the day keeps the two folds related. -/
theorem Related.snoc {cfg : Settings} {today : ℕ} {fills : List DayFill} {e : Engine}
    {rows : List TradeRow} {r : Engine} (h : Related cfg today fills e rows r) {f : DayFill}
    (hle : ∀ g ∈ fills, g.time ≤ f.time) (hdate : cfg.clock.date f.time = today) :
    Related cfg today (fills ++ [f]) (f.book cfg e).1 (rows ++ [(f.book cfg e).2])
      (restoreRow today r (f.book cfg e).2) := by
  have hb := book_effect cfg f e
  have hresult : (if (f.book cfg e).2.tradeType = .sell then (f.book cfg e).2.profitLossAmount
      else none) = f.result cfg := by
    rw [hb.tradeType, hb.amount]
    cases hs : f.side with
    | buy => simp [result_buy cfg hs]
    | sell => simp
  refine ⟨?_, ?_, ?_, ?_, fun code => ?_, fun code => ?_, fun code => ?_, fun code => ?_, ?_⟩
  · simp [h.times, hb.tradedAt]
  · rw [List.filter_append, List.filterMap_append, h.results, List.filterMap_append]
    congr 1
    cases hr : f.result cfg with
    | none => simp [hb.amount, hr]
    | some a =>
      have hs : f.side = .sell := by
        cases hs : f.side with
        | buy => simp [result_buy cfg hs] at hr
        | sell => rfl
      simp [hb.amount, hr, hb.tradeType, hs]
  · rw [hb.tradeCount, h.tradeCount]
    simp
  · rw [hb.risk, List.filterMap_append]
    cases hr : f.result cfg with
    | none => simp [hr, h.risk]
    | some a => simp [hr, h.risk]
  · rw [restoreRow_buys, hb.buys, hb.tradeType, hb.stockCode, h.buys]
  · rw [restoreRow_lossSell, hresult, hb.lossSell, hb.stockCode, h.lossSell, hdate]
  · rw [hb.lastSell]
    split_ifs with hc
    · exact IsLatest.hit hle ⟨hc.1, hc.2.2.symm, hc.2.1⟩
    · exact (h.liveSell code).miss fun hP => hc ⟨hP.1, hP.2.2, hP.2.1.symm⟩
  · have hprev : ∀ prev, r.lastSellAt.get? code = some prev → prev ≤ (f.book cfg e).2.tradedAt := by
      intro prev hprev
      have hlast := h.rebuiltSell code
      rw [hprev] at hlast
      rw [hb.tradedAt]
      exact hlast.le hle
    rw [restoreRow_lastSell today r _ code hprev, hb.tradeType, hb.stockCode, hb.tradedAt]
    split_ifs with hc
    · exact IsLatest.hit hle ⟨hc.1, hc.2.symm⟩
    · exact (h.rebuiltSell code).miss fun hP => hc ⟨hP.1, hP.2.symm⟩
  · obtain ⟨hrisk, hcount⟩ := restoreRow_untouched today r (f.book cfg e).2
    exact ⟨hrisk.trans h.untouched.1, hcount.trans h.untouched.2⟩

/-- The fills of one trading day in the order of their times. -/
structure TradingDay (clock : MarketClock) (today : ℕ) (fills : List DayFill) : Prop where
  ordered : fills.Pairwise fun f g => f.time ≤ g.time
  sameDate : ∀ f ∈ fills, clock.date f.time = today

theorem live_related (cfg : Settings) {today : ℕ} {fills : List DayFill}
    (h : TradingDay cfg.clock today fills) :
    Related cfg today fills (live cfg fills).1 (live cfg fills).2
      (rebuilt today (live cfg fills).2) := by
  induction fills using List.reverseRecOn with
  | nil => exact related_nil cfg today
  | append_singleton fills f ih =>
    obtain ⟨hord, -, hle⟩ := List.pairwise_append.mp h.ordered
    have hprev := ih ⟨hord, fun g hg => h.sameDate g (by simp [hg])⟩
    rw [live_snoc, rebuilt_snoc]
    exact hprev.snoc (fun g hg => hle g hg f (by simp)) (h.sameDate f (by simp))

/-! ### The restart -/

/-- The trades table can be read. -/
def Readable (r : Req) (reply : Reply) (_ : World) : Prop :=
  match r with
  | .loadTrades => reply.outcome = .ok
  | _ => True

instance (r : Req) (reply : Reply) (w : World) : Decidable (Readable r reply w) := by
  unfold Readable
  split <;> infer_instance

/-- The gates after the restart, from the day's rows. -/
def restored (cfg : Settings) (today : ℕ) (rows : List TradeRow) : Engine :=
  if sellResults rows = [] then rebuilt today rows else restoreRisk cfg rows (rebuilt today rows)

theorem SameGates.refl (e : Engine) : SameGates e e :=
  ⟨rfl, fun _ => rfl, fun _ => rfl, fun _ => rfl, rfl⟩

theorem SameGates.symm {e e' : Engine} (h : SameGates e e') : SameGates e' e :=
  ⟨h.tradeCount.symm, fun c => (h.buys c).symm, fun c => (h.lastSell c).symm,
    fun c => (h.lossSell c).symm, h.risk.symm⟩

theorem SameGates.trans {a b c : Engine} (h : SameGates a b) (h' : SameGates b c) : SameGates a c :=
  ⟨h.tradeCount.trans h'.tradeCount, fun x => (h.buys x).trans (h'.buys x),
    fun x => (h.lastSell x).trans (h'.lastSell x), fun x => (h.lossSell x).trans (h'.lossSell x),
    h.risk.trans h'.risk⟩

theorem restoreRiskStateIfNeeded_spec (cfg : Settings) {w : World} (hcrash : w.engine = {}) :
    wp serve Readable (fun _ _ => True) (restoreRiskStateIfNeeded cfg)
      (fun _ w' => SameGates w'.engine (restored cfg (cfg.clock.date w.clock)
        (getTradesByDate cfg.clock (cfg.clock.date w.clock) w.trades))) w := by
  have hflag : w.engine.riskStateRestored = false := by rw [hcrash]
  simp only [restoreRiskStateIfNeeded, wp_bind, wp_get, hflag, Bool.false_eq_true, if_false,
    wp_modify, wp_ask, true_and]
  intro reply hok
  have hok : reply.outcome = .ok := hok
  have hreboot : ((onEngine markRestored w).elapse reply).engine = rebooted := by
    simp [hcrash, rebooted]
  have htrades : ((onEngine markRestored w).elapse reply).trades = w.trades := by simp
  simp only [serve, World.answer, hok, if_true, wp_bind, wp_modify, htrades]
  split_ifs with hsells
  · simp only [wp_pure, restored, hsells, if_true, onEngine_engine, hreboot]
    exact SameGates.refl _
  · simp only [wp_bind, wp_modify, wp_ask, true_and]
    intro reply' _
    simp only [serve, World.answer, restored, hsells, if_false, onEngine_engine,
      World.elapse_engine, hcrash]
    exact ⟨rfl, fun _ => rfl, fun _ => rfl, fun _ => rfl, rfl⟩

theorem rows_sorted {cfg : Settings} {today : ℕ} {fills : List DayFill} {e r : Engine}
    {rows : List TradeRow} (h : TradingDay cfg.clock today fills)
    (hrel : Related cfg today fills e rows r) :
    rows.Pairwise fun a b => a.tradedAt ≤ b.tradedAt := by
  have htimes : (fills.map DayFill.time).Pairwise (· ≤ ·) := List.pairwise_map.mpr h.ordered
  rw [← hrel.times] at htimes
  exact List.pairwise_map.mp htimes

theorem getTradesByDate_rows {cfg : Settings} {today : ℕ} {fills : List DayFill} {e r : Engine}
    {rows : List TradeRow} (h : TradingDay cfg.clock today fills)
    (hrel : Related cfg today fills e rows r) : getTradesByDate cfg.clock today rows = rows := by
  have hall : ∀ t ∈ rows, cfg.clock.date t.tradedAt = today := by
    intro t ht
    have hmem : t.tradedAt ∈ fills.map DayFill.time := by
      rw [← hrel.times]
      exact List.mem_map_of_mem ht
    obtain ⟨f, hf, hft⟩ := List.mem_map.mp hmem
    rw [← hft]
    exact h.sameDate f hf
  have hfilter : (rows.filter fun t => cfg.clock.date t.tradedAt = today) = rows :=
    List.filter_eq_self.mpr fun t ht => by simpa using hall t ht
  rw [getTradesByDate, hfilter]
  exact (rows_sorted h hrel).insertionSort_eq

theorem sellResults_rows {cfg : Settings} {today : ℕ} {fills : List DayFill} {e r : Engine}
    {rows : List TradeRow} (h : TradingDay cfg.clock today fills)
    (hrel : Related cfg today fills e rows r) :
    sellResults rows = fills.filterMap (DayFill.result cfg) := by
  rw [← hrel.results, sellResults]
  congr 1
  exact ((rows_sorted h hrel).sublist List.filter_sublist).insertionSort_eq

/-- The last-sell times agree exactly when no orphan sale is the last one of its stock. -/
theorem lastSell_agree {fills : List DayFill} {code : Code} {o o' : Option Time}
    (hlive : IsLatest (DirectSellOf code) fills o) (hrebuilt : IsLatest (SellOf code) fills o') :
    o' = o ↔ ∀ f ∈ fills, SellOf code f → f.direct = false →
      ∃ g ∈ fills, DirectSellOf code g ∧ f.time ≤ g.time := by
  constructor
  · rintro rfl f hf hsell -
    cases o' with
    | none => exact absurd hsell (hrebuilt f hf)
    | some t =>
      obtain ⟨⟨g, hg, hdirect, hgt⟩, -⟩ := hlive
      exact ⟨g, hg, hdirect, hgt ▸ hrebuilt.2 f hf hsell⟩
  · intro hcover
    cases o' with
    | none =>
      cases o with
      | none => rfl
      | some t =>
        obtain ⟨⟨g, hg, hdirect, -⟩, -⟩ := hlive
        exact absurd ⟨hdirect.1, hdirect.2.1⟩ (hrebuilt g hg)
    | some t' =>
      obtain ⟨⟨f, hf, hsell, hft⟩, hmax⟩ := hrebuilt
      have hwitness : ∃ g ∈ fills, DirectSellOf code g ∧ f.time ≤ g.time := by
        cases hd : f.direct with
        | false => exact hcover f hf hsell hd
        | true => exact ⟨f, hf, ⟨hsell.1, hsell.2, hd⟩, le_refl _⟩
      obtain ⟨g, hg, hdirect, hle⟩ := hwitness
      cases o with
      | none => exact absurd hdirect (hlive g hg)
      | some t =>
        obtain ⟨⟨x, hx, hxdirect, hxt⟩, hxmax⟩ := hlive
        have hge : t ≤ t' := hxt ▸ hmax x hx ⟨hxdirect.1, hxdirect.2.1⟩
        have hle' : t' ≤ t := hft ▸ hle.trans (hxmax g hg hdirect)
        rw [le_antisymm hle' hge]

theorem replayed_results (cfg : Settings) (fills : List DayFill) :
    (fills.filterMap (DayFill.result cfg)).map (replayAmount cfg) =
      fills.filterMap (DayFill.result cfg) := by
  have hself : ∀ a ∈ fills.filterMap (DayFill.result cfg), replayAmount cfg a = a := by
    intro a ha
    obtain ⟨f, -, hf⟩ := List.mem_filterMap.mp ha
    exact replayAmount_result cfg hf
  rw [List.map_congr_left hself, List.map_id']

/-- Of the gates only the trade count and the last-sell times can differ. -/
theorem restored_sameGates {cfg : Settings} {today : ℕ} {fills : List DayFill} {e : Engine}
    {rows : List TradeRow} (h : TradingDay cfg.clock today fills)
    (hrel : Related cfg today fills e rows (rebuilt today rows)) :
    SameGates (restored cfg today rows) e ↔
      (fills = [] ∨ fills.filterMap (DayFill.result cfg) ≠ []) ∧
        ∀ code, (rebuilt today rows).lastSellAt.get? code = e.lastSellAt.get? code := by
  have hlen : rows.length = fills.length := by
    have htimes := congrArg List.length hrel.times
    simpa using htimes
  unfold restored
  rw [sellResults_rows h hrel]
  split_ifs with hnone
  · constructor
    · intro hsame
      have hcount := hsame.tradeCount
      rw [hrel.untouched.2, hrel.tradeCount] at hcount
      exact ⟨Or.inl (List.length_eq_zero_iff.mp hcount.symm), hsame.lastSell⟩
    · rintro ⟨hempty, hlast⟩
      have hfills : fills = [] := hempty.resolve_right (not_not.mpr hnone)
      refine ⟨?_, hrel.buys, hlast, hrel.lossSell, ?_⟩
      · rw [hrel.untouched.2, hrel.tradeCount, hfills]
        rfl
      · rw [hrel.untouched.1, hrel.risk, hnone]
        rfl
  · constructor
    · intro hsame
      exact ⟨Or.inr hnone, hsame.lastSell⟩
    · rintro ⟨-, hlast⟩
      refine ⟨?_, hrel.buys, hlast, hrel.lossSell, ?_⟩
      · exact hlen.trans hrel.tradeCount.symm
      · simp only [restoreRisk]
        rw [sellResults_rows h hrel, replayed_results, hrel.risk]

/-- The engine that crashed after a day's fills. -/
def crashedWorld (cfg : Settings) (fills : List DayFill) : World :=
  { paperWorld with trades := (live cfg fills).2 }

def roundTripDay : List DayFill := [
  { code := "005930", time := 0, quantity := 10, kind := .buy 1000 },
  { code := "005930", time := 5, quantity := 10, kind := .sell 950 "손절" (some 1000) }]

def entryDay : List DayFill :=
  [{ code := "005930", time := 0, quantity := 10, kind := .buy 1000 }]

end KisAutotrader.RestartEquivalence
