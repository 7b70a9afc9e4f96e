import KisAutotrader.BacktestAccounting
import KisAutotrader.NoLookAhead

/-!
# Rows without a price

What a close of zero or less does to a run. Such a row is skipped by the day's decision, but it
is the price at which an open position is valued, and at which the last one is sold.
-/
namespace KisAutotrader.Backtest.UnpricedRows
open Accounting BrokerBooks Fallible NoLookAhead OrderedDict

/-! ### What such rows should leave -/

/-- The equity of the days, with that of the day before on a row without a price. -/
def carried : ℚ → List (DailyRow × ℚ) → List ℚ
  | _, [] => []
  | previous, (row, equity)::rest =>
      if row.close ≤ 0 then previous::carried previous rest else equity::carried equity rest

/-- The last row with a price. -/
def lastPriced (data : List DailyRow) : Option DailyRow := data.reverse.find? fun row => 0 < row.close

/-- The end of a run after its days, at the last price. -/
def settled (config : BacktestConfig) (data : List DailyRow) (code : Code) (p : Progress) :
    Except PyError Progress :=
  let curve := carried config.initialCapital ((data.drop minWindowSize).zip p.equityCurve)
  match lastPriced data with
  | none => .ok ⟨p.broker, curve⟩
  | some row => liquidate code row ⟨p.broker, curve⟩

/-- The days of a run. -/
def daysOf (e : BacktestEngine) (data : List DailyRow) (code : Code) (k : ℕ) :
    Except PyError Progress := runDays e.strategy e.config data code k

/-- No trade is made on a row without a price, its equity is that of the row before, and capital
and drawdown are those at the last price. -/
structure DoNoHarm (e : BacktestEngine) (data : List DailyRow) (code : Code) (r : BacktestResult) :
    Prop where
  untraded : ∀ k p p', daysOf e data code k = .ok p → daysOf e data code (k + 1) = .ok p' →
    ∀ row ∈ data[minWindowSize + k]?, row.close ≤ 0 → p'.broker.tradeHistory = p.broker.tradeHistory
  unsold : ∀ p, daysOf e data code (data.length - minWindowSize) = .ok p →
    ∀ last ∈ data.getLast?, last.close ≤ 0 → r.tradeLog = p.broker.tradeHistory
  equity : ∀ k, ∀ row ∈ data[minWindowSize + (k + 1)]?, row.close ≤ 0 →
    r.equityCurve[k + 1]? = r.equityCurve[k]?
  closing : ∀ p, daysOf e data code (data.length - minWindowSize) = .ok p →
    ∃ p', settled e.config data code p = .ok p' ∧ r.finalCapital = p'.broker.cash ∧
      r.maxDrawdown = calculateMaxDrawdown p'.equityCurve

/-- No position is open when a row without a price comes, unless the row before counts as much,
nor at the end where the last row has none. -/
structure NeverHeld (e : BacktestEngine) (data : List DailyRow) (code : Code) : Prop where
  day : ∀ k p, daysOf e data code (k + 1) = .ok p → ∀ row ∈ data[minWindowSize + (k + 1)]?,
    row.close ≤ 0 → p.broker.positions.get? code ≠ none →
      ∀ before ∈ data[minWindowSize + k]?, truncate row.close = truncate before.close
  last : ∀ p, daysOf e data code (data.length - minWindowSize) = .ok p →
    ∀ last ∈ data.getLast?, last.close ≤ 0 → p.broker.positions.get? code = none

/-! ### The value of the one position -/

/-- The only position there can be is in the stock of the run. -/
def Sole (code : Code) (b : VirtualBroker) : Prop :=
  b.positions.items = (b.positions.get? code).toList.map (code, ·)

section Value
variable {config : BacktestConfig} {code : Code} {b b' : VirtualBroker} {price : ℚ} {date : String}

theorem sole_init (config : BacktestConfig) (code : Code) : Sole code (.init config) := rfl

theorem Sole.traded (h : Sole code b) (htraded : Traded code price date b b') : Sole code b' := by
  cases htraded with
  | idle => exact h
  | bought r _ hbuy =>
    cases hbuy with
    | refused => exact h
    | filled quantity hnew =>
      have hnone : b.positions.items = [] := by rw [h, hnew]; rfl
      simp [Sole, VirtualBroker.enter, Dict.set, Dict.get?, hnone, write, lookup]
  | sold r _ hsell =>
    cases hsell with
    | refused => exact h
    | filled position rate hheld =>
      have hone : b.positions.items = [(code, position)] := by rw [h, hheld]; rfl
      simp [Sole, VirtualBroker.leave, Dict.pop, Dict.get?, hone, erase, lookup]

theorem sole_runDays {strategy : BaseStrategy} {data : List DailyRow} {k : ℕ} {p : Progress}
    (h : runDays strategy config data code k = .ok p) : Sole code p.broker := by
  induction k generalizing p with
  | zero =>
    obtain rfl := Except.ok.inj h
    exact sole_init config code
  | succ k ih =>
    obtain ⟨p', hp', h⟩ := bind_eq_ok.mp h
    obtain ⟨row, -, htraded, -⟩ := runDay_traded h
    exact (ih hp').traded htraded

theorem priceOf_get (code : Code) (price : ℚ) : (priceOf code price).get? code = some price :=
  Dict.get?_set_self _ code price

/-- Two prices give the same value exactly if no position is open or they are the same. -/
theorem value_eq_iff (hsole : Sole code b) (hbooked : Booked config b) (x y : ℚ) :
    b.portfolioValue (priceOf code x) = b.portfolioValue (priceOf code y) ↔
      (b.positions.get? code ≠ none → x = y) := by
  unfold VirtualBroker.portfolioValue
  rw [hsole]
  cases hheld : b.positions.get? code with
  | none => simp
  | some position =>
    obtain ⟨hcode, hquantity⟩ := hbooked.held code position hheld
    have hne : (position.quantity : ℚ) ≠ 0 := by exact_mod_cast (by omega : position.quantity ≠ 0)
    simp [VirtualBroker.holdingValue, hcode, priceOf_get, hne]

end Value

/-! ### Days -/

section Days
variable {e : BacktestEngine} {data : List DailyRow} {code : Code} {k : ℕ} {p p' : Progress}
  {row : DailyRow}

/-- A row without a price leaves the broker as it is. -/
theorem runDay_unpriced (hrow : data[k]? = some row) (hclose : row.close ≤ 0)
    (h : runDay e.strategy data code p k = .ok p') : p'.broker = p.broker := by
  have hprice : ((truncate row.close : ℤ) : ℚ) ≤ 0 := by exact_mod_cast truncate_nonpos hclose
  unfold runDay at h
  simp only [hrow, tradeDay, if_pos hprice] at h
  obtain ⟨b, hb, rfl⟩ := map_eq_ok.mp h
  exact (Except.ok.inj hb).symm

theorem days_succ (h : daysOf e data code (k + 1) = .ok p') : ∃ p, daysOf e data code k = .ok p ∧
    runDay e.strategy data code p (minWindowSize + k) = .ok p' := bind_eq_ok.mp h

theorem days_length (h : daysOf e data code k = .ok p) : p.equityCurve.length = k := by
  obtain ⟨p₀, hp₀, hgrown⟩ := runDays_grown (Nat.zero_le k) h
  obtain rfl := Except.ok.inj hp₀
  obtain ⟨more, hmore, hlength⟩ := hgrown.equity
  simpa [hmore] using hlength

/-- The equity of a day is the value of the broker after it, at the close of the day. -/
theorem days_equity (h : daysOf e data code k = .ok p) {j : ℕ} (hj : j < k) :
    ∃ q, daysOf e data code (j + 1) = .ok q ∧ ∃ row, data[minWindowSize + j]? = some row ∧
      p.equityCurve[j]? = some (q.broker.portfolioValue (priceOf code (truncate row.close : ℤ))) := by
  obtain ⟨q, hq, hgrown⟩ := runDays_grown (show j + 1 ≤ k by omega) h
  obtain ⟨before, hbefore, hday⟩ := days_succ hq
  obtain ⟨row, hrow, -, hequity⟩ := runDay_traded hday
  obtain ⟨more, hmore, -⟩ := hgrown.equity
  have hlength := days_length hbefore
  refine ⟨q, hq, row, hrow, ?_⟩
  rw [hmore, hequity, List.append_assoc, List.getElem?_append_right hlength.le, hlength, Nat.sub_self]
  rfl

/-- On the first day the equity of a row without a price is the capital. -/
theorem first_equity (h : daysOf e data code k = .ok p) (hk : 0 < k)
    (hrow : data[minWindowSize]? = some row) (hclose : row.close ≤ 0) :
    p.equityCurve[0]? = some (e.config.initialCapital : ℚ) := by
  obtain ⟨q, hq, row', hrow', hequity⟩ := days_equity h hk
  obtain rfl := Option.some.inj (hrow.symm.trans hrow')
  obtain ⟨p₀, hp₀, hday⟩ := days_succ hq
  obtain rfl := Except.ok.inj hp₀
  rw [hequity, runDay_unpriced hrow hclose hday]
  simp [VirtualBroker.portfolioValue, VirtualBroker.init, Dict.empty]

/-- The equity of a row without a price is that of the row before exactly if no position is open or
both rows count the same. -/
theorem equity_eq_iff (h : daysOf e data code k = .ok p) {j : ℕ} (hj : j + 1 < k)
    (hrow : data[minWindowSize + (j + 1)]? = some row) (hclose : row.close ≤ 0) :
    p.equityCurve[j + 1]? = p.equityCurve[j]? ↔
      ∀ q, daysOf e data code (j + 1) = .ok q → q.broker.positions.get? code ≠ none →
        ∀ before ∈ data[minWindowSize + j]?, truncate row.close = truncate before.close := by
  obtain ⟨after, hafter, row', hrow', hequity⟩ := days_equity h hj
  obtain rfl := Option.some.inj (hrow.symm.trans hrow')
  obtain ⟨q, hq, before, hbefore, hequity'⟩ := days_equity h (show j < k by omega)
  obtain ⟨q', hq', hday⟩ := days_succ hafter
  obtain rfl := Except.ok.inj (hq.symm.trans hq')
  have hsole := sole_runDays hq
  have hbooked := (single_runDays hq).booked
  rw [hequity, hequity', runDay_unpriced hrow hclose hday, Option.some_inj,
    value_eq_iff hsole hbooked, Int.cast_inj]
  constructor
  · intro hsame q' hq' hheld before' hbefore'
    obtain rfl := Except.ok.inj (hq.symm.trans hq')
    obtain rfl := Option.some.inj (hbefore.symm.trans hbefore')
    exact hsame hheld
  · intro hsame hheld
    exact hsame q hq hheld before hbefore

end Days

/-! ### The end -/

theorem carried_eq_self {previous : ℚ} {xs : List (DailyRow × ℚ)}
    (h : ∀ k : ℕ, ∀ x ∈ xs[k]?, x.1.close ≤ 0 → (previous::xs.map Prod.snd)[k]? = some x.2) :
    carried previous xs = xs.map Prod.snd := by
  induction xs generalizing previous with
  | nil => rfl
  | cons x xs ih =>
    have hrest : carried x.2 xs = xs.map Prod.snd := by
      apply ih
      intro k y hy hclose
      simpa using h (k + 1) y (by simpa using hy) hclose
    rw [carried]
    split_ifs with hclose
    · have hfirst : previous = x.2 := by simpa using h 0 x (by simp) hclose
      rw [hfirst, hrest]
      rfl
    · rw [hrest]
      rfl

theorem lastPriced_of_last {data : List DailyRow} {last : DailyRow} (h : data.getLast? = some last)
    (hclose : 0 < last.close) : lastPriced data = some last := by
  obtain ⟨rows, rfl⟩ := List.getLast?_eq_some_iff.mp h
  simp [lastPriced, hclose]

theorem liquidate_unheld {code : Code} {p : Progress} (h : p.broker.positions.get? code = none)
    (last : DailyRow) : liquidate code last p = .ok p := if_neg (by simp [h])

theorem liquidate_held {code : Code} {p p' : Progress} {last : DailyRow}
    (h : p.broker.positions.get? code ≠ none) (hp' : liquidate code last p = .ok p') :
    p'.broker.tradeHistory ≠ p.broker.tradeHistory := by
  unfold liquidate at hp'
  rw [if_pos (Option.isSome_iff_ne_none.mpr h)] at hp'
  obtain ⟨⟨r, b⟩, hsell, rfl⟩ := map_eq_ok.mp hp'
  cases VirtualBroker.sell_sold hsell with
  | refused hnone => exact absurd hnone h
  | filled position rate => simp [VirtualBroker.leave]

theorem resultOf_maxDrawdown {strategy : BaseStrategy} {config : BacktestConfig}
    {data : List DailyRow} {code : Code} {last : DailyRow} {p : Progress} {r : BacktestResult}
    (h : resultOf strategy config data code last p = .ok r) :
    r.maxDrawdown = calculateMaxDrawdown p.equityCurve := by
  unfold resultOf at h
  split at h
  next => cases h
  next first =>
    obtain rfl := Except.ok.inj h
    rfl

section Run
variable {e : BacktestEngine} {data : List DailyRow} {code : Code} {r : BacktestResult}
  {p p' : Progress} {last : DailyRow}

/-- What the end of a run that completes does to its days. -/
structure Ended (e : BacktestEngine) (data : List DailyRow) (code : Code) (r : BacktestResult)
    (p p' : Progress) (last : DailyRow) : Prop where
  days : daysOf e data code (data.length - minWindowSize) = .ok p
  ends : data.getLast? = some last
  liquidated : liquidate code last p = .ok p'
  capital : r.finalCapital = p'.broker.cash
  curve : r.equityCurve = p'.equityCurve
  log : r.tradeLog = p'.broker.tradeHistory
  drawdown : r.maxDrawdown = calculateMaxDrawdown p'.equityCurve

theorem ended_of_run (h : e.run data code = .ok r) : ∃ p p' last, Ended e data code r p p' last := by
  obtain ⟨p, last, p', hp, hlast, hp', hr⟩ := run_eq_ok h
  obtain ⟨-, hcapital, hcurve, hlog⟩ := resultOf_eq_ok hr
  exact ⟨p, p', last, hp, hlast, hp', hcapital, hcurve, hlog, resultOf_maxDrawdown hr⟩

/-- Nothing is sold at the end exactly if no position is open. -/
theorem Ended.unsold_iff (h : Ended e data code r p p' last) :
    r.tradeLog = p.broker.tradeHistory ↔ p.broker.positions.get? code = none := by
  rw [h.log]
  constructor
  · intro hsame
    by_contra hheld
    exact liquidate_held hheld h.liquidated hsame
  · intro hnone
    obtain rfl := Except.ok.inj ((liquidate_unheld hnone last).symm.trans h.liquidated)
    rfl

/-- The forced sale leaves the equity of a row without a price and that of the row before it. -/
theorem Ended.curve_eq (h : Ended e data code r p p' last)
    (hunheld : last.close ≤ 0 → p.broker.positions.get? code = none) {k : ℕ} {row : DailyRow}
    (hrow : data[minWindowSize + (k + 1)]? = some row) (hclose : row.close ≤ 0) :
    r.equityCurve[k + 1]? = p.equityCurve[k + 1]? ∧ r.equityCurve[k]? = p.equityCurve[k]? := by
  have hlength := days_length h.days
  obtain ⟨hk, -⟩ := List.getElem?_eq_some_iff.mp hrow
  rw [h.curve]
  by_cases hend : k + 1 + 1 < p.equityCurve.length
  · exact ⟨liquidate_equity h.liquidated hend, liquidate_equity h.liquidated (by omega)⟩
  · have hrowlast : data.getLast? = some row := by
      rw [List.getLast?_eq_getElem?, ← hrow]
      congr 1
      omega
    obtain rfl := Option.some.inj (hrowlast.symm.trans h.ends)
    obtain rfl := Except.ok.inj ((liquidate_unheld (hunheld hclose) row).symm.trans h.liquidated)
    exact ⟨rfl, rfl⟩

/-- With equities that are carried on, capital and drawdown are those at the last price. -/
theorem Ended.closes (h : Ended e data code r p p' last) (hnever : NeverHeld e data code) :
    ∃ q, settled e.config data code p = .ok q ∧ r.finalCapital = q.broker.cash ∧
      r.maxDrawdown = calculateMaxDrawdown q.equityCurve := by
  have hlength := days_length h.days
  have hcurve : carried e.config.initialCapital ((data.drop minWindowSize).zip p.equityCurve) =
      p.equityCurve := by
    have hsnd : ((data.drop minWindowSize).zip p.equityCurve).map Prod.snd = p.equityCurve :=
      List.map_snd_zip (by simp [hlength])
    rw [carried_eq_self, hsnd]
    intro k x hx hclose
    obtain ⟨hrow, hequity⟩ := List.getElem?_zip_eq_some.mp hx
    rw [List.getElem?_drop] at hrow
    obtain ⟨hk, -⟩ := List.getElem?_eq_some_iff.mp hequity
    rw [hsnd]
    cases k with
    | zero => rw [← hequity, first_equity h.days (by omega) hrow hclose]; rfl
    | succ k =>
      rw [List.getElem?_cons_succ, ← hequity]
      refine ((equity_eq_iff h.days (by omega) hrow hclose).mpr ?_).symm
      exact fun q hq hheld before hbefore => hnever.day k q hq x.1 hrow hclose hheld before hbefore
  refine ⟨p', ?_, h.capital, h.drawdown⟩
  unfold settled
  simp only [hcurve]
  by_cases hheld : p.broker.positions.get? code = none
  · obtain rfl := Except.ok.inj ((liquidate_unheld hheld last).symm.trans h.liquidated)
    split
    · rfl
    · exact liquidate_unheld hheld _
  · have hclose : 0 < last.close := by
      by_contra hnot
      exact hheld (hnever.last p h.days last h.ends (not_lt.mp hnot))
    rw [lastPriced_of_last h.ends hclose]
    exact h.liquidated

/-- Rows without a price do no harm to a run exactly if no position is open over them. -/
theorem doNoHarm_iff (e : BacktestEngine) (data : List DailyRow) (code : Code) (r : BacktestResult)
    (h : e.run data code = .ok r) : DoNoHarm e data code r ↔ NeverHeld e data code := by
  obtain ⟨p, p', last, hended⟩ := ended_of_run h
  have hlength := days_length hended.days
  constructor
  · intro hharmless
    have hlast : ∀ q, daysOf e data code (data.length - minWindowSize) = .ok q →
        ∀ last ∈ data.getLast?, last.close ≤ 0 → q.broker.positions.get? code = none := by
      intro q hq last' hlast' hclose
      obtain rfl := Except.ok.inj (hended.days.symm.trans hq)
      obtain rfl := Option.some.inj (hended.ends.symm.trans hlast')
      exact hended.unsold_iff.mp (hharmless.unsold p hq last hlast' hclose)
    refine ⟨fun k q hq row hrow hclose => ?_, hlast⟩
    obtain ⟨hk, -⟩ := List.getElem?_eq_some_iff.mp hrow
    obtain ⟨hnext, hsame⟩ := hended.curve_eq (hlast p hended.days last hended.ends) hrow hclose
    have hequity := hharmless.equity k row hrow hclose
    rw [hnext, hsame] at hequity
    exact (equity_eq_iff hended.days (by omega) hrow hclose).mp hequity q hq
  · intro hnever
    refine ⟨?_, ?_, ?_, ?_⟩
    · intro k q q' hq hq' row hrow hclose
      obtain ⟨before, hbefore, hday⟩ := days_succ hq'
      obtain rfl := Except.ok.inj (hq.symm.trans hbefore)
      rw [runDay_unpriced hrow hclose hday]
    · intro q hq last' hlast' hclose
      obtain rfl := Except.ok.inj (hended.days.symm.trans hq)
      obtain rfl := Option.some.inj (hended.ends.symm.trans hlast')
      exact hended.unsold_iff.mpr (hnever.last p hq last hlast' hclose)
    · intro k row hrow hclose
      obtain ⟨hk, -⟩ := List.getElem?_eq_some_iff.mp hrow
      obtain ⟨hnext, hsame⟩ := hended.curve_eq (hnever.last p hended.days last hended.ends) hrow hclose
      rw [hnext, hsame]
      refine (equity_eq_iff hended.days (by omega) hrow hclose).mpr ?_
      exact fun q hq hheld before hbefore => hnever.day k q hq row hrow hclose hheld before hbefore
    · intro q hq
      obtain rfl := Except.ok.inj (hended.days.symm.trans hq)
      exact hended.closes hnever

end Run

/-- A row of zero before the purchase. -/
def zeroBefore : List DailyRow := seriesOf (List.replicate 21 10000 ++ [0, 10000])

theorem doNoHarm_zeroBefore : ∃ r, (engineOf alwaysBuy {}).run zeroBefore "005930" = .ok r ∧
    DoNoHarm (engineOf alwaysBuy {}) zeroBefore "005930" r := by
  obtain ⟨r, hr⟩ := exists_of_isOk
    (show ((engineOf alwaysBuy {}).run zeroBefore "005930").isOk = true by decide +kernel)
  refine ⟨r, hr, (doNoHarm_iff _ _ _ r hr).mpr ⟨?_, ?_⟩⟩
  · intro k p hp row hrow hclose
    have hmem : row ∈ zeroBefore.drop (minWindowSize + 1) := by
      rw [List.mem_iff_getElem?]
      exact ⟨k, by rw [List.getElem?_drop, ← hrow]; congr 1; omega⟩
    have hpriced : ∀ row ∈ zeroBefore.drop (minWindowSize + 1), 0 < row.close := by decide +kernel
    exact absurd hclose (not_le.mpr (hpriced row hmem))
  · intro p hp last hlast hclose
    have hpriced : ∀ last ∈ zeroBefore.getLast?, 0 < last.close := by decide +kernel
    exact absurd hclose (not_le.mpr (hpriced last hlast))

/-- A row of zero after the purchase: the shares count for nothing on it. -/
def zeroAfter : List DailyRow := seriesOf (List.replicate 22 10000 ++ [0, 10000])

theorem zeroAfter_harms : ∃ r, (engineOf alwaysBuy {}).run zeroAfter "005930" = .ok r ∧
    ¬DoNoHarm (engineOf alwaysBuy {}) zeroAfter "005930" r := by
  have hrun : (((engineOf alwaysBuy {}).run zeroAfter "005930").map fun r =>
      decide (r.equityCurve[1]? ≠ r.equityCurve[0]?)) = .ok true := by decide +kernel
  obtain ⟨r, hr, hdiffer⟩ := map_eq_ok.mp hrun
  refine ⟨r, hr, fun hharmless => of_decide_eq_true hdiffer ?_⟩
  exact hharmless.equity 0 ⟨"22", 0⟩ (by decide +kernel) le_rfl

end KisAutotrader.Backtest.UnpricedRows
