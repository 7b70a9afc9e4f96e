import KisAutotrader.Backtest

/-!
# No look-ahead

Two series that agree on their first rows give the same trades and the same equity on
them, up to the forced sale on a last day.
-/
namespace KisAutotrader.Backtest.NoLookAhead
open Fallible OrderedDict

/-- A daily series has one row for each date. -/
structure DailySeries where
  rows : List DailyRow
  nodup : (rows.map DailyRow.date).Nodup

/-- The trades dated within the first `n` rows. -/
def tradesWithin (s : DailySeries) (n : ℕ) (r : BacktestResult) : List TradeRecord :=
  r.tradeLog.filter fun t => t.date ∈ (s.rows.take n).map DailyRow.date

/-- The record of the forced sale, where the series ends with its first `n` rows. -/
def forcedWithin (s : DailySeries) (n : ℕ) (code : Code) (p : Progress) : List TradeRecord :=
  if s.rows.length = n then
    match s.rows.getLast? with
    | none => []
    | some last =>
        match liquidate code last p with
        | .error _ => []
        | .ok p' => p'.broker.tradeHistory.drop p.broker.tradeHistory.length
  else []

section Agreement
variable {strategy : BaseStrategy} {config : BacktestConfig} {data₁ data₂ : List DailyRow}
  {code : Code} {n : ℕ}

/-- A day of the loop reads the rows up to its own. -/
theorem runDay_congr {i : ℕ} (h : data₁.take n = data₂.take n) (hi : i < n) (p : Progress) :
    runDay strategy data₁ code p i = runDay strategy data₂ code p i := by
  have hwindow : data₁.take (i + 1) = data₂.take (i + 1) := by
    have htake := congrArg (List.take (i + 1)) h
    rwa [List.take_take, List.take_take, min_eq_left (by omega)] at htake
  have hrow : data₁[i]? = data₂[i]? := by
    rw [← List.getElem?_take_of_lt hi, h, List.getElem?_take_of_lt hi]
  unfold runDay
  rw [hrow, hwindow]

theorem runDays_congr (h : data₁.take n = data₂.take n) {k : ℕ} (hk : k ≤ n - minWindowSize) :
    runDays strategy config data₁ code k = runDays strategy config data₂ code k := by
  induction k with
  | zero => rfl
  | succ k ih =>
    unfold runDays
    rw [ih (by omega)]
    congr 1
    funext p
    exact runDay_congr h (by omega) p

end Agreement

/-! ### Later days only add -/

section Growth
variable {strategy : BaseStrategy} {config : BacktestConfig} {data : List DailyRow} {code : Code}
  {b b' : VirtualBroker} {price : ℚ} {date : String}

theorem traded_history (h : Traded code price date b b') :
    ∃ new, b'.tradeHistory = b.tradeHistory ++ new ∧ ∀ t ∈ new, t.date = date := by
  cases h with
  | idle => exact ⟨[], by simp⟩
  | bought r _ hbuy =>
    cases hbuy with
    | refused => exact ⟨[], by simp⟩
    | filled quantity =>
      refine ⟨_, rfl, fun t ht => ?_⟩
      rw [List.mem_singleton.mp ht]
      rfl
  | sold r _ hsell =>
    cases hsell with
    | refused => exact ⟨[], by simp⟩
    | filled position rate =>
      refine ⟨_, rfl, fun t ht => ?_⟩
      rw [List.mem_singleton.mp ht]
      rfl

/-- What the loop adds from its day `k` to its day `m`. -/
structure Grown (data : List DailyRow) (k m : ℕ) (p p' : Progress) : Prop where
  history : ∃ new, p'.broker.tradeHistory = p.broker.tradeHistory ++ new ∧
    ∀ t ∈ new, ∃ i, minWindowSize + k ≤ i ∧ i < minWindowSize + m ∧
      (data[i]?).map DailyRow.date = some t.date
  equity : ∃ more, p'.equityCurve = p.equityCurve ++ more ∧ more.length = m - k

theorem grown_refl (k : ℕ) (p : Progress) : Grown data k k p p :=
  ⟨⟨[], by simp⟩, ⟨[], by simp⟩⟩

theorem Grown.next {k m : ℕ} {p p' p'' : Progress} (h : Grown data k m p p') (hkm : k ≤ m)
    (hday : runDay strategy data code p' (minWindowSize + m) = .ok p'') :
    Grown data k (m + 1) p p'' := by
  obtain ⟨⟨new, hnew, hdates⟩, more, hmore, hlength⟩ := h
  obtain ⟨row, hrow, htraded, hequity⟩ := runDay_traded hday
  obtain ⟨added, hadded, hdate⟩ := traded_history htraded
  refine ⟨⟨new ++ added, by rw [hadded, hnew, List.append_assoc], fun t ht => ?_⟩,
    more ++ [_], by rw [hequity, hmore, List.append_assoc], ?_⟩
  · rcases List.mem_append.mp ht with hold | hlast
    · obtain ⟨i, hlow, hhigh, hi⟩ := hdates t hold
      exact ⟨i, hlow, by omega, hi⟩
    · exact ⟨minWindowSize + m, by omega, by omega, by rw [hrow, hdate t hlast]; rfl⟩
  · simp only [List.length_append, List.length_cons, List.length_nil]
    omega

/-- A longer loop goes on from a shorter one. -/
theorem runDays_grown {k m : ℕ} (hkm : k ≤ m) {p' : Progress}
    (h : runDays strategy config data code m = .ok p') :
    ∃ p, runDays strategy config data code k = .ok p ∧ Grown data k m p p' := by
  induction m, hkm using Nat.le_induction generalizing p' with
  | base => exact ⟨p', h, grown_refl k p'⟩
  | succ m hkm ih =>
    obtain ⟨mid, hmid, hday⟩ := bind_eq_ok.mp h
    obtain ⟨p, hp, hgrown⟩ := ih hmid
    exact ⟨p, hp, hgrown.next hkm hday⟩

/-- The forced sale adds at most its own record. -/
theorem liquidate_history {last : DailyRow} {p p' : Progress} (h : liquidate code last p = .ok p') :
    ∃ new, p'.broker.tradeHistory = p.broker.tradeHistory ++ new ∧ ∀ t ∈ new, t.date = last.date := by
  unfold liquidate at h
  split_ifs at h
  · obtain ⟨x, hx, rfl⟩ := map_eq_ok.mp h
    exact traded_history (.sold x.1 x.2 (VirtualBroker.sell_sold hx))
  · obtain rfl := Except.ok.inj h
    exact ⟨[], by simp⟩

theorem setLast_getElem? (xs : List ℚ) (x : ℚ) {j : ℕ} (hj : j + 1 < xs.length) :
    (setLast xs x)[j]? = xs[j]? := by
  unfold setLast
  split_ifs with hempty
  · rw [hempty]
  · have hlen : j < xs.dropLast.length := by simp; omega
    rw [List.getElem?_append_left hlen, List.getElem?_eq_getElem hlen, List.getElem_dropLast,
      List.getElem?_eq_getElem (by omega)]

/-- It changes no equity but that of the last day. -/
theorem liquidate_equity {last : DailyRow} {p p' : Progress} (h : liquidate code last p = .ok p')
    {j : ℕ} (hj : j + 1 < p.equityCurve.length) : p'.equityCurve[j]? = p.equityCurve[j]? := by
  unfold liquidate at h
  split_ifs at h
  · obtain ⟨x, hx, rfl⟩ := map_eq_ok.mp h
    exact setLast_getElem? _ _ hj
  · obtain rfl := Except.ok.inj h
    rfl

end Growth

/-! ### Dates and rows -/

section Dates
variable {s : DailySeries} {n i : ℕ} {date : String}

theorem date_mem_take (hi : i < n) (h : (s.rows[i]?).map DailyRow.date = some date) :
    date ∈ (s.rows.take n).map DailyRow.date := by
  rw [← List.getElem?_take_of_lt hi, ← List.getElem?_map] at h
  exact List.mem_of_getElem? h

theorem date_notMem_take (hi : n ≤ i) (h : (s.rows[i]?).map DailyRow.date = some date) :
    date ∉ (s.rows.take n).map DailyRow.date := by
  intro hmem
  obtain ⟨j, hj, hdate⟩ := List.getElem_of_mem hmem
  rw [List.length_map, List.length_take] at hj
  have hfirst : (s.rows.map DailyRow.date)[j]? = some date := by
    rw [List.getElem_map, List.getElem_take] at hdate
    rw [List.getElem?_map, List.getElem?_eq_getElem (by omega)]
    simp [hdate]
  have hsame : (s.rows.map DailyRow.date)[j]? = (s.rows.map DailyRow.date)[i]? := by
    rw [hfirst, List.getElem?_map, h]
  have hindex : j = i := (List.getElem?_inj (by simp; omega) s.nodup).mp hsame
  omega

/-- Records dated by later rows do not count. -/
theorem filter_later {new : List TradeRecord}
    (h : ∀ t ∈ new, ∃ i, n ≤ i ∧ (s.rows[i]?).map DailyRow.date = some t.date) :
    (new.filter fun t => t.date ∈ (s.rows.take n).map DailyRow.date) = [] := by
  apply List.filter_eq_nil_iff.mpr
  intro t ht
  obtain ⟨i, hi, hdate⟩ := h t ht
  simpa using date_notMem_take hi hdate

theorem filter_earlier {old : List TradeRecord}
    (h : ∀ t ∈ old, ∃ i, i < n ∧ (s.rows[i]?).map DailyRow.date = some t.date) :
    (old.filter fun t => t.date ∈ (s.rows.take n).map DailyRow.date) = old := by
  apply List.filter_eq_self.mpr
  intro t ht
  obtain ⟨i, hi, hdate⟩ := h t ht
  simpa using date_mem_take hi hdate

end Dates

theorem getLast_date {rows : List DailyRow} {last : DailyRow} (h : rows.getLast? = some last) :
    (rows[rows.length - 1]?).map DailyRow.date = some last.date := by
  rw [← List.getLast?_eq_getElem?, h]
  rfl

/-- One run against its first `n` rows. -/
theorem run_within {strategy : BaseStrategy} {config : BacktestConfig} {broker : VirtualBroker}
    {s : DailySeries} {code : Code} {n : ℕ} {r : BacktestResult} (hn : n ≤ s.rows.length)
    (hrun : BacktestEngine.run ⟨strategy, config, broker⟩ s.rows code = .ok r) :
    ∃ p, runDays strategy config s.rows code (n - minWindowSize) = .ok p ∧
      tradesWithin s n r = p.broker.tradeHistory ++ forcedWithin s n code p ∧
      p.equityCurve.length = n - minWindowSize ∧
      ∀ i, minWindowSize ≤ i → i < n → i + 1 < s.rows.length →
        r.equityCurve[i - minWindowSize]? = p.equityCurve[i - minWindowSize]? := by
  obtain ⟨p', last, p'', hp', hlast, hp'', hr⟩ := run_eq_ok hrun
  obtain ⟨-, -, hequity, hlog⟩ := resultOf_eq_ok hr
  obtain ⟨p, hp, ⟨later, hlater, hdates⟩, more, hmore, hlength⟩ :=
    runDays_grown (k := n - minWindowSize) (by omega) hp'
  obtain ⟨start, hstart, ⟨first, hfirst, hearly⟩, curve, hcurve, hcount⟩ :=
    runDays_grown (k := 0) (Nat.zero_le _) hp
  obtain rfl := Except.ok.inj hstart
  obtain ⟨forced, hforced, hforcedDate⟩ := liquidate_history hp''
  have hpLength : p.equityCurve.length = n - minWindowSize := by
    rw [hcurve, List.nil_append, hcount, Nat.sub_zero]
  refine ⟨p, hp, ?_, hpLength, fun i hlow hhigh hbefore => ?_⟩
  · have hold : (p.broker.tradeHistory.filter
        fun t => t.date ∈ (s.rows.take n).map DailyRow.date) = p.broker.tradeHistory := by
      apply filter_earlier
      intro t ht
      rw [hfirst] at ht
      obtain ⟨i, hlow, hhigh, hdate⟩ := hearly t (by simpa [VirtualBroker.init] using ht)
      exact ⟨i, by omega, hdate⟩
    have hnew : (later.filter fun t => t.date ∈ (s.rows.take n).map DailyRow.date) = [] := by
      apply filter_later
      intro t ht
      obtain ⟨i, hlow, -, hdate⟩ := hdates t ht
      exact ⟨i, by omega, hdate⟩
    rw [tradesWithin, hlog, hforced, hlater, List.filter_append, List.filter_append, hold, hnew,
      List.append_nil]
    congr 1
    by_cases hend : s.rows.length = n
    · -- the series ends with these rows: no later day, and the forced sale counts
      rw [hend, hp] at hp'
      obtain rfl := Except.ok.inj hp'
      simp only [forcedWithin, hend, if_true, hlast, hp'', hforced, List.drop_left]
      apply filter_earlier
      intro t ht
      have hne : s.rows ≠ [] := by
        rintro hnil
        simp [hnil] at hlast
      have hpos := List.length_pos_iff.mpr hne
      exact ⟨s.rows.length - 1, by omega, by rw [getLast_date hlast, hforcedDate t ht]⟩
    · simp only [forcedWithin, hend, if_false]
      apply filter_later
      intro t ht
      exact ⟨s.rows.length - 1, by omega, by rw [getLast_date hlast, hforcedDate t ht]⟩
  · have hwhole : p'.equityCurve.length = s.rows.length - minWindowSize := by
      rw [hmore, List.length_append, hpLength, hlength]
      omega
    rw [hequity, liquidate_equity hp'' (by omega), hmore, List.getElem?_append_left (by omega)]

/-- Runs on two series that agree on their first `n` rows, with whatever brokers earlier runs
left: the same trades on these rows but for a forced sale on a last day, and the same equity
on their days but a last one. -/
theorem no_look_ahead (strategy : BaseStrategy) (config : BacktestConfig)
    (broker₁ broker₂ : VirtualBroker) (s₁ s₂ : DailySeries) (code : Code) (n : ℕ)
    (r₁ r₂ : BacktestResult) (hagree : s₁.rows.take n = s₂.rows.take n)
    (hn₁ : n ≤ s₁.rows.length) (hn₂ : n ≤ s₂.rows.length)
    (hrun₁ : BacktestEngine.run ⟨strategy, config, broker₁⟩ s₁.rows code = .ok r₁)
    (hrun₂ : BacktestEngine.run ⟨strategy, config, broker₂⟩ s₂.rows code = .ok r₂) :
    (∃ p, runDays strategy config s₁.rows code (n - minWindowSize) = .ok p ∧
      runDays strategy config s₂.rows code (n - minWindowSize) = .ok p ∧
      tradesWithin s₁ n r₁ = p.broker.tradeHistory ++ forcedWithin s₁ n code p ∧
      tradesWithin s₂ n r₂ = p.broker.tradeHistory ++ forcedWithin s₂ n code p) ∧
    ∀ i, minWindowSize ≤ i → i < n → i + 1 < s₁.rows.length → i + 1 < s₂.rows.length →
      ∃ equity, r₁.equityCurve[i - minWindowSize]? = some equity ∧
        r₂.equityCurve[i - minWindowSize]? = some equity := by
  obtain ⟨p, hp, htrades₁, hlength, hequity₁⟩ := run_within hn₁ hrun₁
  obtain ⟨p₂, hp₂, htrades₂, -, hequity₂⟩ := run_within hn₂ hrun₂
  have hsame : p₂ = p := by
    rw [← runDays_congr hagree le_rfl, hp] at hp₂
    exact (Except.ok.inj hp₂).symm
  subst hsame
  refine ⟨⟨p₂, hp, hp₂, htrades₁, htrades₂⟩, fun i hlow hhigh hi₁ hi₂ => ?_⟩
  have hin : i - minWindowSize < p₂.equityCurve.length := by omega
  refine ⟨p₂.equityCurve[i - minWindowSize], ?_, ?_⟩
  · rw [hequity₁ i hlow hhigh hi₁, List.getElem?_eq_getElem hin]
  · rw [hequity₂ i hlow hhigh hi₂, List.getElem?_eq_getElem hin]

/-- A day of a rise, after which the two series part. -/
def parting (close : ℚ) : List DailyRow := seriesOf (List.replicate 22 10000 ++ [10022, close])

def risen : DailySeries := ⟨parting 10600, by decide +kernel⟩

def fallen : DailySeries := ⟨parting 9000, by decide +kernel⟩

theorem no_look_ahead_parting : ∃ r₁ r₂,
    (engineOf alwaysBuy {}).run risen.rows "005930" = .ok r₁ ∧
    (engineOf alwaysBuy {}).run fallen.rows "005930" = .ok r₂ ∧
    ∃ equity, r₁.equityCurve[1]? = some equity ∧ r₂.equityCurve[1]? = some equity := by
  obtain ⟨r₁, hr₁⟩ := exists_of_isOk
    (show ((engineOf alwaysBuy {}).run risen.rows "005930").isOk = true by decide +kernel)
  obtain ⟨r₂, hr₂⟩ := exists_of_isOk
    (show ((engineOf alwaysBuy {}).run fallen.rows "005930").isOk = true by decide +kernel)
  have hagree := no_look_ahead alwaysBuy {} (.init {}) (.init {}) risen fallen "005930" 23 r₁ r₂
    (by decide +kernel) (by decide +kernel) (by decide +kernel) hr₁ hr₂
  exact ⟨r₁, r₂, hr₁, hr₂, hagree.2 22 (by decide) (by decide) (by decide +kernel)
    (by decide +kernel)⟩

end KisAutotrader.Backtest.NoLookAhead
