import KisAutotrader.Analytics
import KisAutotrader.Peaks

/-!
# The drawdown of a period

The pass over the days keeps the peak of the cumulative sums and the deepest fall from it, with
the days on which they were reached.
-/
namespace KisAutotrader.Analytics.Drawdown
open Peaks Rounding

variable {D : Type}

/-- The cumulative sum after `i` days. -/
def cumulative (rows : List (D × ℚ)) (i : ℕ) : ℚ := ((rows.take i).map Prod.snd).sum

theorem cumulative_succ {rows : List (D × ℚ)} {k : ℕ} {row : D × ℚ} (h : rows[k]? = some row) :
    cumulative rows (k + 1) = cumulative rows k + row.2 := by
  simp [cumulative, List.take_add_one, h]

/-- The fall from one sum to another. -/
def drop (x y : ℚ) : ℚ := x - y

section Steps
variable {s : Pass D} {day : D} {x : ℚ}

@[simp] theorem rise_cumulative : (s.rise day x).cumulative = s.cumulative + x := by
  unfold Pass.rise
  split_ifs <;> rfl

theorem rise_peak : (s.rise day x).peak = max (s.cumulative + x) s.peak := by
  unfold Pass.rise
  split_ifs with hnew
  · exact (max_eq_left hnew.le).symm
  · exact (max_eq_right (not_lt.mp hnew)).symm

theorem rise_peakDate (s : Pass D) (day : D) (x : ℚ) :
    (s.rise day x).peakDate = day ∨ (s.rise day x).peakDate = s.peakDate := by
  unfold Pass.rise
  split_ifs
  · exact Or.inl rfl
  · exact Or.inr rfl

@[simp] theorem rise_mddAmount : (s.rise day x).mddAmount = s.mddAmount := by
  unfold Pass.rise
  split_ifs <;> rfl

theorem fall_mddAmount : (s.fall day).mddAmount = max s.mddAmount (drop s.peak s.cumulative) := by
  unfold Pass.fall drop
  split_ifs with hdeeper
  · exact (max_eq_right hdeeper.le).symm
  · exact (max_eq_left (not_lt.mp hdeeper)).symm

@[simp] theorem fall_cumulative : (s.fall day).cumulative = s.cumulative := by
  unfold Pass.fall
  split_ifs <;> rfl

@[simp] theorem fall_peak : (s.fall day).peak = s.peak := by
  unfold Pass.fall
  split_ifs <;> rfl

@[simp] theorem fall_peakDate : (s.fall day).peakDate = s.peakDate := by
  unfold Pass.fall
  split_ifs <;> rfl

end Steps

variable [LinearOrder D]

/-- Where the deepest fall was found: nowhere yet, or on the day after the first `j`, from their
peak. -/
inductive Found (rows : List (D × ℚ)) (first : D) (k : ℕ) (s : Pass D) : Prop
  | nowhere (hamount : s.mddAmount = 0) (hpeak : s.mddPeak = 0) (htrough : s.mddTrough = 0)
      (hpeakDate : s.mddPeakDate = first) (htroughDate : s.mddTroughDate = first)
  | at_day (j : ℕ) (row : D × ℚ) (hj : j < k) (hrow : rows[j]? = some row)
      (htroughDate : s.mddTroughDate = row.1) (htrough : s.mddTrough = cumulative rows (j + 1))
      (hpeak : IsGreatest (upTo (cumulative rows) j) s.mddPeak)
      (hpeakDate : s.mddPeakDate ≤ s.mddTroughDate)
      (hamount : s.mddAmount = s.mddPeak - s.mddTrough)

section Places
variable {rows : List (D × ℚ)} {first : D} {k : ℕ} {s : Pass D}

theorem Found.difference (h : Found rows first k s) : s.mddAmount = s.mddPeak - s.mddTrough := by
  cases h with
  | nowhere hamount hpeak htrough => rw [hamount, hpeak, htrough, sub_self]
  | at_day j row hj hrow htroughDate htrough hpeak hpeakDate hamount => exact hamount

theorem Found.ordered (h : Found rows first k s) : s.mddPeakDate ≤ s.mddTroughDate := by
  cases h with
  | nowhere _ _ _ hpeakDate htroughDate => rw [hpeakDate, htroughDate]
  | at_day j row hj hrow htroughDate htrough hpeak hpeakDate => exact hpeakDate

theorem Found.trough_nonneg (h : Found rows first k s) (hcum : ∀ i ≤ k, 0 ≤ cumulative rows i) :
    0 ≤ s.mddTrough := by
  cases h with
  | nowhere _ _ htrough => rw [htrough]
  | at_day j row hj hrow htroughDate htrough =>
    rw [htrough]
    exact hcum (j + 1) hj

end Places

/-- What the pass knows after `k` days. -/
structure Tracked (rows : List (D × ℚ)) (first : D) (k : ℕ) (s : Pass D) : Prop where
  sum : s.cumulative = cumulative rows k
  peak : IsGreatest (upTo (cumulative rows) k) s.peak
  peakDate : ∀ row ∈ rows[k]?, s.peakDate ≤ row.1
  amount : IsGreatest (falls drop (cumulative rows) k) s.mddAmount
  found : Found rows first k s

section Run
variable {rows : List (D × ℚ)} {first : D} {k : ℕ} {s : Pass D} {row : D × ℚ}

theorem amount_nonneg (h : Tracked rows first k s) : 0 ≤ s.mddAmount := by
  have hnone : drop (cumulative rows 0) (cumulative rows 0) = 0 := sub_self _
  exact h.amount.2 ⟨0, 0, le_rfl, k.zero_le, hnone⟩

theorem tracked_start (hfirst : ∀ row ∈ rows[0]?, first ≤ row.1) :
    Tracked rows first 0 (.start first) := by
  have hzero : drop (cumulative rows 0) (cumulative rows 0) = 0 := sub_self _
  refine ⟨rfl, peak_zero (cumulative rows), hfirst, ?_, .nowhere rfl rfl rfl rfl rfl⟩
  have hfall := fall_zero drop (cumulative rows)
  rwa [hzero] at hfall

/-- A day whose fall is the deepest becomes the place where it was found. -/
theorem Found.next (h : Tracked rows first k s) (hrow : rows[k]? = some row) :
    Found rows first (k + 1) (s.next row) := by
  have hcum : (s.rise row.1 row.2).cumulative = cumulative rows (k + 1) := by
    rw [rise_cumulative, h.sum, cumulative_succ hrow]
  unfold Pass.next Pass.fall
  split_ifs with hdeeper
  · have hpositive : 0 < (s.rise row.1 row.2).peak - (s.rise row.1 row.2).cumulative := by
      rw [rise_mddAmount] at hdeeper
      exact (amount_nonneg h).trans_lt hdeeper
    -- a fall is deeper only below the old peak, which then is the peak still
    have hsame : (s.rise row.1 row.2).peak = s.peak := by
      rw [rise_peak]
      apply max_eq_right
      by_contra hnew
      rw [rise_peak, max_eq_left (not_le.mp hnew).le, rise_cumulative, sub_self] at hpositive
      exact lt_irrefl 0 hpositive
    have hdate : (s.rise row.1 row.2).peakDate ≤ row.1 := by
      rcases rise_peakDate s row.1 row.2 with hday | hold
      · exact hday.le
      · exact hold.trans_le (h.peakDate row hrow)
    exact .at_day k row k.lt_succ_self hrow rfl hcum (hsame ▸ h.peak) hdate rfl
  · have hrise : (s.rise row.1 row.2).mddAmount = s.mddAmount ∧
        (s.rise row.1 row.2).mddPeak = s.mddPeak ∧ (s.rise row.1 row.2).mddTrough = s.mddTrough ∧
        (s.rise row.1 row.2).mddPeakDate = s.mddPeakDate ∧
        (s.rise row.1 row.2).mddTroughDate = s.mddTroughDate := by
      unfold Pass.rise
      split_ifs <;> exact ⟨rfl, rfl, rfl, rfl, rfl⟩
    obtain ⟨hamount, hpeak, htrough, hpeakDate, htroughDate⟩ := hrise
    cases h.found with
    | nowhere h₁ h₂ h₃ h₄ h₅ =>
      exact .nowhere (hamount.trans h₁) (hpeak.trans h₂) (htrough.trans h₃) (hpeakDate.trans h₄)
        (htroughDate.trans h₅)
    | at_day j row' hj hrow' h₁ h₂ h₃ h₄ h₅ =>
      refine .at_day j row' (by omega) hrow' (htroughDate.trans h₁) (htrough.trans h₂) ?_ ?_ ?_
      · rwa [hpeak]
      · rwa [hpeakDate, htroughDate]
      · rw [hamount, hpeak, htrough, h₅]

theorem Tracked.next (hsorted : (rows.map Prod.fst).Pairwise (· < ·)) (h : Tracked rows first k s)
    (hrow : rows[k]? = some row) : Tracked rows first (k + 1) (s.next row) := by
  have hcum : s.cumulative + row.2 = cumulative rows (k + 1) := by
    rw [h.sum, cumulative_succ hrow]
  have hpeak : IsGreatest (upTo (cumulative rows) (k + 1)) (s.next row).peak := by
    rw [Pass.next, fall_peak, rise_peak, hcum]
    exact peak_succ h.peak
  refine ⟨?_, hpeak, ?_, ?_, .next h hrow⟩
  · rw [Pass.next, fall_cumulative, rise_cumulative, hcum]
  · intro later hlater
    have hlt : row.1 < later.1 := by
      obtain ⟨hk, rfl⟩ := List.getElem?_eq_some_iff.mp hrow
      obtain ⟨hk', rfl⟩ := List.getElem?_eq_some_iff.mp hlater
      exact List.pairwise_iff_getElem.mp (List.pairwise_map.mp hsorted) k (k + 1) hk hk' k.lt_succ_self
    rw [Pass.next, fall_peakDate]
    rcases rise_peakDate s row.1 row.2 with hday | hold
    · rw [hday]
      exact hlt.le
    · rw [hold]
      exact (h.peakDate row hrow).trans hlt.le
  · have hamount : (s.next row).mddAmount =
        max s.mddAmount (drop (s.next row).peak (cumulative rows (k + 1))) := by
      rw [Pass.next, fall_mddAmount, rise_mddAmount, rise_cumulative, hcum, fall_peak]
    rw [hamount]
    exact fall_succ h.amount hpeak fun x hx => sub_le_sub_right (hpeak.2 hx) _

theorem tracked_run (hsorted : (rows.map Prod.fst).Pairwise (· < ·))
    (hfirst : ∀ row ∈ rows[0]?, first ≤ row.1) (hk : k ≤ rows.length) :
    Tracked rows first k ((rows.take k).foldl Pass.next (.start first)) := by
  induction k with
  | zero => exact tracked_start hfirst
  | succ k ih =>
    have hrow : rows[k]? = some rows[k] := List.getElem?_eq_getElem (by omega)
    rw [List.take_add_one, hrow, List.foldl_append]
    exact (ih (by omega)).next hsorted hrow

end Run

/-! ### The report -/

/-- What the report says about a series. -/
structure Reports (series : PnlSeries D) (r : MaxDrawdown D) : Prop where
  amount : IsGreatest (falls drop (cumulative series.rows) series.rows.length) r.mddAmount
  difference : r.peak - r.trough = r.mddAmount
  located : 0 < r.mddAmount → ∃ j row, series.rows[j]? = some row ∧ r.troughDate = some row.1 ∧
    r.trough = cumulative series.rows (j + 1) ∧ IsGreatest (upTo (cumulative series.rows) j) r.peak
  ordered : ∀ peakDate ∈ r.peakDate, ∀ troughDate ∈ r.troughDate, peakDate ≤ troughDate
  percent : (∀ i ≤ series.rows.length, 0 ≤ cumulative series.rows i) →
    0 ≤ r.mddPct ∧ r.mddPct ≤ 100

theorem percent_le {amount peak trough : ℚ} (hnonneg : 0 ≤ amount) (htrough : 0 ≤ trough)
    (h : amount = peak - trough) :
    0 ≤ roundTo 2 (if peak > 0 then amount / peak * 100 else 0) ∧
      roundTo 2 (if peak > 0 then amount / peak * 100 else 0) ≤ 100 := by
  have hbounds : ((0 : ℤ) : ℚ) ≤ (if peak > 0 then amount / peak * 100 else 0) ∧
      (if peak > 0 then amount / peak * 100 else 0) ≤ ((100 : ℤ) : ℚ) := by
    push_cast
    split_ifs with hpeak
    · have hle : amount / peak ≤ 1 := (div_le_one hpeak).mpr (by linarith)
      constructor
      · positivity
      · linarith
    · constructor <;> norm_num
  have hround := roundTo_mem 2 hbounds.1 hbounds.2
  push_cast at hround
  exact hround

theorem Tracked.reports {rows : List (D × ℚ)} (hsorted : (rows.map Prod.fst).Pairwise (· < ·))
    {first : D} {s : Pass D} (h : Tracked rows first rows.length s) :
    Reports ⟨rows, hsorted⟩ s.result := by
  refine ⟨h.amount, h.found.difference.symm, fun hpos => ?_, ?_, fun hcum => ?_⟩
  · cases h.found with
    | nowhere hamount => exact absurd hamount hpos.ne'
    | at_day j row hj hrow htroughDate htrough hpeak =>
      exact ⟨j, row, hrow, congrArg some htroughDate, htrough, hpeak⟩
  · intro peakDate hpeak troughDate htrough
    obtain rfl := Option.some.inj hpeak
    obtain rfl := Option.some.inj htrough
    exact h.found.ordered
  · exact percent_le (amount_nonneg h) (h.found.trough_nonneg hcum) h.found.difference

/-- The report of every series is its largest fall, with the place where it was found. -/
theorem maxDrawdown_reports (series : PnlSeries D) : Reports series (maxDrawdownOf series.rows) := by
  obtain ⟨rows, hsorted⟩ := series
  cases rows with
  | nil =>
    have hnone : drop (cumulative ([] : List (D × ℚ)) 0) (cumulative [] 0) = 0 := sub_self _
    have hfall := fall_zero drop (cumulative ([] : List (D × ℚ)))
    rw [hnone] at hfall
    refine ⟨hfall, sub_self 0, fun hpos => absurd hpos (lt_irrefl 0), ?_, fun _ => ⟨le_rfl, ?_⟩⟩
    · intro peakDate hpeak
      cases hpeak
    · exact Nat.ofNat_nonneg 100
  | cons row rows =>
    have hfirst : ∀ x ∈ (row::rows)[0]?, row.1 ≤ x.1 := by simp
    have h := tracked_run hsorted hfirst le_rfl
    rw [List.take_length] at h
    exact h.reports hsorted

end KisAutotrader.Analytics.Drawdown
