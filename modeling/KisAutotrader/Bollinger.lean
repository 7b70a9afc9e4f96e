import KisAutotrader.Strategy

/-!
# The Bollinger band strategy

Buys at or below the lower band and sells at or above the upper one. A price on the
selling side is graded by its distance beyond the band, one on the buying side
is not, and a band of no width is always bought.
-/
namespace KisAutotrader.Strategy
open Series

attribute [local instance] Rounding.atLeastTwo_two Rounding.atLeastTwo_ten

structure BollingerBandStrategy (K : Type) where
  period : ℕ
  numStd : K

namespace BollingerBandStrategy

section Model
variable {K : Type} [Field K] [LinearOrder K] [FloorRing K]

/-- `period or 20`, `num_std or 2.0`: the settings have no field for either. -/
def init (period : Option ℕ) (numStd : Option K) : BollingerBandStrategy K where
  period := match period with
    | none | some 0 => 20
    | some n => n
  numStd := match numStd with
    | none => 2
    | some x => if x = 0 then 2 else x

/-- The signal of the last close against its bands. -/
def signalOf (price lower upper sma pctB : K) (metadata : Meta K) : Except (Error K) (Signal K) :=
  if price ≤ lower then
    Signal.make .buy (max (min (1 - pctB) 1) (1 / 10)) (.number sma)
      [.text "볼린저 하단 돌파 (%B=", .fixed pctB, .text ", 가격=", .grouped price, .text " <= 하단=",
        .grouped lower, .text ")"] metadata
  else if upper ≤ price then
    Signal.make .sell (max (min (pctB - 1 + 1 / 2) 1) (1 / 10)) (.number sma)
      [.text "볼린저 상단 돌파 (%B=", .fixed pctB, .text ", 가격=", .grouped price, .text " >= 상단=",
        .grouped upper, .text ")"] metadata
  else
    Signal.make .hold 0 .none [.text "볼린저 밴드 내 (%B=", .fixed pctB, .text ")"] metadata

/-- `%B`, the middle of the band where it has no width. -/
def percentB (price lower upper : K) : K :=
  if 0 < upper - lower then (price - lower) / (upper - lower) else 1 / 2

/-- `analyze`; `sqrt` is the square root of the field. -/
def analyze (sqrt : K → K) (s : BollingerBandStrategy K) (data : MarketData K) :
    Except (Error K) (Signal K) :=
  let shared := lengthMeta data.rows (nanRatio data)
  if data.rows < s.period + 1 then
    Signal.make .hold 0 .none (tooShort (s.period + 1) data.rows)
      (shared ++ [("last_price", .none), ("last_upper", .none), ("last_lower", .none),
        ("last_percent_b", .none)] ++ guardMeta "insufficient_length")
  else
    match data.column? with
    | none => .error (.keyError "close")
    | some close =>
        let sma := rolling s.period (fun ws => some (mean ws)) close
        let std := rolling s.period (sampleDeviation sqrt) close
        let upper := Series.zipWith (fun m d => m + s.numStd * d) sma std
        let lower := Series.zipWith (fun m d => m - s.numStd * d) sma std
        match iloc 1 close, iloc 1 upper, iloc 1 lower, iloc 1 sma with
        | some price, some upper, some lower, some sma =>
            let pctB := percentB price lower upper
            signalOf price lower upper sma pctB
              (shared ++ [("last_price", .number price), ("last_upper", .number upper),
                ("last_lower", .number lower), ("last_percent_b", .number (Rounding.roundTo 4 pctB)),
                ("guard_triggered", .flag false)])
        | price, upper, lower, _ =>
            Signal.make .hold 0 .none [.text "볼린저 값에 NaN 포함 — 데이터 부족"]
              (shared ++ [("last_price", .cell price), ("last_upper", .given upper),
                ("last_lower", .given lower), ("last_percent_b", .none)] ++ guardMeta "nan_band")

end Model

/-! ### Finite closes -/

/-- The last `n` closes. -/
def window {K : Type} (n : ℕ) (closes : List K) : List K := closes.drop (closes.length - n)

section Decision
variable {K : Type} [Field K] [LinearOrder K]

/-- The decision about a price from the mean of its window and the half width of the band. -/
def decide (price m half : K) : SignalType × K :=
  let pctB := percentB price (m - half) (m + half)
  if price ≤ m - half then (.buy, max (min (1 - pctB) 1) (1 / 10))
  else if m + half ≤ price then (.sell, max (min (pctB - 1 + 1 / 2) 1) (1 / 10))
  else (.hold, 0)

lemma decide_inside {price m half : K} (hlow : m - half < price) (hhigh : price < m + half) :
    decide price m half = (.hold, 0) := by
  simp only [decide, if_neg (not_le.2 hlow), if_neg (not_le.2 hhigh)]

variable [IsStrictOrderedRing K]

lemma confidence_bounds (x : K) : 0 ≤ max (min x 1) (1 / 10) ∧ max (min x 1) (1 / 10) ≤ 1 := by
  have htenth : (0 : K) ≤ 1 / 10 := by positivity
  have hle : (1 : K) / 10 ≤ 1 := by norm_num
  exact ⟨htenth.trans (le_max_right _ _), max_le (min_le_right _ _) hle⟩

lemma decision_signalOf (price m half : K) (metadata : Meta K) :
    decision (signalOf price (m - half) (m + half) m (percentB price (m - half) (m + half)) metadata) =
      .ok (decide price m half) := by
  unfold signalOf decide
  dsimp only
  split_ifs
  · rw [decision_make _ _ _ _ (confidence_bounds _)]
  · rw [decision_make _ _ _ _ (confidence_bounds _)]
  · rw [decision_make _ _ _ _ ⟨le_rfl, zero_le_one⟩]

variable {price m half : K}

lemma percentB_eq (h : 0 < half) : percentB price (m - half) (m + half) = (price - m) / (2 * half) + 1 / 2 := by
  have hwidth : m + half - (m - half) = 2 * half := by ring
  rw [percentB, hwidth, if_pos (by positivity)]
  field_simp
  ring

/-- Every buy below a band of some width has full confidence. -/
lemma decide_below (h : 0 < half) (hp : price ≤ m - half) : decide price m half = (.buy, 1) := by
  have hpct : (price - m) / (2 * half) ≤ -(1 / 2) := by
    rw [div_le_iff₀ (by positivity)]
    linarith
  have hmin : min (1 - ((price - m) / (2 * half) + 1 / 2)) 1 = 1 := min_eq_right (by linarith)
  have htenth : (1 : K) / 10 ≤ 1 := by norm_num
  simp only [decide, if_pos hp, percentB_eq h, hmin, max_eq_left htenth]

/-- A sale is graded by the distance of the price from the mean. -/
lemma decide_above (h : 0 < half) (hp : m + half ≤ price) :
    decide price m half = (.sell, min ((price - m) / (2 * half)) 1) := by
  have hpct : 1 / 2 ≤ (price - m) / (2 * half) := by
    rw [le_div_iff₀ (by positivity)]
    linarith
  have hnot : ¬price ≤ m - half := by
    rw [not_le]
    linarith
  have hgrade : (price - m) / (2 * half) + 1 / 2 - 1 + 1 / 2 = (price - m) / (2 * half) := by ring
  have htenth : (1 : K) / 10 ≤ min ((price - m) / (2 * half)) 1 := le_min (by linarith) (by norm_num)
  simp only [decide, if_neg hnot, if_pos hp, percentB_eq h, hgrade, max_eq_left htenth]

lemma decide_no_width (price m : K) :
    decide price m 0 = if price ≤ m then (.buy, 1 / 2) else (.sell, 1 / 10) := by
  have hpct : percentB price (m - 0) (m + 0) = 1 / 2 := by simp [percentB]
  unfold decide
  dsimp only
  rw [hpct, sub_zero, add_zero]
  split_ifs with h1 h2
  · norm_num
  · norm_num
  · exact absurd (le_of_not_ge h1) h2

/-- Reflecting the price about the mean reflects the decision exactly inside the band and from
twice its half width on. -/
theorem decide_reflect_iff (h : 0 ≤ half) :
    decide (2 * m - price) m half = ((decide price m half).1.opposite, (decide price m half).2) ↔
      0 < half ∧ (|price - m| < half ∨ 2 * half ≤ |price - m|) := by
  rcases h.eq_or_lt with rfl | hpos
  · rw [decide_no_width, decide_no_width]
    have hiff : 2 * m - price ≤ m ↔ m ≤ price := by constructor <;> intro _ <;> linarith
    simp only [hiff, lt_irrefl, false_and, iff_false]
    rcases lt_trichotomy price m with hlt | rfl | hgt
    · simp [hlt.le, not_le.2 hlt, SignalType.opposite]
    · simp [SignalType.opposite]
    · simp [hgt.le, not_le.2 hgt, SignalType.opposite]
  simp only [hpos, true_and]
  rcases le_or_gt price (m - half) with hlow | hlow
  · have habs : |price - m| = m - price := by rw [abs_of_nonpos (by linarith)]; ring
    have hmir : 2 * m - price - m = m - price := by ring
    rw [decide_below hpos hlow, decide_above hpos (by linarith), hmir, habs]
    simp only [SignalType.opposite, Prod.mk.injEq, true_and, min_eq_right_iff]
    rw [le_div_iff₀ (by positivity), one_mul]
    constructor
    · intro hfar
      exact Or.inr hfar
    · rintro (hnear | hfar)
      · linarith
      · exact hfar
  rcases le_or_gt (m + half) price with hhigh | hhigh
  · have habs : |price - m| = price - m := abs_of_nonneg (by linarith)
    rw [decide_above hpos hhigh, decide_below hpos (by linarith), habs]
    simp only [SignalType.opposite, Prod.mk.injEq, true_and, eq_comm (a := (1 : K)), min_eq_right_iff]
    rw [le_div_iff₀ (by positivity), one_mul]
    constructor
    · intro hfar
      exact Or.inr hfar
    · rintro (hnear | hfar)
      · linarith
      · exact hfar
  · rw [decide_inside hlow hhigh, decide_inside (by linarith) (by linarith)]
    have hin : |price - m| < half := abs_lt.2 ⟨by linarith, by linarith⟩
    simp [SignalType.opposite, hin]

/-- On one side of a band of some width the confidence grows with the distance until it is full. -/
lemma decide_grows {price' : K} (h : 0 < half) (hside : (decide price' m half).1 = (decide price m half).1)
    (hout : (decide price m half).1 ≠ .hold) (hle : |price - m| ≤ |price' - m|) :
    (decide price m half).2 ≤ (decide price' m half).2 ∧
      (|price - m| < |price' - m| →
        (decide price m half).2 < (decide price' m half).2 ∨ (decide price m half).2 = 1) := by
  rcases le_or_gt price (m - half) with hlow | hlow
  · rw [decide_below h hlow] at hside ⊢
    rcases le_or_gt price' (m - half) with hlow' | hlow'
    · simp [decide_below h hlow']
    rcases le_or_gt (m + half) price' with hhigh' | hhigh'
    · simp [decide_above h hhigh'] at hside
    · simp [decide_inside hlow' hhigh'] at hside
  rcases le_or_gt (m + half) price with hhigh | hhigh
  · rw [decide_above h hhigh] at hside ⊢
    rcases le_or_gt price' (m - half) with hlow' | hlow'
    · simp [decide_below h hlow'] at hside
    rcases le_or_gt (m + half) price' with hhigh' | hhigh'
    · have habs : |price - m| = price - m := abs_of_nonneg (by linarith)
      have habs' : |price' - m| = price' - m := abs_of_nonneg (by linarith)
      rw [decide_above h hhigh']
      rw [habs, habs'] at hle ⊢
      have hdiv : (price - m) / (2 * half) ≤ (price' - m) / (2 * half) := by gcongr
      refine ⟨min_le_min_right 1 hdiv, fun hlt => ?_⟩
      have hdivlt : (price - m) / (2 * half) < (price' - m) / (2 * half) := by gcongr
      rcases lt_or_ge ((price - m) / (2 * half)) 1 with hless | hfull
      · exact Or.inl (by rw [min_eq_left hless.le]; exact lt_min hdivlt hless)
      · exact Or.inr (min_eq_right hfull)
    · simp [decide_inside hlow' hhigh'] at hside
  · simp [decide_inside hlow hhigh] at hout

end Decision

/-! ### Over the reals -/

noncomputable section

/-- The analysis of closes none of which is missing. -/
def onCloses (s : BollingerBandStrategy ℝ) (closes : List ℝ) : Except (Error ℝ) (SignalType × ℝ) :=
  decision (s.analyze Real.sqrt (.ofCloses (closes.map some)))

def movingAverage (s : BollingerBandStrategy ℝ) (closes : List ℝ) : ℝ := mean (window s.period closes)

/-- The distance of either band from the moving average. -/
def halfWidth (s : BollingerBandStrategy ℝ) (closes : List ℝ) : ℝ :=
  s.numStd * Real.sqrt (sampleVariance (window s.period closes))

/-- All closes reflected about the last moving average. -/
def reflect (s : BollingerBandStrategy ℝ) (closes : List ℝ) : List ℝ :=
  closes.map (2 * s.movingAverage closes - ·)

def lastClose (closes : List ℝ) : ℝ := closes.getLastD 0

def distance (s : BollingerBandStrategy ℝ) (closes : List ℝ) : ℝ :=
  |lastClose closes - s.movingAverage closes|

/-- The two sides mirror each other at these closes: reflected closes give the opposite decision,
a window that is its own reflection is held, and among closes with the same band a
greater distance on the same side never has less confidence, and more until it is full. -/
structure MirrorSymmetric (s : BollingerBandStrategy ℝ) (closes : List ℝ) : Prop where
  mirrored : s.onCloses (s.reflect closes) = (s.onCloses closes).map fun d => (d.1.opposite, d.2)
  halted : window s.period (s.reflect closes) = window s.period closes →
    s.onCloses closes = .ok (.hold, 0)
  graded : ∀ others : List ℝ, s.period + 1 ≤ others.length →
    s.movingAverage others = s.movingAverage closes → s.halfWidth others = s.halfWidth closes →
    ∀ d d' : SignalType × ℝ, s.onCloses closes = .ok d → s.onCloses others = .ok d' →
      d'.1 = d.1 → d.1 ≠ .hold → s.distance closes ≤ s.distance others →
      d.2 ≤ d'.2 ∧ (s.distance closes < s.distance others → d.2 < d'.2 ∨ d.2 = 1)

variable {s : BollingerBandStrategy ℝ} {closes : List ℝ}

lemma length_window (hlen : s.period + 1 ≤ closes.length) : (window s.period closes).length = s.period := by
  rw [window, List.length_drop]
  omega

/-- The last close is the last of its window. -/
lemma lastClose_window (hpos : 0 < s.period) (hlen : s.period + 1 ≤ closes.length) :
    lastClose (window s.period closes) = lastClose closes := by
  rw [lastClose, window, List.getLastD_eq_getLast?, List.getLast?_drop, if_neg (by omega), lastClose,
    List.getLastD_eq_getLast?]

/-- With enough closes the decision depends on the last close, the mean and the half width. -/
lemma onCloses_eq (hperiod : 2 ≤ s.period) (hlen : s.period + 1 ≤ closes.length) :
    s.onCloses closes = .ok (decide (lastClose closes) (s.movingAverage closes) (s.halfWidth closes)) := by
  have hne : closes ≠ [] := by
    rintro rfl
    simp at hlen
  have hmap : closes.map some ≠ [] := by simpa using hne
  have hlast : iloc 1 (closes.map some) = some (lastClose closes) := by
    rw [iloc_one_some, lastClose, List.getLast?_eq_some_getLast hne, List.getLastD_eq_getLast?,
      List.getLast?_eq_some_getLast hne, Option.getD_some]
  have hsma : iloc 1 (rolling s.period (fun ws => some (mean ws)) (closes.map some)) =
      some (s.movingAverage closes) := by
    rw [rolling, iloc_one_causal _ hmap, rollingAt_some _ _ (by omega)]
    rfl
  have hstd : iloc 1 (rolling s.period (sampleDeviation Real.sqrt) (closes.map some)) =
      some (Real.sqrt (sampleVariance (window s.period closes))) := by
    rw [rolling, iloc_one_causal _ hmap, rollingAt_some _ _ (by omega), sampleDeviation]
    change (if (window s.period closes).length < 2 then none else _) = _
    rw [length_window hlen, if_neg (by omega)]
    rfl
  have hwidths : (rolling s.period (fun ws => some (mean ws)) (closes.map some)).length =
      (rolling s.period (sampleDeviation Real.sqrt) (closes.map some)).length := by simp [rolling]
  rw [onCloses, analyze, MarketData.rows_ofCloses, List.length_map, if_neg (by omega),
    MarketData.column?_ofCloses]
  simp only [hlast, hsma, hstd, iloc_zipWith _ hwidths, Option.bind_some, Option.map_some]
  exact decision_signalOf _ _ _ _

lemma movingAverage_reflect (hperiod : 2 ≤ s.period) (hlen : s.period + 1 ≤ closes.length) :
    s.movingAverage (s.reflect closes) = s.movingAverage closes := by
  have hwin : window s.period closes ≠ [] := by
    rw [← List.length_pos_iff, length_window hlen]
    omega
  rw [movingAverage, reflect, window, List.length_map, ← List.map_drop]
  change mean ((window s.period closes).map _) = _
  rw [mean_map_const_sub _ hwin, movingAverage]
  ring

lemma halfWidth_reflect (hperiod : 2 ≤ s.period) (hlen : s.period + 1 ≤ closes.length) :
    s.halfWidth (s.reflect closes) = s.halfWidth closes := by
  have hwin : window s.period closes ≠ [] := by
    rw [← List.length_pos_iff, length_window hlen]
    omega
  rw [halfWidth, reflect, window, List.length_map, ← List.map_drop]
  change s.numStd * Real.sqrt (sampleVariance ((window s.period closes).map _)) = _
  rw [sampleVariance_map_const_sub _ hwin, halfWidth]

lemma lastClose_reflect (hne : closes ≠ []) :
    lastClose (s.reflect closes) = 2 * s.movingAverage closes - lastClose closes := by
  simp [lastClose, reflect, List.getLastD_eq_getLast?, List.getLast?_map,
    List.getLast?_eq_some_getLast hne]

/-- The mirror symmetry holds at closes exactly when the band has some width and the last close
is strictly inside it or at least its whole width away from the moving average. -/
theorem mirrorSymmetric_iff (s : BollingerBandStrategy ℝ) (hperiod : 2 ≤ s.period) (hstd : 0 < s.numStd)
    (closes : List ℝ) (hlen : s.period + 1 ≤ closes.length) :
    s.MirrorSymmetric closes ↔
      0 < s.halfWidth closes ∧
        (s.distance closes < s.halfWidth closes ∨ 2 * s.halfWidth closes ≤ s.distance closes) := by
  have hne : closes ≠ [] := by
    rintro rfl
    simp at hlen
  have hlen' : s.period + 1 ≤ (s.reflect closes).length := by simpa [reflect] using hlen
  have hwidth : 0 ≤ s.halfWidth closes := mul_nonneg hstd.le (Real.sqrt_nonneg _)
  have heq := onCloses_eq hperiod hlen
  have hreflect := onCloses_eq hperiod hlen'
  rw [movingAverage_reflect hperiod hlen, halfWidth_reflect hperiod hlen, lastClose_reflect hne] at hreflect
  constructor
  · intro h
    have hmirror := h.mirrored
    rw [heq, hreflect] at hmirror
    exact (decide_reflect_iff hwidth).1 (Except.ok.inj hmirror)
  · rintro ⟨hpos, hfar⟩
    refine ⟨?_, ?_, ?_⟩
    · rw [heq, hreflect, (decide_reflect_iff hwidth).2 ⟨hpos, hfar⟩]
      rfl
    · intro hwin
      have hprice : lastClose (s.reflect closes) = lastClose closes := by
        rw [← lastClose_window (by omega) hlen', hwin, lastClose_window (by omega) hlen]
      rw [lastClose_reflect hne] at hprice
      rw [heq, decide_inside (by linarith) (by linarith)]
    · intro others hothers hm hw d d' hd hd' hside hout hle
      rw [heq] at hd
      rw [onCloses_eq hperiod hothers, hm, hw] at hd'
      obtain rfl := Except.ok.inj hd
      obtain rfl := Except.ok.inj hd'
      simp only [distance, hm] at hle ⊢
      exact decide_grows hpos hside hout hle

theorem mirrorSymmetric_rising : (⟨2, 2⟩ : BollingerBandStrategy ℝ).MirrorSymmetric [1, 1, 2] := by
  have hm : (⟨2, 2⟩ : BollingerBandStrategy ℝ).distance [1, 1, 2] = 1 / 2 := by
    norm_num [distance, movingAverage, mean, window, lastClose, abs_of_pos]
  have hw : (⟨2, 2⟩ : BollingerBandStrategy ℝ).halfWidth [1, 1, 2] = 2 * Real.sqrt (1 / 2) := by
    norm_num [halfWidth, sampleVariance, mean, window]
  have hsqrt : (1 / 2 : ℝ) < Real.sqrt (1 / 2) := Real.lt_sqrt_of_sq_lt (by norm_num)
  refine (mirrorSymmetric_iff ⟨2, 2⟩ le_rfl (by norm_num) [1, 1, 2] le_rfl).2 ?_
  rw [hm, hw]
  exact ⟨by linarith, Or.inl (by linarith)⟩

/-- A halted stock is bought by the default strategy, and so is its reflection. -/
theorem halted_bought :
    (init none none : BollingerBandStrategy ℝ).onCloses (List.replicate 21 70000) = .ok (.buy, 1 / 2) ∧
      ¬(init none none : BollingerBandStrategy ℝ).MirrorSymmetric (List.replicate 21 70000) := by
  have hlen : (init none none : BollingerBandStrategy ℝ).period + 1 ≤ (List.replicate 21 (70000 : ℝ)).length := by
    simp [init]
  have hm : (init none none : BollingerBandStrategy ℝ).movingAverage (List.replicate 21 70000) = 70000 := by
    norm_num [init, movingAverage, mean, window]
  have hw : (init none none : BollingerBandStrategy ℝ).halfWidth (List.replicate 21 70000) = 0 := by
    norm_num [init, halfWidth, sampleVariance, mean, window]
  have hbuy : (init none none : BollingerBandStrategy ℝ).onCloses (List.replicate 21 70000) =
      .ok (.buy, 1 / 2) := by
    have hlast : lastClose (List.replicate 21 (70000 : ℝ)) = 70000 := rfl
    rw [onCloses_eq (by simp [init]) hlen, hm, hw, hlast, decide_no_width, if_pos le_rfl]
  refine ⟨hbuy, fun h => ?_⟩
  have hsame : window (init none none : BollingerBandStrategy ℝ).period
      ((init none none : BollingerBandStrategy ℝ).reflect (List.replicate 21 70000)) =
      window (init none none : BollingerBandStrategy ℝ).period (List.replicate 21 70000) := by
    rw [reflect, hm]
    norm_num
  have hhold := h.halted hsame
  rw [hbuy] at hhold
  simp at hhold

end

end BollingerBandStrategy
end KisAutotrader.Strategy
