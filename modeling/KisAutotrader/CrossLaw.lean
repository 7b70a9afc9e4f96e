import KisAutotrader.CrossStrategies
import KisAutotrader.Crossings

/-!
# Signals over a growing series

A strategy sees each prefix of a series of closes and computes its averages from scratch. Its
averages are causal, so the calls of a run see one sequence of differences, and the
signals are its crossings of zero.
-/
namespace KisAutotrader.Strategy
open Series Crossings

variable {K : Type} [Field K] [LinearOrder K]

/-- The analysis after bar `t` gives a signal of this type. -/
def GivesAt (onCloses : List K → Except (Error K) (SignalType × K)) (closes : List K) (signalType : SignalType)
    (t : ℕ) : Prop :=
  ∃ confidence, onCloses (closes.take (t + 1)) = .ok (signalType, confidence)

/-- What a run over the prefixes of a series with these differences keeps to. -/
structure CrossLaw (onCloses : List K → Except (Error K) (SignalType × K))
    (difference : List K → List (Option K)) (closes : List K) : Prop where
  follows : ∀ t u v, t < closes.length →
    MostRecent (fun i => GivesAt onCloses closes .buy i ∨ GivesAt onCloses closes .sell i) t u →
    MostRecent (Nonzero fun i => cell i (difference closes)) t v →
      (GivesAt onCloses closes .buy u ∧ Positive (fun i => cell i (difference closes)) v) ∨
        (GivesAt onCloses closes .sell u ∧ Negative (fun i => cell i (difference closes)) v)
  buy_rises : ∀ t < closes.length, GivesAt onCloses closes .buy t →
    Rises (fun i => cell i (difference closes)) t
  sell_falls : ∀ t < closes.length, GivesAt onCloses closes .sell t →
    Falls (fun i => cell i (difference closes)) t
  scaled : ∀ c : K, 0 < c → ∀ t < closes.length,
    onCloses ((closes.map (c * ·)).take (t + 1)) = onCloses (closes.take (t + 1))
  graded : ∀ t < closes.length, ∀ d, onCloses (closes.take (t + 1)) = .ok d → 0 ≤ d.2 ∧ d.2 ≤ 1

/-- A signal carries the bounds of its confidence. -/
lemma decision_bounds {outcome : Except (Error K) (Signal K)} {d : SignalType × K}
    (h : decision outcome = .ok d) : 0 ≤ d.2 ∧ d.2 ≤ 1 := by
  obtain ⟨s, -, -, hconfidence⟩ := decision_ok_iff.1 h
  rw [← hconfidence]
  exact ⟨s.nonneg, s.le_one⟩

/-- The answer of an analysis to the last two differences; one that is not willing gives
neither a buy nor a sale. -/
structure Responds (outcome : Except (Error K) (SignalType × K)) (willing : Prop) (before after : K) : Prop where
  of_buy : ∀ x, outcome = .ok (.buy, x) → before ≤ 0 ∧ 0 < after ∧ willing
  of_sell : ∀ x, outcome = .ok (.sell, x) → 0 ≤ before ∧ after < 0 ∧ willing
  buys : willing → before ≤ 0 → 0 < after → ∃ x, outcome = .ok (.buy, x)
  sells : willing → 0 ≤ before → after < 0 → ∃ x, outcome = .ok (.sell, x)

section Run
variable {onCloses : List K → Except (Error K) (SignalType × K)} {difference : List K → List (Option K)}
  {closes : List K} {first : ℕ} (willing : Prop)

/-- A strategy that holds before its first decision and then responds to the differences detects
their crossings. -/
theorem detects_of
    (hearly : ∀ t < closes.length, t < first → onCloses (closes.take (t + 1)) = .ok (.hold, 0))
    (hlate : ∀ t < closes.length, first ≤ t → 0 < t ∧ ∃ before after,
      cell (t - 1) (difference closes) = some before ∧ cell t (difference closes) = some after ∧
        Responds (onCloses (closes.take (t + 1))) willing before after) :
    Detects (fun i => cell i (difference closes)) closes.length
      (GivesAt onCloses closes .buy) (GivesAt onCloses closes .sell) := by
  have hfirst : ∀ t < closes.length, ∀ {signalType}, GivesAt onCloses closes signalType t →
      signalType ≠ .hold → first ≤ t := by
    rintro t ht signalType ⟨x, hx⟩ hne
    by_contra hlt
    rw [hearly t ht (Nat.lt_of_not_le hlt)] at hx
    exact hne (Prod.mk.inj (Except.ok.inj hx)).1.symm
  have hstarted : ∀ u < closes.length, GivesAt onCloses closes .buy u ∨ GivesAt onCloses closes .sell u →
      first ≤ u ∧ willing := by
    rintro u hu (h | h)
    · have hle := hfirst u hu h (by simp)
      obtain ⟨-, before, after, -, -, hresponds⟩ := hlate u hu hle
      obtain ⟨x, hx⟩ := h
      exact ⟨hle, (hresponds.of_buy x hx).2.2⟩
    · have hle := hfirst u hu h (by simp)
      obtain ⟨-, before, after, -, -, hresponds⟩ := hlate u hu hle
      obtain ⟨x, hx⟩ := h
      exact ⟨hle, (hresponds.of_sell x hx).2.2⟩
  refine ⟨?_, ?_, ?_, ?_, ?_⟩
  · intro t ht hbuy
    obtain ⟨hpos, before, after, hbefore, hafter, hresponds⟩ := hlate t ht (hfirst t ht hbuy (by simp))
    obtain ⟨x, hx⟩ := hbuy
    obtain ⟨hle, hgt, -⟩ := hresponds.of_buy x hx
    exact ⟨hpos, ⟨before, hbefore, hle⟩, after, hafter, hgt⟩
  · intro t ht hsell
    obtain ⟨hpos, before, after, hbefore, hafter, hresponds⟩ := hlate t ht (hfirst t ht hsell (by simp))
    obtain ⟨x, hx⟩ := hsell
    obtain ⟨hge, hlt, -⟩ := hresponds.of_sell x hx
    exact ⟨hpos, ⟨before, hbefore, hge⟩, after, hafter, hlt⟩
  · intro u t hut ht hnote
    obtain ⟨hle, -⟩ := hstarted u (by omega) hnote
    obtain ⟨-, before, after, -, hafter, -⟩ := hlate t ht (by omega)
    exact ⟨after, hafter⟩
  · rintro u t hut ht hnote ⟨-, ⟨p, hp, hle⟩, c, hc, hgt⟩
    obtain ⟨hu, hwilling⟩ := hstarted u (by omega) hnote
    obtain ⟨-, before, after, hbefore, hafter, hresponds⟩ := hlate t ht (by omega)
    obtain rfl := Option.some.inj (hbefore.symm.trans hp)
    obtain rfl := Option.some.inj (hafter.symm.trans hc)
    exact hresponds.buys hwilling hle hgt
  · rintro u t hut ht hnote ⟨-, ⟨p, hp, hge⟩, c, hc, hlt⟩
    obtain ⟨hu, hwilling⟩ := hstarted u (by omega) hnote
    obtain ⟨-, before, after, hbefore, hafter, hresponds⟩ := hlate t ht (by omega)
    obtain rfl := Option.some.inj (hbefore.symm.trans hp)
    obtain rfl := Option.some.inj (hafter.symm.trans hc)
    exact hresponds.sells hwilling hge hlt

end Run

/-! ### Moving averages -/

namespace MovingAverageStrategy

/-- The mean of the `n` closes up to bar `t`. -/
def averageAt {K : Type} [Field K] (n : ℕ) (closes : List K) (t : ℕ) : K :=
  mean ((closes.take (t + 1)).drop (t + 1 - n))

/-- Short average minus long average at each bar. -/
def difference {K : Type} [Field K] (s : MovingAverageStrategy K) (closes : List K) : List (Option K) :=
  Series.zipWith (· - ·) (average s.shortPeriod (closes.map some)) (average s.longPeriod (closes.map some))

lemma cell_average {K : Type} [Field K] {n t : ℕ} {closes : List K} (hn : n ≤ t + 1) (ht : t < closes.length) :
    cell t (average n (closes.map some)) = some (averageAt n closes t) := by
  have hlen : (closes.take (t + 1)).length = t + 1 := by rw [List.length_take]; omega
  rw [average, rolling, cell_causal _ (by simpa using ht), ← List.map_take, rollingAt_some _ _ (by omega), hlen]
  rfl

lemma averageAt_map_mul {K : Type} [Field K] (c : K) (n : ℕ) (closes : List K) (t : ℕ) :
    averageAt n (closes.map (c * ·)) t = c * averageAt n closes t := by
  rw [averageAt, ← List.map_take, ← List.map_drop, mean_map_mul, averageAt]

/-- The decision about the averages at two bars. -/
def respond (s : MovingAverageStrategy K) (prevShort prevLong short long : K) :
    Except (Error K) (SignalType × K) :=
  match s.confidence short long with
  | .error e => .error e
  | .ok confidence => decision (signalOf prevShort prevLong short long confidence none [])

lemma decision_signalOf (prevShort prevLong short long : K) (confidence : Float64 K) (price : Option K)
    (metadata : Meta K) :
    decision (signalOf prevShort prevLong short long confidence price metadata) =
      decision (signalOf prevShort prevLong short long confidence none []) := by
  unfold signalOf
  split_ifs
  · exact decision_ofFloat_congr _ _ _ _ _ _ _ _
  · exact decision_ofFloat_congr _ _ _ _ _ _ _ _
  · exact decision_make_congr _ _ _ _ _ _ _ _

section Prefixes
variable [FloorRing K]

/-- The analysis of closes none of which is missing. -/
def onCloses (s : MovingAverageStrategy K) (closes : List K) : Except (Error K) (SignalType × K) :=
  decision (s.analyze (.ofCloses (closes.map some)))

lemma onCloses_early {s : MovingAverageStrategy K} {closes : List K} {t : ℕ} (ht : t < closes.length) (hfirst : t < s.longPeriod) :
    s.onCloses (closes.take (t + 1)) = .ok (.hold, 0) := by
  have hne : (closes.take (t + 1)).map some ≠ [] := by
    rw [← List.length_pos_iff, List.length_map, List.length_take]
    omega
  have hlen : (closes.take (t + 1)).length < s.longPeriod + 1 := by
    rw [List.length_take]
    omega
  rw [onCloses, analyze, validateData_ofCloses hne]
  simp only [MarketData.rows_ofCloses, List.length_map, if_pos hlen]
  exact decision_make _ _ _ _ ⟨le_rfl, zero_le_one⟩

/-- A prefix is decided by the averages of the whole series at its last two bars. -/
lemma onCloses_late {s : MovingAverageStrategy K} {closes : List K} {t : ℕ} (ht : t < closes.length) (hfirst : s.longPeriod ≤ t) :
    s.onCloses (closes.take (t + 1)) =
      s.respond (averageAt s.shortPeriod closes (t - 1)) (averageAt s.longPeriod closes (t - 1))
        (averageAt s.shortPeriod closes t) (averageAt s.longPeriod closes t) := by
  have hshort := s.ordered
  have hne : (closes.take (t + 1)).map some ≠ [] := by
    rw [← List.length_pos_iff, List.length_map, List.length_take]
    omega
  have hlen : ¬(closes.take (t + 1)).length < s.longPeriod + 1 := by
    rw [List.length_take]
    omega
  have hcells : ∀ k n, 0 < k → k ≤ 2 → 0 < n → n ≤ s.longPeriod →
      iloc k (average n ((closes.take (t + 1)).map some)) = some (averageAt n closes (t + 1 - k)) := by
    intro k n hk hk2 hn hle
    rw [average, rolling, List.map_take, causal_take, iloc_take _ hk (by omega) (by simpa using ht)]
    exact cell_average (by omega) (by omega)
  have hpos := s.short_pos
  rw [onCloses, analyze, validateData_ofCloses hne]
  simp only [MarketData.rows_ofCloses, List.length_map, if_neg hlen,
    hcells 1 s.shortPeriod (by omega) (by omega) hpos hshort.le, hcells 1 s.longPeriod (by omega) (by omega) (by omega) le_rfl,
    hcells 2 s.shortPeriod (by omega) (by omega) hpos hshort.le, hcells 2 s.longPeriod (by omega) (by omega) (by omega) le_rfl,
    Nat.add_sub_cancel, show t + 1 - 2 = t - 1 by omega]
  rw [respond]
  cases s.confidence (averageAt s.shortPeriod closes t) (averageAt s.longPeriod closes t) with
  | error e => rfl
  | ok confidence => exact decision_signalOf _ _ _ _ _ _ _

end Prefixes

variable [IsStrictOrderedRing K]

lemma averageAt_pos {n t : ℕ} {closes : List K} (hn : 0 < n) (ht : t < closes.length)
    (hpos : ∀ x ∈ closes, 0 < x) : 0 < averageAt n closes t := by
  apply mean_pos
  · rw [← List.length_pos_iff, List.length_drop, List.length_take]
    omega
  · intro x hx
    exact hpos x (List.mem_of_mem_take (List.mem_of_mem_drop hx))

variable {s : MovingAverageStrategy K} {prevShort prevLong short long : K}

/-- A divergence that is not zero has a confidence unless the largest one is negative. -/
lemma ofFloat_confidence (hlong : 0 < long) (hne : short ≠ long) :
    ∃ confidence, s.confidence short long = .ok confidence ∧
      ∀ signalType target reason metadata,
        (0 ≤ s.maxDivergence →
          ∃ x, decision (Signal.ofFloat signalType confidence target reason metadata) = .ok (signalType, x)) ∧
        (s.maxDivergence < 0 →
          ∀ d, decision (Signal.ofFloat signalType confidence target reason metadata) ≠ .ok d) := by
  have hrate : 0 < |short - long| / long := div_pos (abs_pos.2 (sub_ne_zero.2 hne)) hlong
  refine ⟨(Float64.divide (|short - long| / long) s.maxDivergence).atMostOne,
    by rw [confidence, if_pos hlong.ne'], fun signalType target reason metadata => ⟨fun hmax => ?_, fun hmax => ?_⟩⟩
  · rcases hmax.eq_or_lt with hzero | hpos
    · rw [Float64.divide, if_pos hzero.symm, if_neg hrate.ne', if_pos hrate]
      exact ⟨1, decision_make _ _ _ _ ⟨zero_le_one, le_rfl⟩⟩
    · rw [Float64.divide, if_neg hpos.ne']
      exact ⟨_, decision_make _ _ _ _ ⟨le_min (div_nonneg hrate.le hpos.le) zero_le_one, min_le_right _ _⟩⟩
  · have hnegative : min (|short - long| / long / s.maxDivergence) 1 < 0 :=
      (min_le_left _ _).trans_lt (div_neg_of_pos_of_neg hrate hmax)
    rw [Float64.divide, if_neg hmax.ne]
    intro d hd
    have hbounds := decision_bounds hd
    obtain ⟨signal, hsignal, -, -⟩ := decision_ok_iff.1 hd
    simp [Float64.atMostOne, Signal.ofFloat, Signal.make, not_le.2 hnegative] at hsignal

lemma responds (hlong : 0 < long) :
    Responds (s.respond prevShort prevLong short long) (0 ≤ s.maxDivergence) (prevShort - prevLong)
      (short - long) := by
  have hcross : ∀ {signalType x}, s.respond prevShort prevLong short long = .ok (signalType, x) →
      signalType ≠ .hold →
      ((signalType = .buy ∧ prevShort ≤ prevLong ∧ long < short) ∨
        (signalType = .sell ∧ prevLong ≤ prevShort ∧ short < long)) ∧ 0 ≤ s.maxDivergence := by
    intro signalType x hx hne
    by_cases hup : prevShort ≤ prevLong ∧ long < short
    · obtain ⟨confidence, hconfidence, hfloat⟩ := ofFloat_confidence (s := s) hlong hup.2.ne'
      rw [respond, hconfidence] at hx
      simp only [signalOf, if_pos hup] at hx
      have hmax : 0 ≤ s.maxDivergence := le_of_not_gt fun hneg => (hfloat _ _ _ _).2 hneg _ hx
      obtain ⟨y, hy⟩ := (hfloat .buy _ _ _).1 hmax
      have htype := (Prod.mk.inj (Except.ok.inj (hx.symm.trans hy))).1
      exact ⟨Or.inl ⟨htype, hup⟩, hmax⟩
    by_cases hdown : prevLong ≤ prevShort ∧ short < long
    · obtain ⟨confidence, hconfidence, hfloat⟩ := ofFloat_confidence (s := s) hlong hdown.2.ne
      rw [respond, hconfidence] at hx
      simp only [signalOf, if_neg hup, if_pos hdown] at hx
      have hmax : 0 ≤ s.maxDivergence := le_of_not_gt fun hneg => (hfloat _ _ _ _).2 hneg _ hx
      obtain ⟨y, hy⟩ := (hfloat .sell _ _ _).1 hmax
      have htype := (Prod.mk.inj (Except.ok.inj (hx.symm.trans hy))).1
      exact ⟨Or.inr ⟨htype, hdown⟩, hmax⟩
    · have hconfidence : s.confidence short long =
          .ok (Float64.divide (|short - long| / long) s.maxDivergence).atMostOne := by
        rw [confidence, if_pos hlong.ne']
      rw [respond, hconfidence] at hx
      simp only [signalOf, if_neg hup, if_neg hdown, decision_make _ _ _ _ ⟨le_rfl, zero_le_one⟩] at hx
      exact absurd (Prod.mk.inj (Except.ok.inj hx)).1.symm hne
  refine ⟨?_, ?_, ?_, ?_⟩
  · intro x hx
    obtain ⟨⟨-, hle, hgt⟩ | ⟨hsell, -⟩, hmax⟩ := hcross hx (by simp)
    · exact ⟨sub_nonpos.2 hle, sub_pos.2 hgt, hmax⟩
    · cases hsell
  · intro x hx
    obtain ⟨⟨hbuy, -⟩ | ⟨-, hge, hlt⟩, hmax⟩ := hcross hx (by simp)
    · cases hbuy
    · exact ⟨sub_nonneg.2 hge, sub_neg.2 hlt, hmax⟩
  · intro hmax hle hgt
    have hup : prevShort ≤ prevLong ∧ long < short := ⟨sub_nonpos.1 hle, sub_pos.1 hgt⟩
    obtain ⟨confidence, hconfidence, hfloat⟩ := ofFloat_confidence (s := s) hlong hup.2.ne'
    rw [respond, hconfidence]
    simp only [signalOf, if_pos hup]
    exact (hfloat _ _ _ _).1 hmax
  · intro hmax hge hlt
    have hdown : prevLong ≤ prevShort ∧ short < long := ⟨sub_nonneg.1 hge, sub_neg.1 hlt⟩
    have hup : ¬(prevShort ≤ prevLong ∧ long < short) := fun h => h.2.not_gt hdown.2
    obtain ⟨confidence, hconfidence, hfloat⟩ := ofFloat_confidence (s := s) hlong hdown.2.ne
    rw [respond, hconfidence]
    simp only [signalOf, if_neg hup, if_pos hdown]
    exact (hfloat _ _ _ _).1 hmax

/-- Scaled averages get the same decision. -/
lemma respond_mul {c : K} (hc : 0 < c) :
    s.respond (c * prevShort) (c * prevLong) (c * short) (c * long) = s.respond prevShort prevLong short long := by
  have hrate : |c * short - c * long| / (c * long) = |short - long| / long := by
    rw [← mul_sub, abs_mul, abs_of_pos hc, mul_div_mul_left _ _ hc.ne']
  have hconfidence : s.confidence (c * short) (c * long) = s.confidence short long := by
    simp only [confidence, hrate, mul_ne_zero_iff, ne_eq, hc.ne', not_false_eq_true, true_and]
  rw [respond, respond, hconfidence]
  cases s.confidence short long with
  | error e => rfl
  | ok confidence =>
      simp only [signalOf, mul_le_mul_iff_right₀ hc, mul_lt_mul_iff_right₀ hc]
      split_ifs
      · exact decision_ofFloat_congr _ _ _ _ _ _ _ _
      · exact decision_ofFloat_congr _ _ _ _ _ _ _ _
      · exact decision_make_congr _ _ _ _ _ _ _ _

theorem crossLaw [FloorRing K] (s : MovingAverageStrategy K) {closes : List K} (hpos : ∀ x ∈ closes, 0 < x) :
    CrossLaw s.onCloses s.difference closes := by
  have hlong : 0 < s.longPeriod := s.short_pos.trans s.ordered
  have hdifference : ∀ t < closes.length, s.longPeriod ≤ t + 1 →
      cell t (s.difference closes) = some (averageAt s.shortPeriod closes t - averageAt s.longPeriod closes t) := by
    intro t ht hle
    rw [difference, cell_zipWith, cell_average (s.ordered.le.trans hle) ht, cell_average hle ht]
    rfl
  have hdetects : Detects (fun i => cell i (s.difference closes)) closes.length
      (GivesAt s.onCloses closes .buy) (GivesAt s.onCloses closes .sell) := by
    refine detects_of (0 ≤ s.maxDivergence) (fun t ht hfirst => onCloses_early ht hfirst) fun t ht hfirst => ?_
    refine ⟨by omega, _, _, hdifference (t - 1) (by omega) (by omega), hdifference t ht (by omega), ?_⟩
    rw [onCloses_late ht hfirst]
    exact responds (averageAt_pos hlong ht hpos)
  refine ⟨fun t u v ht hu hv => hdetects.follows ht hu hv, hdetects.up_rises, hdetects.down_falls, ?_, ?_⟩
  · intro c hc t ht
    have htc : t < (closes.map (c * ·)).length := by simpa using ht
    rcases lt_or_ge t s.longPeriod with hfirst | hfirst
    · rw [onCloses_early htc hfirst, onCloses_early ht hfirst]
    · rw [onCloses_late htc hfirst, onCloses_late ht hfirst]
      simp only [averageAt_map_mul]
      exact respond_mul hc
  · intro t _ d hd
    exact decision_bounds hd

end MovingAverageStrategy

/-! ### MACD -/

namespace MACDStrategy

/-- MACD minus signal line at each bar. -/
def difference {K : Type} [Field K] (s : MACDStrategy) (closes : List K) : List (Option K) :=
  s.histogram (closes.map some)

section Lines
variable {K : Type} [Field K]

lemma macdLine_take (s : MACDStrategy) (close : List (Option K)) (k : ℕ) :
    s.macdLine (close.take k) = (s.macdLine close).take k := by
  rw [macdLine, ema, ema, ewm_take, ewm_take, zipWith_take]
  rfl

lemma signalLine_take (s : MACDStrategy) (close : List (Option K)) (k : ℕ) :
    s.signalLine (close.take k) = (s.signalLine close).take k := by
  rw [signalLine, ema, macdLine_take, ewm_take]
  rfl

lemma histogram_take (s : MACDStrategy) (close : List (Option K)) (k : ℕ) :
    s.histogram (close.take k) = (s.histogram close).take k := by
  rw [histogram, macdLine_take, signalLine_take, zipWith_take]
  rfl

lemma histogram_scale (s : MACDStrategy) (c : K) (close : List (Option K)) :
    s.histogram (close.map (Option.map (c * ·))) = (s.histogram close).map (Option.map (c * ·)) := by
  have hsub : ∀ x y : K, c * x - c * y = c * (x - y) := fun x y => (mul_sub c x y).symm
  have hmacd : s.macdLine (close.map (Option.map (c * ·))) = (s.macdLine close).map (Option.map (c * ·)) := by
    rw [macdLine, ema, ema, ewm_scale, ewm_scale, zipWith_map hsub]
    rfl
  rw [histogram, signalLine, hmacd, ema, ewm_scale, zipWith_map hsub]
  rfl

lemma complete_macdLine (s : MACDStrategy) {close : List (Option K)} (h : Complete close) :
    Complete (s.macdLine close) :=
  (h.ewm _).zipWith (h.ewm _) _

lemma complete_signalLine (s : MACDStrategy) {close : List (Option K)} (h : Complete close) :
    Complete (s.signalLine close) :=
  (s.complete_macdLine h).ewm _

lemma complete_histogram (s : MACDStrategy) {close : List (Option K)} (h : Complete close) :
    Complete (s.histogram close) :=
  (s.complete_macdLine h).zipWith (s.complete_signalLine h) _

lemma length_macdLine (s : MACDStrategy) (close : List (Option K)) : (s.macdLine close).length = close.length := by
  simp [macdLine, ema, ewm, Series.zipWith]

lemma length_signalLine (s : MACDStrategy) (close : List (Option K)) :
    (s.signalLine close).length = close.length := by
  rw [signalLine, ema, ewm, length_causal, length_macdLine]

lemma length_histogram (s : MACDStrategy) (close : List (Option K)) : (s.histogram close).length = close.length := by
  simp [histogram, Series.zipWith, length_macdLine, length_signalLine]

end Lines

section Prefixes

/-- The decision about the histogram at two bars and the last price. -/
def respond (prevHist hist price : K) : Except (Error K) (SignalType × K) :=
  decision (signalOf prevHist hist (some price) [])

lemma decision_signalOf (prevHist hist price : K) (metadata : Meta K) :
    decision (signalOf prevHist hist (some price) metadata) = respond prevHist hist price := by
  unfold respond signalOf
  rcases confidence hist (some price) with e | confidence
  · split_ifs
    · rfl
    · rfl
    · exact decision_make_congr _ _ _ _ _ _ _ _
  · split_ifs
    · exact decision_ofFloat_congr _ _ _ _ _ _ _ _
    · exact decision_ofFloat_congr _ _ _ _ _ _ _ _
    · exact decision_make_congr _ _ _ _ _ _ _ _

variable [FloorRing K] {s : MACDStrategy} {closes : List K} {t : ℕ}

/-- The analysis of closes none of which is missing. -/
def onCloses (s : MACDStrategy) (closes : List K) : Except (Error K) (SignalType × K) :=
  decision (s.analyze (.ofCloses (closes.map some)))

/-- A prefix is decided by the histogram of the whole series at its last two bars. -/
lemma onCloses_late (ht : t < closes.length) (hfirst : s.slow + s.signal ≤ t) {before after : K}
    (hbefore : cell (t - 1) (s.difference closes) = some before)
    (hafter : cell t (s.difference closes) = some after) :
    s.onCloses (closes.take (t + 1)) = respond before after closes[t] := by
  have hslow := s.slow_pos
  have hlen : ¬(closes.take (t + 1)).length < s.slow + s.signal + 1 := by
    rw [List.length_take]
    omega
  have hcomplete := complete_some closes
  have htake : ∀ k (xs : List (Option K)), 0 < k → k ≤ t + 1 → xs.length = closes.length →
      iloc k (xs.take (t + 1)) = cell (t + 1 - k) xs := by
    intro k xs hk hle hxs
    exact iloc_take xs hk hle (by omega)
  obtain ⟨macd, hmacd⟩ := (s.complete_macdLine hcomplete).cell (t := t) (by simpa [length_macdLine] using ht)
  obtain ⟨line, hline⟩ := (s.complete_signalLine hcomplete).cell (t := t) (by simpa [length_signalLine] using ht)
  have hprice : cell t (closes.map some) = some closes[t] := by simp [cell, ht]
  have hbefore' : cell (t + 1 - 2) (s.histogram (closes.map some)) = some before := hbefore
  have hafter' : cell t (s.histogram (closes.map some)) = some after := hafter
  rw [onCloses, analyze, MarketData.rows_ofCloses, List.length_map, if_neg hlen, MarketData.column?_ofCloses]
  simp only [List.map_take, histogram_take, macdLine_take, signalLine_take,
    htake 1 _ one_pos (by omega) ((s.length_histogram _).trans (List.length_map _)),
    htake 2 _ two_pos (by omega) ((s.length_histogram _).trans (List.length_map _)),
    htake 1 _ one_pos (by omega) ((s.length_macdLine _).trans (List.length_map _)),
    htake 1 _ one_pos (by omega) ((s.length_signalLine _).trans (List.length_map _)),
    htake 1 _ one_pos (by omega) (List.length_map _),
    Nat.add_sub_cancel, hbefore', hafter', hmacd, hline, hprice]
  exact decision_signalOf _ _ _ _

lemma onCloses_early (ht : t < closes.length) (hfirst : t < s.slow + s.signal) :
    s.onCloses (closes.take (t + 1)) = .ok (.hold, 0) := by
  have hlen : (closes.take (t + 1)).length < s.slow + s.signal + 1 := by
    rw [List.length_take]
    omega
  rw [onCloses, analyze, MarketData.rows_ofCloses, List.length_map, if_pos hlen]
  exact decision_make _ _ _ _ ⟨le_rfl, zero_le_one⟩

end Prefixes

variable [IsStrictOrderedRing K] {prevHist hist price : K}

lemma confidence_eq (hprice : 0 < price) :
    confidence hist (some price) = .ok (.finite (min (|hist| / (price * (1 / 100))) 1)) := by
  have hne : price * (1 / 100) ≠ 0 := by positivity
  rw [confidence, if_neg hne]

lemma respond_eq (hprice : 0 < price) :
    respond prevHist hist price =
      if prevHist ≤ 0 ∧ 0 < hist then .ok (.buy, min (|hist| / (price * (1 / 100))) 1)
      else if 0 ≤ prevHist ∧ hist < 0 then .ok (.sell, min (|hist| / (price * (1 / 100))) 1)
      else .ok (.hold, 0) := by
  have hbounds : 0 ≤ min (|hist| / (price * (1 / 100))) 1 ∧ min (|hist| / (price * (1 / 100))) 1 ≤ 1 :=
    ⟨le_min (by positivity) zero_le_one, min_le_right _ _⟩
  simp only [respond, signalOf, confidence_eq hprice, Signal.ofFloat]
  split_ifs
  · exact decision_make _ _ _ _ hbounds
  · exact decision_make _ _ _ _ hbounds
  · exact decision_make _ _ _ _ ⟨le_rfl, zero_le_one⟩

lemma responds (hprice : 0 < price) : Responds (respond prevHist hist price) True prevHist hist := by
  rw [respond_eq hprice]
  refine ⟨?_, ?_, ?_, ?_⟩
  · intro x hx
    split_ifs at hx with hup hdown
    · exact ⟨hup.1, hup.2, trivial⟩
    · simp at hx
    · simp at hx
  · intro x hx
    split_ifs at hx with hup hdown
    · simp at hx
    · exact ⟨hdown.1, hdown.2, trivial⟩
    · simp at hx
  · intro _ hle hgt
    rw [if_pos ⟨hle, hgt⟩]
    exact ⟨_, rfl⟩
  · intro _ hge hlt
    rw [if_neg fun h => h.2.not_gt hlt, if_pos ⟨hge, hlt⟩]
    exact ⟨_, rfl⟩

lemma respond_mul {c : K} (hc : 0 < c) (hprice : 0 < price) :
    respond (c * prevHist) (c * hist) (c * price) = respond prevHist hist price := by
  have hgrade : |c * hist| / (c * price * (1 / 100)) = |hist| / (price * (1 / 100)) := by
    rw [abs_mul, abs_of_pos hc, mul_assoc, mul_div_mul_left _ _ hc.ne']
  have hnonpos : c * prevHist ≤ 0 ↔ prevHist ≤ 0 := by
    simpa only [not_lt] using not_congr (mul_pos_iff_of_pos_left (b := prevHist) hc)
  have hneg : c * hist < 0 ↔ hist < 0 := by
    simpa only [not_le] using not_congr (mul_nonneg_iff_of_pos_left (b := hist) hc)
  rw [respond_eq (mul_pos hc hprice), respond_eq hprice]
  simp only [hgrade, hnonpos, hneg, mul_nonneg_iff_of_pos_left hc, mul_pos_iff_of_pos_left hc]

theorem crossLaw [FloorRing K] (s : MACDStrategy) {closes : List K} (hpos : ∀ x ∈ closes, 0 < x) :
    CrossLaw s.onCloses s.difference closes := by
  have hslow := s.slow_pos
  have hcells : ∀ t < closes.length, ∃ x, cell t (s.difference closes) = some x := by
    intro t ht
    exact (s.complete_histogram (complete_some closes)).cell (by simpa [length_histogram] using ht)
  have hdetects : Detects (fun i => cell i (s.difference closes)) closes.length
      (GivesAt s.onCloses closes .buy) (GivesAt s.onCloses closes .sell) := by
    refine detects_of True (fun t ht hfirst => onCloses_early ht hfirst) fun t ht hfirst => ?_
    obtain ⟨before, hbefore⟩ := hcells (t - 1) (by omega)
    obtain ⟨after, hafter⟩ := hcells t ht
    have hresponds : Responds (s.onCloses (closes.take (t + 1))) True before after := by
      rw [onCloses_late ht hfirst hbefore hafter]
      exact responds (hpos _ (List.getElem_mem ht))
    exact ⟨by omega, before, after, hbefore, hafter, hresponds⟩
  refine ⟨fun t u v ht hu hv => hdetects.follows ht hu hv, hdetects.up_rises, hdetects.down_falls, ?_, ?_⟩
  · intro c hc t ht
    have htc : t < (closes.map (c * ·)).length := by simpa using ht
    have hscale : ∀ i x, cell i (s.difference closes) = some x →
        cell i (s.difference (closes.map (c * ·))) = some (c * x) := by
      intro i x hx
      have hmap : (closes.map (c * ·)).map some = (closes.map some).map (Option.map (c * ·)) := by
        simp [Function.comp_def]
      rw [difference, hmap, histogram_scale, cell_map]
      exact congrArg (Option.map (c * ·)) hx
    rcases lt_or_ge t (s.slow + s.signal) with hfirst | hfirst
    · rw [onCloses_early htc hfirst, onCloses_early ht hfirst]
    · obtain ⟨before, hbefore⟩ := hcells (t - 1) (by omega)
      obtain ⟨after, hafter⟩ := hcells t ht
      rw [onCloses_late htc hfirst (hscale _ _ hbefore) (hscale _ _ hafter), onCloses_late ht hfirst hbefore hafter,
        List.getElem_map]
      exact respond_mul hc (hpos _ (List.getElem_mem ht))
  · intro t _ d hd
    exact decision_bounds hd

end MACDStrategy

/-- Over the growing prefixes of any series of positive closes, both strategies of crossing
averages follow the sign of their difference, whatever the unit of the prices. -/
theorem crosses_followed [IsStrictOrderedRing K] [FloorRing K] (ma : MovingAverageStrategy K) (macd : MACDStrategy)
    (closes : List K) (hpos : ∀ x ∈ closes, 0 < x) :
    CrossLaw ma.onCloses ma.difference closes ∧ CrossLaw macd.onCloses macd.difference closes :=
  ⟨ma.crossLaw hpos, macd.crossLaw hpos⟩

/-- Averages of one and two bars. -/
def briefAverages : MovingAverageStrategy ℚ := ⟨1, 2, 1 / 20, by decide, by decide⟩

theorem crosses_followed_valley :
    CrossLaw briefAverages.onCloses briefAverages.difference [3, 2, 1, 2, 3] ∧
      CrossLaw (MACDStrategy.init (some 1) (some 2) (some 1)).onCloses
        (MACDStrategy.init (some 1) (some 2) (some 1)).difference ([3, 2, 1, 2, 3] : List ℚ) :=
  crosses_followed briefAverages (.init (some 1) (some 2) (some 1)) [3, 2, 1, 2, 3] (by norm_num)

end KisAutotrader.Strategy
