import KisAutotrader.Strategy

/-!
# The RSI strategy

Gains and losses of the closes are smoothed apart and compared by their ratio. The ratio is
infinite where there are gains only, and undefined where there is neither a gain nor a
loss.
-/
namespace KisAutotrader.Strategy
open Series

attribute [local instance] Rounding.atLeastTwo_two Rounding.atLeastTwo_hundred

structure RSIStrategy (K : Type) [Field K] [LinearOrder K] where
  period : ℕ
  oversold : K
  overbought : K
  period_pos : 0 < period
  oversold_pos : 0 < oversold
  ordered : oversold < overbought
  overbought_lt : overbought < 100

namespace RSIStrategy

section Changes
variable {K : Type} [Field K]

/-- `diff`: the first change is missing. -/
def diff (closes : List (Option K)) : List (Option K) :=
  Series.zipWith (fun before after => after - before) (none::closes) closes

/-- The change from each close to the next. -/
def changes : List K → List K
  | x::y::rest => (y - x)::changes (y::rest)
  | _ => []

lemma length_diff (closes : List (Option K)) : (diff closes).length = closes.length := by
  simp [diff, Series.zipWith]

lemma diff_some (x : K) (xs : List K) : diff ((x::xs).map some) = none::(changes (x::xs)).map some := by
  have htail : ∀ (ys : List K) (y : K),
      Series.zipWith (fun before after => after - before) ((y::ys).map some) (ys.map some) =
        (changes (y::ys)).map some := by
    intro ys
    induction ys with
    | nil => intro y; rfl
    | cons z zs ih =>
        intro y
        exact congrArg (some (z - y)::·) (ih z)
  exact congrArg (none::·) (htail xs x)

lemma changes_map_mul (c : K) (xs : List K) : changes (xs.map (c * ·)) = (changes xs).map (c * ·) := by
  induction xs with
  | nil => rfl
  | cons x xs ih =>
      cases xs with
      | nil => rfl
      | cons y ys =>
          change (c * y - c * x)::changes ((y::ys).map (c * ·)) = _
          rw [ih, ← mul_sub]
          rfl

lemma changes_map_add (c : K) (xs : List K) : changes (xs.map (· + c)) = changes xs := by
  induction xs with
  | nil => rfl
  | cons x xs ih =>
      cases xs with
      | nil => rfl
      | cons y ys =>
          change (y + c - (x + c))::changes ((y::ys).map (· + c)) = _
          rw [ih, add_sub_add_right_eq_sub]
          rfl

end Changes

section Model
variable {K : Type} [Field K] [LinearOrder K]

/-- The constructor: a parameter that is not given comes from the settings. -/
def init (scfg : StrategyConfig K) (period : Option ℤ) (oversold overbought : Option K) :
    Except (Error K) (RSIStrategy K) :=
  let period := period.getD scfg.rsiPeriod
  let oversold := oversold.getD scfg.rsiOversold
  let overbought := overbought.getD scfg.rsiOverbought
  if hp : period < 1 then .error (.strategyError [.text "RSI 기간은 1 이상이어야 합니다."])
  else if h : 0 < oversold ∧ oversold < overbought ∧ overbought < 100 then
    .ok ⟨period.toNat, oversold, overbought, by omega, h.1, h.2.1, h.2.2⟩
  else
    .error (.strategyError [.text "임계값이 유효하지 않습니다: 과매도(", .plain oversold, .text ") < 과매수(",
      .plain overbought, .text "), 0 < 값 < 100 이어야 합니다."])

/-- `delta.where(delta > 0, 0.0)`. -/
def gain : Option K → K
  | some delta => if 0 < delta then delta else 0
  | none => 0

/-- `(-delta).where(delta < 0, 0.0)`. -/
def loss : Option K → K
  | some delta => if delta < 0 then -delta else 0
  | none => 0

/-- `100 - 100 / (1 + gain / loss)`. A gain over no loss is infinite and leaves 100, no gain over no
loss is undefined. -/
def rsiOf (gain loss : K) : Option K :=
  if loss = 0 then if gain = 0 then none else some 100
  else some (100 - 100 / (1 + gain / loss))

def calculateRsi (s : RSIStrategy K) (closePrices : List (Option K)) : List (Option K) :=
  let delta := diff closePrices
  let avgGain := ewmAdjusted (1 / (s.period : K)) s.period (delta.map gain)
  let avgLoss := ewmAdjusted (1 / (s.period : K)) s.period (delta.map loss)
  (Series.zipWith rsiOf avgGain avgLoss).map Option.join

def oversoldConfidence (s : RSIStrategy K) (rsi : K) : K := min (max ((s.oversold - rsi) / s.oversold) 0) 1

def overboughtConfidence (s : RSIStrategy K) (rsi : K) : K :=
  let upperRange := 100 - s.overbought
  min (max ((rsi - s.overbought) / upperRange) 0) 1

def signalOf (s : RSIStrategy K) (rsi : K) (price : Option K) (metadata : Meta K) :
    Except (Error K) (Signal K) :=
  if rsi < s.oversold then
    Signal.make .buy (s.oversoldConfidence rsi) (.cell price)
      [.text "과매도 구간 (RSI: ", .fixed rsi, .text " < ", .plain s.oversold, .text ")"] metadata
  else if s.overbought < rsi then
    Signal.make .sell (s.overboughtConfidence rsi) (.cell price)
      [.text "과매수 구간 (RSI: ", .fixed rsi, .text " > ", .plain s.overbought, .text ")"] metadata
  else Signal.make .hold 0 .none [.text "RSI 정상 범위 (", .fixed rsi, .text ")"] metadata

variable [FloorRing K]

def analyze (s : RSIStrategy K) (data : MarketData K) : Except (Error K) (Signal K) :=
  match validateData data with
  | .error e => .error e
  | .ok closes =>
      let shared := lengthMeta data.rows (nanRatio data)
      let minRequired := s.period + 1
      if data.rows < minRequired then
        Signal.make .hold 0 .none (tooShort minRequired data.rows)
          (shared ++ [("last_rsi", .none)] ++ guardMeta "insufficient_length")
      else
        match iloc 1 (s.calculateRsi closes) with
        | none =>
            Signal.make .hold 0 .none [.text "RSI 값이 NaN — 데이터 부족"]
              (shared ++ [("last_rsi", .none)] ++ guardMeta "nan_rsi")
        | some rsi =>
            s.signalOf rsi (iloc 1 closes)
              (shared ++ [("last_rsi", .number rsi), ("guard_triggered", .flag false)])

/-- The decision at an RSI. -/
def decide (s : RSIStrategy K) (rsi : K) : SignalType × K :=
  if rsi < s.oversold then (.buy, s.oversoldConfidence rsi)
  else if s.overbought < rsi then (.sell, s.overboughtConfidence rsi)
  else (.hold, 0)

/-- The analysis of closes none of which is missing. -/
def onCloses (s : RSIStrategy K) (closes : List K) : Except (Error K) (SignalType × K) :=
  decision (s.analyze (.ofCloses (closes.map some)))

end Model

section Laws
variable {K : Type} [Field K] [LinearOrder K]

def lastRsi (s : RSIStrategy K) (closes : List K) : Option K := iloc 1 (s.calculateRsi (closes.map some))

def averageGain (s : RSIStrategy K) (closes : List K) : K :=
  weightedMean (1 - 1 / (s.period : K)) ((diff (closes.map some)).map gain)

def averageLoss (s : RSIStrategy K) (closes : List K) : K :=
  weightedMean (1 - 1 / (s.period : K)) ((diff (closes.map some)).map loss)

/-- The last RSI compares the averages over the whole series. -/
lemma lastRsi_eq {s : RSIStrategy K} {closes : List K} (hlen : s.period + 1 ≤ closes.length) :
    s.lastRsi closes = rsiOf (s.averageGain closes) (s.averageLoss closes) := by
  have hgains : ∀ f : Option K → K,
      iloc 1 (ewmAdjusted (1 / (s.period : K)) s.period ((diff (closes.map some)).map f)) =
        some (weightedMean (1 - 1 / (s.period : K)) ((diff (closes.map some)).map f)) := by
    intro f
    have hcount : ((diff (closes.map some)).map f).length = closes.length := by simp [length_diff]
    refine iloc_one_ewmAdjusted _ (by omega) ?_
    rw [← List.length_pos_iff]
    omega
  have hsame : (ewmAdjusted (1 / (s.period : K)) s.period ((diff (closes.map some)).map gain)).length =
      (ewmAdjusted (1 / (s.period : K)) s.period ((diff (closes.map some)).map loss)).length := by
    simp [ewmAdjusted]
  rw [lastRsi, calculateRsi, iloc_map_join, iloc_zipWith _ hsame, hgains, hgains]
  rfl

lemma gain_nonneg (delta : Option K) : 0 ≤ gain delta := by
  cases delta with
  | none => exact le_rfl
  | some d =>
      by_cases h : 0 < d
      · simp [gain, h, h.le]
      · simp [gain, h]

lemma map_gain_nonneg (deltas : List (Option K)) : ∀ x ∈ deltas.map gain, 0 ≤ x := by
  simp only [List.mem_map]
  rintro x ⟨delta, -, rfl⟩
  exact gain_nonneg delta

/-- Closes with the same changes have the same averages. -/
lemma averages_map_add {s : RSIStrategy K} {closes : List K} (c : K) (hne : closes ≠ []) :
    s.averageGain (closes.map (· + c)) = s.averageGain closes ∧
      s.averageLoss (closes.map (· + c)) = s.averageLoss closes := by
  obtain ⟨x, xs, rfl⟩ := List.exists_cons_of_ne_nil hne
  have hdiff : diff (((x::xs).map (· + c)).map some) = diff ((x::xs).map some) := by
    have hchanges := changes_map_add c (x::xs)
    rw [List.map_cons] at hchanges ⊢
    rw [diff_some, diff_some, hchanges]
  rw [averageGain, averageLoss, hdiff]
  exact ⟨rfl, rfl⟩

variable [IsStrictOrderedRing K]

lemma gain_mul {c : K} (hc : 0 < c) (delta : Option K) : gain (delta.map (c * ·)) = c * gain delta := by
  cases delta with
  | none => simp [gain]
  | some d => simp [gain, mul_pos_iff_of_pos_left hc]

lemma loss_mul {c : K} (hc : 0 < c) (delta : Option K) : loss (delta.map (c * ·)) = c * loss delta := by
  cases delta with
  | none => simp [loss]
  | some d =>
      have hneg : c * d < 0 ↔ d < 0 :=
        ⟨fun h => lt_of_not_ge fun hd => (mul_nonneg hc.le hd).not_gt h, mul_neg_of_pos_of_neg hc⟩
      simp [loss, hneg]

lemma gain_neg (delta : Option K) : gain (delta.map (-·)) = loss delta := by
  cases delta with
  | none => rfl
  | some d => simp [gain, loss]

lemma loss_neg (delta : Option K) : loss (delta.map (-·)) = gain delta := by
  cases delta with
  | none => rfl
  | some d => simp [gain, loss]

lemma loss_nonneg (delta : Option K) : 0 ≤ loss delta := by
  rw [← gain_neg]
  exact gain_nonneg _

lemma map_loss_nonneg (deltas : List (Option K)) : ∀ x ∈ deltas.map loss, 0 ≤ x := by
  simp only [List.mem_map]
  rintro x ⟨delta, -, rfl⟩
  exact loss_nonneg delta

lemma decay_nonneg (s : RSIStrategy K) : 0 ≤ 1 - 1 / (s.period : K) := by
  have hperiod : (1 : K) ≤ s.period := by exact_mod_cast s.period_pos
  rw [sub_nonneg, div_le_one (by linarith)]
  exact hperiod

lemma averageGain_nonneg (s : RSIStrategy K) (closes : List K) : 0 ≤ s.averageGain closes :=
  weightedMean_nonneg s.decay_nonneg (map_gain_nonneg _)

lemma averageLoss_nonneg (s : RSIStrategy K) (closes : List K) : 0 ≤ s.averageLoss closes :=
  weightedMean_nonneg s.decay_nonneg (map_loss_nonneg _)

variable {s : RSIStrategy K} {closes : List K}

/-- Scaled closes have scaled averages. -/
lemma averages_map_mul {c : K} (hc : 0 < c) (hne : closes ≠ []) :
    s.averageGain (closes.map (c * ·)) = c * s.averageGain closes ∧
      s.averageLoss (closes.map (c * ·)) = c * s.averageLoss closes := by
  obtain ⟨x, xs, rfl⟩ := List.exists_cons_of_ne_nil hne
  have hdiff : diff (((x::xs).map (c * ·)).map some) = (diff ((x::xs).map some)).map (Option.map (c * ·)) := by
    have hchanges := changes_map_mul c (x::xs)
    rw [List.map_cons] at hchanges ⊢
    rw [diff_some, diff_some, hchanges]
    simp [Function.comp_def]
  have hgain : (diff (((x::xs).map (c * ·)).map some)).map gain =
      ((diff ((x::xs).map some)).map gain).map (c * ·) := by
    rw [hdiff, List.map_map, List.map_map]
    exact List.map_congr_left fun delta _ => gain_mul hc delta
  have hloss : (diff (((x::xs).map (c * ·)).map some)).map loss =
      ((diff ((x::xs).map some)).map loss).map (c * ·) := by
    rw [hdiff, List.map_map, List.map_map]
    exact List.map_congr_left fun delta _ => loss_mul hc delta
  rw [averageGain, hgain, weightedMean_scale, averageLoss, hloss, weightedMean_scale]
  exact ⟨rfl, rfl⟩

/-- Negated changes exchange the averages. -/
lemma averages_negated {mirrored : List K} (hne : closes ≠ []) (hlen : mirrored.length = closes.length)
    (hneg : changes mirrored = (changes closes).map (-·)) :
    s.averageGain mirrored = s.averageLoss closes ∧ s.averageLoss mirrored = s.averageGain closes := by
  obtain ⟨x, xs, rfl⟩ := List.exists_cons_of_ne_nil hne
  obtain ⟨y, ys, rfl⟩ := List.exists_cons_of_ne_nil (l := mirrored) (by rintro rfl; simp at hlen)
  have hdiff : diff ((y::ys).map some) = (diff ((x::xs).map some)).map (Option.map (-·)) := by
    rw [diff_some, diff_some, hneg]
    simp [Function.comp_def]
  have hgain : (diff ((y::ys).map some)).map gain = (diff ((x::xs).map some)).map loss := by
    rw [hdiff, List.map_map]
    exact List.map_congr_left fun delta _ => gain_neg delta
  have hloss : (diff ((y::ys).map some)).map loss = (diff ((x::xs).map some)).map gain := by
    rw [hdiff, List.map_map]
    exact List.map_congr_left fun delta _ => loss_neg delta
  exact ⟨congrArg (weightedMean _) hgain, congrArg (weightedMean _) hloss⟩

/-- The RSI is the share of the gain in percent. -/
lemma rsiOf_eq {g l : K} (hg : 0 ≤ g) (hl : 0 ≤ l) (hne : g ≠ 0 ∨ l ≠ 0) :
    rsiOf g l = some (100 * (g / (g + l))) := by
  unfold rsiOf
  by_cases hzero : l = 0
  · subst hzero
    have hgain : g ≠ 0 := hne.resolve_right (by simp)
    simp [hgain]
  · have hlpos : 0 < l := lt_of_le_of_ne hl (Ne.symm hzero)
    have hsum : g + l ≠ 0 := by linarith
    have hratio : 1 + g / l = (g + l) / l := by
      field_simp
      ring
    rw [if_neg hzero, hratio]
    congr 1
    field_simp
    ring

lemma oversoldConfidence_bounds (s : RSIStrategy K) (rsi : K) :
    0 ≤ s.oversoldConfidence rsi ∧ s.oversoldConfidence rsi ≤ 1 :=
  ⟨le_min (le_max_right _ _) zero_le_one, min_le_right _ _⟩

lemma overboughtConfidence_bounds (s : RSIStrategy K) (rsi : K) :
    0 ≤ s.overboughtConfidence rsi ∧ s.overboughtConfidence rsi ≤ 1 :=
  ⟨le_min (le_max_right _ _) zero_le_one, min_le_right _ _⟩

lemma decide_bounds (s : RSIStrategy K) (rsi : K) : 0 ≤ (s.decide rsi).2 ∧ (s.decide rsi).2 ≤ 1 := by
  unfold decide
  split_ifs
  · exact s.oversoldConfidence_bounds rsi
  · exact s.overboughtConfidence_bounds rsi
  · exact ⟨le_rfl, zero_le_one⟩

lemma decision_signalOf (s : RSIStrategy K) (rsi : K) (price : Option K) (metadata : Meta K) :
    decision (s.signalOf rsi price metadata) = .ok (s.decide rsi) := by
  unfold signalOf decide
  split_ifs
  · rw [decision_make _ _ _ _ (s.oversoldConfidence_bounds rsi)]
  · rw [decision_make _ _ _ _ (s.overboughtConfidence_bounds rsi)]
  · rw [decision_make _ _ _ _ ⟨le_rfl, zero_le_one⟩]

/-- With thresholds symmetric about 50 the two zones mirror each other. -/
lemma decide_mirrored (hsum : s.oversold + s.overbought = 100) (rsi : K) :
    s.decide (100 - rsi) = ((s.decide rsi).1.opposite, (s.decide rsi).2) := by
  have hover : s.overbought = 100 - s.oversold := by linarith
  have hlow : 100 - rsi < s.oversold ↔ s.overbought < rsi := by constructor <;> intro _ <;> linarith
  have hhigh : s.overbought < 100 - rsi ↔ rsi < s.oversold := by constructor <;> intro _ <;> linarith
  have hbuy : s.oversoldConfidence (100 - rsi) = s.overboughtConfidence rsi := by
    rw [oversoldConfidence, overboughtConfidence, hover]
    congr 3 <;> ring
  have hsell : s.overboughtConfidence (100 - rsi) = s.oversoldConfidence rsi := by
    rw [oversoldConfidence, overboughtConfidence, hover]
    congr 3 <;> ring
  have hexclusive := s.ordered
  unfold decide
  simp only [hlow, hhigh, hbuy, hsell]
  split_ifs with hsold hbought
  · linarith
  · rfl
  · rfl
  · rfl

variable [FloorRing K]

lemma onCloses_eq {rsi : K} (hlen : s.period + 1 ≤ closes.length) (hrsi : s.lastRsi closes = some rsi) :
    s.onCloses closes = .ok (s.decide rsi) := by
  have hne : closes.map some ≠ [] := by
    rintro h
    simp [List.map_eq_nil_iff.1 h] at hlen
  rw [lastRsi] at hrsi
  rw [onCloses, analyze, validateData_ofCloses hne]
  simp only [MarketData.rows_ofCloses, List.length_map, if_neg (show ¬closes.length < s.period + 1 by omega),
    hrsi]
  exact decision_signalOf _ _ _ _

/-- The last RSI is a percentage that scaling and shifting the prices keep and negating their
changes reflects, and with it, for symmetric thresholds, the signal. -/
theorem rsi_laws (s : RSIStrategy K) (closes : List K) (hlen : s.period + 1 ≤ closes.length)
    (hmoved : s.averageGain closes ≠ 0 ∨ s.averageLoss closes ≠ 0) :
    ∃ rsi d, s.lastRsi closes = some rsi ∧ s.onCloses closes = .ok d ∧
      0 ≤ rsi ∧ rsi ≤ 100 ∧ 0 ≤ d.2 ∧ d.2 ≤ 1 ∧
      (∀ c : K, 0 < c → s.lastRsi (closes.map (c * ·)) = some rsi) ∧
      (∀ c : K, s.lastRsi (closes.map (· + c)) = some rsi) ∧
      ∀ mirrored : List K, mirrored.length = closes.length → changes mirrored = (changes closes).map (-·) →
        s.lastRsi mirrored = some (100 - rsi) ∧
          (s.oversold + s.overbought = 100 → s.onCloses mirrored = .ok (d.1.opposite, d.2)) := by
  have hne : closes ≠ [] := by
    rintro rfl
    simp at hlen
  have hg := s.averageGain_nonneg closes
  have hl := s.averageLoss_nonneg closes
  have hsum : 0 < s.averageGain closes + s.averageLoss closes := by
    rcases hmoved with h | h
    · exact add_pos_of_pos_of_nonneg (lt_of_le_of_ne hg h.symm) hl
    · exact add_pos_of_nonneg_of_pos hg (lt_of_le_of_ne hl h.symm)
  have hrsi : s.lastRsi closes = some (100 * (s.averageGain closes / (s.averageGain closes + s.averageLoss closes))) := by
    rw [lastRsi_eq hlen, rsiOf_eq hg hl hmoved]
  refine ⟨_, _, hrsi, onCloses_eq hlen hrsi, by positivity, ?_, (s.decide_bounds _).1, (s.decide_bounds _).2,
    ?_, ?_, ?_⟩
  · have hshare : s.averageGain closes / (s.averageGain closes + s.averageLoss closes) ≤ 1 :=
      (div_le_one hsum).2 (by linarith)
    linarith
  · intro c hc
    obtain ⟨hgain, hloss⟩ := averages_map_mul (s := s) hc hne
    rw [lastRsi_eq (by simpa using hlen), hgain, hloss, rsiOf_eq (by positivity) (by positivity)
      (hmoved.imp (mul_ne_zero hc.ne') (mul_ne_zero hc.ne')), ← mul_add, mul_div_mul_left _ _ hc.ne']
  · intro c
    obtain ⟨hgain, hloss⟩ := averages_map_add (s := s) c hne
    rw [lastRsi_eq (by simpa using hlen), hgain, hloss, rsiOf_eq hg hl hmoved]
  · intro mirrored hcount hneg
    obtain ⟨hgain, hloss⟩ := averages_negated (s := s) hne hcount hneg
    have hmirror : s.lastRsi mirrored =
        some (100 - 100 * (s.averageGain closes / (s.averageGain closes + s.averageLoss closes))) := by
      rw [lastRsi_eq (by omega), hgain, hloss, rsiOf_eq hl hg hmoved.symm,
        add_comm (s.averageLoss closes)]
      congr 1
      have htotal := hsum.ne'
      field_simp
      ring
    refine ⟨hmirror, fun hthresholds => ?_⟩
    rw [onCloses_eq (by omega) hmirror, decide_mirrored hthresholds]

/-- The strategy with period 2 and thresholds 30 and 70. -/
def short : RSIStrategy ℚ := ⟨2, 30, 70, by norm_num, by norm_num, by norm_num, by norm_num⟩

theorem rsi_laws_short :
    ∃ rsi, short.lastRsi [10, 11, 10, 12] = some rsi ∧ short.lastRsi [10, 9, 10, 8] = some (100 - rsi) := by
  have hgain : short.averageGain [10, 11, 10, 12] ≠ 0 := by
    norm_num [averageGain, short, diff, Series.zipWith, gain, weightedMean]
  obtain ⟨rsi, d, hrsi, -, -, -, -, -, -, -, hmirror⟩ := rsi_laws short [10, 11, 10, 12] (by simp [short])
    (Or.inl hgain)
  exact ⟨rsi, hrsi, (hmirror [10, 9, 10, 8] rfl (by norm_num [changes])).1⟩

end Laws
end RSIStrategy
end KisAutotrader.Strategy
