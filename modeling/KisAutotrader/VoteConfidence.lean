import KisAutotrader.RiskManager
import KisAutotrader.WeightedVote

/-!
# The confidence of a vote and its evidence

No vote should be more confident than the most confident signal of its direction. The mean of
the winners never is; the share of the winning weight can be.
-/
namespace KisAutotrader.Ensemble.VoteConfidence
open WeightedVote

variable {δ : Type}

/-- A vote with a direction is no more confident than some signal of that direction. -/
def Bounded (signals : List Signal) (v : Vote) : Prop :=
  v.signalType ≠ .hold → ∃ s ∈ votesFor v.signalType signals, v.confidence ≤ s.confidence

/-- Some signal of the direction is as confident as the direction's share of all weight: the
weight against the direction is large enough. -/
def Opposed (e : EnsembleStrategy δ) (signals : List Signal) (direction : SignalType) : Prop :=
  ∃ s ∈ votesFor direction signals, (1 - s.confidence) * performanceWeight e signals direction ≤
    s.confidence * performanceWeight e signals (swapType direction)

/-- The heavier direction of a vote by past performance is opposed. -/
def Contested (e : EnsembleStrategy δ) (signals : List Signal) : Prop :=
  e.method = .performance → ∀ direction, direction ≠ .hold →
    performanceWeight e signals (swapType direction) < performanceWeight e signals direction →
    Opposed e signals direction

def toSignal (v : Vote) : Signal := { signalType := v.signalType, confidence := v.confidence }

/-! ### Means -/

/-- Some signal is at least as confident as the mean. -/
theorem mean_le_some {signals : List Signal} (h : signals ≠ []) :
    ∃ s ∈ signals, weight signals / signals.length ≤ s.confidence := by
  have hcount : (0 : ℚ) < signals.length := by exact_mod_cast List.length_pos_iff.mpr h
  have hsum : (signals.map fun _ => weight signals / signals.length).sum =
      (signals.map Signal.confidence).sum := by
    rw [List.map_const', List.sum_replicate, nsmul_eq_mul, mul_div_cancel₀ _ hcount.ne']
    rfl
  exact List.exists_le_of_sum_le h _ _ hsum.le

theorem bounded_majority (signals : List Signal) : Bounded signals (majorityVote signals) := by
  intro hv
  unfold majorityVote at hv ⊢
  dsimp only at hv ⊢
  split_ifs at hv ⊢ with hnone htie hbuy
  · simp [hold] at hv
  · simp [hold] at hv
  · apply mean_le_some
    rintro hempty
    simp [hempty] at hbuy
  · apply mean_le_some
    rintro hempty
    simp only [hempty, List.length_nil] at htie hbuy
    omega

theorem bounded_weighted (e : EnsembleStrategy δ) {signals : List Signal} (hvalid : Valid signals) :
    Bounded signals (weightedVote e signals) := by
  intro hv
  have hsound := sound_tally e.strategies hvalid
  have hdirected : Directed e.soloBuyMinConfidence e.trendFilterEnabled (tally e.strategies signals)
      (weightedVote e signals) := decideTally_directed hsound hv
  obtain ⟨hpos, hmean⟩ := hdirected.confidence_bounds hsound hv
  have hvotes : weightFor (tally e.strategies signals) (weightedVote e signals).signalType /
        votes (tally e.strategies signals) (weightedVote e signals).signalType =
      weight (votesFor (weightedVote e signals).signalType signals) /
        (votesFor (weightedVote e signals).signalType signals).length := by
    cases hd : (weightedVote e signals).signalType with
    | buy => rfl
    | sell => rfl
    | hold => exact absurd hd hv
  rw [hvotes] at hmean
  have hsome : votesFor (weightedVote e signals).signalType signals ≠ [] := by
    intro hempty
    rw [hempty] at hmean
    simp only [weight, List.map_nil, List.sum_nil, zero_div] at hmean
    exact absurd hpos (not_lt.mpr hmean)
  obtain ⟨s, hs, hle⟩ := mean_le_some hsome
  exact ⟨s, hs, hmean.trans hle⟩

/-! ### Shares -/

section Shares
variable {e : EnsembleStrategy δ} {signals : List Signal}

theorem performanceWeight_nonneg (hvalid : Valid signals)
    (hweights : ∀ name w, e.strategyWeights.get? name = some w → 0 ≤ w) (direction : SignalType) :
    0 ≤ performanceWeight e signals direction := by
  apply List.sum_nonneg
  intro q hq
  obtain ⟨x, hx, rfl⟩ := List.mem_map.mp hq
  split_ifs
  · have hconfidence := (hvalid x.2 (List.of_mem_zip hx).2).1
    have hweight : 0 ≤ (e.strategyWeights.get? x.1.name).getD (1 / 2) := by
      cases hw : e.strategyWeights.get? x.1.name with
      | none => norm_num
      | some w => exact hweights _ w hw
    exact mul_nonneg hconfidence hweight
  · exact le_rfl

/-- The share of the heavier direction is within the evidence exactly if it is opposed. -/
theorem bounded_performanceFor {direction : SignalType} (hd : direction ≠ .hold) {w l : ℚ}
    (hlarger : l < w) (hl : 0 ≤ l) : Bounded signals (performanceFor direction w l) ↔
      ∃ s ∈ votesFor direction signals, (1 - s.confidence) * w ≤ s.confidence * l := by
  have htotal : 0 < w + l := by linarith
  have hshare : (performanceFor direction w l).confidence = w / (w + l) := by
    simp only [performanceFor, if_pos htotal]
    exact min_eq_left ((div_le_one htotal).mpr (by linarith))
  have heach : ∀ s : Signal, (performanceFor direction w l).confidence ≤ s.confidence ↔
      (1 - s.confidence) * w ≤ s.confidence * l := by
    intro s
    rw [hshare, div_le_iff₀ htotal]
    constructor <;> intro h <;> linarith
  unfold Bounded
  simp only [heach]
  exact ⟨fun h => h hd, fun h _ => h⟩

theorem swapType_ne {d direction : SignalType} (hd : d ≠ .hold) (hne : d ≠ direction)
    (h : direction ≠ .hold) : d = swapType direction := by
  cases d <;> cases direction <;> simp_all [swapType]

theorem bounded_performance (hvalid : Valid signals) (hmethod : e.method = .performance)
    (hweights : ∀ name w, e.strategyWeights.get? name = some w → 0 ≤ w) :
    Bounded signals (performanceVote e signals) ↔ Contested e signals := by
  have hnonneg := performanceWeight_nonneg hvalid hweights
  -- the heavier direction is the only one the condition speaks of
  have honly : ∀ direction, direction ≠ .hold →
      performanceWeight e signals (swapType direction) < performanceWeight e signals direction →
      (Contested e signals ↔ Opposed e signals direction) := by
    intro direction hd hlarger
    refine ⟨fun h => h hmethod direction hd hlarger, fun h _ d hne hless => ?_⟩
    by_cases heq : d = direction
    · exact heq ▸ h
    · obtain rfl := swapType_ne hne heq hd
      cases direction <;> simp only [swapType] at hless hlarger <;> exact absurd hlarger hless.not_gt
  have hquiet : ∀ reason, (∀ direction, direction ≠ .hold →
      ¬ performanceWeight e signals (swapType direction) < performanceWeight e signals direction) →
      (Bounded signals (hold reason) ↔ Contested e signals) := by
    intro reason hnone
    exact iff_of_true (fun h => absurd rfl h) fun _ d hd hlarger => absurd hlarger (hnone d hd)
  unfold performanceVote
  dsimp only
  split_ifs with hzero htie hbuy
  · apply hquiet
    intro d hd
    cases d <;> simp_all [swapType]
  · apply hquiet
    intro d hd
    cases d <;> simp_all [swapType]
  · rw [honly .buy (by decide) hbuy]
    exact bounded_performanceFor (by decide) hbuy (hnonneg _)
  · have hsell : performanceWeight e signals .buy < performanceWeight e signals .sell :=
      lt_of_le_of_ne (not_lt.mp hbuy) htie
    rw [honly .sell (by decide) hsell]
    exact bounded_performanceFor (by decide) hsell (hnonneg _)

end Shares

/-- The gate on low confidence stops a purchase all votes for which are below it. -/
theorem gate_of_bounded {signals : List Signal} {v : Vote} (h : Bounded signals v)
    (hbuy : v.signalType = .buy) {l : RiskLimits}
    (hbelow : ∀ s ∈ votesFor .buy signals, s.confidence < l.minConfidence) (clock : MarketClock)
    (now : Time) (balance : ℚ) (r : RiskManager) :
    r.checkBuyGates l clock now (toSignal v) balance ≠ none := by
  obtain ⟨s, hs, hle⟩ := h (by simp [hbuy])
  rw [hbuy] at hs
  have hlow : v.confidence < l.minConfidence := hle.trans_lt (hbelow s hs)
  simp only [RiskManager.checkBuyGates, toSignal, hbuy, ne_eq, not_true, if_false, hlow, if_true]
  split_ifs <;> simp

/-- Two strategies of equal weight. -/
def pair (method : Method) (first second : Signal) : EnsembleStrategy Unit :=
  { strategies := [⟨"RSI", false, fun _ => first⟩, ⟨"MACD", true, fun _ => second⟩]
    atLeastTwo := le_rfl
    method }

end KisAutotrader.Ensemble.VoteConfidence
