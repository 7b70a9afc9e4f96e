import Mathlib.Algebra.BigOperators.Group.List.Basic
import KisAutotrader.Ensemble

/-!
# The weighted vote

What a directional result needs, and how the result changes when the votes are permuted,
strengthened or turned round.
-/
namespace KisAutotrader.Ensemble.WeightedVote

variable {δ : Type}

/-- A list of votes with strengths between zero and one. -/
def Valid (signals : List Signal) : Prop := ∀ s ∈ signals, 0 ≤ s.confidence ∧ s.confidence ≤ 1

/-- What the tally of valid votes satisfies. -/
structure Sound (t : Tally) : Prop where
  buy_nonneg : 0 ≤ t.buyW
  sell_nonneg : 0 ≤ t.sellW
  buy_le : t.buyW ≤ t.nBuy
  sell_le : t.sellW ≤ t.nSell

theorem weight_bounds {signals : List Signal} (h : Valid signals) :
    0 ≤ weight signals ∧ weight signals ≤ signals.length := by
  induction signals with
  | nil => simp [weight]
  | cons s signals ih =>
    obtain ⟨hnonneg, hle⟩ := h s (by simp)
    obtain ⟨hlow, hhigh⟩ := ih fun x hx => h x (by simp [hx])
    simp only [weight, List.map_cons, List.sum_cons, List.length_cons, Nat.cast_add,
      Nat.cast_one] at hlow hhigh ⊢
    constructor
    · linarith
    · linarith

theorem Valid.votesFor {signals : List Signal} (h : Valid signals) (direction : SignalType) :
    Valid (votesFor direction signals) := fun s hs => h s (List.mem_of_mem_filter hs)

theorem sound_tally (strategies : List (BaseStrategy δ)) {signals : List Signal}
    (h : Valid signals) : Sound (tally strategies signals) :=
  ⟨(weight_bounds (h.votesFor .buy)).1, (weight_bounds (h.votesFor .sell)).1,
    (weight_bounds (h.votesFor .buy)).2, (weight_bounds (h.votesFor .sell)).2⟩

/-! ### The strength of a winner -/

section Strength
variable {w w' l : ℚ} {n : ℕ}

theorem strength_pos (hw : 0 < w) (hl : 0 ≤ l) (hn : w ≤ n) : 0 < strength w l n := by
  have hcount : (0 : ℚ) < n := hw.trans_le hn
  exact lt_min (by positivity) one_pos

theorem strength_le_mean (hw : 0 < w) (hl : 0 ≤ l) (hn : w ≤ n) : strength w l n ≤ w / n := by
  have hcount : (0 : ℚ) < n := hw.trans_le hn
  have hshare : w / (w + l) ≤ 1 := by
    rw [div_le_one (by linarith)]
    linarith
  calc strength w l n ≤ w / n * (w / (w + l)) := min_le_left _ _
    _ ≤ w / n * 1 := mul_le_mul_of_nonneg_left hshare (by positivity)
    _ = w / n := mul_one _

theorem share_mono (hw : 0 < w) (hl : 0 ≤ l) (hle : w ≤ w') : w / (w + l) ≤ w' / (w' + l) := by
  rw [div_le_div_iff₀ (by linarith) (by linarith)]
  nlinarith

/-- More weight for the winner makes it no weaker. -/
theorem strength_mono (hw : 0 < w) (hl : 0 ≤ l) (hle : w ≤ w') :
    strength w l n ≤ strength w' l n := by
  have hmean : w / n ≤ w' / n := div_le_div_of_nonneg_right hle (Nat.cast_nonneg n)
  have hshare := share_mono hw hl hle
  have hproduct : w / n * (w / (w + l)) ≤ w' / n * (w' / (w' + l)) := by
    have hleft : 0 ≤ w / (w + l) := by positivity
    have hright : 0 ≤ w' / n := div_nonneg (hw.le.trans hle) (Nat.cast_nonneg n)
    exact mul_le_mul hmean hshare hleft hright
  exact min_le_min_right 1 hproduct

/-- A single vote counts by its own strength. -/
theorem strength_single (w l : ℚ) : strength w l 1 ≤ w * w / (w + l) := by
  calc strength w l 1 ≤ w / (1 : ℕ) * (w / (w + l)) := min_le_left _ _
    _ = w * w / (w + l) := by
      rw [Nat.cast_one, div_one, mul_div_assoc]

theorem strength_le_one (w l : ℚ) (n : ℕ) : strength w l n ≤ 1 := min_le_right _ _

end Strength

/-! ### Which results have a direction -/

/-- How many voted for a direction, with what weight, and the weight against it. -/
def votes (t : Tally) : SignalType → ℕ
  | .buy => t.nBuy
  | .sell => t.nSell
  | .hold => t.holdCount

def weightFor (t : Tally) : SignalType → ℚ
  | .buy => t.buyW
  | .sell => t.sellW
  | .hold => 0

def weightAgainst (t : Tally) : SignalType → ℚ
  | .buy => t.sellW
  | .sell => t.buyW
  | .hold => 0

/-- Enough agreement for a direction: two votes, or one strong purchase that the trend
filter admits. -/
def Agreed (solo : ℚ) (trendFilter : Bool) (t : Tally) (direction : SignalType) : Prop :=
  2 ≤ votes t direction ∨
    direction = .buy ∧ t.nBuy = 1 ∧ solo ≤ t.buyW * t.buyW / (t.buyW + t.sellW) ∧
      (trendFilter = true → t.trendBuy = true)

/-- What a result with a direction rests on. -/
structure Directed (solo : ℚ) (trendFilter : Bool) (t : Tally) (v : Vote) : Prop where
  larger : weightAgainst t v.signalType < weightFor t v.signalType
  holds : 4 * t.holdCount ≤ 3 * t.total
  agreed : Agreed solo trendFilter t v.signalType
  confidence : v.confidence =
    strength (weightFor t v.signalType) (weightAgainst t v.signalType) (votes t v.signalType)

section Results
variable {solo : ℚ} {trendFilter : Bool} {t : Tally}

theorem decideFor_directed (winner : SignalType) (hsound : Sound t)
    (hlarger : weightAgainst t winner < weightFor t winner)
    (hholds : 4 * t.holdCount ≤ 3 * t.total)
    (hv : (decideFor solo trendFilter t winner (weightFor t winner) (weightAgainst t winner)
      (votes t winner)).signalType ≠ .hold) :
    Directed solo trendFilter t (decideFor solo trendFilter t winner (weightFor t winner)
      (weightAgainst t winner) (votes t winner)) := by
  unfold decideFor at hv ⊢
  split_ifs at hv ⊢ with htrend hfew hsolo
  · simp [hold] at hv
  · obtain ⟨rfl, hsolo⟩ := hsolo
    have hone : t.nBuy = 1 := by
      have hpos : (0 : ℚ) < t.nBuy := (hsound.sell_nonneg.trans_lt hlarger).trans_le hsound.buy_le
      have hsome : 0 < t.nBuy := by exact_mod_cast hpos
      simp only [votes] at hfew
      omega
    refine ⟨hlarger, hholds, Or.inr ⟨rfl, hone, ?_, fun hfilter => ?_⟩, rfl⟩
    · rw [votes, hone] at hsolo
      exact hsolo.trans (strength_single _ _)
    · by_contra hno
      exact htrend ⟨hfilter, rfl, hfew, by simpa using hno⟩
  · simp [hold] at hv
  · exact ⟨hlarger, hholds, Or.inl (not_lt.mp hfew), rfl⟩

/-- A result with a direction rests on enough votes. -/
theorem decideTally_directed (hsound : Sound t)
    (hv : (decideTally solo trendFilter t).signalType ≠ .hold) :
    Directed solo trendFilter t (decideTally solo trendFilter t) := by
  unfold decideTally at hv ⊢
  split_ifs at hv ⊢ with hmajority hnone htie hbuy
  · simp [hold] at hv
  · simp [hold] at hv
  · simp [hold] at hv
  all_goals
    have hholds : 4 * t.holdCount ≤ 3 * t.total := by
      rw [not_lt] at hmajority
      have hcount : (4 * t.holdCount : ℚ) ≤ 3 * t.total := by linarith
      exact_mod_cast hcount
  · exact decideFor_directed .buy hsound hbuy hholds hv
  · have hsell : t.buyW < t.sellW := lt_of_le_of_ne (not_lt.mp hbuy) htie
    exact decideFor_directed .sell hsound hsell hholds hv

theorem Directed.confidence_bounds {v : Vote} (h : Directed solo trendFilter t v)
    (hsound : Sound t) (hv : v.signalType ≠ .hold) :
    0 < v.confidence ∧ v.confidence ≤ weightFor t v.signalType / votes t v.signalType := by
  have hagainst : 0 ≤ weightAgainst t v.signalType := by
    cases hd : v.signalType with
    | buy => exact hsound.sell_nonneg
    | sell => exact hsound.buy_nonneg
    | hold => exact le_rfl
  have hcount : weightFor t v.signalType ≤ votes t v.signalType := by
    cases hd : v.signalType with
    | buy => exact hsound.buy_le
    | sell => exact hsound.sell_le
    | hold => exact absurd hd hv
  have hpos := hagainst.trans_lt h.larger
  rw [h.confidence]
  exact ⟨strength_pos hpos hagainst hcount, strength_le_mean hpos hagainst hcount⟩

end Results

/-! ### Permuted votes -/

theorem trendBuys_types (strategies : List (BaseStrategy δ)) (signals : List Signal) :
    trendBuys strategies signals = (strategies.zip (signals.map Signal.signalType)).any
      fun x => x.2 = .buy && x.1.isTrendFollowing := by
  unfold trendBuys
  rw [List.zip_map_right, List.any_map]
  rfl

/-- The tally of strategies and signals depends on neither's order. -/
theorem tally_perm {strategies strategies' : List (BaseStrategy δ)} {signals signals' : List Signal}
    (hlength : strategies.length = signals.length)
    (hlength' : strategies'.length = signals'.length)
    (h : (strategies.zip signals).Perm (strategies'.zip signals')) :
    tally strategies signals = tally strategies' signals' := by
  have hsignals : signals.Perm signals' := by
    have hmap := h.map Prod.snd
    rwa [List.map_snd_zip hlength.ge, List.map_snd_zip hlength'.ge] at hmap
  have hvotes : ∀ direction, (votesFor direction signals).Perm (votesFor direction signals') :=
    fun direction => hsignals.filter _
  have hweight : ∀ direction,
      weight (votesFor direction signals) = weight (votesFor direction signals') :=
    fun direction => ((hvotes direction).map _).sum_eq
  simp only [tally, (hvotes _).length_eq, hweight, hsignals.length_eq]
  congr 1
  exact h.any_eq

/-! ### A stronger purchase -/

def raise (s : Signal) (confidence : ℚ) : Signal := { s with confidence }

theorem tally_raise (strategies : List (BaseStrategy δ)) (before after : List Signal) {s : Signal}
    (hs : s.signalType = .buy) (c : ℚ) :
    tally strategies (before ++ raise s c::after) =
      { tally strategies (before ++ s::after) with
        buyW := (tally strategies (before ++ s::after)).buyW + (c - s.confidence) } := by
  have htypes : (before ++ raise s c::after).map Signal.signalType =
      (before ++ s::after).map Signal.signalType := by
    simp [raise]
  have htrend : trendBuys strategies (before ++ raise s c::after) =
      trendBuys strategies (before ++ s::after) := by
    rw [trendBuys_types, htypes, trendBuys_types]
  simp only [tally, htrend]
  simp only [votesFor, weight, raise, List.filter_append, List.filter_cons, hs, List.length_append,
    List.length_cons, List.map_append, List.sum_append]
  simp
  ring

section Raised
variable {solo : ℚ} {trendFilter : Bool} {t : Tally}

theorem decideTally_larger (solo : ℚ) (trendFilter : Bool)
    (hholds : 4 * t.holdCount ≤ 3 * t.total) (hsell : 0 ≤ t.sellW) (hlarger : t.sellW < t.buyW) :
    decideTally solo trendFilter t =
      decideFor solo trendFilter t .buy t.buyW t.sellW t.nBuy := by
  have hmajority : ¬ (t.holdCount : ℚ) > t.total * 3 / 4 := by
    have hcount : (4 * t.holdCount : ℚ) ≤ 3 * t.total := by exact_mod_cast hholds
    linarith
  have hpos : t.buyW ≠ 0 := (hsell.trans_lt hlarger).ne'
  simp [decideTally, hmajority, hpos, hlarger.ne', hlarger]

/-- More weight keeps a purchase, at no less strength. -/
theorem decideFor_raise {t' : Tally} {w w' l : ℚ} {n : ℕ} (htrend : t'.trendBuy = t.trendBuy)
    (hw : 0 < w) (hl : 0 ≤ l) (hle : w ≤ w')
    (hbuy : (decideFor solo trendFilter t .buy w l n).signalType = .buy) :
    (decideFor solo trendFilter t' .buy w' l n).signalType = .buy ∧
      (decideFor solo trendFilter t .buy w l n).confidence ≤
        (decideFor solo trendFilter t' .buy w' l n).confidence := by
  have hstrength : strength w l n ≤ strength w' l n := strength_mono hw hl hle
  unfold decideFor at hbuy ⊢
  rw [htrend]
  split_ifs at hbuy ⊢ with hfilter hfew hafter hbefore hbefore
  · simp [hold] at hbuy
  · exact ⟨rfl, hstrength⟩
  · simp [hold] at hbuy
  · exact absurd ⟨rfl, hbefore.2.trans hstrength⟩ hafter
  · simp [hold] at hbuy
  · exact ⟨rfl, hstrength⟩

theorem decideTally_raise (hsound : Sound t) {x : ℚ} (hx : 0 ≤ x)
    (hbuy : (decideTally solo trendFilter t).signalType = .buy) :
    (decideTally solo trendFilter { t with buyW := t.buyW + x }).signalType = .buy ∧
      (decideTally solo trendFilter t).confidence ≤
        (decideTally solo trendFilter { t with buyW := t.buyW + x }).confidence := by
  have hdirected : Directed solo trendFilter t (decideTally solo trendFilter t) :=
    decideTally_directed hsound (by simp [hbuy])
  have hlarger := hdirected.larger
  rw [hbuy] at hlarger
  have hgrown : t.sellW < t.buyW + x := lt_add_of_lt_of_nonneg hlarger hx
  have hbefore := decideTally_larger solo trendFilter
    hdirected.holds hsound.sell_nonneg hlarger
  have hafter := decideTally_larger solo trendFilter (t := { t with buyW := t.buyW + x })
    hdirected.holds hsound.sell_nonneg hgrown
  rw [hbefore] at hbuy ⊢
  rw [hafter]
  exact decideFor_raise rfl (hsound.sell_nonneg.trans_lt hlarger) hsound.sell_nonneg
    (le_add_of_nonneg_right hx) hbuy

end Raised

/-! ### Directions exchanged -/

def swapType : SignalType → SignalType
  | .buy => .sell
  | .sell => .buy
  | .hold => .hold

def swapSignal (s : Signal) : Signal := { s with signalType := swapType s.signalType }

def swapReason : Reason → Reason
  | .majority winner votes total => .majority (swapType winner) votes total
  | .weighted winner n w l base opp => .weighted (swapType winner) n w l base opp
  | .performance winner w l => .performance (swapType winner) w l
  | reason => reason

def swapVote (v : Vote) : Vote := ⟨swapType v.signalType, v.confidence, swapReason v.reason⟩

theorem swapType_eq_iff (a b : SignalType) : swapType a = b ↔ a = swapType b := by
  cases a <;> cases b <;> simp [swapType]

theorem votesFor_swap (direction : SignalType) (signals : List Signal) :
    votesFor direction (signals.map swapSignal) =
      (votesFor (swapType direction) signals).map swapSignal := by
  unfold votesFor
  rw [List.filter_map]
  congr 1
  apply List.filter_congr
  intro s _
  simp [swapSignal, swapType_eq_iff]

theorem weight_swap (signals : List Signal) : weight (signals.map swapSignal) = weight signals := by
  unfold weight
  rw [List.map_map]
  rfl

/-- Without the solo purchase and the trend filter the two directions are treated alike. -/
theorem decideFor_swap {solo : ℚ} (hsolo : 1 < solo) (t t' : Tally) (winner : SignalType)
    (w l : ℚ) (n : ℕ) : decideFor solo false t' (swapType winner) w l n =
      swapVote (decideFor solo false t winner w l n) := by
  have hnever : ¬ solo ≤ strength w l n := not_le.mpr ((strength_le_one w l n).trans_lt hsolo)
  unfold decideFor
  simp only [Bool.false_eq_true, false_and, if_false, ge_iff_le, hnever, and_false]
  split_ifs
  · rfl
  · rfl

theorem decideTally_swap {solo : ℚ} (hsolo : 1 < solo) {t t' : Tally}
    (hcounts : t'.holdCount = t.holdCount ∧ t'.total = t.total)
    (hvotes : t'.nBuy = t.nSell ∧ t'.nSell = t.nBuy)
    (hweights : t'.buyW = t.sellW ∧ t'.sellW = t.buyW) :
    decideTally solo false t' = swapVote (decideTally solo false t) := by
  unfold decideTally
  rw [hcounts.1, hcounts.2, hvotes.1, hvotes.2, hweights.1, hweights.2]
  rcases lt_trichotomy t.buyW t.sellW with hless | hequal | hmore
  · have hsell := decideFor_swap hsolo t t' .sell t.sellW t.buyW t.nSell
    simp only [and_comm (a := t.sellW = 0), hless.ne, hless.ne', hless, not_lt_of_gt hless,
      gt_iff_lt, if_true, if_false]
    split_ifs
    · rfl
    · rfl
    · exact hsell
  · simp only [hequal, gt_iff_lt, if_true]
    split_ifs <;> rfl
  · have hbuy := decideFor_swap hsolo t t' .buy t.buyW t.sellW t.nBuy
    simp only [and_comm (a := t.sellW = 0), hmore.ne, hmore.ne', hmore, not_lt_of_gt hmore,
      gt_iff_lt, if_true, if_false]
    split_ifs
    · rfl
    · rfl
    · exact hbuy

/-- The weighted vote of valid signals: what a direction rests on and how strong it is, the
order of the votes does not matter, a stronger purchase keeps a purchase at no less strength,
and without the solo purchase and the trend filter exchanged directions exchange the result. -/
theorem weighted_vote (e : EnsembleStrategy δ) (signals : List Signal)
    (hlength : e.strategies.length = signals.length) (hvalid : Valid signals) :
    let t := tally e.strategies signals
    let v := weightedVote e signals
    (v.signalType ≠ .hold →
      weightAgainst t v.signalType < weightFor t v.signalType ∧
      4 * t.holdCount ≤ 3 * t.total ∧
      Agreed e.soloBuyMinConfidence e.trendFilterEnabled t v.signalType ∧
      0 < v.confidence ∧ v.confidence ≤ weightFor t v.signalType / votes t v.signalType) ∧
    (∀ (e' : EnsembleStrategy δ) (signals' : List Signal),
      e'.strategies.length = signals'.length →
      (e.strategies.zip signals).Perm (e'.strategies.zip signals') →
      e'.soloBuyMinConfidence = e.soloBuyMinConfidence →
      e'.trendFilterEnabled = e.trendFilterEnabled → weightedVote e' signals' = v) ∧
    (∀ before s after c, signals = before ++ s::after → s.signalType = .buy → s.confidence ≤ c →
      v.signalType = .buy →
      (weightedVote e (before ++ raise s c::after)).signalType = .buy ∧
      v.confidence ≤ (weightedVote e (before ++ raise s c::after)).confidence) ∧
    (1 < e.soloBuyMinConfidence → e.trendFilterEnabled = false →
      weightedVote e (signals.map swapSignal) = swapVote v) := by
  intro t v
  have hsound : Sound t := sound_tally e.strategies hvalid
  refine ⟨fun hv => ?_, ?_, ?_, ?_⟩
  · have hdirected : Directed e.soloBuyMinConfidence e.trendFilterEnabled t v :=
      decideTally_directed hsound hv
    obtain ⟨hpos, hmean⟩ := hdirected.confidence_bounds hsound hv
    exact ⟨hdirected.larger, hdirected.holds, hdirected.agreed, hpos, hmean⟩
  · intro e' signals' hlength' hperm hsolo htrend
    unfold v weightedVote
    rw [hsolo, htrend, tally_perm hlength hlength' hperm]
  · rintro before s after c rfl hs hc hbuy
    have hraise := decideTally_raise hsound (sub_nonneg.mpr hc) hbuy
    unfold weightedVote
    rw [tally_raise e.strategies before after hs c]
    exact hraise
  · intro hsolo htrend
    unfold v weightedVote
    rw [htrend]
    refine decideTally_swap hsolo ⟨?_, ?_⟩ ⟨?_, ?_⟩ ⟨?_, ?_⟩ <;>
      simp [tally, votesFor_swap, swapType, weight_swap]

/-- Three strategies, the first of which follows the trend. -/
def threeStrategies : EnsembleStrategy Unit :=
  { strategies := [⟨"MA", true, fun _ => ⟨.buy, 1/2, none⟩⟩, ⟨"RSI", false, fun _ => ⟨.buy, 1, none⟩⟩,
      ⟨"MACD", true, fun _ => ⟨.sell, 1/4, none⟩⟩]
    atLeastTwo := by decide
    method := .weighted }

def threeSignals : List Signal := [⟨.buy, 1/2, none⟩, ⟨.buy, 1, none⟩, ⟨.sell, 1/4, none⟩]

theorem weighted_vote_three :
    weightedVote threeStrategies (threeSignals.map swapSignal) =
      swapVote (weightedVote threeStrategies threeSignals) :=
  (weighted_vote threeStrategies threeSignals rfl
    (by simp [Valid, threeSignals]; norm_num)).2.2.2 (by norm_num [threeStrategies]) rfl

end KisAutotrader.Ensemble.WeightedVote
