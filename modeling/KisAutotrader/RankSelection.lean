import KisAutotrader.Disclosures
import KisAutotrader.Screener

/-!
# The candidates of a screening round

The worker excludes the codes that are fresh or blocked for their risk, analyses the rest, and
selects the best of them for the slots that are left. The excluded codes count as taken
slots, the blocked ones as well.
-/
namespace KisAutotrader.RankSelection
open OrderedDict Screener

/-- The measures of the exchange against a stock that are in force. -/
structure MarketAction where
  blockReasons : List String

def MarketAction.shouldBlockBuy (action : MarketAction) : Bool := action.blockReasons ≠ []

/-- What the database answers about a code; a query may fail. -/
structure RiskTables where
  marketAction : Code → Except Unit (Option MarketAction)
  disclosureTitles : Code → Except Unit (List String)
  newsRiskGateEnabled : Bool

/-- The critical title of a code, where the gate is on. -/
def disclosureReason (tables : RiskTables) (code : Code) : Except Unit (Option String) :=
  if tables.newsRiskGateEnabled then
    (tables.disclosureTitles code).map fun titles =>
      (Disclosures.matchCriticalDisclosure titles).filter (· ≠ "")
  else .ok none

/-- The reason against buying a stock, if there is one. -/
def reasonFor (tables : RiskTables) (code : Code) : Except Unit (Option String) :=
  match tables.marketAction code with
  | .error e => .error e
  | .ok none => disclosureReason tables code
  | .ok (some action) =>
      if action.shouldBlockBuy then
        let reasons := ",".intercalate action.blockReasons
        .ok (some (if reasons = "" then "MARKET_ACTION" else reasons))
      else disclosureReason tables code

/-- The codes with a reason against them, in the order in which the set is walked; a failure
ends the walk and keeps what there is. -/
def loadRiskBlockedCodes (tables : RiskTables) : List Code → List (Code × String)
  | [] => []
  | code::codes =>
      match reasonFor tables code with
      | .error _ => []
      | .ok none => loadRiskBlockedCodes tables codes
      | .ok (some reason) => (code, reason)::loadRiskBlockedCodes tables codes

section Round
variable {K : Type} [Field K] [LinearOrder K]

/-- What a round gets from outside. -/
structure Round (K : Type) [Field K] [LinearOrder K] where
  /-- the codes converted within the fresh window, none where they could not be loaded -/
  fresh : Finset Code
  tables : RiskTables
  /-- the order in which the set of ranked codes is walked -/
  order : List Code
  /-- the signal on the daily bars of an item at a place, none for too few bars or an error -/
  analysis : ℕ → Code → Option (Strategy.Signal K)
  /-- the score of supply and demand, none for an error -/
  flowScore : ℕ → Code → Option K

namespace Round

def blocked (round : Round K) : Finset Code :=
  ((loadRiskBlockedCodes round.tables round.order).map Prod.fst).toFinset

def excludeCodes (round : Round K) : Finset Code := round.fresh ∪ round.blocked

end Round

def remainingSlots (cfg : ScreeningConfig K) (excludeCodes : Finset Code) : ℤ :=
  cfg.maxScreened - excludeCodes.card

/-- The best scored candidates for the slots that are left. -/
def select (cfg : ScreeningConfig K) (excludeCodes : Finset Code) (scored : List (ScoredCandidate K)) :
    List Code :=
  ((rankCandidates cfg scored).take (max (remainingSlots cfg excludeCodes) 0).toNat).map
    ScoredCandidate.stockCode

section Scoring
variable [FloorRing K]

/-- The scores of the single-source round. -/
def scoreRanked (rules : EtfRules) (cfg : ScreeningConfig K) (round : Round K)
    (ranked : List (VolumeRankItem K)) : List (ScoredCandidate K) :=
  let filtered := filterCandidates rules cfg false VolumeRankItem.listing ranked round.excludeCodes
  filtered.zipIdx.filterMap fun (item, rankIdx) =>
    (round.analysis rankIdx item.stockCode).map (scoreCandidate cfg item rankIdx filtered.length)

/-- `xs[:n]`, counted from the end for a negative `n`. -/
def sliceTo {α : Type} (n : ℤ) (xs : List α) : List α :=
  if 0 ≤ n then xs.take n.toNat else xs.take (xs.length + n).toNat

/-- The candidates of the multi-source round that are analysed. -/
def analysisPool (rules : EtfRules) (cfg : ScreeningConfig K) (round : Round K)
    (merged : List (MergedCandidate K)) : List (MergedCandidate K) :=
  let filtered := filterCandidates rules cfg false MergedCandidate.listing merged round.excludeCodes
  sliceTo cfg.maxAnalysisPool (sortDescending (prelimScore cfg) filtered)

/-- The scores of the multi-source round. -/
def scoreMerged (rules : EtfRules) (cfg : ScreeningConfig K) (round : Round K)
    (merged : List (MergedCandidate K)) : List (ScoredCandidate K) :=
  (analysisPool rules cfg round merged).zipIdx.filterMap fun (cand, place) =>
    (round.analysis place cand.stockCode).bind fun signal =>
      (if cfg.flowEnabled then round.flowScore place cand.stockCode else some 0).map
        (scoreMergedCandidate cfg cand signal)

/-- `new_codes` of a single-source round. -/
def newCodes (rules : EtfRules) (cfg : ScreeningConfig K) (round : Round K)
    (ranked : List (VolumeRankItem K)) : List Code :=
  select cfg round.excludeCodes (scoreRanked rules cfg round ranked)

/-- `new_codes` of a multi-source round. -/
def newCodesMultisource (rules : EtfRules) (cfg : ScreeningConfig K) (round : Round K)
    (sources : Dict String (List (RankItem K))) : List Code :=
  select cfg round.excludeCodes (scoreMerged rules cfg round (mergeRankings sources))

end Scoring

/-! ### Two rounds -/

/-- The second list has the unblocked items of the first in their order, and beside them only blocked
ones; what was blocked still is. -/
structure AddsBlocked {ι : Type} (view : ι → Listing K) (blocked blocked' : Finset Code) (items items' : List ι) :
    Prop where
  others : items'.filter (fun item => decide ((view item).stockCode ∉ blocked')) =
    items.filter fun item => decide ((view item).stockCode ∉ blocked)
  grows : blocked ⊆ blocked'

/-- The same round over a ranking whose codes are walked in another order. -/
def Round.walking (round : Round K) (order : List Code) : Round K := { round with order }

lemma filterCandidates_addsBlocked {ι : Type} {view : ι → Listing K} {blocked blocked' : Finset Code}
    {items items' : List ι} (h : AddsBlocked view blocked blocked' items items') (rules : EtfRules)
    (cfg : ScreeningConfig K) (isOverseas : Bool) (fresh : Finset Code) :
    filterCandidates rules cfg isOverseas view items' (fresh ∪ blocked') =
      filterCandidates rules cfg isOverseas view items (fresh ∪ blocked) := by
  have hsplit : ∀ (excluded : Finset Code) (xs : List ι),
      filterCandidates rules cfg isOverseas view xs (fresh ∪ excluded) =
        filterCandidates rules cfg isOverseas view
          (xs.filter fun item => decide ((view item).stockCode ∉ excluded)) fresh := by
    intro excluded xs
    unfold filterCandidates
    rw [List.filter_filter]
    congr 1
    funext item
    by_cases hf : (view item).stockCode ∈ fresh <;> by_cases he : (view item).stockCode ∈ excluded <;> simp [hf, he]
  rw [hsplit, hsplit, h.others]

lemma Round.excludeCodes_card_mono {round : Round K} {order : List Code}
    (h : round.blocked ⊆ (round.walking order).blocked) :
    round.excludeCodes.card ≤ (round.walking order).excludeCodes.card :=
  Finset.card_le_card (Finset.union_subset_union_right h)

/-- The number of slots stays the same, or none was left, or the candidates do not need those that
go. -/
def Unaffected (cfg : ScreeningConfig K) (excludeCodes excludeCodes' : Finset Code)
    (candidates : List (ScoredCandidate K)) : Prop :=
  excludeCodes'.card = excludeCodes.card ∨ remainingSlots cfg excludeCodes ≤ 0 ∨
    ((rankCandidates cfg candidates).length : ℤ) ≤ max (remainingSlots cfg excludeCodes') 0

/-- Selecting the same candidates for fewer slots. -/
lemma select_eq_iff {cfg : ScreeningConfig K} {excludeCodes excludeCodes' : Finset Code}
    (scored : List (ScoredCandidate K)) (h : excludeCodes.card ≤ excludeCodes'.card) :
    select cfg excludeCodes' scored = select cfg excludeCodes scored ↔
      Unaffected cfg excludeCodes excludeCodes' scored := by
  have hslots : remainingSlots cfg excludeCodes' =
      remainingSlots cfg excludeCodes - (excludeCodes'.card - excludeCodes.card) := by
    unfold remainingSlots
    omega
  unfold select Unaffected
  constructor
  · intro heq
    have hlen := congrArg List.length heq
    simp only [List.length_map, List.length_take] at hlen
    omega
  · intro hcases
    have htake : (rankCandidates cfg scored).take (max (remainingSlots cfg excludeCodes') 0).toNat =
        (rankCandidates cfg scored).take (max (remainingSlots cfg excludeCodes) 0).toNat := by
      rcases hcases with hsame | hnone | hfit
      · have hsame' : remainingSlots cfg excludeCodes' = remainingSlots cfg excludeCodes := by omega
        rw [hsame']
      · have hzero : (max (remainingSlots cfg excludeCodes') 0).toNat =
            (max (remainingSlots cfg excludeCodes) 0).toNat := by
          omega
        rw [hzero]
      · rw [List.take_of_length_le (by omega), List.take_of_length_le (by omega)]
    rw [htake]

/-- Blocked stocks that are added to a ranking change the new candidates exactly when they take
slots that the candidates need. -/
theorem newCodes_unchanged_iff [FloorRing K] (rules : EtfRules) (cfg : ScreeningConfig K) (round : Round K)
    (order : List Code) :
    (∀ ranked ranked' : List (VolumeRankItem K),
      AddsBlocked VolumeRankItem.listing round.blocked (round.walking order).blocked ranked ranked' →
        (newCodes rules cfg (round.walking order) ranked' = newCodes rules cfg round ranked ↔
          Unaffected cfg round.excludeCodes (round.walking order).excludeCodes
            (scoreRanked rules cfg round ranked))) ∧
    ∀ sources sources' : Dict String (List (RankItem K)),
      AddsBlocked MergedCandidate.listing round.blocked (round.walking order).blocked (mergeRankings sources)
        (mergeRankings sources') →
        (newCodesMultisource rules cfg (round.walking order) sources' = newCodesMultisource rules cfg round sources ↔
          Unaffected cfg round.excludeCodes (round.walking order).excludeCodes
            (scoreMerged rules cfg round (mergeRankings sources))) := by
  constructor
  · intro ranked ranked' h
    have hscored : scoreRanked rules cfg (round.walking order) ranked' = scoreRanked rules cfg round ranked := by
      have hfilter := filterCandidates_addsBlocked h rules cfg false round.fresh
      unfold scoreRanked
      rw [show (round.walking order).excludeCodes = round.fresh ∪ (round.walking order).blocked from rfl, hfilter]
      rfl
    rw [newCodes, newCodes, hscored]
    exact select_eq_iff _ (Round.excludeCodes_card_mono h.grows)
  · intro sources sources' h
    have hscored : scoreMerged rules cfg (round.walking order) (mergeRankings sources') =
        scoreMerged rules cfg round (mergeRankings sources) := by
      have hfilter := filterCandidates_addsBlocked h rules cfg false round.fresh
      unfold scoreMerged analysisPool
      rw [show (round.walking order).excludeCodes = round.fresh ∪ (round.walking order).blocked from rfl, hfilter]
      rfl
    rw [newCodesMultisource, newCodesMultisource, hscored]
    exact select_eq_iff _ (Round.excludeCodes_card_mono h.grows)

end Round

/-! ### One slot -/

/-- A stock that is always analysed as a sure buy. -/
def sureBuy : Strategy.Signal ℚ := ⟨.buy, 1, .none, .none, [], [], by norm_num, le_rfl⟩

def volumeItem (stockCode : Code) (stockName : String) : VolumeRankItem ℚ :=
  ⟨stockCode, stockName, 70000, 3, 1000000, 1000000000⟩

/-- A round with an administrative measure against 230980. -/
def roundOver (order : List Code) : Round ℚ where
  fresh := ∅
  tables :=
    { marketAction := fun code => .ok (if code = "230980" then some ⟨["관리종목"]⟩ else none)
      disclosureTitles := fun _ => .ok []
      newsRiskGateEnabled := true }
  order := order
  analysis := fun _ _ => some sureBuy
  flowScore := fun _ _ => some 0

def plainRules : EtfRules := ⟨id, []⟩

def oneSlot : ScreeningConfig ℚ := { defaultConfig with maxScreened := 1 }

def alone : List (VolumeRankItem ℚ) := [volumeItem "005930" "삼성전자"]

def together : List (VolumeRankItem ℚ) := [volumeItem "230980" "비유테크놀러지", volumeItem "005930" "삼성전자"]

lemma together_addsBlocked :
    AddsBlocked VolumeRankItem.listing (roundOver ["005930"]).blocked
      ((roundOver ["005930"]).walking ["230980", "005930"]).blocked alone together := by
  constructor <;> decide +kernel

/-- With the default number of slots the blocked stock takes one that nobody needs. -/
theorem newCodes_unchanged_together :
    newCodes plainRules defaultConfig ((roundOver ["005930"]).walking ["230980", "005930"]) together =
      newCodes plainRules defaultConfig (roundOver ["005930"]) alone :=
  ((newCodes_unchanged_iff plainRules defaultConfig (roundOver ["005930"]) ["230980", "005930"]).1 alone together
    together_addsBlocked).2 (Or.inr (Or.inr (by decide +kernel)))

/-- With one slot, a blocked stock in the ranking takes it from the only candidate. -/
theorem blocked_takes_slot :
    AddsBlocked VolumeRankItem.listing (roundOver ["005930"]).blocked
        ((roundOver ["005930"]).walking ["230980", "005930"]).blocked alone together ∧
      newCodes plainRules oneSlot (roundOver ["005930"]) alone = ["005930"] ∧
      newCodes plainRules oneSlot ((roundOver ["005930"]).walking ["230980", "005930"]) together = [] := by
  refine ⟨together_addsBlocked, ?_, ?_⟩ <;> decide +kernel

end KisAutotrader.RankSelection
