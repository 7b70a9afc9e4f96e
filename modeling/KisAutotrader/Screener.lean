import KisAutotrader.MarketMaster
import KisAutotrader.OrderedDict
import KisAutotrader.Strategy

/-!
# The stock screener

Filter, scores and merged rankings of a screening round, over an exact ordered field.
-/
namespace KisAutotrader.Screener
open OrderedDict Strategy

attribute [local instance] Rounding.atLeastTwo_two Rounding.atLeastTwo_ten Rounding.atLeastTwo_hundred

structure ScreeningConfig (K : Type) where
  topN : ℤ
  maxScreened : ℤ
  minPrice : ℤ
  minPriceUs : K
  maxPrice : ℤ
  minMarketCap : ℤ
  changeRateMin : K
  changeRateMax : K
  minVolume : ℤ
  weightVolumeRank : K
  weightChangeRate : K
  weightStrategy : K
  weightVolumePower : K
  weightQuoteBalance : K
  flowEnabled : Bool
  weightFlow : K
  minScore : K
  maxAnalysisPool : ℤ

/-- The settings without an environment. -/
def defaultConfig : ScreeningConfig ℚ where
  topN := 20
  maxScreened := 15
  minPrice := 1000
  minPriceUs := 1
  maxPrice := 500000
  minMarketCap := 100000000
  changeRateMin := -5
  changeRateMax := 15
  minVolume := 10000
  weightVolumeRank := 3 / 10
  weightChangeRate := 3 / 10
  weightStrategy := 4 / 10
  weightVolumePower := 0
  weightQuoteBalance := 0
  flowEnabled := false
  weightFlow := 0
  minScore := 3 / 10
  maxAnalysisPool := 40

structure VolumeRankItem (K : Type) where
  stockCode : Code
  stockName : String
  currentPrice : ℤ
  changeRate : K
  volume : ℤ
  marketCap : ℤ
  deriving DecidableEq

structure RankItem (K : Type) where
  stockCode : Code
  stockName : String
  currentPrice : ℤ
  changeRate : K
  volume : ℤ
  sourceRank : ℤ
  marketCap : Option ℤ := none
  metric : Option K := none

/-- A candidate merged from several rankings, with its rank and metric in each. -/
structure MergedCandidate (K : Type) where
  stockCode : Code
  stockName : String
  currentPrice : ℤ
  changeRate : K
  volume : ℤ
  marketCap : Option ℤ
  ranks : Dict String ℤ
  metrics : Dict String K

/-- What the filter reads of an item of either kind. -/
structure Listing (K : Type) where
  stockCode : Code
  stockName : String
  currentPrice : ℤ
  changeRate : K
  volume : ℤ
  marketCap : Option ℤ

def VolumeRankItem.listing {K : Type} (item : VolumeRankItem K) : Listing K :=
  ⟨item.stockCode, item.stockName, item.currentPrice, item.changeRate, item.volume, some item.marketCap⟩

def MergedCandidate.listing {K : Type} (item : MergedCandidate K) : Listing K :=
  ⟨item.stockCode, item.stockName, item.currentPrice, item.changeRate, item.volume, item.marketCap⟩

/-! ### Filter -/

/-- `str.upper` and the codes of the block list file. -/
structure EtfRules where
  upper : String → String
  blocklist : List Code

def etfBrandKeywords : List String :=
  ["KODEX", "TIGER", "KBSTAR", "ARIRANG", "SOL ", "ACE ", "HANARO", "ETN", "레버리지", "인버스", "2X", "곱버스",
    "RISE ", "PLUS ", "KOSEF", "KINDEX", "TIMEFOLIO", "히어로즈", "마이다스", "ETF", "채권혼합", "혼합형"]

def usEtfSymbols : List Code :=
  ["SPY", "QQQ", "IWM", "DIA", "VOO", "VTI", "VEA", "VWO", "EEM", "EFA", "TQQQ", "SQQQ", "SOXL", "SOXS",
    "TLT", "GLD", "SLV", "USO", "UVXY", "VXX", "ARKK", "XLF", "XLE", "XLK", "XLV", "SCHD", "VYM", "HYG",
    "LQD", "AGG"]

def isDigit (s : String) : Bool := s ≠ "" ∧ MarketMaster.allDigits s.toList

def isEtfEtn (rules : EtfRules) (stockCode : Code) (stockName : String) (isOverseas : Bool) : Bool :=
  if isOverseas then
    if rules.upper stockCode ∈ usEtfSymbols then true
    else Text.contains "ETF" (rules.upper stockName) || Text.contains "ETN" (rules.upper stockName)
  else if !isDigit stockCode then true
  else if stockCode ∈ rules.blocklist then true
  else if stockName = "" ∨ stockName = stockCode then true
  else etfBrandKeywords.any fun keyword => Text.contains (rules.upper keyword) (rules.upper stockName)

section Filter
variable {K : Type} [Field K] [LinearOrder K]

def passFilter (rules : EtfRules) (cfg : ScreeningConfig K) (isOverseas : Bool) (item : Listing K) : Bool :=
  if isEtfEtn rules item.stockCode item.stockName isOverseas then false
  else if isOverseas && decide ((item.currentPrice : K) < cfg.minPriceUs) then false
  else if !isOverseas && decide (item.currentPrice < cfg.minPrice ∨ cfg.maxPrice < item.currentPrice) then false
  else if !isOverseas && (match item.marketCap with
      | none => false
      | some marketCap => decide (marketCap < cfg.minMarketCap)) then false
  else if item.changeRate < cfg.changeRateMin ∨ cfg.changeRateMax < item.changeRate then false
  else if item.volume < cfg.minVolume then false
  else true

/-- `apply`; `view` is what it reads of an item. -/
def filterCandidates {ι : Type} (rules : EtfRules) (cfg : ScreeningConfig K) (isOverseas : Bool)
    (view : ι → Listing K) (items : List ι) (excludeCodes : Finset Code) : List ι :=
  items.filter fun item =>
    decide ((view item).stockCode ∉ excludeCodes) &&
      !isEtfEtn rules (view item).stockCode (view item).stockName isOverseas &&
      passFilter rules cfg isOverseas (view item)

end Filter

/-! ### Scores -/

section Score
variable {K : Type} [Field K] [LinearOrder K]

/-- The score of a rank: 1 for the first, falling to 0, and 0 without a rank. -/
def rankDecay (rank : Option ℤ) (topN : ℤ) : K :=
  match rank with
  | none => 0
  | some rank => if rank < 1 ∨ topN < 1 then 0 else max 0 (1 - ((rank - 1 : ℤ) : K) / (topN : K))

def scoreChangeRate (rate : K) : K :=
  if rate ≤ 0 then 0
  else if rate ≤ 10 then rate / 10
  else if rate ≤ 15 then 1 - (rate - 10) * (6 / 100)
  else 1 / 2

structure ScoredCandidate (K : Type) [Field K] [LinearOrder K] where
  stockCode : Code
  stockName : String
  volumeRankScore : K
  changeRateScore : K
  strategyScore : K
  totalScore : K
  signal : Strategy.Signal K
  volume : ℤ
  changeRate : K
  currentPrice : ℤ
  volumePowerScore : K := 0
  quoteBalanceScore : K := 0
  flowScore : K := 0

def strategyScoreOf (signal : Strategy.Signal K) : K := if signal.signalType = .buy then signal.confidence else 0

/-- The four parts of a merged score that need no analysis. -/
def prelimScore (cfg : ScreeningConfig K) (candidate : MergedCandidate K) : K :=
  cfg.weightVolumeRank * rankDecay (candidate.ranks.get? "volume") cfg.topN +
    cfg.weightChangeRate * scoreChangeRate candidate.changeRate +
    cfg.weightVolumePower * rankDecay (candidate.ranks.get? "volume_power") cfg.topN +
    cfg.weightQuoteBalance * rankDecay (candidate.ranks.get? "quote_balance") cfg.topN

variable [FloorRing K]

def scoreCandidate (cfg : ScreeningConfig K) (item : VolumeRankItem K) (rankIndex totalCount : ℕ)
    (signal : Strategy.Signal K) : ScoredCandidate K :=
  let volumeRankScore : K := 1 - (rankIndex : K) / (max (totalCount - 1) 1 : ℕ)
  let changeRateScore := scoreChangeRate item.changeRate
  let strategyScore := strategyScoreOf signal
  let totalScore := cfg.weightVolumeRank * volumeRankScore + cfg.weightChangeRate * changeRateScore +
    cfg.weightStrategy * strategyScore
  { stockCode := item.stockCode
    stockName := item.stockName
    volumeRankScore := Rounding.roundTo 4 volumeRankScore
    changeRateScore := Rounding.roundTo 4 changeRateScore
    strategyScore := Rounding.roundTo 4 strategyScore
    totalScore := Rounding.roundTo 4 totalScore
    signal := signal
    volume := item.volume
    changeRate := item.changeRate
    currentPrice := item.currentPrice }

def scoreMergedCandidate (cfg : ScreeningConfig K) (candidate : MergedCandidate K) (signal : Strategy.Signal K)
    (flowScore : K) : ScoredCandidate K :=
  let volumeRankScore : K := rankDecay (candidate.ranks.get? "volume") cfg.topN
  let changeRateScore := scoreChangeRate candidate.changeRate
  let volumePowerScore : K := rankDecay (candidate.ranks.get? "volume_power") cfg.topN
  let quoteBalanceScore : K := rankDecay (candidate.ranks.get? "quote_balance") cfg.topN
  let strategyScore := strategyScoreOf signal
  let totalScore := cfg.weightVolumeRank * volumeRankScore + cfg.weightChangeRate * changeRateScore +
    cfg.weightVolumePower * volumePowerScore + cfg.weightQuoteBalance * quoteBalanceScore +
    cfg.weightStrategy * strategyScore + cfg.weightFlow * flowScore
  { stockCode := candidate.stockCode
    stockName := candidate.stockName
    volumeRankScore := Rounding.roundTo 4 volumeRankScore
    changeRateScore := Rounding.roundTo 4 changeRateScore
    strategyScore := Rounding.roundTo 4 strategyScore
    totalScore := Rounding.roundTo 4 totalScore
    signal := signal
    volume := candidate.volume
    changeRate := candidate.changeRate
    currentPrice := candidate.currentPrice
    volumePowerScore := Rounding.roundTo 4 volumePowerScore
    quoteBalanceScore := Rounding.roundTo 4 quoteBalanceScore
    flowScore := Rounding.roundTo 4 flowScore }

end Score

/-- `sort(key=..., reverse=True)`, which keeps the order of equal keys. -/
def sortDescending {ι K : Type} [LinearOrder K] (key : ι → K) (items : List ι) : List ι :=
  items.insertionSort fun a b => key b ≤ key a

def rankCandidates {K : Type} [Field K] [LinearOrder K] (cfg : ScreeningConfig K)
    (candidates : List (ScoredCandidate K)) : List (ScoredCandidate K) :=
  sortDescending ScoredCandidate.totalScore (candidates.filter fun c => decide (cfg.minScore ≤ c.totalScore))

/-! ### Merged rankings -/

section Merge
variable {K : Type}

/-- The first occurrence of a code. -/
def MergedCandidate.first (source : String) (it : RankItem K) : MergedCandidate K where
  stockCode := it.stockCode
  stockName := it.stockName
  currentPrice := it.currentPrice
  changeRate := it.changeRate
  volume := it.volume
  marketCap := if source = "volume" then it.marketCap else none
  ranks := Dict.empty.set source it.sourceRank
  metrics := match it.metric with
    | none => .empty
    | some metric => Dict.empty.set source metric

/-- A further occurrence: a blank name and a zero price are filled in, the volume is not. -/
def MergedCandidate.again (existing : MergedCandidate K) (source : String) (it : RankItem K) :
    MergedCandidate K :=
  { existing with
    ranks := existing.ranks.set source it.sourceRank
    metrics := match it.metric with
      | none => existing.metrics
      | some metric => existing.metrics.set source metric
    marketCap := match it.marketCap with
      | none => existing.marketCap
      | some marketCap => if source = "volume" then some marketCap else existing.marketCap
    stockName := if existing.stockName = "" then it.stockName else existing.stockName
    currentPrice := if existing.currentPrice = 0 then it.currentPrice else existing.currentPrice }

def mergeItem (source : String) (merged : Dict Code (MergedCandidate K)) (it : RankItem K) :
    Dict Code (MergedCandidate K) :=
  match merged.get? it.stockCode with
  | none => merged.set it.stockCode (.first source it)
  | some existing => merged.set it.stockCode (existing.again source it)

def mergeRankings (sources : Dict String (List (RankItem K))) : List (MergedCandidate K) :=
  let merged := sources.items.foldl (fun merged source => source.2.foldl (mergeItem source.1) merged) Dict.empty
  merged.items.map Prod.snd

end Merge

end KisAutotrader.Screener
