import KisAutotrader.Market
import KisAutotrader.OrderedDict

/-!
# The ensemble strategy

The signals of several strategies become one by a vote. The text of a reason is given by
its template and the numbers in it.
-/
namespace KisAutotrader.Ensemble
open OrderedDict

inductive Method where
  | majority
  | weighted
  | performance
deriving DecidableEq

/-- A strategy on market data of some kind. -/
structure BaseStrategy (δ : Type) where
  name : String
  isTrendFollowing : Bool := false
  analyze : δ → Signal

structure EnsembleStrategy (δ : Type) where
  strategies : List (BaseStrategy δ)
  atLeastTwo : 2 ≤ strategies.length
  method : Method := .majority
  strategyWeights : Dict String ℚ := .empty
  soloBuyMinConfidence : ℚ := 101 / 100
  trendFilterEnabled : Bool := false

inductive Reason where
  | allHold
  | tie
  | majority (winner : SignalType) (votes total : ℕ)
  | holdMajority (holdCount total : ℕ)
  | againstTrend
  | soloBuy (confidence : ℚ)
  | fewVotes (nWin : ℕ)
  | weighted (winner : SignalType) (nWin : ℕ) (winnerWeight loserWeight base opp : ℚ)
  | performance (winner : SignalType) (winnerWeight loserWeight : ℚ)
deriving DecidableEq

/-- The signal a vote returns. -/
structure Vote where
  signalType : SignalType
  confidence : ℚ
  reason : Reason
deriving DecidableEq

def hold (reason : Reason) : Vote := ⟨.hold, 0, reason⟩

def votesFor (direction : SignalType) (signals : List Signal) : List Signal :=
  signals.filter fun s => s.signalType = direction

def weight (signals : List Signal) : ℚ := (signals.map Signal.confidence).sum

variable {δ : Type}

def majorityVote (signals : List Signal) : Vote :=
  let buys := votesFor .buy signals
  let sells := votesFor .sell signals
  let total := buys.length + sells.length
  if total = 0 then hold .allHold
  else if buys.length = sells.length then hold .tie
  else if buys.length > sells.length then
    ⟨.buy, weight buys / buys.length, .majority .buy buys.length total⟩
  else ⟨.sell, weight sells / sells.length, .majority .sell sells.length total⟩

/-! ### The weighted vote -/

/-- The numbers the weighted vote is decided on. -/
structure Tally where
  holdCount : ℕ
  total : ℕ
  nBuy : ℕ
  nSell : ℕ
  buyW : ℚ
  sellW : ℚ
  /-- whether a trend following strategy is among the buyers -/
  trendBuy : Bool
deriving DecidableEq

def trendBuys (strategies : List (BaseStrategy δ)) (signals : List Signal) : Bool :=
  (strategies.zip signals).any fun x => x.2.signalType = .buy && x.1.isTrendFollowing

def tally (strategies : List (BaseStrategy δ)) (signals : List Signal) : Tally :=
  { holdCount := (votesFor .hold signals).length
    total := signals.length
    nBuy := (votesFor .buy signals).length
    nSell := (votesFor .sell signals).length
    buyW := weight (votesFor .buy signals)
    sellW := weight (votesFor .sell signals)
    trendBuy := trendBuys strategies signals }

/-- Mean strength of the winning votes times their share of all weight. -/
def strength (winnerWeight loserWeight : ℚ) (nWin : ℕ) : ℚ :=
  min (winnerWeight / nWin * (winnerWeight / (winnerWeight + loserWeight))) 1

/-- The vote once a direction has the larger weight. -/
def decideFor (solo : ℚ) (trendFilter : Bool) (t : Tally) (winner : SignalType)
    (winnerWeight loserWeight : ℚ) (nWin : ℕ) : Vote :=
  if trendFilter = true ∧ winner = .buy ∧ nWin < 2 ∧ t.trendBuy = false then hold .againstTrend
  else if nWin < 2 then
    if winner = .buy ∧ strength winnerWeight loserWeight nWin ≥ solo then
      ⟨.buy, strength winnerWeight loserWeight nWin,
        .soloBuy (strength winnerWeight loserWeight nWin)⟩
    else hold (.fewVotes nWin)
  else ⟨winner, strength winnerWeight loserWeight nWin,
    .weighted winner nWin winnerWeight loserWeight (winnerWeight / nWin)
      (winnerWeight / (winnerWeight + loserWeight))⟩

def decideTally (solo : ℚ) (trendFilter : Bool) (t : Tally) : Vote :=
  if (t.holdCount : ℚ) > t.total * 3 / 4 then hold (.holdMajority t.holdCount t.total)
  else if t.buyW = 0 ∧ t.sellW = 0 then hold .allHold
  else if t.buyW = t.sellW then hold .tie
  else if t.buyW > t.sellW then decideFor solo trendFilter t .buy t.buyW t.sellW t.nBuy
  else decideFor solo trendFilter t .sell t.sellW t.buyW t.nSell

def weightedVote (e : EnsembleStrategy δ) (signals : List Signal) : Vote :=
  decideTally e.soloBuyMinConfidence e.trendFilterEnabled (tally e.strategies signals)

/-! ### The vote by past performance -/

/-- The weight of a direction when each strategy counts by its rate of success. -/
def performanceWeight (e : EnsembleStrategy δ) (signals : List Signal) (direction : SignalType) : ℚ :=
  ((e.strategies.zip signals).map fun x =>
    if x.2.signalType = direction then
      x.2.confidence * (e.strategyWeights.get? x.1.name).getD (1 / 2)
    else 0).sum

def performanceFor (winner : SignalType) (winnerWeight loserWeight : ℚ) : Vote :=
  let total := winnerWeight + loserWeight
  ⟨winner, min (if total > 0 then winnerWeight / total else 0) 1,
    .performance winner winnerWeight loserWeight⟩

def performanceVote (e : EnsembleStrategy δ) (signals : List Signal) : Vote :=
  let buyW := performanceWeight e signals .buy
  let sellW := performanceWeight e signals .sell
  if buyW = 0 ∧ sellW = 0 then hold .allHold
  else if buyW = sellW then hold .tie
  else if buyW > sellW then performanceFor .buy buyW sellW
  else performanceFor .sell sellW buyW

def EnsembleStrategy.analyze (e : EnsembleStrategy δ) (marketData : δ) : Vote :=
  let signals := e.strategies.map fun s => s.analyze marketData
  match e.method with
  | .majority => majorityVote signals
  | .performance => performanceVote e signals
  | .weighted => weightedVote e signals

end KisAutotrader.Ensemble
