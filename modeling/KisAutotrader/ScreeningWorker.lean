import Mathlib.Data.List.Dedup
import KisAutotrader.Screening

/-!
# The screening worker

The rounds of one market's worker, as far as the rows of `screening_results` go:
the ranking, the scores and the risk blocks of a round come from outside.
-/
namespace KisAutotrader.ScreeningWorker
open Screening

/-- An entry of a ranking, with the verdict of `_is_etf_etn` and the time its row is written. -/
structure RankItem where
  stockCode : Code
  isEtf : Bool
  recordedAt : Time

/-- What one round gets from outside: `scored` are the analysed codes, best score first. -/
structure Round where
  now : Time
  /-- whether the codes of the table could be loaded -/
  loaded : Bool
  riskBlocked : List Code
  ranked : List RankItem
  scored : List Code
  /-- whether the transaction of `_record_to_db` is committed -/
  committed : Bool

/-- The codes converted today within the freshness window. -/
def loadExistingScreenedCodes (clock : MarketClock) (windowMin : ℤ) (now : Time)
    (rows : List ScreeningRow) : List Code :=
  (((getByDate clock (clock.date now) rows).filter fun r =>
    r.convertedToTrade && decide (now - windowMin * minute ≤ r.screenedAt)).map
      ScreeningRow.stockCode).dedup

def excludeCodes (clock : MarketClock) (windowMin : ℤ) (round : Round) (rows : List ScreeningRow) :
    List Code :=
  ((if round.loaded then loadExistingScreenedCodes clock windowMin round.now rows else []) ++
    round.riskBlocked).dedup

/-- The best candidates among the ranked codes that are not excluded, for the slots that are left. -/
def newCodes (maxScreened : ℕ) (exclude : List Code) (round : Round) : List Code :=
  (round.scored.filter fun code =>
    decide (code ∈ round.ranked.map RankItem.stockCode) && !exclude.contains code).take
      (maxScreened - exclude.length)

/-- `_record_to_db`: every ranked item gets a row but an ETF, at its place in the ranking. -/
def recordToDb (candidates : List Code) : ℕ → List RankItem → List ScreeningRow
  | _, [] => []
  | rank, item::items =>
      if item.isEtf then recordToDb candidates (rank + 1) items
      else ⟨item.stockCode, rank, item.recordedAt, decide (item.stockCode ∈ candidates)⟩ ::
        recordToDb candidates (rank + 1) items

def runScreening (clock : MarketClock) (windowMin : ℤ) (maxScreened : ℕ) (rows : List ScreeningRow)
    (round : Round) : List ScreeningRow :=
  if round.committed then
    rows ++ recordToDb (newCodes maxScreened (excludeCodes clock windowMin round rows) round) 1 round.ranked
  else rows

/-- The table after the rounds, which write to it one after the other. -/
def recordRounds (clock : MarketClock) (windowMin : ℤ) (maxScreened : ℕ) (rounds : List Round) :
    List ScreeningRow :=
  rounds.foldl (runScreening clock windowMin maxScreened) []

end KisAutotrader.ScreeningWorker
