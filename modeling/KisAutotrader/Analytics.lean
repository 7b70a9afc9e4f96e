import Mathlib.Data.List.Sort
import KisAutotrader.MarketDay
import KisAutotrader.Rounding

/-!
# Analytics of the stored sells

The daily profit and loss of a period with its drawdown, and the streaks of losses and
wins. A day is its number in the zone of the database session.
-/
namespace KisAutotrader.Analytics
open LocalDay MarketDay OrderedDict Rounding

/-- The sells of a period in the order in which they were made. -/
def sellsOf (session : TimeZone) (startDate endDate : ℤ) (trades : List StoredTrade) :
    List StoredTrade :=
  (trades.filter fun t => session.midnight startDate ≤ t.tradedAt ∧
    t.tradedAt < session.midnight (endDate + 1) ∧ t.tradeType = .sell).insertionSort
      fun a b => a.tradedAt ≤ b.tradedAt

/-! ### Daily profit and loss -/

/-- A series of days in ascending order, each once. -/
structure PnlSeries (D : Type) [LinearOrder D] where
  rows : List (D × ℚ)
  sorted : (rows.map Prod.fst).Pairwise (· < ·)

/-- `daily[day_key] = daily.get(day_key, 0) + amount`. -/
def addDay {D : Type} [DecidableEq D] (daily : Dict D ℚ) (day : D) (amount : ℚ) : Dict D ℚ :=
  daily.set day ((daily.get? day).getD 0 + amount)

def dailyOf (session : TimeZone) (sells : List StoredTrade) : Dict ℤ ℚ :=
  sells.foldl (fun daily t => addDay daily (session.date t.tradedAt) (t.profitLossAmount.getD 0)) .empty

/-- `[(k, daily[k]) for k in sorted(daily)]`. -/
def sortedSeries {D : Type} [LinearOrder D] (daily : Dict D ℚ) : PnlSeries D where
  rows := daily.items.insertionSort fun a b => a.1 ≤ b.1
  sorted := by
    have hnodup : ((daily.items.insertionSort fun a b => a.1 ≤ b.1).map Prod.fst).Nodup :=
      ((List.perm_insertionSort _ daily.items).map _).nodup_iff.mpr daily.nodup
    have hle : ((daily.items.insertionSort fun a b => a.1 ≤ b.1).map Prod.fst).Pairwise (· ≤ ·) :=
      List.pairwise_map.mpr (List.pairwise_insertionSort _ daily.items)
    exact (hle.and hnodup).imp fun h => lt_of_le_of_ne h.1 h.2

/-- `_daily_pnl_series`. -/
def dailyPnlSeries (session : TimeZone) (startDate endDate : ℤ) (trades : List StoredTrade) :
    PnlSeries ℤ :=
  sortedSeries (dailyOf session (sellsOf session startDate endDate trades))

/-! ### Drawdown -/

structure MaxDrawdown (D : Type) where
  mddPct : ℚ
  mddAmount : ℚ
  peak : ℚ
  trough : ℚ
  peakDate : Option D
  troughDate : Option D
  deriving DecidableEq

/-- The variables of the loop of `get_max_drawdown`. -/
structure Pass (D : Type) where
  cumulative : ℚ := 0
  peak : ℚ := 0
  peakDate : D
  mddAmount : ℚ := 0
  mddPeak : ℚ := 0
  mddTrough : ℚ := 0
  mddPeakDate : D
  mddTroughDate : D

namespace Pass
variable {D : Type}

def start (first : D) : Pass D := { peakDate := first, mddPeakDate := first, mddTroughDate := first }

def rise (s : Pass D) (day : D) (dailyPnl : ℚ) : Pass D :=
  if s.cumulative + dailyPnl > s.peak then
    { s with
      cumulative := s.cumulative + dailyPnl
      peak := s.cumulative + dailyPnl
      peakDate := day }
  else { s with cumulative := s.cumulative + dailyPnl }

def fall (s : Pass D) (day : D) : Pass D :=
  if s.peak - s.cumulative > s.mddAmount then
    { s with
      mddAmount := s.peak - s.cumulative
      mddPeak := s.peak
      mddTrough := s.cumulative
      mddPeakDate := s.peakDate
      mddTroughDate := day }
  else s

/-- The body of the loop. -/
def next (s : Pass D) (row : D × ℚ) : Pass D := (s.rise row.1 row.2).fall row.1

def result (s : Pass D) : MaxDrawdown D where
  mddPct := roundTo 2 (if s.mddPeak > 0 then s.mddAmount / s.mddPeak * 100 else 0)
  mddAmount := s.mddAmount
  peak := s.mddPeak
  trough := s.mddTrough
  peakDate := some s.mddPeakDate
  troughDate := some s.mddTroughDate

end Pass

def maxDrawdownOf {D : Type} : List (D × ℚ) → MaxDrawdown D
  | [] => ⟨0, 0, 0, 0, none, none⟩
  | row::rows => ((row::rows).foldl Pass.next (.start row.1)).result

/-- `get_max_drawdown`. -/
def getMaxDrawdown (session : TimeZone) (startDate endDate : ℤ) (trades : List StoredTrade) :
    MaxDrawdown ℤ :=
  maxDrawdownOf (dailyPnlSeries session startDate endDate trades).rows

/-! ### Streaks -/

structure Streaks where
  maxWin : ℕ := 0
  maxLoss : ℕ := 0
  currentWin : ℕ := 0
  currentLoss : ℕ := 0

/-- The body of the loop of `get_consecutive_losses`. -/
def Streaks.next (s : Streaks) (pnl : ℚ) : Streaks :=
  if pnl > 0 then
    { s with
      currentWin := s.currentWin + 1
      currentLoss := 0
      maxWin := max s.maxWin (s.currentWin + 1) }
  else if pnl < 0 then
    { s with
      currentLoss := s.currentLoss + 1
      currentWin := 0
      maxLoss := max s.maxLoss (s.currentLoss + 1) }
  else { s with currentWin := 0, currentLoss := 0 }

structure ConsecutiveLosses where
  maxWinStreak : ℕ
  maxLossStreak : ℕ
  currentWinStreak : ℕ
  currentLossStreak : ℕ
  totalSells : ℕ

def consecutiveLossesOf (amounts : List ℚ) : ConsecutiveLosses :=
  let s := amounts.foldl Streaks.next {}
  { maxWinStreak := s.maxWin, maxLossStreak := s.maxLoss, currentWinStreak := s.currentWin
    currentLossStreak := s.currentLoss, totalSells := amounts.length }

/-- The amounts of the sells that have one. -/
def sellAmounts (session : TimeZone) (startDate endDate : ℤ) (trades : List StoredTrade) : List ℚ :=
  (sellsOf session startDate endDate trades).filterMap StoredTrade.profitLossAmount

/-- `get_consecutive_losses`. -/
def getConsecutiveLosses (session : TimeZone) (startDate endDate : ℤ) (trades : List StoredTrade) :
    ConsecutiveLosses :=
  consecutiveLossesOf (sellAmounts session startDate endDate trades)

end KisAutotrader.Analytics
