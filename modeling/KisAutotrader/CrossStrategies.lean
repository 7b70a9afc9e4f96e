import KisAutotrader.Strategy

/-!
# The strategies of crossing averages

Moving averages of two lengths, and the MACD line with its signal line. Both buy on the bar on
which one line gets above the other and sell on the bar on which it gets below.
-/
namespace KisAutotrader.Strategy
open Series

attribute [local instance] Rounding.atLeastTwo_two

/-! ### Moving averages -/

structure MovingAverageStrategy (K : Type) where
  shortPeriod : ℕ
  longPeriod : ℕ
  maxDivergence : K
  short_pos : 0 < shortPeriod
  ordered : shortPeriod < longPeriod

namespace MovingAverageStrategy

variable {K : Type} [Field K] [LinearOrder K]

def init (scfg : StrategyConfig K) (shortPeriod longPeriod : Option ℤ) :
    Except (Error K) (MovingAverageStrategy K) :=
  let shortPeriod := shortPeriod.getD scfg.maShortPeriod
  let longPeriod := longPeriod.getD scfg.maLongPeriod
  if h : longPeriod ≤ shortPeriod then
    .error (.strategyError [.text "단기 기간(", .count shortPeriod, .text ")은 장기 기간(", .count longPeriod,
      .text ")보다 작아야 합니다."])
  else if hpos : shortPeriod < 1 ∨ longPeriod < 1 then
    .error (.strategyError [.text "이동평균 기간은 1 이상이어야 합니다."])
  else .ok ⟨shortPeriod.toNat, longPeriod.toNat, scfg.maMaxDivergence, by omega, by omega⟩

/-- The rolling means of a column. -/
def average (n : ℕ) (closes : List (Option K)) : List (Option K) :=
  rolling n (fun ws => some (mean ws)) closes

/-- The divergence of the averages as a share of the largest one. Without a long average the
divergence is Python's zero, which does not divide by zero. -/
def confidence (s : MovingAverageStrategy K) (short long : K) : Except (Error K) (Float64 K) :=
  if long ≠ 0 then .ok (Float64.divide (|short - long| / long) s.maxDivergence).atMostOne
  else if s.maxDivergence = 0 then .error .zeroDivisionError
  else .ok (.finite (min (0 / s.maxDivergence) 1))

def signalOf (prevShort prevLong short long : K) (confidence : Float64 K) (price : Option K)
    (metadata : Meta K) : Except (Error K) (Signal K) :=
  if prevShort ≤ prevLong ∧ long < short then
    Signal.ofFloat .buy confidence (.cell price)
      [.text "골든크로스 발생 (단기MA ", .fixed short, .text " > 장기MA ", .fixed long, .text ")"] metadata
  else if prevLong ≤ prevShort ∧ short < long then
    Signal.ofFloat .sell confidence (.cell price)
      [.text "데드크로스 발생 (단기MA ", .fixed short, .text " < 장기MA ", .fixed long, .text ")"] metadata
  else Signal.make .hold 0 .none [.text "이동평균 교차 미발생"] metadata

variable [FloorRing K]

def analyze (s : MovingAverageStrategy K) (data : MarketData K) : Except (Error K) (Signal K) :=
  match validateData data with
  | .error e => .error e
  | .ok closes =>
      let shared := lengthMeta data.rows (nanRatio data)
      let minRequired := s.longPeriod + 1
      if data.rows < minRequired then
        Signal.make .hold 0 .none (tooShort minRequired data.rows)
          (shared ++ [("last_short", .none), ("last_long", .none)] ++ guardMeta "insufficient_length")
      else
        let shortMa := average s.shortPeriod closes
        let longMa := average s.longPeriod closes
        match iloc 1 shortMa, iloc 1 longMa, iloc 2 shortMa, iloc 2 longMa with
        | some short, some long, some prevShort, some prevLong =>
            match s.confidence short long with
            | .error e => .error e
            | .ok confidence =>
                signalOf prevShort prevLong short long confidence (iloc 1 closes)
                  (shared ++ [("last_short", .number short), ("last_long", .number long),
                    ("guard_triggered", .flag false)])
        | short, long, _, _ =>
            Signal.make .hold 0 .none [.text "이동평균 값에 NaN 포함 — 데이터 부족"]
              (shared ++ [("last_short", .given short), ("last_long", .given long)] ++ guardMeta "nan_in_ma")

end MovingAverageStrategy

/-! ### MACD -/

structure MACDStrategy where
  fast : ℕ
  slow : ℕ
  signal : ℕ
  fast_pos : 0 < fast
  slow_pos : 0 < slow
  signal_pos : 0 < signal

namespace MACDStrategy

/-- `period or default`. -/
def orDefault (period : Option ℕ) (default : ℕ) : ℕ :=
  match period with
  | none | some 0 => default
  | some n => n

lemma orDefault_pos (period : Option ℕ) {default : ℕ} (h : 0 < default) : 0 < orDefault period default := by
  rcases period with _ | (_ | n)
  · exact h
  · exact h
  · exact Nat.succ_pos n

/-- The constructor: the settings have no field for a period. -/
def init (fastPeriod slowPeriod signalPeriod : Option ℕ) : MACDStrategy where
  fast := orDefault fastPeriod 12
  slow := orDefault slowPeriod 26
  signal := orDefault signalPeriod 9
  fast_pos := orDefault_pos _ (by decide)
  slow_pos := orDefault_pos _ (by decide)
  signal_pos := orDefault_pos _ (by decide)

section Lines
variable {K : Type} [Field K]

/-- `ewm(span=..., adjust=False).mean()`. -/
def ema (span : ℕ) (xs : List (Option K)) : List (Option K) := ewm (2 / ((span : K) + 1)) xs

def macdLine (s : MACDStrategy) (close : List (Option K)) : List (Option K) :=
  Series.zipWith (· - ·) (ema s.fast close) (ema s.slow close)

def signalLine (s : MACDStrategy) (close : List (Option K)) : List (Option K) :=
  ema s.signal (s.macdLine close)

def histogram (s : MACDStrategy) (close : List (Option K)) : List (Option K) :=
  Series.zipWith (· - ·) (s.macdLine close) (s.signalLine close)

end Lines

variable {K : Type} [Field K] [LinearOrder K]

/-- `min(abs(hist) / (price * 0.01), 1.0)`, not a number for a missing price. -/
def confidence (hist : K) : Option K → Except (Error K) (Float64 K)
  | none => .ok .nan
  | some price =>
      if price * (1 / 100) = 0 then .error .zeroDivisionError
      else .ok (.finite (min (|hist| / (price * (1 / 100))) 1))

def signalOf (prevHist hist : K) (price : Option K) (metadata : Meta K) : Except (Error K) (Signal K) :=
  if prevHist ≤ 0 ∧ 0 < hist then
    match confidence hist price with
    | .error e => .error e
    | .ok confidence =>
        Signal.ofFloat .buy confidence (.cell price)
          [.text "MACD 골든크로스 (hist: ", .fixed prevHist, .text " → ", .fixed hist, .text ")"] metadata
  else if 0 ≤ prevHist ∧ hist < 0 then
    match confidence hist price with
    | .error e => .error e
    | .ok confidence =>
        Signal.ofFloat .sell confidence (.cell price)
          [.text "MACD 데드크로스 (hist: ", .fixed prevHist, .text " → ", .fixed hist, .text ")"] metadata
  else Signal.make .hold 0 .none [.text "MACD 교차 미발생 (hist: ", .fixed hist, .text ")"] metadata

variable [FloorRing K]

def analyze (s : MACDStrategy) (data : MarketData K) : Except (Error K) (Signal K) :=
  let shared := lengthMeta data.rows (nanRatio data)
  let minRequired := s.slow + s.signal + 1
  if data.rows < minRequired then
    Signal.make .hold 0 .none (tooShort minRequired data.rows)
      (shared ++ [("last_macd", .none), ("last_signal", .none), ("last_hist", .none)] ++
        guardMeta "insufficient_length")
  else
    match data.column? with
    | none => .error (.keyError "close")
    | some close =>
        let macd := s.macdLine close
        let line := s.signalLine close
        let hist := s.histogram close
        match iloc 1 hist, iloc 2 hist, iloc 1 macd, iloc 1 line with
        | some current, some prev, some macd, some line =>
            signalOf prev current (iloc 1 close)
              (shared ++ [("last_macd", .number macd), ("last_signal", .number line),
                ("last_hist", .number current), ("guard_triggered", .flag false)])
        | current, _, macd, line =>
            Signal.make .hold 0 .none [.text "MACD 값에 NaN 포함 — 데이터 부족"]
              (shared ++ [("last_macd", .given macd), ("last_signal", .given line),
                ("last_hist", .given current)] ++ guardMeta "nan_macd")

end MACDStrategy
end KisAutotrader.Strategy
