import KisAutotrader.Market
import KisAutotrader.Rounding
import KisAutotrader.Series

/-!
# Strategies

What a strategy reads and returns, over an exact ordered field. A text is the list of its
literal parts and the numbers formatted into it.
-/
namespace KisAutotrader

def SignalType.opposite : SignalType → SignalType
  | .buy => .sell
  | .sell => .buy
  | .hold => .hold

namespace Strategy

/-- The settings a strategy falls back to. -/
structure StrategyConfig (K : Type) where
  maShortPeriod : ℤ
  maLongPeriod : ℤ
  maMaxDivergence : K
  rsiPeriod : ℤ
  rsiOversold : K
  rsiOverbought : K

inductive Piece (K : Type) where
  | text (s : String)
  | count (n : ℤ)
  /-- `:.2f` -/
  | fixed (x : K)
  /-- `:,.0f` -/
  | grouped (x : K)
  | plain (x : K)

abbrev Message (K : Type) := List (Piece K)

inductive Error (K : Type) where
  | strategyError (message : Message K)
  | valueError (message : Message K)
  | keyError (key : String)
  | zeroDivisionError

/-- A value of `meta`. -/
inductive Value (K : Type) where
  | none
  | nan
  | count (n : ℕ)
  | number (x : K)
  | flag (b : Bool)
  | text (s : String)

/-- A number of a column, `nan` where it is missing. -/
def Value.cell {K : Type} : Option K → Value K
  | .none => .nan
  | some x => .number x

/-- A number that is left out where it is missing. -/
def Value.given {K : Type} : Option K → Value K
  | .none => .none
  | some x => .number x

abbrev Meta (K : Type) := List (String × Value K)

/-- A frame of market data; a strategy reads its number of rows and the column `close`. -/
structure MarketData (K : Type) where
  rows : ℕ
  columns : List String
  close : List (Option K)
  close_rows : "close" ∈ columns → close.length = rows

namespace MarketData

variable {K : Type}

def ofCloses (closes : List (Option K)) : MarketData K := ⟨closes.length, ["close"], closes, fun _ => rfl⟩

@[simp] lemma rows_ofCloses (closes : List (Option K)) : (ofCloses closes).rows = closes.length := rfl

def empty (data : MarketData K) : Bool := data.rows = 0 ∨ data.columns = []

def column? (data : MarketData K) : Option (List (Option K)) :=
  if "close" ∈ data.columns then some data.close else none

@[simp] lemma column?_ofCloses (closes : List (Option K)) : (ofCloses closes).column? = some closes := by
  simp [column?, ofCloses]

def missing (closes : List (Option K)) : ℕ := (closes.filter Option.isNone).length

end MarketData

/-- `_validate_data`, the same for the strategies that have one. -/
def validateData {K : Type} (data : MarketData K) : Except (Error K) (List (Option K)) :=
  if data.empty then .error (.strategyError [.text "시장 데이터가 비어있습니다."])
  else
    match data.column? with
    | none => .error (.strategyError [.text "'close' 컬럼이 필요합니다."])
    | some closes => .ok closes

lemma validateData_ofCloses {K : Type} {closes : List (Option K)} (h : closes ≠ []) :
    validateData (MarketData.ofCloses closes) = .ok closes := by
  have hempty : (MarketData.ofCloses closes).empty = false := by
    simpa [MarketData.empty, MarketData.ofCloses] using h
  simp [validateData, hempty]

section
variable {K : Type} [Field K] [LinearOrder K]

/-- A quotient of numpy, which divides by zero. -/
inductive Float64 (K : Type) where
  | nan
  | negInf
  | posInf
  | finite (x : K)

def Float64.divide (x y : K) : Float64 K :=
  if y = 0 then if x = 0 then .nan else if 0 < x then .posInf else .negInf
  else .finite (x / y)

/-- `min(x, 1.0)`, which keeps a NaN. -/
def Float64.atMostOne : Float64 K → Float64 K
  | .nan => .nan
  | .negInf => .negInf
  | .posInf => .finite 1
  | .finite x => .finite (min x 1)

structure Signal (K : Type) [Field K] [LinearOrder K] where
  signalType : SignalType
  confidence : K
  targetPrice : Value K := .none
  stopLossPrice : Option K := none
  reason : Message K := []
  metadata : Meta K := []
  nonneg : 0 ≤ confidence
  le_one : confidence ≤ 1

/-- The constructor with the check of `__post_init__`. -/
def Signal.make (signalType : SignalType) (confidence : K) (targetPrice : Value K) (reason : Message K)
    (metadata : Meta K) : Except (Error K) (Signal K) :=
  if h : 0 ≤ confidence ∧ confidence ≤ 1 then
    .ok { signalType, confidence, targetPrice, reason, metadata, nonneg := h.1, le_one := h.2 }
  else .error (.valueError [.text "신뢰도는 0.0에서 1.0 사이여야 합니다: ", .plain confidence])

/-- A confidence that numpy computed. -/
def Signal.ofFloat (signalType : SignalType) (confidence : Float64 K) (targetPrice : Value K)
    (reason : Message K) (metadata : Meta K) : Except (Error K) (Signal K) :=
  match confidence with
  | .finite x => Signal.make signalType x targetPrice reason metadata
  | .nan => .error (.valueError [.text "신뢰도는 0.0에서 1.0 사이여야 합니다: nan"])
  | .posInf => .error (.valueError [.text "신뢰도는 0.0에서 1.0 사이여야 합니다: inf"])
  | .negInf => .error (.valueError [.text "신뢰도는 0.0에서 1.0 사이여야 합니다: -inf"])

/-- What a caller acts on: the type and the confidence, or the error. -/
def decision (outcome : Except (Error K) (Signal K)) : Except (Error K) (SignalType × K) :=
  outcome.map fun s => (s.signalType, s.confidence)

lemma decision_make (signalType : SignalType) {confidence : K} (target : Value K) (reason : Message K)
    (metadata : Meta K) (h : 0 ≤ confidence ∧ confidence ≤ 1) :
    decision (Signal.make signalType confidence target reason metadata) = .ok (signalType, confidence) := by
  simp [decision, Signal.make, h, Except.map]

/-- The texts and the other data of a signal have no part in its decision. -/
lemma decision_make_congr (signalType : SignalType) (confidence : K) (target target' : Value K)
    (reason reason' : Message K) (metadata metadata' : Meta K) :
    decision (Signal.make signalType confidence target reason metadata) =
      decision (Signal.make signalType confidence target' reason' metadata') := by
  unfold Signal.make
  split_ifs <;> rfl

lemma decision_ofFloat_congr (signalType : SignalType) (confidence : Float64 K) (target target' : Value K)
    (reason reason' : Message K) (metadata metadata' : Meta K) :
    decision (Signal.ofFloat signalType confidence target reason metadata) =
      decision (Signal.ofFloat signalType confidence target' reason' metadata') := by
  cases confidence with
  | finite x => exact decision_make_congr _ _ _ _ _ _ _ _
  | nan => rfl
  | negInf => rfl
  | posInf => rfl

lemma decision_ok_iff {outcome : Except (Error K) (Signal K)} {d : SignalType × K} :
    decision outcome = .ok d ↔ ∃ s, outcome = .ok s ∧ s.signalType = d.1 ∧ s.confidence = d.2 := by
  cases outcome with
  | error e => simp [decision, Except.map]
  | ok s => simp [decision, Except.map, Prod.ext_iff]

variable [FloorRing K]

/-- The entries of `meta` that count the rows and the share of missing closes. -/
def lengthMeta (seriesLen : ℕ) (nanRatio : K) : Meta K :=
  [("series_len", .count seriesLen), ("nan_ratio", .number (Rounding.roundTo 4 nanRatio))]

def guardMeta (guardReason : String) : Meta K :=
  [("guard_triggered", .flag true), ("guard_reason", .text guardReason)]

/-- The share of missing closes, zero without a column or rows. -/
def nanRatio (data : MarketData K) : K :=
  match data.column? with
  | none => 0
  | some closes => if 0 < data.rows then (MarketData.missing closes : K) / data.rows else 0

/-- The reason for too short a series. -/
def tooShort (required current : ℤ) : Message K :=
  [.text "데이터 부족 (필요: ", .count required, .text "개, 현재: ", .count current, .text "개)"]

end

end Strategy

end KisAutotrader
