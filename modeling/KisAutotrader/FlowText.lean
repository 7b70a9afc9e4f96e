import Mathlib.Algebra.Order.Field.Rat
import Mathlib.Data.Rat.Defs
import Mathlib.Tactic.FieldSimp
import KisAutotrader.Decimal
import KisAutotrader.Fallible

/-!
# Flow text

The text that is stored of the net amounts of investors, what is read back from it, and the
score of both. A division is exact.
-/
namespace KisAutotrader.FlowText
open Decimal Fallible Text

inductive Error where
  | valueError
  deriving DecidableEq

structure FlowFeatures where
  institutionNet : Option ℤ := none
  foreignNet : Option ℤ := none
  pensionNet : Option ℤ := none
  individualNet : Option ℤ := none
  shortBalanceQty : Option ℤ := none
  shortVolumeQty : Option ℤ := none
  deriving DecidableEq

/-! ### Reading -/

/-- `[\d,]`. -/
def numChar (c : Char) : Bool := isDecimal c || c = ','

def signOf : List Char → List Char × List Char
  | '+'::cs => (['+'], cs)
  | '-'::cs => (['-'], cs)
  | cs => ([], cs)

/-- `([+-]?[\d,]+)` and what must follow it. -/
def matchSigned (unit cs : List Char) : Option (List Char) :=
  let number := (signOf cs).2.takeWhile numChar
  if number ≠ [] ∧ unit <+: (signOf cs).2.dropWhile numChar then some ((signOf cs).1 ++ number)
  else none

/-- A pattern for the beginning of a line: a literal, white space, a number, another literal. -/
structure Pattern where
  label : List Char
  unit : List Char := []

def Pattern.matchAt (p : Pattern) (cs : List Char) : Option (List Char) :=
  (literal p.label cs).bind fun rest => matchSigned p.unit (rest.dropWhile isSpace)

def afterBreaks : List Char → List (List Char)
  | [] => []
  | c::cs => if c = '\n' then cs::afterBreaks cs else afterBreaks cs

/-- The text from each place at which `^` matches. -/
def lineStarts (cs : List Char) : List (List Char) := cs::afterBreaks cs

/-- `re.search`. -/
def Pattern.search (p : Pattern) (text : List Char) : Option (List Char) :=
  (lineStarts text).findSome? p.matchAt

/-- `int(group.replace(",", ""))`. -/
def toInt (group : List Char) : Option ℤ := parseInt (group.filter (· ≠ ','))

/-- `_find_int`. -/
def findInt (p : Pattern) (text : List Char) : Except Error (Option ℤ) :=
  match p.search text with
  | none => .ok none
  | some group =>
      match toInt group with
      | some n => .ok (some n)
      | none => .error .valueError

def netPattern (investor : String) : Pattern := { label := investor.toList ++ " 순매수:".toList }

def shortBalancePattern : Pattern := { label := "잔고 수량:".toList, unit := ['주'] }

def shortVolumePattern : Pattern := { label := "당일 공매도 거래량:".toList, unit := ['주'] }

def parseFlowText (chunkText : String) : Except Error FlowFeatures := do
  let text := chunkText.toList
  return {
    institutionNet := ← findInt (netPattern "기관합계") text
    foreignNet := ← findInt (netPattern "외국인") text
    pensionNet := ← findInt (netPattern "연기금 등") text
    individualNet := ← findInt (netPattern "개인") text
    shortBalanceQty := ← findInt shortBalancePattern text
    shortVolumeQty := ← findInt shortVolumePattern text }

/-! ### Writing -/

structure Date where
  year : ℕ
  month : ℕ
  day : ℕ

def padded (width n : ℕ) : List Char :=
  List.replicate (width - (digitsOf n).length) '0' ++ digitsOf n

def Date.isoformat (d : Date) : List Char :=
  padded 4 d.year ++ '-'::padded 2 d.month ++ '-'::padded 2 d.day

/-- A row of the table: the investor and the net amount, if `int` takes its value. -/
abbrev Row := String × Option ℤ

def netSuffix : List Char := " 순매수: ".toList

def lineOf (investor : String) (amount : List Char) : List Char :=
  investor.toList ++ (netSuffix ++ (amount ++ ['원']))

/-- `f"{sign}{amt:,}"`. -/
def amountText (amt : ℤ) : Option (List Char) :=
  (formatComma amt).map fun cs => (if 0 ≤ amt then ['+'] else []) ++ cs

def linesOf : List Row → Except Error (List (List Char))
  | [] => .ok []
  | (_, none)::rows => linesOf rows
  | (investor, some amt)::rows =>
      match amountText amt with
      | none => .error .valueError
      | some amount => do
          let lines ← linesOf rows
          return lineOf investor amount::lines

def headerOf (ticker : String) (statDate : Date) : List Char :=
  "[투자자별 매매] ".toList ++ ticker.toList ++ " — ".toList ++ statDate.isoformat

/-- `"\n".join`. -/
def joinLines : List (List Char) → List Char
  | [] => []
  | [l] => l
  | l::ls => l ++ '\n'::joinLines ls

def buildInvestorChunkText (ticker : String) (statDate : Date) (rows : List Row) :
    Except Error String := do
  let lines ← linesOf rows
  return String.ofList (joinLines (headerOf ticker statDate::lines))

/-! ### The score -/

def featuresFromStructured (institutionNet foreignNet individualNet pensionNet : Option ℤ := none)
    (shortVolumeQty : Option ℤ := none) : FlowFeatures :=
  { institutionNet, foreignNet, individualNet, pensionNet, shortVolumeQty }

/-- What institutions and foreigners bought on balance, of all that was traded. -/
def smartRatio (inst frgn indiv : ℤ) : ℚ :=
  let smart := inst + frgn
  let denom := |inst| + |frgn| + |indiv|
  if denom = 0 then 0 else max (-1) (min 1 ((smart : ℚ) / denom))

def flowScore (features : FlowFeatures) : ℚ :=
  if features.institutionNet = none ∧ features.foreignNet = none then 0
  else
    smartRatio (features.institutionNet.getD 0) (features.foreignNet.getD 0)
      (features.individualNet.getD 0)

/-- The features with every net amount changed. -/
def FlowFeatures.mapNets (f : ℤ → ℤ) (features : FlowFeatures) : FlowFeatures :=
  { features with
    institutionNet := features.institutionNet.map f
    foreignNet := features.foreignNet.map f
    pensionNet := features.pensionNet.map f
    individualNet := features.individualNet.map f }

example : (buildInvestorChunkText "005930" ⟨2026, 3, 2⟩
    [("외국인", some (-1234)), ("기타외국인", some 5), ("기관합계", some 1000000)]).bind parseFlowText =
      .ok { institutionNet := some 1000000, foreignNet := some (-1234) } := by
  decide +kernel

end KisAutotrader.FlowText
