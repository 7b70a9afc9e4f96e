import KisAutotrader.Collector
import KisAutotrader.Interleaving
import KisAutotrader.OrderedDict

/-!
# Disclosures

DART's list of disclosures, the collector that asks for it, and the gate that reads what has
been stored. Dates are day numbers; DART gives a disclosure the date of its publication in Seoul.
-/
namespace KisAutotrader.Disclosures
open OrderedDict LocalDay Text Collector

/-! ### Dates -/

def digitOf (c : Char) : Option ℤ := if c.isDigit then some (c.toNat - 48) else none

def twoDigits (low high : ℤ) : List Char → List (ℤ × List Char)
  | a::b::rest =>
      match digitOf a, digitOf b with
      | some x, some y => if low ≤ 10 * x + y ∧ 10 * x + y ≤ high then [(10 * x + y, rest)] else []
      | _, _ => []
  | _ => []

def oneDigit : List Char → List (ℤ × List Char)
  | a::rest =>
      match digitOf a with
      | some x => if x = 0 then [] else [(x, rest)]
      | none => []
  | [] => []

/-- `%m`: the readings of a month, in the order in which they are tried. -/
def months (cs : List Char) : List (ℤ × List Char) := twoDigits 1 12 cs ++ oneDigit cs

/-- `%d`. -/
def days (cs : List Char) : List (ℤ × List Char) :=
  twoDigits 1 31 cs ++ oneDigit cs ++ if cs.head? = some ' ' then oneDigit cs.tail else []

def isLeap (y : ℤ) : Bool := y % 4 = 0 && (y % 100 ≠ 0 || y % 400 = 0)

def daysInMonth (y m : ℤ) : ℤ :=
  if m = 2 then (if isLeap y then 29 else 28) else if m ∈ [4, 6, 9, 11] then 30 else 31

/-- Days since January 1, 1970. -/
def dayNumber (y m d : ℤ) : ℤ :=
  let y' := if m ≤ 2 then y - 1 else y
  let m' := if m ≤ 2 then m + 9 else m - 3
  365 * y' + y' / 4 - y' / 100 + y' / 400 + (153 * m' + 2) / 5 + d - 1 - 719468

def yearOf (a b c d : Char) : Option ℤ := do
  pure (1000 * (← digitOf a) + 100 * (← digitOf b) + 10 * (← digitOf c) + (← digitOf d))

/-- `datetime.strptime(s, "%Y%m%d")`: the first reading, if it uses up the text and is a date. -/
def strptime (s : String) : Option ℤ :=
  match s.toList with
  | a::b::c::d::rest => do
      let y ← yearOf a b c d
      let (m, e, tail) ← ((months rest).flatMap fun x => (days x.2).map fun z => (x.1, z)).head?
      if tail = [] ∧ 1 ≤ y ∧ e ≤ daysInMonth y m then some (dayNumber y m e) else none
  | _ => none

/-! ### The list -/

/-- A row of `list.json`. -/
structure Item where
  corpCode : Option String
  corpName : Option String
  reportNm : Option String
  rceptNo : Option String
  rceptDt : Option String
  deriving DecidableEq

structure Disclosure extends Item where
  publishedAt : ℤ
  deriving DecidableEq

def Disclosure.day (x : Disclosure) : ℤ := seoul.date x.publishedAt

structure Query where
  bgnDe : ℤ
  endDe : ℤ
  pageNo : ℕ
  pageCount : ℕ

structure Payload where
  status : String
  list : Option (List Item)

def Query.inRange (q : Query) (x : Disclosure) : Bool := q.bgnDe ≤ x.day ∧ x.day ≤ q.endDe

/-- The requested page of the disclosures in the date range. -/
def Query.page (q : Query) (rows : List Disclosure) : List Disclosure :=
  ((rows.filter q.inRange).drop ((q.pageNo - 1) * q.pageCount)).take q.pageCount

/-- The server: a page of the rows in its own order, or "no data". -/
def listJson (order : List Disclosure → List Disclosure) (published : List Disclosure) (q : Query) :
    Payload :=
  match q.page (order published) with
  | [] => ⟨"013", none⟩
  | rows => ⟨"000", some (rows.map Disclosure.toItem)⟩

/-! ### `DARTCollector` -/

def toDocument (item : Item) (ticker : Code) : Option RawDocument := do
  let rceptNo ← given item.rceptNo
  let rceptDt ← given item.rceptDt
  let reportNm ← given item.reportNm
  let d ← strptime rceptDt
  pure { ticker, sourceType := .disclosure, sourceId := rceptNo, title := some reportNm,
         body := item.corpName.getD "" ++ " " ++ reportNm,
         eventTime := seoul.instant (d * dayLength + 9 * hour) }

/-- The tracked stock of a row. -/
def tickerOf (corpCodeToTicker : Dict String Code) (item : Item) : Option Code := do
  let corpCode ← given item.corpCode
  given (corpCodeToTicker.get? corpCode)

def documentOf (corpCodeToTicker : Dict String Code) (item : Item) : Option RawDocument := do
  toDocument item (← tickerOf corpCodeToTicker item)

def collectDocs (corpCodeToTicker : Dict String Code) (payload : Payload) : List RawDocument :=
  if payload.status ≠ "000" then []
  else (payload.list.getD []).filterMap (documentOf corpCodeToTicker)

/-! ### The gate -/

def criticalDisclosureKeywords : List String :=
  ["상장폐지", "정리매매", "관리종목", "회생절차", "감사의견거절", "감사의견 거절", "횡령", "배임", "부도", "영업정지"]

/-- `any(kw in title for kw in CRITICAL_DISCLOSURE_KEYWORDS)`. -/
def isCritical (title : String) : Bool :=
  criticalDisclosureKeywords.any fun kw => kw.toList <:+: title.toList

def matchCriticalDisclosure (titles : List String) : Option String := titles.find? isCritical

section Gate
variable {H : Type}

def getRecentDisclosureTitles (table : List (NewsChunk H)) (ticker : Code) (since : ℤ) : List String :=
  (table.filterMap fun r =>
    if r.ticker = ticker ∧ r.sourceType = .disclosure ∧ since ≤ r.eventTime then r.title else none).filter
      (· ≠ "")

structure GateSettings where
  newsRiskGateEnabled : Bool := true
  newsRiskLookbackDays : ℤ := 30

/-- `_check_disclosure_risk_block`, for a lookup that succeeds: the title that blocks. -/
def checkDisclosureRiskBlock (cfg : GateSettings) (table : List (NewsChunk H)) (now : ℤ)
    (stockCode : Code) : Option String :=
  if !cfg.newsRiskGateEnabled then none
  else
    let since := now - cfg.newsRiskLookbackDays * dayLength
    matchCriticalDisclosure (getRecentDisclosureTitles table stockCode since)

end Gate

/-! ### Cycles and publications -/

/-- What a cycle in progress holds: its date range, and once the request is answered the
disclosures there were and the answer. -/
structure Cycle where
  since : ℤ
  endDe : ℤ
  reply : Option (List Disclosure × Payload) := none

/-- `origin` is the `since` of the first cycle; `settled` has the disclosures that were there
when the request of a successful cycle was answered, dated up to its end date. Neither is read
by the collector. -/
structure State (H : Type) where
  clock : ℤ
  published : List Disclosure := []
  table : List (NewsChunk H) := []
  lastCollectedAt : Option ℤ := none
  cycle : Option Cycle := none
  origin : Option ℤ := none
  settled : List Disclosure := []

/-- A cycle is started, its request is answered, and it ends or fails; in between disclosures
are published and time passes. -/
inductive Event where
  | tick (elapsed : ℕ)
  | publish (item : Item)
  | start
  | request
  | finish
  | fail

def Cycle.query (c : Cycle) : Query :=
  { bgnDe := seoul.date c.since, endDe := c.endDe, pageNo := 1, pageCount := 100 }

section Step
variable {H : Type} [DecidableEq H] (hash : Content → H) (w : Windows)
  (order : List Disclosure → List Disclosure) (corpCodeToTicker : Dict String Code)

def beginCycle (s : State H) : State H :=
  let since := sinceOf s.lastCollectedAt s.clock
  { s with cycle := some { since, endDe := seoul.date s.clock }, origin := s.origin <|> some since }

def answer (c : Cycle) (s : State H) : State H :=
  { s with cycle := some { c with reply := some (s.published, listJson order s.published c.query) } }

/-- The rows and the state of the source are committed together. -/
def finishCycle (c : Cycle) (listed : List Disclosure) (payload : Payload) (s : State H) : State H :=
  let docs := collectDocs corpCodeToTicker payload
  { s with
    table := store hash w s.table docs
    lastCollectedAt := if docs = [] then s.lastCollectedAt else some s.clock
    cycle := none
    settled := s.settled ++ listed.filter (·.day ≤ c.endDe) }

def step (s : State H) : Event → State H
  | .tick elapsed => { s with clock := s.clock + elapsed }
  | .publish item => { s with published := s.published ++ [{ item with publishedAt := s.clock }] }
  | .start =>
      match s.cycle with
      | none => beginCycle s
      | some _ => s
  | .request =>
      match s.cycle with
      | some c => if c.reply.isNone then answer order c s else s
      | none => s
  | .finish =>
      match s.cycle with
      | some c =>
          match c.reply with
          | some (listed, payload) => finishCycle hash w corpCodeToTicker c listed payload s
          | none => s
      | none => s
  | .fail => { s with cycle := none }

end Step

end KisAutotrader.Disclosures
