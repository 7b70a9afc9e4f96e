import KisAutotrader.Disclosures
import KisAutotrader.Fallible

/-!
# Domestic quotes

The calls of `QuoteAPI` and how they read the broker's records. The broker sends every value as a
text, or null. Dates are day numbers.
-/
namespace KisAutotrader.Quotes
open Fallible OrderedDict

inductive FieldValue where
  | null
  | text (s : String)
  deriving DecidableEq

abbrev Record := Dict String FieldValue

def FieldValue.truthy : FieldValue → Bool
  | .null => false
  | .text s => s ≠ ""

/-- What a call can raise. -/
inductive Error where
  | kisAutoTrader
  | attribute
  | type
  | value
  | overflow
  deriving DecidableEq

/-- `str.lower` of an ASCII text. -/
def lower (s : String) : String := String.ofList (s.toList.map Char.toLower)

/-- `_get`: `data.get(key) or data.get(key.lower(), default)`. -/
def get (data : Record) (key default : String) : FieldValue :=
  ((data.get? key).filter FieldValue.truthy).getD ((data.get? (lower key)).getD (.text default))

/-- `int`. -/
def toInt : FieldValue → Except Error ℤ
  | .null => .error .type
  | .text s => (Text.parseInt s.toList).elim (.error .value) .ok

/-- `float` of a text; no number is a `ValueError`. -/
structure FloatReader (F : Type) where
  read : String → Option F
  zero : F
  read_zero : read "0" = some zero
  read_empty : read "" = none

def FloatReader.toFloat {F : Type} (float : FloatReader F) : FieldValue → Except Error F
  | .null => .error .type
  | .text s => (float.read s).elim (.error .value) .ok

/-- `value or default`. -/
def FieldValue.orText (v : FieldValue) (default : String) : FieldValue :=
  if v.truthy then v else .text default

/-! ### Responses -/

inductive Output where
  | null
  | record (r : Record)
  | records (rs : List Record)

structure Response where
  rtCd : Option FieldValue := none
  output : Option Output := none
  output2 : Option Output := none

/-- An `output` that is missing or counts as false is passed over. -/
def given : Option Output → Option Output
  | some (.record r) => if r.items = [] then none else some (.record r)
  | some (.records rs) => if rs = [] then none else some (.records rs)
  | _ => none

/-- The elements over which a loop goes; those of a record are its names, and no records. -/
def Output.elements : Output → Except Error (List Record)
  | .records rs => .ok rs
  | _ => .error .attribute

/-- `str(response.get("rt_cd", "0")) != "0"`. -/
def Response.refused (r : Response) : Bool := r.rtCd.getD (.text "0") ≠ .text "0"

/-! ### The current price -/

structure CurrentPrice (F : Type) where
  stockCode : String
  stockName : FieldValue
  currentPrice : ℤ
  changePrice : ℤ
  changeRate : F
  volume : ℤ
  highPrice : ℤ
  lowPrice : ℤ
  openPrice : ℤ
  rawData : Record

def currentPriceOf {F : Type} (float : FloatReader F) (stockCode : String) (output : Record) :
    Except Error (CurrentPrice F) := do
  let currentPrice ← toInt (get output "STCK_PRPR" "0")
  let changePrice ← toInt (get output "PRDY_VRSS" "0")
  let changeRate ← float.toFloat (get output "PRDY_CTRT" "0")
  let volume ← toInt (get output "ACML_VOL" "0")
  let highPrice ← toInt (get output "STCK_HGPR" "0")
  let lowPrice ← toInt (get output "STCK_LWPR" "0")
  let openPrice ← toInt (get output "STCK_OPRC" "0")
  pure { stockCode, stockName := get output "HTS_KOR_ISNM" "", currentPrice, changePrice,
         changeRate, volume, highPrice, lowPrice, openPrice, rawData := output }

/-- `get_current_price`, from the answer to its request. -/
def getCurrentPrice {F : Type} (float : FloatReader F) (stockCode : String)
    (answer : Except Error Response) : Except Error (CurrentPrice F) := do
  let response ← answer
  match response.output.getD (.record Dict.empty) with
  | .record output => currentPriceOf float stockCode output
  | _ => .error .attribute

/-! ### Daily bars -/

structure DailyPriceItem where
  date : String
  openPrice : ℤ
  highPrice : ℤ
  lowPrice : ℤ
  closePrice : ℤ
  volume : ℤ
  deriving DecidableEq

/-- The parameters of a request for daily bars. -/
structure DailyRequest where
  inputIscd : String
  inputDate1 : ℤ
  inputDate2 : ℤ
  periodDivCode : String
  orgAdjPrc : String
  deriving DecidableEq

/-- A call of `get_daily_price`. -/
structure DailyCall where
  stockCode : String
  period : String := "D"
  adjusted : Bool := true
  lookbackDays : ℤ := 60

def maxCalls : ℕ := 2

/-- `date.min`. -/
def minDate : ℤ := Disclosures.dayNumber 1 1 1

def maxDate : ℤ := Disclosures.dayNumber 9999 12 31

/-- `day - timedelta(days=n)`. -/
def minusDays (day n : ℤ) : Except Error ℤ :=
  if minDate ≤ day - n ∧ day - n ≤ maxDate then .ok (day - n) else .error .overflow

def strptime (s : String) : Except Error ℤ :=
  (Disclosures.strptime s).elim (.error .value) .ok

/-- `datetime.strptime(dt, "%Y%m%d").date() - timedelta(days=1)`. -/
def pageBefore (dt : String) : Except Error ℤ := do minusDays (← strptime dt) 1

def DailyCall.firstWindowDays (call : DailyCall) : ℤ := max (call.lookbackDays * 2) 60

def DailyCall.request (call : DailyCall) (pageStart pageEnd : ℤ) : DailyRequest where
  inputIscd := call.stockCode
  inputDate1 := pageStart
  inputDate2 := pageEnd
  periodDivCode := call.period
  orgAdjPrc := if call.adjusted then "0" else "1"

def dailyPriceItem (date : String) (item : Record) : Except Error DailyPriceItem := do
  let openPrice ← toInt (get item "STCK_OPRC" "0")
  let highPrice ← toInt (get item "STCK_HGPR" "0")
  let lowPrice ← toInt (get item "STCK_LWPR" "0")
  let closePrice ← toInt (get item "STCK_CLPR" "0")
  let volume ← toInt (get item "ACML_VOL" "0")
  pure { date, openPrice, highPrice, lowPrice, closePrice, volume }

/-- `dt`, unless it counts as false. -/
def dateOf (item : Record) : Option String :=
  match get item "STCK_BSOP_DATE" "" with
  | .text dt => if dt = "" then none else some dt
  | .null => none

/-- The loop over a page. `seen_dates` has the dates of the bars there are; `oldest` is the date
of the last bar of the page that was new. -/
def addBars : List Record → List DailyPriceItem → Option String →
    Except Error (List DailyPriceItem × Option String)
  | [], results, oldest => .ok (results, oldest)
  | item::items, results, oldest =>
      match dateOf item with
      | none => addBars items results oldest
      | some dt =>
          if dt ∈ results.map DailyPriceItem.date then addBars items results oldest
          else do
            let bar ← dailyPriceItem dt item
            addBars items (results ++ [bar]) (some dt)

/-- The records with a date that is new, each with its date. -/
def dated (date : Record → Option String) (seen : List String) :
    List Record → List (String × Record)
  | [] => []
  | item::items =>
      match date item with
      | none => dated date seen items
      | some dt =>
          if dt ∈ seen then dated date seen items
          else (dt, item)::dated date (seen ++ [dt]) items

theorem date_of_dailyPriceItem {dt : String} {item : Record} {bar : DailyPriceItem}
    (h : dailyPriceItem dt item = .ok bar) : bar.date = dt := by
  simp only [dailyPriceItem, bind_eq_ok] at h
  obtain ⟨_, -, _, -, _, -, _, -, _, -, h⟩ := h
  obtain rfl := Except.ok.inj h
  rfl

/-- The bars of dated records. -/
def dailyBars (xs : List (String × Record)) : Except Error (List DailyPriceItem) :=
  xs.mapM fun x => dailyPriceItem x.1 x.2

theorem dailyBars_cons (x : String × Record) (xs : List (String × Record)) :
    dailyBars (x::xs) = dailyPriceItem x.1 x.2 >>= fun bar => dailyBars xs >>= fun bars =>
      pure (bar::bars) := List.mapM_cons

theorem dailyBars_append (xs ys : List (String × Record)) :
    dailyBars (xs ++ ys) = dailyBars xs >>= fun bars => dailyBars ys >>= fun bars' =>
      pure (bars ++ bars') := List.mapM_append

theorem dates_of_dailyBars {xs : List (String × Record)} {bars : List DailyPriceItem}
    (h : dailyBars xs = .ok bars) : bars.map DailyPriceItem.date = xs.map Prod.fst := by
  induction xs generalizing bars with
  | nil =>
    obtain rfl := Except.ok.inj h
    rfl
  | cons x xs ih =>
    simp only [dailyBars_cons, bind_eq_ok] at h
    obtain ⟨bar, hbar, rest, hrest, h⟩ := h
    obtain rfl := Except.ok.inj h
    simp [ih hrest, date_of_dailyPriceItem hbar]

/-- The loop over a page reads the dated records in their order. -/
theorem addBars_eq (items : List Record) (results : List DailyPriceItem) (oldest : Option String) :
    addBars items results oldest =
      dailyBars (dated dateOf (results.map DailyPriceItem.date) items) >>=
        fun bars => pure (results ++ bars,
          ((dated dateOf (results.map DailyPriceItem.date) items).getLast?.map Prod.fst).or oldest) := by
  induction items generalizing results oldest with
  | nil =>
    have hnil : dailyBars [] = .ok [] := rfl
    simp [addBars, dated, hnil]
  | cons item items ih =>
    unfold addBars dated
    cases hdate : dateOf item with
    | none => exact ih results oldest
    | some dt =>
      by_cases hseen : dt ∈ results.map DailyPriceItem.date
      · simp only [hseen, if_true]
        exact ih results oldest
      · simp only [hseen, if_false, dailyBars_cons, bind_assoc]
        cases hbar : dailyPriceItem dt item with
        | error e => rfl
        | ok bar =>
          have hdt : (results ++ [bar]).map DailyPriceItem.date = results.map DailyPriceItem.date ++ [dt] := by
            simp [date_of_dailyPriceItem hbar]
          have hrest := ih (results ++ [bar]) (some dt)
          rw [hdt] at hrest
          refine hrest.trans (bind_congr fun bars => ?_)
          rw [List.getLast?_cons]
          cases (dated dateOf (results.map DailyPriceItem.date ++ [dt]) items).getLast? <;>
            simp

/-- `output_list`. -/
def Response.outputList (r : Response) : Output :=
  ((given r.output2).or (given r.output)).getD (.records [])

/-- The bars after a response, and the end of the next page if the loop goes on. -/
def readPage (lookbackDays : ℤ) (results : List DailyPriceItem) (response : Response) :
    Except Error (List DailyPriceItem × Option ℤ) := do
  let outputList ← response.outputList.elements
  if outputList = [] then pure (results, none)
  else
    let (results, oldest) ← addBars outputList results none
    if lookbackDays ≤ results.length then pure (results, none)
    else
      match oldest with
      | none => pure (results, none)
      | some dt =>
          let pageEnd ← pageBefore dt
          pure (results, some pageEnd)

theorem readPage_eq (lookbackDays : ℤ) (results : List DailyPriceItem) (response : Response) :
    readPage lookbackDays results response =
      response.outputList.elements >>= fun items =>
        let fresh := dated dateOf (results.map DailyPriceItem.date) items
        dailyBars fresh >>= fun bars =>
          if lookbackDays ≤ (results ++ bars).length then pure (results ++ bars, none)
          else
            match fresh.getLast? with
            | none => pure (results ++ bars, none)
            | some x => pageBefore x.1 >>= fun pageEnd => pure (results ++ bars, some pageEnd) := by
  unfold readPage
  refine bind_congr fun items => ?_
  by_cases hitems : items = []
  · subst hitems
    simp [dated, dailyBars]
  · rw [if_neg hitems, addBars_eq]
    simp only [bind_assoc, pure_bind]
    refine bind_congr fun bars => ?_
    cases (dated dateOf (results.map DailyPriceItem.date) items).getLast? <;> rfl

/-- The requests that were sent with their answers, and how the call ended. -/
structure Fetch where
  sent : List (DailyRequest × Except Error Response)
  result : Except Error (List DailyPriceItem)

def dailyPages (call : DailyCall) (client : DailyRequest → Except Error Response) :
    ℕ → ℤ → List DailyPriceItem → Fetch
  | 0, _, results => ⟨[], .ok results⟩
  | n+1, pageEnd, results =>
      match minusDays pageEnd call.firstWindowDays with
      | .error e => ⟨[], .error e⟩
      | .ok pageStart =>
          let request := call.request pageStart pageEnd
          let exchange := (request, client request)
          match client request >>= readPage call.lookbackDays results with
          | .error e => ⟨[exchange], .error e⟩
          | .ok (results, none) => ⟨[exchange], .ok results⟩
          | .ok (results, some pageEnd) =>
              let rest := dailyPages call client n pageEnd results
              ⟨exchange::rest.sent, rest.result⟩

/-- `get_daily_price`. -/
def getDailyPrice (call : DailyCall) (client : DailyRequest → Except Error Response) (today : ℤ) :
    Fetch :=
  dailyPages call client maxCalls today []

/-! ### Rankings -/

structure RankItem (F : Type) where
  stockCode : FieldValue
  stockName : FieldValue
  currentPrice : ℤ
  changeRate : F
  volume : ℤ
  sourceRank : ℤ
  marketCap : Option ℤ := none
  metric : Option F := none

/-- The ranking calls, which differ in two field names. -/
inductive RankCall where
  | changeRate
  | volumePower
  | quoteBalance
  deriving DecidableEq

def RankCall.codeKey : RankCall → String
  | .changeRate => "stck_shrn_iscd"
  | .volumePower => "stck_shrn_iscd"
  | .quoteBalance => "mksc_shrn_iscd"

def RankCall.metricKey : RankCall → String
  | .changeRate => "prdy_ctrt"
  | .volumePower => "tday_rltv"
  | .quoteBalance => "shnu_rsqn_rate"

def rankItem {F : Type} (float : FloatReader F) (call : RankCall) (idx : ℕ) (item : Record) :
    Except Error (RankItem F) := do
  let currentPrice ← toInt ((get item "STCK_PRPR" "0").orText "0")
  let changeRate ← float.toFloat ((get item "PRDY_CTRT" "0").orText "0")
  let volume ← toInt ((get item "ACML_VOL" "0").orText "0")
  let sourceRank ← toInt ((get item "DATA_RANK" "0").orText (toString idx))
  let metric ← float.toFloat ((get item call.metricKey "0").orText "0")
  pure { stockCode := get item call.codeKey "", stockName := get item "HTS_KOR_ISNM" "",
         currentPrice, changeRate, volume, sourceRank, metric := some metric }

/-- The loop over `output_list[:top_n]`, whose elements are numbered. -/
def rankItems {F : Type} (float : FloatReader F) (call : RankCall) :
    ℕ → List Record → Except Error (List (RankItem F))
  | _, [] => .ok []
  | idx, item::items =>
      if (get item call.codeKey "").truthy then do
        let x ← rankItem float call idx item
        let xs ← rankItems float call (idx + 1) items
        pure (x::xs)
      else rankItems float call (idx + 1) items

/-- `xs[:n]`. -/
def upTo {α : Type} (n : ℤ) (xs : List α) : List α :=
  if 0 ≤ n then xs.take n.toNat else xs.take (xs.length - (-n).toNat)

/-- `_fetch_rank`, from the answer to its request. A record has no slices. -/
def fetchRank {F : Type} (float : FloatReader F) (call : RankCall) (topN : ℤ)
    (answer : Except Error Response) : Except Error (List (RankItem F)) :=
  match answer with
  | .error .kisAutoTrader => .ok []
  | .error e => .error e
  | .ok response =>
      if response.refused then .ok []
      else
        match (given response.output).getD (.records []) with
        | .records items => rankItems float call 1 (upTo topN items)
        | _ => .error .type

/-- `get_change_rate_rank`, `get_volume_power_rank` and `get_quote_balance_rank`. -/
def getRank {F : Type} (float : FloatReader F) (call : RankCall) (topN : Option ℤ)
    (screeningTopN : ℤ) (answer : Except Error Response) : Except Error (List (RankItem F)) :=
  fetchRank float call (topN.getD screeningTopN) answer

end KisAutotrader.Quotes
