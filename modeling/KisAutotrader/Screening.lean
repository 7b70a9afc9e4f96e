import Mathlib.Data.List.Sort
import KisAutotrader.Engine

/-! `_screen_stocks`: the universe of monitored candidates, taken over from the rows
the screening worker wrote today. -/
namespace KisAutotrader.Screening
open OrderedDict Coroutine

/-- `get_by_date`: the rows of one market day in rank order; ties keep the table's order. -/
def getByDate (clock : MarketClock) (today : ℕ) (rows : List ScreeningRow) : List ScreeningRow :=
  (rows.filter fun r => clock.date r.screenedAt = today).insertionSort
    fun a b => a.screeningRank ≤ b.screeningRank

/-- The latest `screened_at` of a stock over all of its rows. -/
def latestAt (code : Code) : List ScreeningRow → Option Time
  | [] => none
  | r::rs =>
      if r.stockCode = code then
        match latestAt code rs with
        | none => some r.screenedAt
        | some t => some (max r.screenedAt t)
      else latestAt code rs

/-- A stock whose latest row is older than the freshness window. -/
def isStaleCode (windowMin : ℤ) (now : Time) (results : List ScreeningRow) (code : Code) : Bool :=
  match latestAt code results with
  | none => true
  | some t => decide ((t : ℤ) < now - windowMin * minute)

/-- The pass in rank order; only the first row of a stock is looked at. -/
def freshScan (watchlist : List Code) (stale : Code → Bool) :
    List Code → List ScreeningRow → List Code
  | _, [] => []
  | seen, r::rs =>
      if r.stockCode ∈ seen then freshScan watchlist stale seen rs
      else if r.convertedToTrade = true ∧ r.stockCode ∉ watchlist ∧ stale r.stockCode = false then
        r.stockCode :: freshScan watchlist stale (r.stockCode :: seen) rs
      else freshScan watchlist stale (r.stockCode :: seen) rs

/-- The fresh codes `_screen_stocks` computes from the rows of the day, in rank order. -/
def freshCodes (windowMin : ℤ) (now : Time) (watchlist : List Code)
    (results : List ScreeningRow) : List Code :=
  freshScan watchlist (isStaleCode windowMin now results) [] results

/-- Rotation: stale codes leave unless nothing is fresh, fresh ones join up to the cap. -/
def dropStale (fresh screened : List Code) : List Code :=
  if fresh = [] then screened else screened.filter (· ∈ fresh)

def addFresh (cap : ℕ) : List Code → List Code → List Code
  | [], screened => screened
  | c::cs, screened =>
      if cap ≤ screened.length then screened
      else if c ∈ screened then addFresh cap cs screened
      else addFresh cap cs (screened ++ [c])

def rotate (cap : ℕ) (fresh screened : List Code) : List Code :=
  addFresh cap fresh (dropStale fresh screened)

/-- `_seed_overseas_exchanges`. -/
def seedExchanges (cfg : Settings) (markets : List (Code × String)) (e : Engine) : Engine :=
  { e with exchanges := markets.foldl (fun d x =>
      if x.2 ∈ cfg.market.exchanges then d.set x.1 x.2 else d) e.exchanges }

def setScreened (codes : List Code) (e : Engine) : Engine := { e with screenedCodes := codes }

def screenStocks (cfg : Settings) : EngineM Unit := do
  let w ← get
  let today := cfg.clock.date w.clock
  match ← loadScreening with
  | none => pure ()
  | some rows => do
      let w ← get
      let results := getByDate cfg.clock today rows
      let fresh := freshCodes cfg.freshWindowMin w.clock w.watchlist results
      let screened := rotate cfg.maxScreened fresh w.engine.screenedCodes
      let added := screened.filter (· ∉ w.engine.screenedCodes)
      modify (onEngine (setScreened screened))
      if cfg.market.isOverseas = true ∧ added ≠ [] then do
        let markets ← stockMarkets added
        modify (onEngine (seedExchanges cfg markets))
      else pure ()

end KisAutotrader.Screening
