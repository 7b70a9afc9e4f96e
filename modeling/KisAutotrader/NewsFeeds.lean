import KisAutotrader.Collector
import KisAutotrader.Interleaving

/-!
# News feeds

The collector of RSS items: one cycle asks every feed in turn, keeps the items that are not
older than `since`, and saves one state for all feeds.
-/
namespace KisAutotrader.NewsFeeds
open LocalDay Text Collector

structure FeedSource where
  label : String
  url : String
  deriving DecidableEq

/-- An entry as the feed parser gives it; a parsed time is the wall time in UTC. -/
structure Entry where
  title : Option String := none
  summary : Option String := none
  description : Option String := none
  link : Option String := none
  id : Option String := none
  guid : Option String := none
  publishedParsed : Option ℤ := none
  updatedParsed : Option ℤ := none
  deriving DecidableEq

/-- What a cycle meets at a feed: robots.txt forbids it, the fetch raises an `HTTPError`, or the
feed lists its entries. -/
inductive Outcome where
  | blocked
  | failed
  | listed (entries : List Entry)

section Collect
variable (matcher : String → List Code) (system : TimeZone)

/-- `_parse_pubdate`: `mktime` reads the UTC wall time as one of the system's zone. -/
def parsePubdate (entry : Entry) : Option ℤ :=
  (entry.publishedParsed <|> entry.updatedParsed).map system.instant

def titleOf (entry : Entry) : String := (given entry.title).getD ""

def summaryOf (entry : Entry) : String := (given entry.summary <|> given entry.description).getD ""

def guidOf (entry : Entry) : Option String :=
  given entry.id <|> given entry.guid <|> given entry.link

/-- The tickers found in the text, or the whole market. -/
def tickersOf (entry : Entry) : List Code :=
  match matcher (titleOf entry ++ "\n" ++ summaryOf entry) with
  | [] => ["MARKET"]
  | tickers => tickers

def documentFor (feed : FeedSource) (entry : Entry) (guid : String) (eventTime : ℤ) (ticker : Code) :
    RawDocument :=
  { ticker, sourceType := .news, sourceId := feed.label ++ ":" ++ guid, title := some (titleOf entry),
    body := summaryOf entry, eventTime }

/-- `_expand_item`. -/
def expandItem (since now : ℤ) (feed : FeedSource) (entry : Entry) : List RawDocument :=
  match guidOf entry with
  | none => []
  | some guid =>
      let eventTime := (parsePubdate system entry).getD now
      if eventTime < since then []
      else (tickersOf matcher entry).map (documentFor feed entry guid eventTime)

/-- The turn of one feed in `collect`. -/
def collectFeed (since now : ℤ) (feed : FeedSource) : Outcome → List RawDocument
  | .blocked => []
  | .failed => []
  | .listed entries => entries.flatMap (expandItem matcher system since now feed)

end Collect

/-! ### Cycles and publications -/

/-- An entry and when its feed published it. -/
structure Item where
  feed : FeedSource
  entry : Entry
  publishedAt : ℤ
  deriving DecidableEq

/-- A cycle in progress: the feeds still to be asked and the documents found so far. -/
structure Cycle where
  since : ℤ
  remaining : List FeedSource
  docs : List RawDocument := []

/-- `origin` is the `since` of the first cycle; `delivered` has the items whose feed has been
fetched since they were published. Neither is read by the collector. -/
structure State (H : Type) where
  clock : ℤ
  published : List Item := []
  table : List (NewsChunk H) := []
  lastCollectedAt : Option ℤ := none
  cycle : Option Cycle := none
  origin : Option ℤ := none
  delivered : List Item := []

/-- A cycle is started, asks its next feed, and stores what it found; another exception than an
`HTTPError` ends it without storing anything. In between items are published and time passes. -/
inductive Event where
  | tick (elapsed : ℕ)
  | publish (feed : FeedSource) (entry : Entry)
  | start
  | fetch (outcome : Outcome)
  | finish
  | fail

section Step
variable {H : Type} [DecidableEq H] (hash : Content → H) (w : Windows) (feeds : List FeedSource)
  (matcher : String → List Code) (system : TimeZone)

def beginCycle (s : State H) : State H :=
  let since := sinceOf s.lastCollectedAt s.clock
  { s with cycle := some { since, remaining := feeds }, origin := s.origin <|> some since }

def deliver (feed : FeedSource) (outcome : Outcome) (s : State H) : List Item :=
  match outcome with
  | .blocked | .failed => s.delivered
  | .listed _ => s.delivered ++ s.published.filter (·.feed = feed)

def fetchNext (c : Cycle) (feed : FeedSource) (rest : List FeedSource) (outcome : Outcome)
    (s : State H) : State H :=
  { s with
    cycle := some { c with
      remaining := rest
      docs := c.docs ++ collectFeed matcher system c.since s.clock feed outcome }
    delivered := deliver feed outcome s }

/-- The rows and the state of the source are committed together. -/
def finishCycle (c : Cycle) (s : State H) : State H :=
  { s with
    table := store hash w s.table c.docs
    lastCollectedAt := if c.docs = [] then s.lastCollectedAt else some s.clock
    cycle := none }

def step (s : State H) : Event → State H
  | .tick elapsed => { s with clock := s.clock + elapsed }
  | .publish feed entry =>
      { s with published := s.published ++ [{ feed, entry, publishedAt := s.clock }] }
  | .start =>
      match s.cycle with
      | none => beginCycle feeds s
      | some _ => s
  | .fetch outcome =>
      match s.cycle with
      | some c =>
          match c.remaining with
          | feed::rest => fetchNext matcher system c feed rest outcome s
          | [] => s
      | none => s
  | .finish =>
      match s.cycle with
      | some c => if c.remaining = [] then finishCycle hash w c s else s
      | none => s
  | .fail => { s with cycle := none }

end Step

end KisAutotrader.NewsFeeds
