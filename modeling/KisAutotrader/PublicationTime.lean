import KisAutotrader.Disclosures
import KisAutotrader.Fallible
import KisAutotrader.NewsFeeds

/-!
# Publication times

What `mktime` makes of a parsed time. The feed parser gives the time in UTC, `mktime` reads it by
the rules of the process's own zone.
-/
namespace KisAutotrader.PublicationTime
open Disclosures LocalDay Collector NewsFeeds Fallible

/-- A `time.struct_time`; `isdst` says whether it is in summer time (0 no, positive yes, negative
unknown). -/
structure StructTime where
  year : ℤ
  month : ℤ
  day : ℤ
  hour : ℤ
  minute : ℤ
  second : ℤ
  isdst : ℤ
  dated : 1 ≤ month ∧ month ≤ 12 ∧ 1 ≤ day ∧ day ≤ daysInMonth year month := by decide
  timed : 0 ≤ hour ∧ hour < 24 ∧ 0 ≤ minute ∧ minute < 60 ∧ 0 ≤ second ∧ second ≤ 61 := by decide

/-- What the clock shows, in microseconds. Of a time in UTC this is the instant it denotes. -/
def StructTime.wall (t : StructTime) : ℤ :=
  dayNumber t.year t.month t.day * dayLength +
    ((t.hour * 60 + t.minute) * 60 + t.second) * Collector.second

/-- The rules of a zone by what the clock shows: both offsets from UTC, and whether summer time
is in force. -/
structure ZoneRules where
  standard : ℤ → ℤ
  summer : ℤ → ℤ
  observed : ℤ → Bool

def ZoneRules.offset (zone : ZoneRules) (wall isdst : ℤ) : ℤ :=
  if isdst = 0 then zone.standard wall
  else if 0 < isdst then zone.summer wall
  else if zone.observed wall then zone.summer wall
  else zone.standard wall

def mktime (zone : ZoneRules) (t : StructTime) : ℤ := t.wall - zone.offset t.wall t.isdst

inductive Error where
  | outOfRange
  deriving DecidableEq

/-- The years 1 to 9999. -/
def Representable (instant : ℤ) : Prop :=
  dayNumber 1 1 1 * dayLength ≤ instant ∧ instant < dayNumber 10000 1 1 * dayLength

instance (instant : ℤ) : Decidable (Representable instant) := inferInstanceAs (Decidable (_ ∧ _))

def fromTimestamp (instant : ℤ) : Except Error ℤ :=
  if Representable instant then .ok instant else .error .outOfRange

/-- An entry of a feed with its parsed times. -/
structure FeedItem where
  title : Option String := none
  summary : Option String := none
  description : Option String := none
  link : Option String := none
  id : Option String := none
  guid : Option String := none
  publishedParsed : Option StructTime := none
  updatedParsed : Option StructTime := none

/-- The entry with its times as readings of a clock. -/
def FeedItem.entry (item : FeedItem) : Entry where
  title := item.title
  summary := item.summary
  description := item.description
  link := item.link
  id := item.id
  guid := item.guid
  publishedParsed := item.publishedParsed.map StructTime.wall
  updatedParsed := item.updatedParsed.map StructTime.wall

/-- `published_parsed`, else `updated_parsed`. -/
def FeedItem.parsed (item : FeedItem) : Option StructTime := item.publishedParsed <|> item.updatedParsed

def parsePubdate (zone : ZoneRules) (item : FeedItem) : Except Error (Option ℤ) :=
  match item.parsed with
  | none => .ok none
  | some t => (fromTimestamp (mktime zone t)).map some

section Items
variable (matcher : String → List Code)

/-- `_expand_item`. -/
def expandItem (zone : ZoneRules) (since now : ℤ) (feed : FeedSource) (item : FeedItem) :
    Except Error (List RawDocument) :=
  match guidOf item.entry with
  | none => .ok []
  | some guid => do
      let eventTime := (← parsePubdate zone item).getD now
      if eventTime < since then return []
      else return (tickersOf matcher item.entry).map (documentFor feed item.entry guid eventTime)

/-- The documents of an item that was published at `instant`. -/
def documentsAt (instant since : ℤ) (feed : FeedSource) (item : FeedItem) : List RawDocument :=
  match guidOf item.entry with
  | none => []
  | some guid =>
      if instant < since then []
      else (tickersOf matcher item.entry).map (documentFor feed item.entry guid instant)

/-- An item with the time `t` is treated as published at the instant that `t` denotes. -/
structure OnTime (zone : ZoneRules) (item : FeedItem) (t : StructTime) : Prop where
  returned : parsePubdate zone item = .ok (some t.wall)
  compared : ∀ since now feed,
    expandItem matcher zone since now feed item = .ok (documentsAt matcher t.wall since feed item)
  kept : ∀ since now feed guid, guidOf item.entry = some guid → since < t.wall →
    ∃ docs, expandItem matcher zone since now feed item = .ok docs ∧ docs ≠ []

variable {matcher} {zone : ZoneRules} {item : FeedItem} {t : StructTime}

theorem tickersOf_ne_nil (matcher : String → List Code) (entry : Entry) :
    tickersOf matcher entry ≠ [] := by
  unfold tickersOf
  split
  · simp
  · assumption

theorem documentsAt_eq_nil {instant since : ℤ} {feed : FeedSource} {guid : String}
    (hguid : guidOf item.entry = some guid) :
    documentsAt matcher instant since feed item = [] ↔ instant < since := by
  unfold documentsAt
  rw [hguid]
  by_cases hold : instant < since
  · simp [hold]
  · simp [hold, tickersOf_ne_nil]

theorem parsePubdate_eq (hparsed : item.parsed = some t) :
    parsePubdate zone item =
      if Representable (mktime zone t) then .ok (some (mktime zone t)) else .error .outOfRange := by
  unfold parsePubdate fromTimestamp
  rw [hparsed]
  by_cases h : Representable (mktime zone t)
  · simp [h, Except.map]
  · simp [h, Except.map]

theorem expandItem_of_parsePubdate {instant : ℤ} (h : parsePubdate zone item = .ok (some instant))
    (since now : ℤ) (feed : FeedSource) :
    expandItem matcher zone since now feed item = .ok (documentsAt matcher instant since feed item) := by
  unfold expandItem documentsAt
  cases guidOf item.entry with
  | none => rfl
  | some guid =>
      rw [h]
      change (if instant < since then _ else _) = _
      split_ifs
      · rfl
      · rfl

/-- The instant is right exactly if the zone's offset is zero where `mktime` applies it. -/
theorem parsePubdate_wall_iff (hparsed : item.parsed = some t) :
    parsePubdate zone item = .ok (some t.wall) ↔
      zone.offset t.wall t.isdst = 0 ∧ Representable t.wall := by
  rw [parsePubdate_eq hparsed]
  constructor
  · intro h
    split_ifs at h with hrange
    have hsame : mktime zone t = t.wall := Option.some.inj (Except.ok.inj h)
    refine ⟨?_, hsame ▸ hrange⟩
    unfold mktime at hsame
    omega
  · rintro ⟨hoffset, hrange⟩
    have hsame : mktime zone t = t.wall := by rw [mktime, hoffset, sub_zero]
    rw [hsame, if_pos hrange]

theorem OnTime.of_parsePubdate (h : parsePubdate zone item = .ok (some t.wall)) :
    OnTime matcher zone item t where
  returned := h
  compared := expandItem_of_parsePubdate h
  kept since now feed guid hguid hsince := by
    refine ⟨_, expandItem_of_parsePubdate h since now feed, ?_⟩
    rw [Ne, documentsAt_eq_nil hguid]
    omega

/-- Items are taken at their publication exactly if the zone's offset is zero there. -/
theorem onTime_iff (matcher : String → List Code) (zone : ZoneRules) (item : FeedItem) :
    (∀ t, item.parsed = some t → OnTime matcher zone item t) ↔
      ∀ t, item.parsed = some t → zone.offset t.wall t.isdst = 0 ∧ Representable t.wall := by
  constructor
  · intro h t hparsed
    exact (parsePubdate_wall_iff hparsed).mp (h t hparsed).returned
  · intro h t hparsed
    exact .of_parsePubdate ((parsePubdate_wall_iff hparsed).mpr (h t hparsed))

/-- An item is discarded when the offset hides its publication. -/
theorem expandItem_discards {since : ℤ} (hparsed : item.parsed = some t)
    (hrange : Representable (mktime zone t)) (hoffset : t.wall < since + zone.offset t.wall t.isdst)
    (now : ℤ) (feed : FeedSource) : expandItem matcher zone since now feed item = .ok [] := by
  rw [expandItem_of_parsePubdate (by rw [parsePubdate_eq hparsed, if_pos hrange])]
  cases hguid : guidOf item.entry with
  | none => simp [documentsAt, hguid]
  | some guid =>
      rw [(documentsAt_eq_nil hguid).mpr]
      unfold mktime
      omega

/-- The zone that reads every time with one daylight flag. -/
def ZoneRules.reading (zone : ZoneRules) (isdst : ℤ) : TimeZone where
  wall t := t + zone.offset t isdst
  instant w := w - zone.offset w isdst

/-- With one flag for all times, this is the collector of the feeds. -/
theorem expandItem_eq {isdst : ℤ} (hflag : ∀ t, item.parsed = some t → t.isdst = isdst)
    (hrange : ∀ t, item.parsed = some t → Representable (mktime zone t)) (since now : ℤ)
    (feed : FeedSource) :
    expandItem matcher zone since now feed item =
      .ok (NewsFeeds.expandItem matcher (zone.reading isdst) since now feed item.entry) := by
  have hentry : NewsFeeds.parsePubdate (zone.reading isdst) item.entry =
      item.parsed.map fun t => t.wall - zone.offset t.wall isdst := by
    unfold NewsFeeds.parsePubdate FeedItem.parsed FeedItem.entry
    cases item.publishedParsed <;> cases item.updatedParsed <;> rfl
  have hparse : parsePubdate zone item =
      .ok (NewsFeeds.parsePubdate (zone.reading isdst) item.entry) := by
    rw [hentry]
    cases hparsed : item.parsed with
    | none => simp [parsePubdate, hparsed]
    | some t =>
        rw [parsePubdate_eq hparsed, if_pos (hrange t hparsed), mktime, hflag t hparsed]
        rfl
  unfold expandItem NewsFeeds.expandItem
  cases guidOf item.entry with
  | none => rfl
  | some guid =>
      rw [hparse]
      change (if _ < since then _ else _) = _
      split_ifs with hold
      · simp only [if_pos hold]
        rfl
      · simp only [if_neg hold]
        rfl

end Items

/-- Nine hours ahead of UTC, without summer time. -/
def seoulRules : ZoneRules where
  standard _ := 9 * hour
  summer _ := 9 * hour
  observed _ := false

/-- An item published on March 2, 2026, half an hour after midnight in UTC. -/
def nightItem : FeedItem where
  title := some "특징주"
  link := some "https://news/1"
  publishedParsed := some
    { year := 2026, month := 3, day := 2, hour := 0, minute := 30, second := 0, isdst := 0 }

/-- It is discarded in Seoul by a cycle that looks for what is newer than midnight. -/
theorem nightItem_discarded : ¬ ∀ t, nightItem.parsed = some t →
    OnTime (fun _ => []) seoulRules nightItem t := by
  intro h
  obtain ⟨docs, hdocs, hne⟩ := (h _ rfl).kept (dayNumber 2026 3 2 * dayLength) 0 ⟨"f", "u"⟩
    "https://news/1" (by decide) (by decide)
  rw [expandItem_discards rfl (by decide) (by decide)] at hdocs
  exact hne (Except.ok.inj hdocs).symm

end KisAutotrader.PublicationTime
