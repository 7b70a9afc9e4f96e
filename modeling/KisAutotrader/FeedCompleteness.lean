import KisAutotrader.NewsFeeds

/-!
# Completeness of the feeds

Which items the cycles have stored, in any run of publications, failing fetches and cycles.
-/
namespace KisAutotrader.NewsFeeds.Completeness
open LocalDay Text Collector Interleaving

section Items
variable (matcher : String → List Code) (system : TimeZone)

/-- The event time of an item whose feed gives its publication in whole seconds of UTC. -/
def eventTimeOf (x : Item) : ℤ := system.instant (x.publishedAt / second * second)

def Dated (x : Item) : Prop := x.entry.publishedParsed = some (x.publishedAt / second * second)

def compositeId (x : Item) : Option String := (guidOf x.entry).map fun guid => x.feed.label ++ ":" ++ guid

/-- An item that can be told from others and has something to read. -/
def Storable (x : Item) : Prop :=
  guidOf x.entry ≠ none ∧ (Visible (titleOf x.entry) ∨ Visible (summaryOf x.entry))

instance (x : Item) : Decidable (Storable x) := inferInstanceAs (Decidable (_ ∧ _))

def documentsOf (x : Item) : List RawDocument :=
  match guidOf x.entry with
  | none => []
  | some guid => (tickersOf matcher x.entry).map (documentFor x.feed x.entry guid (eventTimeOf system x))

variable {matcher system} {x : Item} {doc : RawDocument}

theorem expandItem_of_dated (h : Dated x) (since now : ℤ) :
    expandItem matcher system since now x.feed x.entry =
      if eventTimeOf system x < since then [] else documentsOf matcher system x := by
  have htime : (parsePubdate system x.entry).getD now = eventTimeOf system x := by
    rw [parsePubdate, h]
    rfl
  unfold expandItem documentsOf
  rw [htime]
  cases guidOf x.entry with
  | none => simp
  | some guid => rfl

theorem mem_documentsOf : doc ∈ documentsOf matcher system x ↔ ∃ guid, guidOf x.entry = some guid ∧
    ∃ ticker ∈ tickersOf matcher x.entry, documentFor x.feed x.entry guid (eventTimeOf system x) ticker = doc := by
  unfold documentsOf
  split
  next hnone => simp [hnone]
  next guid hguid => simp [hguid]

theorem sourceId_of_mem (h : doc ∈ documentsOf matcher system x) : compositeId x = some doc.sourceId := by
  obtain ⟨guid, hguid, ticker, -, rfl⟩ := mem_documentsOf.mp h
  simp [compositeId, hguid, documentFor]

/-- Two documents of one item differ in their tickers. -/
theorem document_unique {doc' : RawDocument} (h : doc ∈ documentsOf matcher system x)
    (h' : doc' ∈ documentsOf matcher system x) (hticker : doc.ticker = doc'.ticker) : doc = doc' := by
  obtain ⟨guid, hguid, ticker, -, rfl⟩ := mem_documentsOf.mp h
  obtain ⟨guid', hguid', ticker', -, rfl⟩ := mem_documentsOf.mp h'
  obtain rfl := Option.some.inj (hguid.symm.trans hguid')
  obtain rfl : ticker = ticker' := hticker
  rfl

theorem tickersOf_ne_nil (entry : Entry) : tickersOf matcher entry ≠ [] := by
  unfold tickersOf
  split
  next => simp
  next h => exact h

theorem documentsOf_ne_nil (h : Storable x) : documentsOf matcher system x ≠ [] := by
  obtain ⟨guid, hguid⟩ := Option.ne_none_iff_exists'.mp h.1
  unfold documentsOf
  simp only [hguid, ne_eq, List.map_eq_nil_iff]
  exact tickersOf_ne_nil x.entry

theorem chunks_of_storable (h : Storable x) (w : Windows) (hdoc : doc ∈ documentsOf matcher system x) :
    chunksOf w doc ≠ [] := by
  obtain ⟨guid, -, ticker, -, rfl⟩ := mem_documentsOf.mp hdoc
  apply chunksOf_ne_nil
  rcases h.2 with htitle | hsummary
  · exact Or.inl ⟨_, rfl, htitle⟩
  · exact Or.inr hsummary

end Items

/-! ### Owed items -/

section Conditions
variable {H : Type} (hash : Content → H) (w : Windows) (feeds : List FeedSource)
  (matcher : String → List Code) (system : TimeZone) (allowed : FeedSource → Bool)

/-- Every row of every document of the item is in the table. -/
def InTable (table : List (NewsChunk H)) (x : Item) : Prop :=
  ∀ doc ∈ documentsOf matcher system x, ∀ r ∈ rowsOf hash w doc, r ∈ table

instance [DecidableEq H] (table : List (NewsChunk H)) (x : Item) :
    Decidable (InTable hash w matcher system table x) :=
  inferInstanceAs (Decidable (∀ doc ∈ documentsOf matcher system x, ∀ r ∈ rowsOf hash w doc, r ∈ table))

/-- An item of an allowed feed published since the first cycle began to look. -/
def Owed (s : State H) (x : Item) : Prop :=
  allowed x.feed = true ∧ Storable x ∧ ∀ o ∈ s.origin, o ≤ x.publishedAt

instance (s : State H) (x : Item) : Decidable (Owed allowed s x) := inferInstanceAs (Decidable (_ ∧ _ ∧ _))

/-- The documents of the items. -/
def documents (published : List Item) : Set RawDocument :=
  {doc | ∃ x ∈ published, doc ∈ documentsOf matcher system x}

/-- The feeds: items carry their time of publication and an id of their own, and a fetched feed
lists published items, among them those published since it was last fetched. -/
def Listed (s : State H) : Event → Prop
  | .publish feed entry =>
      Dated { feed, entry, publishedAt := s.clock } ∧ ∀ y ∈ s.published,
        compositeId y = compositeId { feed, entry, publishedAt := s.clock } → compositeId y = none
  | .fetch (.listed entries) => ∀ c ∈ s.cycle, ∀ feed ∈ c.remaining.head?,
      (∀ entry ∈ entries, ∃ x ∈ s.published, x.feed = feed ∧ x.entry = entry) ∧
      ∀ x ∈ s.published, x.feed = feed → x ∉ s.delivered → x.entry ∈ entries
  | _ => True

instance (s : State H) : ∀ e, Decidable (Listed s e)
  | .publish feed entry => inferInstanceAs (Decidable (entry.publishedParsed = some _ ∧
      ∀ y ∈ s.published, compositeId y = compositeId { feed, entry, publishedAt := s.clock } →
        compositeId y = none))
  | .fetch (.listed entries) => inferInstanceAs (Decidable (∀ c ∈ s.cycle, ∀ feed ∈ c.remaining.head?,
      (∀ entry ∈ entries, ∃ x ∈ s.published, x.feed = feed ∧ x.entry = entry) ∧
      ∀ x ∈ s.published, x.feed = feed → x ∉ s.delivered → x.entry ∈ entries))
  | .fetch .blocked | .fetch .failed | .tick _ | .start | .finish | .fail => isTrue trivial

/-- No two chunks of the items have the same hash. -/
def Collisionless (s : State H) : Event → Prop
  | .publish feed entry => Set.InjOn hash (contentsOf w
      (documents matcher system (s.published ++ [{ feed, entry, publishedAt := s.clock }])))
  | _ => True

/-- No owed item that is still to be fetched has an event time before `v`. -/
def Reaches (s : State H) (v : ℤ) : Prop :=
  ∀ x ∈ s.published, Owed allowed s x → x ∉ s.delivered → v ≤ eventTimeOf system x

instance (s : State H) (v : ℤ) : Decidable (Reaches system allowed s v) :=
  inferInstanceAs (Decidable (∀ x ∈ s.published, _))

/-- An item's event time is not before the `since` in force when it is published; a `since` that
is taken from the clock leaves no item behind that is still to be fetched; and a cycle that
ends in another exception has fetched nothing new. -/
def Covers (s : State H) : Event → Prop
  | .publish feed entry =>
      let x : Item := { feed, entry, publishedAt := s.clock }
      allowed feed = true → Storable x → (∀ v ∈ s.lastCollectedAt, v ≤ eventTimeOf system x) ∧
        ∀ c ∈ s.cycle, c.since ≤ eventTimeOf system x
  | .start => s.cycle = none → s.lastCollectedAt = none →
      Reaches system allowed (beginCycle feeds s) (sinceOf none s.clock)
  | .finish => ∀ c ∈ s.cycle, c.remaining = [] → c.docs ≠ [] → Reaches system allowed s s.clock
  | .fail => ∀ x ∈ s.delivered, Owed allowed s x → InTable hash w matcher system s.table x
  | _ => True

instance [DecidableEq H] (s : State H) : ∀ e, Decidable (Covers hash w feeds matcher system allowed s e)
  | .publish feed entry => inferInstanceAs (Decidable (allowed feed = true → Storable _ →
      (∀ v ∈ s.lastCollectedAt, v ≤ eventTimeOf system { feed, entry, publishedAt := s.clock }) ∧
        ∀ c ∈ s.cycle, c.since ≤ eventTimeOf system { feed, entry, publishedAt := s.clock }))
  | .start => inferInstanceAs (Decidable (s.cycle = none → s.lastCollectedAt = none →
      Reaches system allowed (beginCycle feeds s) (sinceOf none s.clock)))
  | .finish => inferInstanceAs (Decidable (∀ c ∈ s.cycle, c.remaining = [] → c.docs ≠ [] →
      Reaches system allowed s s.clock))
  | .fail => inferInstanceAs (Decidable (∀ x ∈ s.delivered, Owed allowed s x →
      InTable hash w matcher system s.table x))
  | .tick _ | .fetch _ => isTrue trivial

structure Inv (s : State H) : Prop where
  dated : ∀ x ∈ s.published, Dated x
  identified : ∀ x ∈ s.published, ∀ y ∈ s.published, compositeId x = compositeId y →
    compositeId x ≠ none → x = y
  injective : Set.InjOn hash (contentsOf w (documents matcher system s.published))
  genuine : Genuine hash w (documents matcher system s.published) s.table
  delivered : ∀ x ∈ s.delivered, x ∈ s.published
  stored : ∀ x ∈ s.delivered, Owed allowed s x → InTable hash w matcher system s.table x ∨
    ∃ c ∈ s.cycle, ∀ doc ∈ documentsOf matcher system x, doc ∈ c.docs
  found : ∀ c ∈ s.cycle, ∀ doc ∈ c.docs, doc ∈ documents matcher system s.published
  cursor : ∀ v ∈ s.lastCollectedAt, Reaches system allowed s v
  cycle : ∀ c ∈ s.cycle, Reaches system allowed s c.since

end Conditions

section Steps
variable {H : Type} {hash : Content → H} {w : Windows} {feeds : List FeedSource}
  {matcher : String → List Code} {system : TimeZone} {allowed : FeedSource → Bool}
  {s s' : State H} {x : Item}

theorem Owed.mono (h : Owed allowed s' x) (horigin : ∀ o ∈ s.origin, o ∈ s'.origin) :
    Owed allowed s x :=
  ⟨h.1, h.2.1, fun o ho => h.2.2 o (horigin o ho)⟩

theorem Reaches.mono {v : ℤ} (h : Reaches system allowed s v) (hpub : s'.published = s.published)
    (horigin : ∀ o ∈ s.origin, o ∈ s'.origin) (hdelivered : ∀ y ∈ s.delivered, y ∈ s'.delivered) :
    Reaches system allowed s' v :=
  fun x hx howed hnew => h x (hpub ▸ hx) (howed.mono horigin) fun hy => hnew (hdelivered x hy)

theorem Inv.separate (h : Inv hash w matcher system allowed s) :
    Separate hash w (documents matcher system s.published) := by
  refine ⟨h.injective, ?_⟩
  rintro a ⟨x, hx, ha⟩ b ⟨y, hy, hb⟩ hsource hticker
  have hid : compositeId x = compositeId y := by
    rw [sourceId_of_mem ha, sourceId_of_mem hb, hsource]
  obtain rfl := h.identified x hx y hy hid (by simp [sourceId_of_mem ha])
  exact document_unique ha hb hticker

theorem inv_start (clock : ℤ) : Inv hash w matcher system allowed ({ clock } : State H) :=
  ⟨by simp, by simp, by simp [contentsOf, documents], by simp [Genuine], by simp, by simp, by simp,
    by simp, by simp⟩

theorem Inv.publish (h : Inv hash w matcher system allowed s) {feed : FeedSource} {entry : Entry}
    (hlisted : Listed s (.publish feed entry))
    (hhash : Collisionless hash w matcher system s (.publish feed entry))
    (hcovers : Covers hash w feeds matcher system allowed s (.publish feed entry)) :
    Inv hash w matcher system allowed
      { s with published := s.published ++ [{ feed, entry, publishedAt := s.clock }] } := by
  set new : Item := { feed, entry, publishedAt := s.clock } with hnew
  obtain ⟨hdated, hown⟩ := hlisted
  have hold : ∀ y ∈ s.published, y ∈ s.published ++ [new] := fun y hy => List.mem_append_left _ hy
  have hcases : ∀ y ∈ s.published ++ [new], y ∈ s.published ∨ y = new := by
    intro y hy
    simpa using hy
  have hdocs : documents matcher system s.published ⊆ documents matcher system (s.published ++ [new]) := by
    rintro doc ⟨x, hx, hdoc⟩
    exact ⟨x, hold x hx, hdoc⟩
  have hlater : ∀ v, Reaches system allowed s v →
      (allowed feed = true → Storable new → v ≤ eventTimeOf system new) →
      Reaches system allowed { s with published := s.published ++ [new] } v := by
    intro v hreaches hafter y hy howed hfetched
    rcases hcases y hy with hy | rfl
    · exact hreaches y hy howed hfetched
    · exact hafter howed.1 howed.2.1
  refine ⟨fun x hx => ?_, fun x hx y hy hid hne => ?_, hhash, h.genuine.mono hdocs,
    fun x hx => hold x (h.delivered x hx), h.stored, fun c hc doc hdoc => hdocs (h.found c hc doc hdoc),
    fun v hv => ?_, fun c hc => ?_⟩
  · rcases hcases x hx with hx | rfl
    · exact h.dated x hx
    · exact hdated
  · rcases hcases x hx with hx | rfl
    · rcases hcases y hy with hy | rfl
      · exact h.identified x hx y hy hid hne
      · exact absurd (hown x hx hid) hne
    · rcases hcases y hy with hy | rfl
      · exact absurd (hid.trans (hown y hy hid.symm)) hne
      · rfl
  · exact hlater v (h.cursor v hv) fun hallowed hstorable => (hcovers hallowed hstorable).1 v hv
  · exact hlater c.since (h.cycle c hc) fun hallowed hstorable => (hcovers hallowed hstorable).2 c hc

theorem Inv.beginCycle (h : Inv hash w matcher system allowed s) (hnone : s.cycle = none)
    (hcovers : s.lastCollectedAt = none →
      Reaches system allowed (beginCycle feeds s) (sinceOf none s.clock)) :
    Inv hash w matcher system allowed (beginCycle feeds s) := by
  have horigin : ∀ o ∈ s.origin, o ∈ (NewsFeeds.beginCycle feeds s).origin := by
    intro o ho
    simp [NewsFeeds.beginCycle, Option.mem_def.mp ho]
  refine ⟨h.dated, h.identified, h.injective, h.genuine, h.delivered, fun x hx howed => ?_, ?_,
    fun v hv => (h.cursor v hv).mono rfl horigin fun _ hy => hy, ?_⟩
  · refine Or.inl ((h.stored x hx (howed.mono horigin)).resolve_right ?_)
    simp [hnone]
  · rintro c ⟨⟩
    simp
  · rintro c ⟨⟩
    cases hlast : s.lastCollectedAt with
    | none => exact hcovers hlast
    | some v => exact (h.cursor v hlast).mono rfl horigin fun _ hy => hy

/-- What a fetch finds: documents of published items, among them those of every owed item that
was still to be fetched from the feed. -/
theorem mem_collectFeed (h : Inv hash w matcher system allowed s) {since now : ℤ} {feed : FeedSource}
    {entries : List Entry}
    (hlisted : ∀ entry ∈ entries, ∃ x ∈ s.published, x.feed = feed ∧ x.entry = entry) :
    ∀ doc ∈ collectFeed matcher system since now feed (.listed entries),
      doc ∈ documents matcher system s.published := by
  intro doc hdoc
  obtain ⟨entry, hentry, hexpand⟩ := List.mem_flatMap.mp hdoc
  obtain ⟨x, hx, rfl, rfl⟩ := hlisted entry hentry
  rw [expandItem_of_dated (h.dated x hx)] at hexpand
  split_ifs at hexpand
  · simp at hexpand
  · exact ⟨x, hx, hexpand⟩

theorem Inv.fetchNext (h : Inv hash w matcher system allowed s) {c : Cycle} {feed : FeedSource}
    {rest : List FeedSource} {outcome : Outcome} (hc : s.cycle = some c)
    (hremaining : c.remaining = feed::rest) (hlisted : Listed s (.fetch outcome)) :
    Inv hash w matcher system allowed (fetchNext matcher system c feed rest outcome s) := by
  have hdelivered : ∀ y ∈ s.delivered, y ∈ deliver feed outcome s := by
    intro y hy
    cases outcome with
    | listed entries => exact List.mem_append_left _ hy
    | _ => exact hy
  have hfound : ∀ doc ∈ collectFeed matcher system c.since s.clock feed outcome,
      doc ∈ documents matcher system s.published := by
    cases outcome with
    | listed entries => exact mem_collectFeed h (hlisted c hc feed (by simp [hremaining])).1
    | _ => simp [collectFeed]
  refine ⟨h.dated, h.identified, h.injective, h.genuine, fun x hx => ?_, fun x hx howed => ?_, ?_,
    fun v hv => (h.cursor v hv).mono rfl (fun _ ho => ho) hdelivered, ?_⟩
  · cases outcome with
    | listed entries =>
      rcases List.mem_append.mp hx with hold | hnew
      · exact h.delivered x hold
      · exact (List.mem_filter.mp hnew).1
    | _ => exact h.delivered x hx
  · by_cases hbefore : x ∈ s.delivered
    · refine (h.stored x hbefore howed).imp_right ?_
      rintro ⟨d, hd, hdocs⟩
      obtain rfl := Option.some.inj (hc.symm.trans hd)
      exact ⟨_, rfl, fun doc hdoc => List.mem_append_left _ (hdocs doc hdoc)⟩
    · cases outcome with
      | listed entries =>
        obtain ⟨hmem, hfeed⟩ := List.mem_filter.mp ((List.mem_append.mp hx).resolve_left hbefore)
        obtain rfl : x.feed = feed := by simpa using hfeed
        have hentry := (hlisted c hc x.feed (by simp [hremaining])).2 x hmem rfl hbefore
        have hreach := h.cycle c hc x hmem howed hbefore
        refine Or.inr ⟨_, rfl, fun doc hdoc => List.mem_append_right _ ?_⟩
        apply List.mem_flatMap.mpr
        refine ⟨x.entry, hentry, ?_⟩
        rw [expandItem_of_dated (h.dated x hmem), if_neg (not_lt.mpr hreach)]
        exact hdoc
      | _ => exact absurd hx hbefore
  · rintro d ⟨⟩ doc hdoc
    rcases List.mem_append.mp hdoc with hold | hnew
    · exact h.found c hc doc hold
    · exact hfound doc hnew
  · rintro d ⟨⟩
    exact (h.cycle c hc).mono rfl (fun _ ho => ho) hdelivered

theorem Inv.fail (h : Inv hash w matcher system allowed s)
    (hcovers : Covers hash w feeds matcher system allowed s .fail) :
    Inv hash w matcher system allowed { s with cycle := none } :=
  ⟨h.dated, h.identified, h.injective, h.genuine, h.delivered,
    fun x hx howed => Or.inl (hcovers x hx howed), by simp,
    h.cursor, by simp⟩

theorem Inv.tick (h : Inv hash w matcher system allowed s) (elapsed : ℕ) :
    Inv hash w matcher system allowed { s with clock := s.clock + elapsed } :=
  ⟨h.dated, h.identified, h.injective, h.genuine, h.delivered, h.stored, h.found, h.cursor, h.cycle⟩

variable [DecidableEq H]

theorem Inv.finishCycle (h : Inv hash w matcher system allowed s) {c : Cycle} (hc : s.cycle = some c)
    (hcovers : c.docs ≠ [] → Reaches system allowed s s.clock) :
    Inv hash w matcher system allowed (finishCycle hash w c s) := by
  have hfound := h.found c hc
  refine ⟨h.dated, h.identified, h.injective, h.genuine.store hfound, h.delivered,
    fun x hx howed => Or.inl ?_, by simp [NewsFeeds.finishCycle], fun v hv => ?_,
    by simp [NewsFeeds.finishCycle]⟩
  · intro doc hdoc r hr
    rcases h.stored x hx howed with hkept | ⟨d, hd, hdocs⟩
    · exact (store_stored hash w s.table c.docs).kept r (hkept doc hdoc r hr)
    · obtain rfl := Option.some.inj (hc.symm.trans hd)
      exact h.separate.present h.genuine hfound (hdocs doc hdoc) hr
  · have hreaches : Reaches system allowed s v := by
      by_cases hnone : c.docs = []
      · simp only [NewsFeeds.finishCycle, hnone, if_true] at hv
        exact h.cursor v hv
      · simp only [NewsFeeds.finishCycle, hnone, if_false, Option.mem_def, Option.some.injEq] at hv
        exact hv ▸ hcovers hnone
    exact hreaches

theorem inv_step (h : Inv hash w matcher system allowed s) (e : Event) (hlisted : Listed s e)
    (hhash : Collisionless hash w matcher system s e)
    (hcovers : Covers hash w feeds matcher system allowed s e) :
    Inv hash w matcher system allowed (step hash w feeds matcher system s e) := by
  cases e with
  | tick elapsed => exact h.tick elapsed
  | publish feed entry => exact h.publish hlisted hhash hcovers
  | start =>
    simp only [step]
    split
    next hnone => exact h.beginCycle hnone (hcovers hnone)
    next => exact h
  | fetch outcome =>
    simp only [step]
    split
    next c hc =>
      split
      next feed rest hremaining => exact h.fetchNext hc hremaining hlisted
      next => exact h
    next => exact h
  | finish =>
    simp only [step]
    split
    next c hc =>
      split_ifs with hremaining
      · exact h.finishCycle hc (hcovers c hc hremaining)
      · exact h
    next => exact h
  | fail => exact h.fail hcovers

end Steps

def market : FeedSource := ⟨"yonhap_market", "feeds/market"⟩

def stocks : FeedSource := ⟨"edaily_stock_news", "feeds/stocks"⟩

/-- Eight in the morning of January 5, 2026, UTC. -/
def morning : ℤ := 20458 * dayLength + 8 * hour

/-- An entry published so many seconds later. -/
def entryAt (seconds : ℤ) (guid : String) : Entry :=
  { title := some "삼성전자 잠정실적 발표", guid := some guid,
    publishedParsed := some (morning + seconds * second) }

/-- Both feeds are fetched, and an item is published between two cycles. -/
def steadyEvents : List Event :=
  [.publish market (entryAt 0 "a"), .start, .fetch (.listed [entryAt 0 "a"]), .fetch (.listed []),
    .finish, .tick 1000000, .publish stocks (entryAt 1 "b"), .start, .fetch .failed,
    .fetch (.listed [entryAt 1 "b"]), .finish]

def world : String → List Code := fun _ => []

/-- The fetch of one feed fails in the first cycle; the other feed moves the state on. -/
def failingEvents : List Event :=
  [.publish market (entryAt 0 "a"), .publish stocks (entryAt 0 "b"), .start,
    .fetch (.listed [entryAt 0 "a"]), .fetch .failed, .tick 1000000, .finish, .tick 300000000, .start,
    .fetch (.listed [entryAt 0 "a"]), .fetch (.listed [entryAt 0 "b"]), .finish]

end KisAutotrader.NewsFeeds.Completeness
