import KisAutotrader.Disclosures

/-!
# Completeness of the disclosures

What a successful cycle leaves in the table, and so before the gate, in any run of
publications and cycles.
-/
namespace KisAutotrader.Disclosures.Completeness
open OrderedDict LocalDay Text Collector Interleaving

/-- What the list gives of every disclosure: a number, its date, and a name one can see. -/
structure WellFormed (x : Disclosure) : Prop where
  rceptNo : given x.rceptNo ≠ none
  rceptDt : ∃ s ∈ given x.rceptDt, strptime s = some x.day
  reportNm : ∃ t ∈ x.reportNm, Visible t

instance (x : Disclosure) : Decidable (WellFormed x) :=
  decidable_of_iff (given x.rceptNo ≠ none ∧ (∃ s ∈ given x.rceptDt, strptime s = some x.day) ∧
    ∃ t ∈ x.reportNm, Visible t) ⟨fun h => ⟨h.1, h.2.1, h.2.2⟩, fun h => ⟨h.1, h.2, h.3⟩⟩

/-- The event time of a disclosure: nine in the morning of its day, in Seoul. -/
def eventTimeOf (x : Disclosure) : ℤ := seoul.instant (x.day * dayLength + 9 * hour)

/-! ### Documents -/

section Documents
variable {corpCodeToTicker : Dict String Code} {x y : Disclosure} {code : Code} {doc : RawDocument}

theorem documentOf_eq_some : documentOf corpCodeToTicker x.toItem = some doc ↔
    ∃ code, tickerOf corpCodeToTicker x.toItem = some code ∧ toDocument x.toItem code = some doc := by
  simp [documentOf, Option.bind_eq_some_iff]

theorem toDocument_eq_some : toDocument x.toItem code = some doc ↔
    ∃ rceptNo rceptDt reportNm d, given x.rceptNo = some rceptNo ∧ given x.rceptDt = some rceptDt ∧
      given x.reportNm = some reportNm ∧ strptime rceptDt = some d ∧
      doc = { ticker := code, sourceType := .disclosure, sourceId := rceptNo, title := some reportNm,
              body := x.corpName.getD "" ++ " " ++ reportNm,
              eventTime := seoul.instant (d * dayLength + 9 * hour) } := by
  simp only [toDocument, Option.bind_eq_bind, Option.bind_eq_some_iff, Option.pure_def,
    Option.some.injEq]
  constructor
  · rintro ⟨no, hno, dt, hdt, nm, hnm, d, hd, rfl⟩
    exact ⟨no, dt, nm, d, hno, hdt, hnm, hd, rfl⟩
  · rintro ⟨no, dt, nm, d, hno, hdt, hnm, hd, rfl⟩
    exact ⟨no, hno, dt, hdt, nm, hnm, d, hd, rfl⟩

/-- A tracked disclosure becomes a document with its name and its day. -/
theorem document_of_tracked (htracked : tickerOf corpCodeToTicker x.toItem = some code)
    (hwell : WellFormed x) : ∃ doc, documentOf corpCodeToTicker x.toItem = some doc ∧
      doc.ticker = code ∧ doc.sourceType = .disclosure ∧ doc.title = x.reportNm ∧
      doc.eventTime = eventTimeOf x ∧ ∀ w, chunksOf w doc ≠ [] := by
  obtain ⟨no, hno⟩ := Option.ne_none_iff_exists'.mp hwell.rceptNo
  obtain ⟨dt, hdt, hday⟩ := hwell.rceptDt
  obtain ⟨nm, hnm, hvisible⟩ := hwell.reportNm
  have hgiven : given x.reportNm = some nm := given_some.mpr ⟨hnm, hvisible.ne_empty⟩
  refine ⟨_, documentOf_eq_some.mpr ⟨code, htracked, toDocument_eq_some.mpr
    ⟨no, dt, nm, x.day, hno, hdt, hgiven, hday, rfl⟩⟩, rfl, rfl, hnm.symm, rfl, fun w => ?_⟩
  exact chunksOf_ne_nil w (Or.inl ⟨nm, rfl, hvisible⟩)

theorem sourceId_of_document (h : documentOf corpCodeToTicker x.toItem = some doc) :
    x.rceptNo = some doc.sourceId := by
  obtain ⟨_, _, hdoc⟩ := documentOf_eq_some.mp h
  obtain ⟨no, _, _, _, hno, _, _, _, rfl⟩ := toDocument_eq_some.mp hdoc
  exact (given_some.mp hno).1

/-- The documents of an answer are those of the page. -/
theorem mem_collectDocs {order : List Disclosure → List Disclosure} {published : List Disclosure}
    {q : Query} : doc ∈ collectDocs corpCodeToTicker (listJson order published q) ↔
      ∃ x ∈ q.page (order published), documentOf corpCodeToTicker x.toItem = some doc := by
  unfold listJson
  split
  next hnone => simp [hnone, collectDocs]
  next => simp [collectDocs, List.mem_filterMap]

theorem mem_page {q : Query} {rows : List Disclosure} (h : x ∈ q.page rows) : x ∈ rows :=
  List.mem_of_mem_filter (List.mem_of_mem_drop (List.mem_of_mem_take h))

end Documents

/-! ### Pending disclosures -/

section Conditions
variable {H : Type} (hash : Content → H) (w : Windows)
  (order : List Disclosure → List Disclosure) (corpCodeToTicker : Dict String Code)

/-- A tracked disclosure that the cycles owe, published since the first of them began to look,
and that no successful cycle has covered yet. -/
structure Pending (s : State H) (x : Disclosure) : Prop where
  tracked : (tickerOf corpCodeToTicker x.toItem).isSome
  wellFormed : WellFormed x
  since : ∀ o ∈ s.origin, o ≤ x.publishedAt
  unsettled : x ∉ s.settled

instance (s : State H) (x : Disclosure) : Decidable (Pending corpCodeToTicker s x) :=
  decidable_of_iff ((tickerOf corpCodeToTicker x.toItem).isSome ∧ WellFormed x ∧
    (∀ o ∈ s.origin, o ≤ x.publishedAt) ∧ x ∉ s.settled)
    ⟨fun h => ⟨h.1, h.2.1, h.2.2.1, h.2.2.2⟩, fun h => ⟨h.1, h.2, h.3, h.4⟩⟩

/-- The documents of the disclosures. -/
def documents (published : List Disclosure) : Set RawDocument :=
  {doc | ∃ x ∈ published, documentOf corpCodeToTicker x.toItem = some doc}

/-- Every disclosure has a number of its own. -/
def Numbered (s : State H) : Event → Prop
  | .publish item => ∀ y ∈ s.published, y.rceptNo ≠ item.rceptNo
  | _ => True

/-- No two chunks of the disclosures have the same hash. -/
def Collisionless (s : State H) : Event → Prop
  | .publish item =>
      Set.InjOn hash (contentsOf w
        (documents corpCodeToTicker (s.published ++ [{ item with publishedAt := s.clock }])))
  | _ => True

/-- Without a saved state no pending disclosure is older than the first day asked for; what is
pending in the date range is on the first page; and no pending disclosure the cycle did not
cover is left on a day before the one at which the state is saved. -/
def Covers (s : State H) : Event → Prop
  | .start => s.cycle = none → s.lastCollectedAt = none → ∀ x ∈ s.published,
      Pending corpCodeToTicker (beginCycle s) x → seoul.date (sinceOf none s.clock) ≤ x.day
  | .request => ∀ c ∈ s.cycle, c.reply = none → ∀ x ∈ s.published, Pending corpCodeToTicker s x →
      c.query.inRange x = true → x ∈ c.query.page (order s.published)
  | .finish => ∀ c ∈ s.cycle, ∀ r ∈ c.reply, collectDocs corpCodeToTicker r.2 ≠ [] →
      ∀ x ∈ s.published, Pending corpCodeToTicker s x → (x ∈ r.1 → c.endDe < x.day) →
        seoul.date s.clock ≤ x.day
  | _ => True

instance (s : State H) : ∀ e, Decidable (Numbered s e)
  | .publish item => inferInstanceAs (Decidable (∀ y ∈ s.published, y.rceptNo ≠ item.rceptNo))
  | .tick _ | .start | .request | .finish | .fail => isTrue trivial

instance (s : State H) : ∀ e, Decidable (Covers order corpCodeToTicker s e)
  | .start => inferInstanceAs (Decidable (s.cycle = none → s.lastCollectedAt = none →
      ∀ x ∈ s.published, Pending corpCodeToTicker (beginCycle s) x →
        seoul.date (sinceOf none s.clock) ≤ x.day))
  | .request => inferInstanceAs (Decidable (∀ c ∈ s.cycle, c.reply = none → ∀ x ∈ s.published,
      Pending corpCodeToTicker s x → c.query.inRange x = true → x ∈ c.query.page (order s.published)))
  | .finish => inferInstanceAs (Decidable (∀ c ∈ s.cycle, ∀ r ∈ c.reply,
      collectDocs corpCodeToTicker r.2 ≠ [] → ∀ x ∈ s.published, Pending corpCodeToTicker s x →
        (x ∈ r.1 → c.endDe < x.day) → seoul.date s.clock ≤ x.day))
  | .tick _ | .publish _ | .fail => isTrue trivial

/-- No pending disclosure is older than the day of `v`. -/
def Reaches (s : State H) (v : ℤ) : Prop :=
  ∀ x ∈ s.published, Pending corpCodeToTicker s x → seoul.date v ≤ x.day

/-- What a cycle in progress can rely on. -/
structure CycleInv (s : State H) (c : Cycle) : Prop where
  since_le : c.since ≤ s.clock
  reaches : Reaches corpCodeToTicker s c.since
  listed : ∀ r ∈ c.reply, ∀ x ∈ r.1, x ∈ s.published
  answered : ∀ r ∈ c.reply, r.2 = listJson order r.1 c.query
  page : ∀ r ∈ c.reply, ∀ x ∈ r.1, Pending corpCodeToTicker s x → c.query.inRange x = true →
    x ∈ c.query.page (order r.1)

structure Inv (s : State H) : Prop where
  distinct : ∀ x ∈ s.published, ∀ y ∈ s.published, x.rceptNo = y.rceptNo → x = y
  injective : Set.InjOn hash (contentsOf w (documents corpCodeToTicker s.published))
  genuine : Genuine hash w (documents corpCodeToTicker s.published) s.table
  settled : ∀ x ∈ s.settled, x ∈ s.published
  stored : ∀ x ∈ s.settled, WellFormed x → (∀ o ∈ s.origin, o ≤ x.publishedAt) → ∀ doc,
    documentOf corpCodeToTicker x.toItem = some doc → ∀ r ∈ rowsOf hash w doc, r ∈ s.table
  cursor : ∀ v ∈ s.lastCollectedAt, v ≤ s.clock ∧ Reaches corpCodeToTicker s v
  cycle : ∀ c ∈ s.cycle, CycleInv order corpCodeToTicker s c

end Conditions

section Steps
variable {H : Type} {hash : Content → H} {w : Windows}
  {order : List Disclosure → List Disclosure} {corpCodeToTicker : Dict String Code}
  {s s' : State H} {x : Disclosure}

theorem date_mono {a b : ℤ} (h : a ≤ b) : seoul.date a ≤ seoul.date b := by
  simp only [seoul, TimeZone.date, TimeZone.fixed, dayLength, hour]
  omega

theorem Pending.mono (h : Pending corpCodeToTicker s' x) (horigin : ∀ o ∈ s.origin, o ∈ s'.origin)
    (hsettled : ∀ y ∈ s.settled, y ∈ s'.settled) : Pending corpCodeToTicker s x :=
  ⟨h.tracked, h.wellFormed, fun o ho => h.since o (horigin o ho),
    fun hx => h.unsettled (hsettled x hx)⟩

theorem Reaches.mono {v : ℤ} (h : Reaches corpCodeToTicker s v) (hpub : s'.published = s.published)
    (horigin : ∀ o ∈ s.origin, o ∈ s'.origin) (hsettled : ∀ y ∈ s.settled, y ∈ s'.settled) :
    Reaches corpCodeToTicker s' v :=
  fun x hx hpending => h x (hpub ▸ hx) (hpending.mono horigin hsettled)

/-- A step that leaves the origin and what is settled changes nothing that is pending. -/
theorem Pending.same (h : Pending corpCodeToTicker s' x) (horigin : s'.origin = s.origin)
    (hsettled : s'.settled = s.settled) : Pending corpCodeToTicker s x :=
  h.mono (fun _ ho => horigin ▸ ho) fun _ hy => hsettled ▸ hy

theorem Reaches.same {v : ℤ} (h : Reaches corpCodeToTicker s v) (hpub : s'.published = s.published)
    (horigin : s'.origin = s.origin) (hsettled : s'.settled = s.settled) :
    Reaches corpCodeToTicker s' v :=
  fun x hx hpending => h x (hpub ▸ hx) (hpending.same horigin hsettled)

theorem Inv.separate (h : Inv hash w order corpCodeToTicker s) :
    Separate hash w (documents corpCodeToTicker s.published) := by
  refine ⟨h.injective, ?_⟩
  rintro a ⟨x, hx, ha⟩ b ⟨y, hy, hb⟩ hsource -
  have hnumber : x.rceptNo = y.rceptNo := by
    rw [sourceId_of_document ha, sourceId_of_document hb, hsource]
  obtain rfl := h.distinct x hx y hy hnumber
  exact Option.some.inj (ha.symm.trans hb)

theorem inv_start (clock : ℤ) : Inv hash w order corpCodeToTicker ({ clock } : State H) :=
  ⟨by simp, by simp [contentsOf, documents], by simp [Genuine], by simp, by simp, by simp, by simp⟩

theorem Inv.tick (h : Inv hash w order corpCodeToTicker s) (elapsed : ℕ) :
    Inv hash w order corpCodeToTicker { s with clock := s.clock + elapsed } := by
  refine ⟨h.distinct, h.injective, h.genuine, h.settled, h.stored, fun v hv => ?_, fun c hc => ?_⟩
  · obtain ⟨hle, hreaches⟩ := h.cursor v hv
    exact ⟨by simp only; omega, hreaches.same rfl rfl rfl⟩
  · obtain ⟨hle, hreaches, hlisted, hanswered, hpage⟩ := h.cycle c hc
    exact ⟨by simp only; omega, hreaches.same rfl rfl rfl, hlisted, hanswered,
      fun r hr x hx hpending => hpage r hr x hx (hpending.same rfl rfl)⟩

theorem Inv.publish (h : Inv hash w order corpCodeToTicker s) {item : Item}
    (hnumbered : ∀ y ∈ s.published, y.rceptNo ≠ item.rceptNo)
    (hhash : Set.InjOn hash
      (contentsOf w (documents corpCodeToTicker (s.published ++ [{ item with publishedAt := s.clock }])))) :
    Inv hash w order corpCodeToTicker
      { s with published := s.published ++ [{ item with publishedAt := s.clock }] } := by
  set new : Disclosure := { item with publishedAt := s.clock } with hnew
  have hold : ∀ y ∈ s.published, y ∈ s.published ++ [new] := fun y hy => List.mem_append_left _ hy
  have hcases : ∀ y ∈ s.published ++ [new], y ∈ s.published ∨ y = new := by
    intro y hy
    simpa using hy
  have hlater : ∀ v, v ≤ s.clock → Reaches corpCodeToTicker s v →
      Reaches corpCodeToTicker { s with published := s.published ++ [new] } v := by
    intro v hle hreaches y hy hpending
    rcases hcases y hy with hy | rfl
    · exact hreaches y hy ⟨hpending.tracked, hpending.wellFormed, hpending.since, hpending.unsettled⟩
    · exact date_mono hle
  constructor
  · intro x hx y hy hxy
    rcases hcases x hx with hx | rfl
    · rcases hcases y hy with hy | rfl
      · exact h.distinct x hx y hy hxy
      · exact absurd hxy (hnumbered x hx)
    · rcases hcases y hy with hy | rfl
      · exact absurd hxy.symm (hnumbered y hy)
      · rfl
  · exact hhash
  · apply h.genuine.mono
    rintro doc ⟨x, hx, hdoc⟩
    exact ⟨x, hold x hx, hdoc⟩
  · exact fun x hx => hold x (h.settled x hx)
  · exact h.stored
  · intro v hv
    obtain ⟨hle, hreaches⟩ := h.cursor v hv
    exact ⟨hle, hlater v hle hreaches⟩
  · intro c hc
    obtain ⟨hle, hreaches, hlisted, hanswered, hpage⟩ := h.cycle c hc
    exact ⟨hle, hlater _ hle hreaches, fun r hr x hx => hold x (hlisted r hr x hx), hanswered,
      fun r hr x hx hpending => hpage r hr x hx
        ⟨hpending.tracked, hpending.wellFormed, hpending.since, hpending.unsettled⟩⟩

theorem Inv.beginCycle (h : Inv hash w order corpCodeToTicker s)
    (hcovers : s.lastCollectedAt = none → Reaches corpCodeToTicker (beginCycle s)
      (sinceOf none s.clock)) :
    Inv hash w order corpCodeToTicker (beginCycle s) := by
  have horigin : ∀ o ∈ s.origin, o ∈ (Disclosures.beginCycle s).origin := by
    intro o ho
    simp [Disclosures.beginCycle, Option.mem_def.mp ho]
  refine ⟨h.distinct, h.injective, h.genuine, h.settled, fun x hx hwell hsince => ?_, fun v hv => ?_,
    fun c hc => ?_⟩
  · exact h.stored x hx hwell fun o ho => hsince o (horigin o ho)
  · obtain ⟨hle, hreaches⟩ := h.cursor v hv
    exact ⟨hle, hreaches.mono rfl horigin fun _ hy => hy⟩
  · obtain rfl := Option.some.inj hc
    refine ⟨sinceOf_le fun v hv => (h.cursor v hv).1, ?_, by simp, by simp, by simp⟩
    cases hlast : s.lastCollectedAt with
    | none => exact hcovers hlast
    | some v => exact (h.cursor v hlast).2.mono rfl horigin fun _ hy => hy

theorem Inv.answer (h : Inv hash w order corpCodeToTicker s) {c : Cycle} (hc : s.cycle = some c)
    (hcovers : ∀ x ∈ s.published, Pending corpCodeToTicker s x → c.query.inRange x = true →
      x ∈ c.query.page (order s.published)) :
    Inv hash w order corpCodeToTicker (answer order c s) := by
  refine ⟨h.distinct, h.injective, h.genuine, h.settled, h.stored, fun v hv => ?_, fun d hd => ?_⟩
  · obtain ⟨hle, hreaches⟩ := h.cursor v hv
    exact ⟨hle, hreaches.same rfl rfl rfl⟩
  · obtain rfl := Option.some.inj hd
    obtain ⟨hle, hreaches, -⟩ := h.cycle c hc
    refine ⟨hle, hreaches.same rfl rfl rfl, ?_, ?_, ?_⟩
    · rintro r ⟨⟩ x hx
      exact hx
    · rintro r ⟨⟩
      rfl
    · rintro r ⟨⟩ x hx hpending
      exact hcovers x hx (hpending.same rfl rfl)

theorem Inv.fail (h : Inv hash w order corpCodeToTicker s) :
    Inv hash w order corpCodeToTicker { s with cycle := none } := by
  refine ⟨h.distinct, h.injective, h.genuine, h.settled, h.stored, fun v hv => ?_, by simp⟩
  obtain ⟨hle, hreaches⟩ := h.cursor v hv
  exact ⟨hle, hreaches.same rfl rfl rfl⟩

variable [DecidableEq H]

theorem Inv.finishCycle (h : Inv hash w order corpCodeToTicker s)
    (horder : ∀ rows, (order rows).Perm rows) {c : Cycle} {listed : List Disclosure}
    {payload : Payload} (hc : s.cycle = some c) (hreply : c.reply = some (listed, payload))
    (hcovers : collectDocs corpCodeToTicker payload ≠ [] → ∀ x ∈ s.published,
      Pending corpCodeToTicker s x → (x ∈ listed → c.endDe < x.day) → seoul.date s.clock ≤ x.day) :
    Inv hash w order corpCodeToTicker (finishCycle hash w corpCodeToTicker c listed payload s) := by
  obtain ⟨-, hreaches, hlisted, hanswered, hpage⟩ := h.cycle c hc
  obtain rfl : payload = listJson order listed c.query := hanswered _ hreply
  have hdocs : ∀ doc ∈ collectDocs corpCodeToTicker (listJson order listed c.query),
      doc ∈ documents corpCodeToTicker s.published := by
    intro doc hdoc
    obtain ⟨x, hx, hxdoc⟩ := mem_collectDocs.mp hdoc
    exact ⟨x, hlisted _ hreply x ((horder listed).mem_iff.mp (mem_page hx)), hxdoc⟩
  have hpending : ∀ x, Pending corpCodeToTicker (Disclosures.finishCycle hash w corpCodeToTicker c
      listed (listJson order listed c.query) s) x →
      Pending corpCodeToTicker s x ∧ (x ∈ listed → c.endDe < x.day) := by
    intro x hx
    refine ⟨hx.mono (fun _ ho => ho) fun y hy => List.mem_append_left _ hy, fun hmem => ?_⟩
    by_contra hday
    apply hx.unsettled
    apply List.mem_append_right
    simpa [hmem] using hday
  refine ⟨h.distinct, h.injective, h.genuine.store hdocs, fun x hx => ?_, fun x hx hwell hsince doc hdoc r hr => ?_,
    fun v hv => ?_, by simp [Disclosures.finishCycle]⟩
  · rcases List.mem_append.mp hx with hold | hnew
    · exact h.settled x hold
    · exact hlisted _ hreply x (List.mem_filter.mp hnew).1
  · by_cases hsettled : x ∈ s.settled
    · have hold := h.stored x hsettled hwell hsince doc hdoc r hr
      exact (store_stored hash w s.table _).kept r hold
    · obtain ⟨hmem, hday⟩ := List.mem_filter.mp ((List.mem_append.mp hx).resolve_left hsettled)
      have hpublished := hlisted _ hreply x hmem
      have htracked : (tickerOf corpCodeToTicker x.toItem).isSome := by
        obtain ⟨code, hcode, -⟩ := documentOf_eq_some.mp hdoc
        simp [hcode]
      have hx' : Pending corpCodeToTicker s x := ⟨htracked, hwell, hsince, hsettled⟩
      have hrange : c.query.inRange x = true :=
        decide_eq_true ⟨hreaches x hpublished hx', of_decide_eq_true hday⟩
      have hcollected : doc ∈ collectDocs corpCodeToTicker (listJson order listed c.query) :=
        mem_collectDocs.mpr ⟨x, hpage _ hreply x hmem hx' hrange, hdoc⟩
      exact h.separate.present h.genuine hdocs hcollected hr
  · by_cases hnone : collectDocs corpCodeToTicker (listJson order listed c.query) = []
    · simp only [Disclosures.finishCycle, hnone, if_true] at hv
      obtain ⟨hle, hold⟩ := h.cursor v hv
      exact ⟨hle, hold.mono rfl (fun _ ho => ho) fun y hy => List.mem_append_left _ hy⟩
    · simp only [Disclosures.finishCycle, hnone, if_false, Option.mem_def, Option.some.injEq] at hv
      subst hv
      refine ⟨le_rfl, fun x hx hafter => ?_⟩
      obtain ⟨hbefore, hlate⟩ := hpending x hafter
      exact hcovers hnone x hx hbefore hlate

theorem inv_step (horder : ∀ rows, (order rows).Perm rows) (h : Inv hash w order corpCodeToTicker s)
    (e : Event) (hnumbered : Numbered s e) (hhash : Collisionless hash w corpCodeToTicker s e)
    (hcovers : Covers order corpCodeToTicker s e) :
    Inv hash w order corpCodeToTicker (step hash w order corpCodeToTicker s e) := by
  cases e with
  | tick elapsed => exact h.tick elapsed
  | publish item => exact h.publish hnumbered hhash
  | start =>
    simp only [step]
    split
    next hnone => exact h.beginCycle fun hlast => hcovers hnone hlast
    next => exact h
  | request =>
    simp only [step]
    split
    next c hc =>
      split_ifs with hreply
      · exact h.answer hc (hcovers c hc (Option.isNone_iff_eq_none.mp hreply))
      · exact h
    next => exact h
  | finish =>
    simp only [step]
    split
    next c hc =>
      split
      next listed payload hreply => exact h.finishCycle horder hc hreply (hcovers c hc _ hreply)
      next => exact h
    next => exact h
  | fail => exact h.fail

end Steps

/-! ### The gate -/

section Gate
variable {H : Type} {table : List (NewsChunk H)} {cfg : GateSettings} {now : ℤ} {r : NewsChunk H}
  {title : String}

/-- A stored title that is critical and recent blocks. -/
theorem gate_blocks (hr : r ∈ table) (hsource : r.sourceType = .disclosure)
    (htitle : r.title = some title) (hcritical : isCritical title = true)
    (henabled : cfg.newsRiskGateEnabled = true)
    (hrecent : now - cfg.newsRiskLookbackDays * dayLength ≤ r.eventTime) :
    ∃ t, checkDisclosureRiskBlock cfg table now r.ticker = some t := by
  have hne : title ≠ "" := by
    rintro rfl
    exact absurd hcritical (by decide)
  have hmem : title ∈ getRecentDisclosureTitles table r.ticker
      (now - cfg.newsRiskLookbackDays * dayLength) := by
    apply List.mem_filter.mpr
    refine ⟨List.mem_filterMap.mpr ⟨r, hr, ?_⟩, by simpa using hne⟩
    rw [if_pos ⟨rfl, hsource, hrecent⟩, htitle]
  simp only [checkDisclosureRiskBlock, henabled, Bool.not_true, Bool.false_eq_true, if_false]
  apply Option.isSome_iff_exists.mp
  rw [matchCriticalDisclosure, List.find?_isSome]
  exact ⟨title, hmem, hcritical⟩

end Gate

/-- An announcement made on January 5, 2026. -/
def notice (number : ℕ) (corpCode reportNm : String) : Item :=
  { corpCode := some corpCode, corpName := some "삼성전자", reportNm := some reportNm,
    rceptNo := some (toString number), rceptDt := some "20260105" }

def delisting (number : ℕ) : Item := notice number "00126380" "주권매매거래정지 (상장폐지 사유 발생)"

def trackedCorps : Dict String Code := .set .empty "00126380" "005930"

/-- Three in the afternoon in Seoul. -/
def afternoon : ℤ := 20458 * dayLength + 6 * hour

/-- One cycle after the announcement. -/
def quietEvents : List Event := [.publish (delisting 1), .start, .request, .tick 5, .finish]

/-- A hundred others are announced first. -/
def crowdedEvents : List Event :=
  (List.range 100).map (fun n => .publish (notice n "00999999" "주요사항보고서")) ++
    [.publish (delisting 100), .start, .request, .finish]

end KisAutotrader.Disclosures.Completeness
