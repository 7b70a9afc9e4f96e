import KisAutotrader.CycleRules

/-!
# Peak provenance

The peak an evaluation uses is one that its own position has seen, and it does not
fall while the position stays open.
-/
namespace KisAutotrader.PeakProvenance
open OrderedDict Coroutine OrderExecution OrderRules RiskRestore StockProcessing TradingCycle
  CycleRules History

/-- One evaluation of a holding and the peak it used. -/
structure Evaluation where
  lot : ℕ
  price : ℚ
  avgPrice : ℚ
  peak : ℚ
  deriving DecidableEq, Repr

def addEntry (code : Code) (es : List Evaluation) : LogEntry → List Evaluation
  | .held c lot price avgPrice peak => if c = code then es ++ [⟨lot, price, avgPrice, peak⟩] else es
  | .booked c .sell => if c = code then [] else es
  | _ => es

/-- The evaluations of a stock since its last recorded sale. -/
def sinceSale (code : Code) (log : List LogEntry) : List Evaluation := log.foldl (addEntry code) []

/-- The average prices and the prices at which one position has been evaluated. -/
def seen (code : Code) (lot : ℕ) (log : List LogEntry) : List ℚ :=
  log.flatMap fun entry => match entry with
    | .held c l price avgPrice _ => if c = code ∧ l = lot then [avgPrice, price] else []
    | _ => []

/-- The peak used is a price of the position, and none of its earlier ones is higher. -/
def Provenance (before : List LogEntry) : LogEntry → Prop
  | .held code lot price avgPrice peak =>
      (∃ x ∈ avgPrice::price::seen code lot before, peak ≤ x) ∧
      ∀ e ∈ sinceSale code before, e.lot = lot → e.peak ≤ peak
  | _ => True

/-- The peak that a series of evaluations gives by itself. -/
def highest (es : List Evaluation) : Option ℚ :=
  es.foldl (fun prev e => some (nextPeak prev e.avgPrice e.price)) none

/-- The memory has a peak of the stock exactly where it was evaluated since its last
recorded sale, and the last evaluation was one of the same position. -/
def Remembered (h : Holding) (w : World) : Prop :=
  (w.engine.peakPrices.get? h.stockCode).isSome = (highest (sinceSale h.stockCode w.log)).isSome ∧
    ∀ e ∈ (sinceSale h.stockCode w.log).getLast?, e.lot = h.lot

instance (h : Holding) (w : World) : Decidable (Remembered h w) := by
  unfold Remembered
  infer_instance

/-- A stored peak of a stock evaluated since its last recorded sale is the one its
evaluations give. -/
def Current (peaks : Dict Code ℚ) (log : List LogEntry) : Prop :=
  ∀ x ∈ peaks.items, ∀ m ∈ highest (sinceSale x.1 log), x.2 = m

instance (peaks : Dict Code ℚ) (log : List LogEntry) : Decidable (Current peaks log) := by
  unfold Current
  infer_instance

/-- The condition on a call. -/
def PeaksKept (r : Req) (reply : Reply) (w : World) : Prop :=
  match r with
  | .loadPeaks => reply.outcome = .ok → Current (peakRows (w.elapse reply).portfolio) w.log
  | .quote _ (some h) => Remembered h w
  | .analyze _ (some h) => Remembered h w
  | _ => True

instance (r : Req) (reply : Reply) (w : World) : Decidable (PeaksKept r reply w) := by
  unfold PeaksKept
  split <;> infer_instance

/-! ### Evaluations -/

section Series
variable {code : Code} {log : List LogEntry} {es : List Evaluation} {e : Evaluation} {m : ℚ}

theorem sinceSale_snoc (code : Code) (log : List LogEntry) (entry : LogEntry) :
    sinceSale code (log ++ [entry]) = addEntry code (sinceSale code log) entry := by
  simp [sinceSale]

theorem seen_snoc (code : Code) (lot : ℕ) (log : List LogEntry) (entry : LogEntry) :
    seen code lot (log ++ [entry]) = seen code lot log ++ seen code lot [entry] := by
  simp [seen]

theorem highest_snoc (es : List Evaluation) (e : Evaluation) :
    highest (es ++ [e]) = some (nextPeak (highest es) e.avgPrice e.price) := by
  simp [highest]

/-- The peak of a series is an average price or a price of it. -/
theorem highest_le (h : m ∈ highest es) : ∃ e ∈ es, m ≤ e.avgPrice ∨ m ≤ e.price := by
  induction es using List.reverseRecOn generalizing m with
  | nil => simp [highest] at h
  | append_singleton es e ih =>
    rw [highest_snoc, Option.mem_some_iff] at h
    subst h
    cases hprev : highest es with
    | none =>
      refine ⟨e, by simp, ?_⟩
      rcases max_choice e.avgPrice e.price with hmax | hmax
      · exact Or.inl (by simp [nextPeak, hmax])
      · exact Or.inr (by simp [nextPeak, hmax])
    | some prev =>
      rcases le_total prev e.price with hle | hle
      · exact ⟨e, by simp, Or.inr (by simp [nextPeak, hle])⟩
      · obtain ⟨e', he', hbound⟩ := ih (Option.mem_def.mpr hprev)
        have hpeak : nextPeak (some prev) e.avgPrice e.price = prev := by simp [nextPeak, hle]
        rw [hpeak]
        exact ⟨e', by simp [he'], hbound⟩

theorem highest_isSome (h : e ∈ es) : (highest es).isSome = true := by
  rcases List.eq_nil_or_concat' es with rfl | ⟨es, e', rfl⟩
  · simp at h
  · simp [highest_snoc]

theorem le_nextPeak (prev : ℚ) (avgPrice price : ℚ) : prev ≤ nextPeak (some prev) avgPrice price :=
  le_max_left _ _

/-- What the evaluations since the last sale saw belongs to what their position saw. -/
theorem mem_seen (h : e ∈ sinceSale code log) :
    e.avgPrice ∈ seen code e.lot log ∧ e.price ∈ seen code e.lot log := by
  induction log using List.reverseRecOn with
  | nil => simp [sinceSale] at h
  | append_singleton log entry ih =>
    have hkeep : e ∈ sinceSale code log → e.avgPrice ∈ seen code e.lot (log ++ [entry]) ∧
        e.price ∈ seen code e.lot (log ++ [entry]) := by
      intro hmem
      obtain ⟨havg, hprice⟩ := ih hmem
      rw [seen_snoc]
      exact ⟨List.mem_append_left _ havg, List.mem_append_left _ hprice⟩
    rw [sinceSale_snoc] at h
    cases entry with
    | held c lot price avgPrice peak =>
      simp only [addEntry] at h
      split_ifs at h with hc
      · rcases List.mem_append.mp h with hold | hnew
        · exact hkeep hold
        · obtain rfl := List.mem_singleton.mp hnew
          rw [seen_snoc]
          simp [seen, hc]
      · exact hkeep h
    | sell c reason => exact hkeep h
    | booked c side =>
      cases side with
      | buy => exact hkeep h
      | sell =>
        simp only [addEntry] at h
        split_ifs at h
        · simp at h
        · exact hkeep h

end Series

/-! ### The record -/

/-- What the record of evaluations keeps. -/
structure Traced (log : List LogEntry) : Prop where
  provenance : EachAfter Provenance log
  lots : ∀ code, ∀ e ∈ sinceSale code log, ∀ l ∈ (sinceSale code log).getLast?, e.lot = l.lot
  peaks : ∀ code, ∀ e ∈ sinceSale code log, ∀ m ∈ highest (sinceSale code log), e.peak ≤ m

/-- The memory holds the peak that the evaluations since the last sale give. -/
def Remembers (w : World) : Prop :=
  ∀ code, ∀ peak ∈ w.engine.peakPrices.get? code, ∀ m ∈ highest (sinceSale code w.log), peak = m

structure Peaks (w : World) : Prop where
  traced : Traced w.log
  memory : Remembers w

theorem traced_nil : Traced [] := by
  refine ⟨eachAfter_nil _, fun code e he => ?_, fun code e he => ?_⟩
  · simp [sinceSale] at he
  · simp [sinceSale] at he

/-- An entry that is no evaluation leaves every series as it was, or ends it. -/
theorem Traced.snoc {log : List LogEntry} {entry : LogEntry} (h : Traced log)
    (hentry : Provenance log entry)
    (hseries : ∀ code, sinceSale code (log ++ [entry]) = sinceSale code log ∨
      sinceSale code (log ++ [entry]) = []) : Traced (log ++ [entry]) := by
  refine ⟨h.provenance.snoc hentry, fun code e he => ?_, fun code e he => ?_⟩
  · rcases hseries code with hsame | hnil
    · rw [hsame] at he ⊢
      exact h.lots code e he
    · simp [hnil] at he
  · rcases hseries code with hsame | hnil
    · rw [hsame] at he ⊢
      exact h.peaks code e he
    · simp [hnil] at he

theorem sinceSale_booked (log : List LogEntry) (c code : Code) (side : Side) :
    sinceSale code (log ++ [.booked c side]) = sinceSale code log ∨
      sinceSale code (log ++ [.booked c side]) = [] := by
  rw [sinceSale_snoc]
  cases side with
  | buy => exact Or.inl rfl
  | sell =>
    simp only [addEntry]
    split_ifs
    · exact Or.inr rfl
    · exact Or.inl rfl

section Held
variable {log : List LogEntry} {c code : Code} {lot : ℕ} {price avgPrice peak : ℚ}

theorem sinceSale_held_self : sinceSale code (log ++ [.held code lot price avgPrice peak]) =
    sinceSale code log ++ [⟨lot, price, avgPrice, peak⟩] := by
  rw [sinceSale_snoc]
  simp [addEntry]

theorem sinceSale_held_ne (hc : c ≠ code) :
    sinceSale c (log ++ [.held code lot price avgPrice peak]) = sinceSale c log := by
  rw [sinceSale_snoc]
  simp [addEntry, Ne.symm hc]

/-- The next peak of a series of one position is a price that the position saw. -/
theorem exists_seen (hlots : ∀ e ∈ sinceSale code log, e.lot = lot) (avgPrice price : ℚ) :
    ∃ x ∈ avgPrice::price::seen code lot log,
      nextPeak (highest (sinceSale code log)) avgPrice price ≤ x := by
  have hhighest := highest_snoc (sinceSale code log) ⟨lot, price, avgPrice, 0⟩
  obtain ⟨e, he, hbound⟩ := highest_le (Option.mem_def.mpr hhighest)
  rcases List.mem_append.mp he with hold | hlatest
  · obtain ⟨havg, hprice⟩ := mem_seen hold
    rw [hlots e hold] at havg hprice
    rcases hbound with hle | hle
    · exact ⟨e.avgPrice, by simp [havg], hle⟩
    · exact ⟨e.price, by simp [hprice], hle⟩
  · obtain rfl := List.mem_singleton.mp hlatest
    rcases hbound with hle | hle
    · exact ⟨avgPrice, by simp, hle⟩
    · exact ⟨price, by simp, hle⟩

/-- The next peak of a series is not below those it used. -/
theorem Traced.peak_le (h : Traced log) (avgPrice price : ℚ) :
    ∀ e ∈ sinceSale code log, e.peak ≤ nextPeak (highest (sinceSale code log)) avgPrice price := by
  intro e he
  obtain ⟨m, hm⟩ := Option.isSome_iff_exists.mp (highest_isSome he)
  rw [hm]
  exact (h.peaks code e he m hm).trans (le_nextPeak m avgPrice price)

/-- An evaluation with the peak that its series gives. -/
theorem Traced.held (h : Traced log) (hlots : ∀ e ∈ sinceSale code log, e.lot = lot)
    (hpeak : peak = nextPeak (highest (sinceSale code log)) avgPrice price) :
    Traced (log ++ [.held code lot price avgPrice peak]) := by
  have hlower : ∀ e ∈ sinceSale code log, e.peak ≤ peak := hpeak ▸ h.peak_le avgPrice price
  refine ⟨?_, fun c => ?_, fun c => ?_⟩
  · exact h.provenance.snoc ⟨hpeak ▸ exists_seen hlots avgPrice price, fun e he _ => hlower e he⟩
  · by_cases hc : c = code
    · subst hc
      rw [sinceSale_held_self]
      intro e he l hl
      obtain rfl : _ = l := by simpa using hl
      rcases List.mem_append.mp he with hold | hlatest
      · exact hlots e hold
      · rw [List.mem_singleton.mp hlatest]
    · rw [sinceSale_held_ne hc]
      exact h.lots c
  · by_cases hc : c = code
    · subst hc
      rw [sinceSale_held_self, highest_snoc, ← hpeak]
      intro e he m hm
      obtain rfl := Option.some.inj hm
      rcases List.mem_append.mp he with hold | hlatest
      · exact hlower e hold
      · rw [List.mem_singleton.mp hlatest]
    · rw [sinceSale_held_ne hc]
      exact h.peaks c

end Held

namespace Peaks
variable {w v : World}

/-- Everything else may change. -/
theorem evolve (h : Peaks w) (hlog : v.log = w.log)
    (hpeaks : v.engine.peakPrices = w.engine.peakPrices) : Peaks v := by
  refine ⟨?_, ?_⟩
  · rw [hlog]
    exact h.traced
  · unfold Remembers
    rw [hlog, hpeaks]
    exact h.memory

theorem update (h : Peaks w) {f : Engine → Engine}
    (hf : (f w.engine).peakPrices = w.engine.peakPrices) : Peaks (onEngine f w) := h.evolve rfl hf

theorem reboot (h : Traced w.log) : Peaks (CycleRules.reboot w) := by
  refine ⟨h, fun code peak hpeak => ?_⟩
  simp [CycleRules.reboot] at hpeak

/-- The stored peaks take the place of the memory. -/
theorem loaded (h : Traced w.log) {reply : Reply} (hkept : PeaksKept .loadPeaks reply w)
    (hlog : v.log = w.log)
    (hpeaks : v.engine.peakPrices = (serve .loadPeaks reply w).1.getD .empty) : Peaks v := by
  refine ⟨?_, fun code peak hpeak m hm => ?_⟩
  · rw [hlog]
    exact h
  · rw [hpeaks] at hpeak
    rw [hlog] at hm
    by_cases hok : reply.outcome = .ok
    · have hcurrent := hkept hok
      have hstored : (code, peak) ∈ (peakRows (w.elapse reply).portfolio).items := by
        apply Dict.mem_items.mpr
        simpa [serve, World.answer, hok] using hpeak
      exact hcurrent (code, peak) hstored m hm
    · simp [serve, World.answer, hok] at hpeak

theorem attempt (h : Peaks w) (code : Code) (reason : String) :
    Peaks (logEntry (.sell code reason) w) := by
  have hseries : ∀ c, sinceSale c (w.log ++ [.sell code reason]) = sinceSale c w.log := by
    intro c
    rw [sinceSale_snoc]
    rfl
  refine ⟨h.traced.snoc trivial fun c => Or.inl (hseries c), fun c peak hpeak m hm => ?_⟩
  rw [logEntry_log, hseries] at hm
  exact h.memory c peak hpeak m hm

/-- A booking drops the peak of its stock. -/
theorem booked (h : Peaks w) {code : Code} {side : Side} {filled : ℤ}
    {f : Time → Engine → Engine × TradeRow} (hf : Books code side filled f)
    (hv : AfterBooking f w v) : Peaks v := by
  obtain ⟨hcode, hside, -, -⟩ := hf.row w.clock w.engine
  have hlog : v.log = w.log ++ [.booked code side] := by
    rw [hv.log, hcode, hside]
  refine ⟨?_, fun c peak hpeak m hm => ?_⟩
  · rw [hlog]
    exact h.traced.snoc trivial fun c => sinceSale_booked w.log code c side
  · rw [hv.engine, hf.peakPrices, Dict.get?_pop] at hpeak
    split_ifs at hpeak with hc
    · simp at hpeak
    · rw [hlog] at hm
      rcases sinceSale_booked w.log code c side with hsame | hnil
      · rw [hsame] at hm
        exact h.memory c peak hpeak m hm
      · simp [hnil, highest] at hm

/-- The peak in memory is the one that the evaluations of the position give. -/
theorem memory_eq (h : Peaks w) {holding : Holding} (hown : Remembered holding w) :
    w.engine.peakPrices.get? holding.stockCode = highest (sinceSale holding.stockCode w.log) := by
  have hsome := hown.1
  have hmemory := h.memory holding.stockCode
  revert hsome hmemory
  cases w.engine.peakPrices.get? holding.stockCode <;>
    cases highest (sinceSale holding.stockCode w.log) <;> simp

/-- The evaluation that follows: its peak is the next one of its position. -/
theorem observe (h : Peaks w) {holding : Holding} (hown : Remembered holding w) (price : ℚ) :
    Peaks (logEntry (.held holding.stockCode holding.lot price holding.avgPrice
      (nextPeak (w.engine.peakPrices.get? holding.stockCode) holding.avgPrice price))
      (onEngine (observeHeld w.clock holding.stockCode holding.avgPrice price) w)) := by
  have hmemory := h.memory_eq hown
  have hlots : ∀ e ∈ sinceSale holding.stockCode w.log, e.lot = holding.lot := by
    intro e he
    cases hl : (sinceSale holding.stockCode w.log).getLast? with
    | none => simp [List.getLast?_eq_none_iff.mp hl] at he
    | some l =>
      have hsame := h.traced.lots holding.stockCode e he l hl
      rw [hsame]
      exact hown.2 l hl
  refine ⟨h.traced.held hlots (by rw [hmemory]), fun c p hp m hm => ?_⟩
  rw [logEntry_log, onEngine_log] at hm
  simp only [logEntry_engine, onEngine_engine, observeHeld] at hp
  by_cases hc : c = holding.stockCode
  · subst hc
    rw [sinceSale_held_self, highest_snoc] at hm
    rw [Dict.get?_set_self, hmemory] at hp
    exact (Option.some.inj hp).symm.trans (Option.some.inj hm)
  · rw [sinceSale_held_ne hc] at hm
    rw [Dict.get?_set_ne _ hc] at hp
    exact h.memory c p hp m hm

end Peaks

/-! ### Many days -/

/-- At every call the record is in order; nothing of it is lost in a crash. -/
def Recorded (_ : Req) (w : World) : Prop := Traced w.log

abbrev Ensures {α : Type} (p : EngineM α) (Q : α → World → Prop) (w : World) : Prop :=
  wp serve PeaksKept Recorded p Q w

theorem Peaks.serve {w : World} (h : Peaks w) (r : Req) (reply : Reply) :
    Peaks (serve r reply w).2 :=
  h.evolve (serve_log r reply w) (by rw [serve_engine])

theorem Peaks.quiet {w : World} (h : Peaks w) {f : Engine → Engine} (hf : Quiet f) :
    Peaks (onEngine f w) := by
  obtain ⟨_, _, _, _, _, heq⟩ := hf w.engine
  apply h.update
  rw [heq]

theorem peaks_steady : Steady PeaksKept Recorded Peaks := by
  refine ⟨fun r w _ h => h.traced, fun r reply w hr h _ => ?_, fun f w hf h => h.quiet hf⟩
  rw [← serve_read hr]
  exact h.serve r reply

theorem book_spec {w : World} {code : Code} {side : Side} {filled : ℤ}
    {f : Time → Engine → Engine × TradeRow} (hf : Books code side filled f) (h : Peaks w) :
    Ensures (book f) (fun _ => Peaks) w := by
  have happlied := h.booked hf (afterBooking_apply f w)
  exact book_rule happlied.traced fun v hv => h.booked hf hv

theorem peaks_orderKeeps (cfg : Settings) : OrderKeeps cfg PeaksKept Recorded Peaks where
  steady := peaks_steady
  registry f w hf h := by
    obtain ⟨_, _, heq⟩ := hf w.engine
    apply h.update
    rw [heq]
  order r w _ h := ⟨h.traced, fun reply => h.serve r reply⟩
  confirmed w code side filled f hf _ h := book_spec hf h
  late w code pending reply filled h hkept _ _ _ := by
    have hwait := peaks_steady.wait _ reply w rfl h hkept
    have hstored := hwait.quiet (quiet_storeBalance cfg w.clock (w.elapse reply).broker.report)
    exact book_spec (books_orphanConfirmed cfg code pending filled) hstored

theorem processHeldStock_spec (cfg : Settings) {w : World} (price : ℚ) (holding : Holding)
    (signal : Signal) (h : Peaks w) (hown : Remembered holding w) :
    Ensures (processHeldStock cfg price holding signal) (fun _ => Peaks) w := by
  unfold processHeldStock
  split
  · exact h
  · simp only [wp_bind, wp_get, wp_modify]
    have hobserved := h.observe hown price
    split
    · exact hobserved
    · simp only [wp_bind, wp_modify]
      exact (peaks_orderKeeps cfg).executeSell holding.stockCode holding.quantity price _ _
        (hobserved.attempt _ _)

theorem restoreRiskStateIfNeeded_spec (cfg : Settings) {w : World} (h : Peaks w) :
    Ensures (restoreRiskStateIfNeeded cfg) (fun _ => Peaks) w := by
  cases hfresh : w.engine.riskStateRestored with
  | true => simpa [restoreRiskStateIfNeeded, hfresh] using h
  | false =>
    refine restoreRiskStateIfNeeded_rule cfg peaks_steady hfresh (h.update rfl) ?_ ?_ ?_
    · intro v today rows hv
      obtain ⟨_, _, _, heq⟩ := restoreGates_eq today rows v.engine
      apply hv.update
      rw [heq]
    · intro v rows hv
      exact hv.update rfl
    · intro v reply hv hkept
      exact Peaks.loaded hv.traced hkept (World.elapse_log v reply) rfl

theorem peaks_lifeKeeps (cfg : Settings) : LifeKeeps cfg PeaksKept Recorded Peaks where
  steady := peaks_steady
  cycle w h := h.update rfl
  restore w h := restoreRiskStateIfNeeded_spec cfg h
  cancel w code pending h _ := (peaks_orderKeeps cfg).cancelPendingOrder h
  held r reply w holding price signal hr h _ _ hkept := by
    have hown : Remembered holding w := by
      rcases hr with rfl | rfl <;> exact hkept
    have hwait := peaks_steady.wait r reply w (by rcases hr with rfl | rfl <;> rfl) h hkept
    apply processHeldStock_spec cfg price holding signal hwait
    simpa [Remembered] using hown
  buy w code deposit price signal h _ _ _ :=
    processBuySignal_rule cfg peaks_steady code deposit price signal h (fun _ => h)
      (fun _ hv => hv) fun v quantity hv => (peaks_orderKeeps cfg).executeBuy code quantity price hv
  sync w b h := ⟨h.traced, fun reply _ => h.serve _ reply⟩
  reset w reply h hkept := Peaks.loaded h.traced hkept (World.elapse_log w reply) rfl
  mark w h := h.update rfl
  boot w h := Peaks.reboot h.traced
  bootAt _ w h := Peaks.reboot h

/-- Over any number of days and restarts, every evaluation of a holding uses a peak that
its position has seen and that has not fallen, where stored peaks are loaded only for
the evaluations they come from and an open position's peak is in memory. -/
theorem peak_provenance (cfg : Settings) (jobs : List (Job × Tape)) (w : World)
    (hrun : RunMeets serve (runJob cfg) PeaksKept jobs { w with engine := {}, log := [] }) :
    EachAfter Provenance (run serve (runJob cfg) jobs { w with engine := {}, log := [] }).log := by
  have hstart : Peaks { w with engine := {}, log := [] } := by
    refine ⟨traced_nil, fun code peak hpeak => ?_⟩
    simp at hpeak
  have hinv := run_invariant (fun job _ hv => (peaks_lifeKeeps cfg).runJob job hv) hstart hrun
  exact hinv.2.traced.provenance

/-- Calendar days of twenty-four hours. -/
def dailyClock : MarketClock :=
  ⟨fun t => t / (1440 * minute), fun t => t / (60 * minute) % 24, fun t => t / minute % 60⟩

def dailySettings : Settings := { clock := dailyClock }

/-- Ten in the morning, with a position of ten shares bought at 1000. -/
def morningWorld : World :=
  { broker := ⟨1000000, Dict.empty.set "005930" ⟨10, 1000, "", 0⟩, [], 0, 1⟩
    clock := 600 * minute
    prices := fun _ => 1500 }

def holdReply : Reply := { signal := some holdSignal }

/-- A day at whose end the peak of 1500 is stored, and the next morning. -/
def storedPeakRun : List (Job × Tape) := [
  (.day .cycle, tapeOf [{}, {}, {}, {}, {}, {}, holdReply]),
  (.day .postMarket, tapeOf []),
  (.day .idle, tapeOf [{ elapsed := 1440 * minute, events := [.syncPortfolio 0] }]),
  (.preMarket, tapeOf [])]

/-- A new process sells the position after a fall, with the stored peak. -/
def reloadedPeakRun : List (Job × Tape) := storedPeakRun ++ [
  (.day .cycle, tapeOf [{}, {}, {}, { events := [.price "005930" 1400] }, holdReply, {},
    { events := [.fill 0 10 1400] }])]

theorem peak_provenance_reloadedPeak :
    EachAfter Provenance (run serve (runJob dailySettings) reloadedPeakRun
      { morningWorld with engine := {}, log := [] }).log :=
  peak_provenance dailySettings reloadedPeakRun morningWorld (by decide +kernel)

/-- After the sale the stock is bought again at 1000, and the process restarts. -/
def rebuyRun : List (Job × Tape) := reloadedPeakRun ++ [
  (.day .idle, tapeOf [{ elapsed := 121 * minute, events := [.price "005930" 1000] }]),
  (.day .idle, tapeOf [{ events := [.watchlist ["005930"]] }]),
  (.day .cycle, tapeOf [{}, {}, {}, {}, {}, { signal := some { signalType := .buy, confidence := 1 } },
    { buyable := some 10 }, {}, {}, {}, { events := [.fill 1 10 1000] }]),
  (.crash 0 (.day .idle), tapeOf []),
  (.day .cycle, tapeOf [{}, {}, {}, {}, {}, {}, {}, holdReply])]

/-- The new position is sold for its fall from a price that it never saw. -/
theorem rebuy_not_provenance :
    ¬ ∀ (cfg : Settings) (jobs : List (Job × Tape)) (w : World),
      EachAfter Provenance
        (run serve (runJob cfg) jobs { w with engine := {}, log := [] }).log := by
  intro h
  have hlog : (run serve (runJob dailySettings) rebuyRun
      { morningWorld with engine := {}, log := [] }).log =
      [.held "005930" 0 1500 1000 1500, .held "005930" 0 1400 1000 1500,
        .sell "005930" "트레일링", .booked "005930" .sell, .booked "005930" .buy] ++
      .held "005930" 1 1000 1000 1500::[.sell "005930" "트레일링"] := by
    decide +kernel
  obtain ⟨⟨x, hx, hle⟩, -⟩ := h dailySettings rebuyRun morningWorld _ _ _ hlog
  have hseen : x = 1000 := by simpa [seen] using hx
  rw [hseen] at hle
  norm_num at hle

end KisAutotrader.PeakProvenance
