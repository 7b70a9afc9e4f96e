import KisAutotrader.Interleaving
import KisAutotrader.ScreeningHandover

/-!
# The bound on the universe

The worker's rounds and the engine's refreshes within one market day, in any order: a
round reads the table, writes it later, and the engine may read it at any time between.
-/
namespace KisAutotrader.UniverseBound
open OrderedDict Coroutine Interleaving Screening ScreeningWorker ScreeningHandover

/-- `loadedAt` is when the round under way read the table. -/
structure State where
  world : World
  loadedAt : Option Time := none

def State.start (w : World) : State := { world := { w with engine := {} } }

/-- A record names what the round got from outside; a refresh what the engine's two reads
take of time and find. -/
inductive Event where
  | tick (elapsed : Time)
  | watch (codes : List Code)
  | load
  | record (riskBlocked : List Code) (ranked : List RankItem) (scored : List Code) (committed : Bool)
  | refresh (elapsed : Time) (rows : List ScreeningRow) (markets : List (Code × String))

/-- Rows are written one after the other, none before the clock. -/
def stamp (now : Time) : List RankItem → List RankItem
  | [] => []
  | item::items =>
      { item with recordedAt := max now item.recordedAt } :: stamp (max now item.recordedAt) items

/-- The time at which the last of them is written. -/
def finish (now : Time) (items : List RankItem) : Time :=
  items.foldl (fun t item => max t item.recordedAt) now

def roundOf (loaded now : Time) (riskBlocked : List Code) (ranked : List RankItem)
    (scored : List Code) (committed : Bool) : Round :=
  { now := loaded, loaded := true, riskBlocked, ranked := stamp now ranked, scored, committed }

def record (cfg : Settings) (riskBlocked : List Code) (ranked : List RankItem)
    (scored : List Code) (committed : Bool) (s : State) : State :=
  match s.loadedAt with
  | none => s
  | some t =>
      { world := { s.world with
          clock := finish s.world.clock ranked
          screening := runScreening cfg.clock cfg.freshWindowMin cfg.maxScreened s.world.screening
            (roundOf t s.world.clock riskBlocked ranked scored committed) } }

def refreshTape (elapsed : Time) (rows : List ScreeningRow) (markets : List (Code × String)) : Tape :=
  tapeOf [{ elapsed, rows }, { markets }]

def refresh (cfg : Settings) (elapsed : Time) (rows : List ScreeningRow)
    (markets : List (Code × String)) (w : World) : World :=
  (exec serve (screenStocks cfg) (refreshTape elapsed rows markets) w).2

def step (cfg : Settings) (s : State) : Event → State
  | .tick elapsed => { s with world := s.world.tick elapsed }
  | .watch codes => { s with world := { s.world with watchlist := codes } }
  | .load => { s with loadedAt := some s.world.clock }
  | .record riskBlocked ranked scored committed => record cfg riskBlocked ranked scored committed s
  | .refresh elapsed rows markets => { s with world := refresh cfg elapsed rows markets s.world }

/-- The fresh set of a refresh. -/
def freshSet (cfg : Settings) (elapsed : Time) (rows : List ScreeningRow) (w : World) : List Code :=
  freshCodes cfg.freshWindowMin (w.clock + elapsed) w.watchlist
    (getByDate cfg.clock (cfg.clock.date w.clock)
      (if rows.Perm w.screening then rows else w.screening))

/-! ### The engine's set -/

theorem addFresh_length {cap : ℕ} {fresh screened : List Code} (h : screened.length ≤ cap) :
    (addFresh cap fresh screened).length ≤ cap := by
  induction fresh generalizing screened with
  | nil => exact h
  | cons c cs ih =>
    unfold addFresh
    split_ifs
    · exact h
    · exact ih h
    · apply ih
      rw [List.length_append, List.length_singleton]
      omega

theorem addFresh_nodup {cap : ℕ} {fresh screened : List Code} (h : screened.Nodup) :
    (addFresh cap fresh screened).Nodup := by
  induction fresh generalizing screened with
  | nil => exact h
  | cons c cs ih =>
    unfold addFresh
    split_ifs with hfull hmem
    · exact h
    · exact ih h
    · apply ih
      rw [List.nodup_append]
      refine ⟨h, List.nodup_singleton c, fun a ha b hb => ?_⟩
      rw [List.mem_singleton.mp hb]
      rintro rfl
      exact hmem ha

theorem mem_addFresh {cap : ℕ} {fresh screened : List Code} {code : Code}
    (h : code ∈ addFresh cap fresh screened) : code ∈ screened ∨ code ∈ fresh := by
  induction fresh generalizing screened with
  | nil => exact Or.inl h
  | cons c cs ih =>
    unfold addFresh at h
    split_ifs at h
    · exact Or.inl h
    · exact (ih h).imp_right (List.mem_cons_of_mem c)
    · rcases ih h with hold | hnew
      · rcases List.mem_append.mp hold with hold | hc
        · exact Or.inl hold
        · exact Or.inr (by simp [List.mem_singleton.mp hc])
      · exact Or.inr (List.mem_cons_of_mem c hnew)

/-- What the engine keeps: distinct codes, no more than the cap. -/
structure Capped (cap : ℕ) (screened : List Code) : Prop where
  length : screened.length ≤ cap
  nodup : screened.Nodup

theorem Capped.rotate {cap : ℕ} {screened : List Code} (h : Capped cap screened)
    (fresh : List Code) : Capped cap (rotate cap fresh screened) := by
  have hdrop : Capped cap (dropStale fresh screened) := by
    unfold dropStale
    split_ifs
    · exact h
    · exact ⟨(List.length_filter_le _ _).trans h.length, h.nodup.filter _⟩
  exact ⟨addFresh_length hdrop.length, addFresh_nodup hdrop.nodup⟩

theorem rotate_nil (cap : ℕ) (screened : List Code) : rotate cap [] screened = screened := rfl

theorem rotate_subset {cap : ℕ} {fresh screened : List Code} (h : fresh ≠ []) :
    ∀ code ∈ rotate cap fresh screened, code ∈ fresh := by
  intro code hcode
  rcases mem_addFresh hcode with hkept | hadded
  · rw [dropStale, if_neg h] at hkept
    simpa using (List.mem_filter.mp hkept).2
  · exact hadded

/-- What a refresh leaves. -/
structure Refreshed (cfg : Settings) (elapsed : Time) (rows : List ScreeningRow) (w v : World) :
    Prop where
  screened : v.engine.screenedCodes =
    rotate cfg.maxScreened (freshSet cfg elapsed rows w) w.engine.screenedCodes
  screening : v.screening = w.screening
  clock : v.clock = w.clock + elapsed

theorem refresh_refreshed (cfg : Settings) (elapsed : Time) (rows : List ScreeningRow)
    (markets : List (Code × String)) (w : World) :
    Refreshed cfg elapsed rows w (refresh cfg elapsed rows markets w) := by
  let table := if rows.Perm w.screening then rows else w.screening
  let screened := rotate cfg.maxScreened (freshSet cfg elapsed rows w) w.engine.screenedCodes
  have hrun : refresh cfg elapsed rows markets w =
      (exec serve (if cfg.market.isOverseas = true ∧
          screened.filter (· ∉ w.engine.screenedCodes) ≠ [] then do
        let markets ← stockMarkets (screened.filter (· ∉ w.engine.screenedCodes))
        modify (onEngine (seedExchanges cfg markets)) else pure ())
        (fun n => refreshTape elapsed rows markets (n + 1))
        (onEngine (setScreened screened) (w.tick elapsed))).2 := rfl
  rw [hrun]
  split
  · exact ⟨rfl, rfl, rfl⟩
  · exact ⟨rfl, rfl, rfl⟩

/-! ### The worker's table -/

section Table
variable {clock : MarketClock} {windowMin : ℤ} {now t : Time} {cap : ℕ}
  {rows : List ScreeningRow} {code : Code} {round : Round}

theorem mem_loadExisting : code ∈ loadExistingScreenedCodes clock windowMin now rows ↔
    ∃ r ∈ rows, clock.date r.screenedAt = clock.date now ∧ r.convertedToTrade = true ∧
      (now : ℤ) - windowMin * minute ≤ r.screenedAt ∧ r.stockCode = code := by
  simp only [loadExistingScreenedCodes, List.mem_dedup, List.mem_map, List.mem_filter,
    mem_getByDate, Bool.and_eq_true, decide_eq_true_eq, and_assoc]

theorem nodup_loadExisting : (loadExistingScreenedCodes clock windowMin now rows).Nodup :=
  List.nodup_dedup _

theorem length_le_of_subset {xs ys : List Code} (hnodup : xs.Nodup) (h : ∀ x ∈ xs, x ∈ ys) :
    xs.length ≤ ys.length := (List.subperm_of_subset hnodup h).length_le

/-- As time goes on converted rows only leave the window. -/
theorem loadExisting_later (hle : t ≤ now) (hday : clock.date t = clock.date now) :
    (loadExistingScreenedCodes clock windowMin now rows).length ≤
      (loadExistingScreenedCodes clock windowMin t rows).length := by
  apply length_le_of_subset nodup_loadExisting
  intro code hcode
  obtain ⟨r, hr, hdate, hconverted, hrecent, hrcode⟩ := mem_loadExisting.mp hcode
  have hle' : (t : ℤ) ≤ now := by exact_mod_cast hle
  exact mem_loadExisting.mpr ⟨r, hr, by rw [hdate, hday], hconverted, by linarith, hrcode⟩

theorem recordToDb_converted {candidates : List Code} {rank : ℕ} {items : List RankItem}
    {r : ScreeningRow} (hr : r ∈ recordToDb candidates rank items)
    (hconverted : r.convertedToTrade = true) : r.stockCode ∈ candidates := by
  induction items generalizing rank with
  | nil => simp [recordToDb] at hr
  | cons item items ih =>
    unfold recordToDb at hr
    split_ifs at hr
    · exact ih hr
    · rcases List.mem_cons.mp hr with rfl | hrest
      · simpa using hconverted
      · exact ih hrest

/-- A round leaves the slots that the codes it has read and the blocked ones take. -/
theorem round_slots (clock : MarketClock) (windowMin : ℤ) (cap : ℕ) (rows : List ScreeningRow)
    (hloaded : round.loaded = true) :
    let exclude := excludeCodes clock windowMin round rows
    (loadExistingScreenedCodes clock windowMin round.now rows).length ≤ exclude.length ∧
      (newCodes cap exclude round).length ≤ cap - exclude.length := by
  intro exclude
  constructor
  · apply length_le_of_subset nodup_loadExisting
    intro code hcode
    simp [exclude, excludeCodes, hloaded, hcode]
  · exact List.length_take_le _ _

/-- After a round: what was converted before it, or by it. -/
theorem runScreening_bound (hloaded : round.loaded = true) (hle : round.now ≤ now)
    (hday : clock.date round.now = clock.date now)
    (h : (loadExistingScreenedCodes clock windowMin round.now rows).length ≤ cap) :
    (loadExistingScreenedCodes clock windowMin now
      (runScreening clock windowMin cap rows round)).length ≤ cap := by
  unfold runScreening
  split_ifs
  · obtain ⟨hexclude, hnew⟩ := round_slots clock windowMin cap rows hloaded
    set exclude := excludeCodes clock windowMin round rows
    have hlength : (loadExistingScreenedCodes clock windowMin now (rows ++
        recordToDb (newCodes cap exclude round) 1 round.ranked)).length ≤
        (loadExistingScreenedCodes clock windowMin round.now rows ++
          newCodes cap exclude round).length := by
      apply length_le_of_subset nodup_loadExisting
      intro code hcode
      obtain ⟨r, hr, hdate, hconverted, hrecent, hrcode⟩ := mem_loadExisting.mp hcode
      apply List.mem_append.mpr
      rcases List.mem_append.mp hr with hold | hrecorded
      · have hle' : (round.now : ℤ) ≤ now := by exact_mod_cast hle
        exact Or.inl (mem_loadExisting.mpr
          ⟨r, hold, by rw [hdate, hday], hconverted, by linarith, hrcode⟩)
      · exact Or.inr (hrcode ▸ recordToDb_converted hrecorded hconverted)
    rw [List.length_append] at hlength
    omega
  · exact (loadExisting_later hle hday).trans h

end Table

theorem le_finish (now : Time) (items : List RankItem) : now ≤ finish now items := by
  induction items generalizing now with
  | nil => exact le_rfl
  | cons item items ih => exact (le_max_left now item.recordedAt).trans (ih _)

/-! ### Any order of rounds and refreshes -/

/-- What holds within the day. -/
structure Bounded (cfg : Settings) (today : ℕ) (s : State) : Prop where
  recorded : ∀ t, s.world.clock ≤ t → cfg.clock.date t = today →
    (loadExistingScreenedCodes cfg.clock cfg.freshWindowMin t s.world.screening).length ≤ cfg.maxScreened
  loaded : ∀ t ∈ s.loadedAt, t ≤ s.world.clock ∧ cfg.clock.date t = today ∧
    (loadExistingScreenedCodes cfg.clock cfg.freshWindowMin t s.world.screening).length ≤ cfg.maxScreened
  screened : Capped cfg.maxScreened s.world.engine.screenedCodes

section Steps
variable {cfg : Settings} {today : ℕ} {s : State}

theorem Bounded.advance (h : Bounded cfg today s) {v : World} (hclock : s.world.clock ≤ v.clock)
    (hrows : v.screening = s.world.screening)
    (hscreened : Capped cfg.maxScreened v.engine.screenedCodes) :
    Bounded cfg today { s with world := v } := by
  refine ⟨fun t ht => ?_, fun t ht => ?_, hscreened⟩
  · rw [hrows]
    exact h.recorded t (hclock.trans ht)
  · obtain ⟨hle, hdate, hlength⟩ := h.loaded t ht
    rw [hrows]
    exact ⟨hle.trans hclock, hdate, hlength⟩

theorem Bounded.record (h : Bounded cfg today s) (riskBlocked : List Code)
    (ranked : List RankItem) (scored : List Code) (committed : Bool) :
    Bounded cfg today (record cfg riskBlocked ranked scored committed s) := by
  unfold UniverseBound.record
  split
  · exact h
  next loadedAt hloaded =>
    obtain ⟨hle, hdate, hlength⟩ := h.loaded loadedAt hloaded
    refine ⟨fun t ht hday => ?_, fun t ht => (by cases ht), h.screened⟩
    have hlate : loadedAt ≤ t := hle.trans ((le_finish _ ranked).trans ht)
    exact runScreening_bound rfl hlate (hdate.trans hday.symm) hlength

theorem bounded_step (h : Bounded cfg today s) (e : Event)
    (hday : cfg.clock.date s.world.clock = today) : Bounded cfg today (step cfg s e) := by
  cases e with
  | tick elapsed => exact h.advance (Nat.le_add_right _ _) rfl h.screened
  | watch codes => exact h.advance le_rfl rfl h.screened
  | load =>
    refine ⟨h.recorded, fun t ht => ?_, h.screened⟩
    obtain rfl := Option.some.inj ht
    exact ⟨le_rfl, hday, h.recorded _ le_rfl hday⟩
  | record riskBlocked ranked scored committed => exact h.record riskBlocked ranked scored committed
  | refresh elapsed rows markets =>
    have hrefresh := refresh_refreshed cfg elapsed rows markets s.world
    refine h.advance ?_ hrefresh.screening ?_
    · rw [hrefresh.clock]
      exact Nat.le_add_right _ _
    · rw [hrefresh.screened]
      exact h.screened.rotate _

end Steps

/-- Through any rounds and refreshes of one day: the codes converted within the window never
exceed the cap, and a refresh leaves at most as many codes, all of them fresh, or the codes
there were if none is fresh. -/
theorem universe_bound (cfg : Settings) (w : World) (today : ℕ)
    (hrows : ∀ r ∈ w.screening, cfg.clock.date r.screenedAt ≠ today) (events : List Event)
    (hday : Meets (step cfg) (fun s _ => cfg.clock.date s.world.clock = today) (.start w) events) :
    let s := run (step cfg) (.start w) events
    (cfg.clock.date s.world.clock = today → (loadExistingScreenedCodes cfg.clock
      cfg.freshWindowMin s.world.clock s.world.screening).length ≤ cfg.maxScreened) ∧
    ∀ elapsed rows markets,
      let fresh := freshSet cfg elapsed rows s.world
      let codes := (refresh cfg elapsed rows markets s.world).engine.screenedCodes
      codes.Nodup ∧ codes.length ≤ cfg.maxScreened ∧
      (fresh ≠ [] → ∀ code ∈ codes, code ∈ fresh) ∧
      (fresh = [] → codes = s.world.engine.screenedCodes) := by
  intro s
  have hstart : Bounded cfg today (.start w) := by
    refine ⟨fun t _ hdate => ?_, fun t ht => (by cases ht), ⟨Nat.zero_le _, List.nodup_nil⟩⟩
    have hnone : loadExistingScreenedCodes cfg.clock cfg.freshWindowMin t w.screening = [] := by
      apply List.eq_nil_iff_forall_not_mem.mpr
      intro code hcode
      obtain ⟨r, hr, hsame, -⟩ := mem_loadExisting.mp hcode
      exact hrows r hr (hsame.trans hdate)
    show (loadExistingScreenedCodes cfg.clock cfg.freshWindowMin t w.screening).length ≤ _
    rw [hnone]
    exact Nat.zero_le _
  have hstep : ∀ s e, Bounded cfg today s → cfg.clock.date s.world.clock = today →
      Bounded cfg today (step cfg s e) := fun s e h hdate => bounded_step h e hdate
  have hbounded : Bounded cfg today s := invariant hstep hstart hday
  refine ⟨fun hdate => hbounded.recorded _ le_rfl hdate, fun elapsed rows markets => ?_⟩
  intro fresh codes
  have hcodes : codes = rotate cfg.maxScreened fresh s.world.engine.screenedCodes :=
    (refresh_refreshed cfg elapsed rows markets s.world).screened
  have hcapped := hbounded.screened.rotate fresh
  rw [hcodes]
  refine ⟨hcapped.nodup, hcapped.length, rotate_subset, fun hempty => ?_⟩
  rw [hempty, rotate_nil]

/-- A round that converts two stocks, a refresh, and a round a quarter of an hour later. -/
def morningEvents : List Event :=
  [.tick (540 * minute), .load, .record [] [⟨"005930", false, 0⟩, ⟨"000660", false, 0⟩]
    ["000660", "005930"] true, .refresh 0 [] [], .tick (15 * minute), .load,
    .record ["005930"] [⟨"005930", false, 0⟩, ⟨"035420", false, 0⟩] ["035420"] true]

def morningWorld : World := { broker := ⟨0, .empty, [], 0, 0⟩ }

theorem universe_bound_morning :
    let s := run (step { clock := plainClock }) (.start morningWorld) morningEvents
    let fresh := freshSet { clock := plainClock } 0 [] s.world
    let codes := (refresh { clock := plainClock } 0 [] [] s.world).engine.screenedCodes
    codes.Nodup ∧ codes.length ≤ 15 ∧ (fresh ≠ [] → ∀ code ∈ codes, code ∈ fresh) ∧
      (fresh = [] → codes = s.world.engine.screenedCodes) :=
  (universe_bound { clock := plainClock } morningWorld 0 (by simp [morningWorld]) morningEvents
    (by decide +kernel)).2 0 [] []

end KisAutotrader.UniverseBound
