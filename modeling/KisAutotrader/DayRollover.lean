import KisAutotrader.DayValues

/-!
# Day rollover

The trading days of one process. On each of them `pre_market` runs before the first cycle or
does not run at all.
-/
namespace KisAutotrader.DayRollover
open OrderedDict Coroutine OrderExecution OrderRules RiskRestore StockProcessing TradingCycle
  CycleRules

structure TradingDay where
  opening : Option Tape
  jobs : List (DayJob × Tape)

def isCycle : DayJob → Bool
  | .cycle => true
  | _ => false

/-- The job is a cycle that gets past the kill switch. -/
def Trading (job : DayJob) (w : World) : Prop := isCycle job = true ∧ w.haltFile = false

section Days
variable (cfg : Settings)

def opened (day : TradingDay) (w : World) : World :=
  match day.opening with
  | none => w
  | some tape => (exec serve (preMarket cfg) tape w).2

def runDay (day : TradingDay) (w : World) : World :=
  run serve (runDayJob cfg) day.jobs (opened cfg day w)

/-- The world and the values of the day after one more job. -/
def after (job : DayJob) (tape : Tape) (x : World × DayValues) : World × DayValues :=
  (exec (serveNoted serve (note cfg (isCycle job))) (instrument DayValues (runDayJob cfg job))
    tape x).2

/-- Every cycle that gets past the kill switch reads the values of the day, at each of its calls
and when it ends. -/
def ReadsDay : List (DayJob × Tape) → World × DayValues → Prop
  | [], _ => True
  | (job, tape)::jobs, x =>
      (Trading job x.1 →
        Along (serveNoted serve (note cfg (isCycle job))) (AtCall cfg)
          (instrument DayValues (runDayJob cfg job)) tape x ∧
        read (after cfg job tape x).1.engine = (after cfg job tape x).2) ∧
      ReadsDay jobs (after cfg job tape x)

/-- On every day the values start from nothing. -/
def ReadsDays : List TradingDay → World → Prop
  | [], _ => True
  | day::days, w =>
      ReadsDay cfg day.jobs (opened cfg day w, {}) ∧ ReadsDays days (runDay cfg day w)

def HasCycle : List (DayJob × Tape) → World → Prop
  | [], _ => False
  | (job, tape)::jobs, w =>
      Trading job w ∨ HasCycle jobs (exec serve (runDayJob cfg job) tape w).2

/-- The condition on a day: before its first cycle `pre_market` has run, or the process is to
rebuild its state, or nothing is left of the days before. -/
structure Clear (day : TradingDay) (w : World) : Prop where
  start : HasCycle cfg day.jobs (opened cfg day w) →
    day.opening ≠ none ∨ w.engine.riskStateRestored = false ∨ read w.engine = {}
  rebuilds : RunMeets serve (runDayJob cfg) (Rebuilds cfg) day.jobs (opened cfg day w)

def AllClear : List TradingDay → World → Prop
  | [], _ => True
  | day::days, w => Clear cfg day w ∧ AllClear days (runDay cfg day w)

end Days

/-! ### One job -/

/-- A process that has not yet rebuilt its state. -/
structure New (x : World × DayValues) : Prop where
  level : Level false x
  nothing : x.2 = {}
  pending : x.1.engine.pendingOrders.items = []

section Jobs
variable {cfg : Settings} {job : DayJob} {tape : Tape} {x : World × DayValues}

theorem after_world : (after cfg job tape x).1 = (exec serve (runDayJob cfg job) tape x.1).2 :=
  (exec_instrument (runDayJob cfg job) tape x).2

theorem unread_beginCycle : Unread beginCycle := fun _ => ⟨rfl, rfl⟩

theorem unread_setKillSwitchLogged (logged : Bool) : Unread (setKillSwitchLogged logged) :=
  fun _ => ⟨rfl, rfl⟩

section Steps
variable {rely : Req → Reply → World × DayValues → Prop} {site : Req → World × DayValues → Prop}
  {I : World × DayValues → Prop}

theorem runTradingCycle_halted (hI : Silent I) (hhalt : x.1.haltFile = true) (hx : I x) :
    wp (serveNoted serve (note cfg true)) rely site (instrument DayValues (runTradingCycle cfg))
      (fun _ => I) x := by
  have hbegun := hI.update beginCycle x unread_beginCycle hx
  have hhalt' : (onEngine beginCycle x.1).haltFile = true := hhalt
  simp only [runTradingCycle, wp_instrument_bind, wp_instrument_modify, wp_instrument_get, hhalt',
    if_true]
  exact hI.update _ _ (unread_setKillSwitchLogged true) hbegun

theorem syncDay_silent (hI : Silent I) (hsite : ∀ r x, AtCall cfg r x → site r x) :
    Kept serve (note cfg false) rely site I (do
      match ← getBalance cfg .cycle true with
      | .error _ => pure ()
      | .ok b =>
          if ← getExecutions then do
            let w ← get
            enqueueSync (cfg.clock.date w.clock) (syncRows b w.engine)
          else pure ()) := by
  refine (hI.getBalance hsite true rfl).bind fun r => ?_
  split
  · exact kept_pure _
  · refine (hI.ask hsite rfl).bind fun executed => ?_
    split
    · exact kept_get.bind fun w => hI.ask hsite rfl
    · exact kept_pure _

/-- Without a registered order `post_market` adds nothing. -/
theorem postMarket_silent (hI : Silent I) (hsite : ∀ r x, AtCall cfg r x → site r x)
    (hpending : x.1.engine.pendingOrders.items = []) (hx : I x) :
    wp (serveNoted serve (note cfg false)) rely site (instrument DayValues (postMarket cfg))
      (fun _ => I) x := by
  simp only [postMarket, cancelAllPendingOrders, wp_instrument_bind, wp_instrument_get, hpending]
  exact syncDay_silent hI hsite x hx

end Steps

theorem job_level (cfg : Settings) (job : DayJob) (tape : Tape) (hx : Level true x) :
    Along (serveNoted serve (note cfg (isCycle job))) (AtCall cfg)
        (instrument DayValues (runDayJob cfg job)) tape x ∧
      Level true (after cfg job tape x) := by
  have hsite : ∀ r x, AtCall cfg r x → AtCall cfg r x := fun _ _ h => h
  have hjob : wp (serveNoted serve (note cfg (isCycle job))) (fun _ _ _ => True) (AtCall cfg)
      (instrument DayValues (runDayJob cfg job)) (fun _ => Level true) x := by
    cases job with
    | idle => exact silent_level.ask hsite rfl x hx
    | postMarket => exact follows_postMarket hsite x hx
    | cycle =>
      cases hhalt : x.1.haltFile with
      | true => exact runTradingCycle_halted silent_level hhalt hx
      | false =>
        refine runTradingCycle_level hsite hhalt (restore_again ?_)
        have hbegun := silent_level.update beginCycle x unread_beginCycle hx
        exact silent_level.update _ _ (unread_setKillSwitchLogged false) hbegun
  exact wp_sound hjob (meets_true _ _ _)

/-- The first cycle that gets past the kill switch takes over the day's rows. -/
theorem job_rebuilds (hx : New x) (hjob : Trading job x.1)
    (hmeets : Meets serve (Rebuilds cfg) (runDayJob cfg job) tape x.1) :
    Along (serveNoted serve (note cfg (isCycle job))) (AtCall cfg)
        (instrument DayValues (runDayJob cfg job)) tape x ∧
      Level true (after cfg job tape x) := by
  have hrebuilt : wp (serveNoted serve (note cfg (isCycle job)))
      (fun r reply y => Rebuilds cfg r reply y.1) (AtCall cfg)
      (instrument DayValues (runDayJob cfg job)) (fun _ => Level true) x := by
    cases job with
    | idle => exact absurd hjob.1 (by simp [isCycle])
    | postMarket => exact absurd hjob.1 (by simp [isCycle])
    | cycle =>
      have hbegun := silent_level.update beginCycle x unread_beginCycle hx.level
      refine runTradingCycle_level (fun _ _ h => h) hjob.2 (restore_new (fun _ _ h => h)
        (fun _ _ _ h => h) hx.nothing ?_)
      exact silent_level.update _ _ (unread_setKillSwitchLogged false) hbegun
  exact wp_sound hrebuilt (meets_instrument hmeets)

/-- Any other job leaves a new process as it is. -/
theorem job_new (hx : New x) (hjob : ¬ Trading job x.1) : New (after cfg job tape x) := by
  have hsilent : Silent fun y => Level false y ∧ y.2 = {} := silent_levelAt {}
  have hstart : Level false x ∧ x.2 = {} := ⟨hx.level, hx.nothing⟩
  have hkept : wp (serveNoted serve (note cfg (isCycle job))) (fun _ _ _ => True) (fun _ _ => True)
      (instrument DayValues (runDayJob cfg job)) (fun _ y => Level false y ∧ y.2 = {}) x := by
    cases job with
    | idle => exact hsilent.ask (fun _ _ _ => trivial) rfl x hstart
    | postMarket => exact postMarket_silent hsilent (fun _ _ _ => trivial) hx.pending hstart
    | cycle =>
      have hhalt : x.1.haltFile = true := by
        cases hfile : x.1.haltFile with
        | true => rfl
        | false => exact absurd ⟨rfl, hfile⟩ hjob
      exact runTradingCycle_halted hsilent hhalt hstart
  have hfresh : Fresh x.1 := by
    refine Or.inr ⟨hx.pending, ?_⟩
    have hread := hx.level.1.trans hx.nothing
    exact congrArg (fun v => v.risk.portfolioHalted) hread
  obtain ⟨-, hlevel, hnothing⟩ := wp_sound hkept (meets_true _ tape _)
  have hafter : Fresh (after cfg job tape x).1 := by
    rw [after_world]
    exact (wp_sound ((fresh_lifeKeeps cfg).runDayJob job hfresh) (meets_true _ _ _)).2
  refine ⟨hlevel, hnothing, ?_⟩
  rcases hafter with hrestored | hpending
  · exact absurd (hrestored.symm.trans hlevel.2) (by simp)
  · exact hpending.1

end Jobs

/-! ### The days of a process -/

section Run
variable {cfg : Settings} {x : World × DayValues}

/-- In every day that starts level, or new, its cycles read its values. -/
theorem readsDay (jobs : List (DayJob × Tape)) (hx : Level true x ∨ New x)
    (hmeets : RunMeets serve (runDayJob cfg) (Rebuilds cfg) jobs x.1) :
    ReadsDay cfg jobs x ∧ ∃ v, Level true (run serve (runDayJob cfg) jobs x.1, v) ∨
      New (run serve (runDayJob cfg) jobs x.1, v) := by
  induction jobs generalizing x with
  | nil => exact ⟨trivial, x.2, hx⟩
  | cons job jobs ih =>
    have hstep : (Trading job.1 x.1 →
        Along (serveNoted serve (note cfg (isCycle job.1))) (AtCall cfg)
          (instrument DayValues (runDayJob cfg job.1)) job.2 x ∧
        Level true (after cfg job.1 job.2 x)) ∧
        (Level true (after cfg job.1 job.2 x) ∨ New (after cfg job.1 job.2 x)) := by
      rcases hx with hlevel | hnew
      · have hjob := job_level cfg job.1 job.2 hlevel
        exact ⟨fun _ => hjob, Or.inl hjob.2⟩
      · by_cases htrading : Trading job.1 x.1
        · have hjob := job_rebuilds hnew htrading hmeets.1
          exact ⟨fun _ => hjob, Or.inl hjob.2⟩
        · exact ⟨fun h => absurd h htrading, Or.inr (job_new hnew htrading)⟩
    have hrest : RunMeets serve (runDayJob cfg) (Rebuilds cfg) jobs (after cfg job.1 job.2 x).1 := by
      rw [after_world]
      exact hmeets.2
    obtain ⟨hreads, v, hend⟩ := ih hstep.2 hrest
    rw [after_world] at hend
    refine ⟨⟨fun h => ?_, hreads⟩, v, hend⟩
    obtain ⟨halong, hlevel⟩ := hstep.1 h
    exact ⟨halong, hlevel.1⟩

/-- Without a cycle nothing is read. -/
theorem readsDay_of_noCycle (jobs : List (DayJob × Tape)) (h : ¬ HasCycle cfg jobs x.1) :
    ReadsDay cfg jobs x := by
  induction jobs generalizing x with
  | nil => trivial
  | cons job jobs ih =>
    refine ⟨fun htrading => absurd (Or.inl htrading) h, ih fun hlater => h (Or.inr ?_)⟩
    rwa [after_world] at hlater

theorem opened_level (tape : Tape) (w : World) :
    Level true ((exec serve (preMarket cfg) tape w).2, {}) := by
  have hopening : wp (serveNoted serve (note cfg false)) (fun _ _ _ => True) (fun _ _ => True)
      (instrument DayValues (preMarket cfg)) (fun _ y => Level true y ∧ y.2 = {}) (w, {}) :=
    preMarket_level rfl
  obtain ⟨-, hlevel, hnothing⟩ := wp_sound hopening (meets_true _ tape _)
  rw [← (exec_instrument (preMarket cfg) tape (w, ({} : DayValues))).2]
  exact ⟨hlevel.1.trans hnothing, hlevel.2⟩

theorem runDay_level {day : TradingDay} {w : World} (hclear : Clear cfg day w)
    (hw : w.engine.riskStateRestored = true ∨ New (w, {})) :
    ReadsDay cfg day.jobs (opened cfg day w, {}) ∧
      ((runDay cfg day w).engine.riskStateRestored = true ∨ New (runDay cfg day w, {})) := by
  have hend : (∃ v, Level true (runDay cfg day w, v) ∨ New (runDay cfg day w, v)) →
      (runDay cfg day w).engine.riskStateRestored = true ∨ New (runDay cfg day w, {}) := by
    rintro ⟨v, hlevel | hnew⟩
    · exact Or.inl hlevel.2
    · obtain rfl : v = {} := hnew.nothing
      exact Or.inr hnew
  by_cases hstart : Level true (opened cfg day w, {}) ∨ New (opened cfg day w, {})
  · obtain ⟨hreads, hlater⟩ := readsDay day.jobs hstart hclear.rebuilds
    exact ⟨hreads, hend hlater⟩
  · -- what is left of the days before is not read on this day
    have hopening : day.opening = none := by
      cases hopening : day.opening with
      | none => rfl
      | some tape =>
        refine absurd (Or.inl ?_) hstart
        rw [opened, hopening]
        exact opened_level tape w
    have hopened : opened cfg day w = w := by rw [opened, hopening]
    rw [hopened] at hstart
    have hrestored : w.engine.riskStateRestored = true :=
      hw.resolve_right fun hnew => hstart (Or.inr hnew)
    have hnone : ¬ HasCycle cfg day.jobs (opened cfg day w) := by
      intro hcycle
      rcases hclear.start hcycle with hsome | hnew | hread
      · exact hsome hopening
      · exact absurd (hrestored.symm.trans hnew) (by simp)
      · exact hstart (Or.inl ⟨hread, hrestored⟩)
    have hleft : Level true (opened cfg day w, read w.engine) := by
      rw [hopened]
      exact ⟨rfl, hrestored⟩
    exact ⟨readsDay_of_noCycle day.jobs hnone,
      hend (readsDay day.jobs (Or.inl hleft) hclear.rebuilds).2⟩

end Run

/-- Calendar days of twenty-four hours. -/
def sessionSettings : Settings where
  clock := ⟨fun t => t / (1440 * minute), fun t => t / (60 * minute) % 24, fun t => t / minute % 60⟩

/-- The API refuses the balance of the first cycle for its daily limit. -/
def limitedDay : TradingDay where
  opening := some (tapeOf [])
  jobs := [
    (.idle, tapeOf [{ elapsed := 30 * minute }]),
    (.cycle, tapeOf [{ outcome := .dailyLimit }]),
    (.postMarket, tapeOf []),
    (.idle, tapeOf [{ elapsed := 1440 * minute }])]

/-- One cycle, after `pre_market` or without it. -/
def nextDay (opening : Option Tape) : TradingDay := ⟨opening, [(.cycle, tapeOf [])]⟩

end KisAutotrader.DayRollover
