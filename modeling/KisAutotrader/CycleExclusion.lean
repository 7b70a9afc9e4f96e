import KisAutotrader.HarnessTrigger

/-!
# One cycle at a time

The cycle lock is held by at most one command, from its check until it ends, and so keeps the
triggers apart. The script does not hold it: what keeps a trigger or the schedule away from a
cycle that runs is not in the guard.
-/
namespace KisAutotrader.HarnessTrigger.CycleExclusion
open Interleaving

/-- The scripts that have been started and have not ended. -/
def inFlight (h : Harness) : ℕ := h.entering + h.running

/-- Between its check and its start. -/
def due : Phase → ℕ
  | .spawning _ | .starting _ | .abandoned => 1
  | _ => 0

def holds : Phase → ℕ
  | .spawning _ | .starting _ | .waiting _ => 1
  | _ => 0

def dueStarts (h : Harness) : ℕ := tally due h.commands

def holders (h : Harness) : ℕ := tally holds h.commands

/-- A command that was called off while its `launchctl start` was under way. -/
def Abandoned (h : Harness) : Prop := Phase.abandoned ∈ h.commands

instance (h : Harness) : Decidable (Abandoned h) := by
  unfold Abandoned
  infer_instance

section Runs
variable (env : String) (minInterval : ℤ)

/-- What a command gets the lock for is a start. -/
def Triggers (h : Harness) : Event → Prop
  | .runImplement args now time =>
      ∃ cycleId, (cmdRunImplement env minInterval args now time h.files).1 = .locked cycleId
  | _ => False

/-- A trigger finds no cycle and no other trigger before its start. -/
def Alone (h : Harness) (e : Event) : Prop :=
  Triggers env minInterval h e → inFlight h = 0 ∧ dueStarts h = 0

/-- A command that the locks and the clock let through comes while no script is in flight and no
start of a command that has ended is due; the schedule comes while none at all is. -/
def Undisturbed (h : Harness) : Event → Prop
  | .runImplement args now _ => Unguarded env args now h.files → inFlight h = 0 ∧ ¬Abandoned h
  | .scheduled => inFlight h = 0 ∧ dueStarts h = 0
  | _ => True

end Runs

/-- No command and no script. -/
structure Idle (h : Harness) : Prop where
  commands : h.commands = []
  entering : h.entering = 0
  running : h.running = 0

/-- The lock is there as long as a command holds it, and one holds it at most. -/
structure Excluded (h : Harness) : Prop where
  held : holders h ≤ if h.files.cycle.isSome then 1 else 0
  flight : dueStarts h + inFlight h ≤ 1

variable {env : String} {minInterval : ℤ} {h : Harness} {e : Event} {i : ℕ} {phase next : Phase}

theorem Excluded.of_idle (hidle : Idle h) : Excluded h := by
  refine ⟨?_, ?_⟩
  · simp [holders, hidle.commands]
  · simp [dueStarts, inFlight, hidle.commands, hidle.entering, hidle.running]

theorem Excluded.unlocked (hex : Excluded h) (hcycle : h.files.cycle = none) : holders h = 0 := by
  have hheld := hex.held
  rwa [hcycle, Option.isSome_none, if_neg Bool.false_ne_true, Nat.le_zero] at hheld

theorem triggers_iff {args : String} {now : DateTime} {time : ℚ} :
    Triggers env minInterval h (.runImplement args now time) ↔ Unguarded env args now h.files := by
  constructor
  · rintro ⟨cycleId, hlocked⟩
    by_contra hguarded
    obtain ⟨text, heq⟩ : ∃ text, cmdRunImplement env minInterval args now time h.files =
        (.reply text, h.files) := cmdRunImplement_guarded hguarded
    simp [heq] at hlocked
  · intro hfree
    exact ⟨manualCycleId now, by rw [cmdRunImplement_unguarded hfree]⟩

/-- Where no command holds the lock, only a start that was left behind can be due. -/
theorem dueStarts_eq_zero (hholders : holders h = 0) (habandoned : ¬Abandoned h) :
    dueStarts h = 0 := by
  rw [dueStarts, tally_eq_zero]
  intro phase hmem
  have hfree : holds phase = 0 := tally_eq_zero.mp hholders phase hmem
  cases phase with
  | abandoned => exact absurd hmem habandoned
  | spawning cycleId => simp [holds] at hfree
  | starting cycleId => simp [holds] at hfree
  | waiting cycleId => rfl
  | replied text => rfl
  | raised => rfl

theorem Excluded.alone (hex : Excluded h) (hcond : Undisturbed env h e) :
    Alone env minInterval h e := by
  cases e with
  | runImplement args now time =>
    intro htriggers
    have hfree := triggers_iff.mp htriggers
    obtain ⟨hflight, habandoned⟩ := hcond hfree
    exact ⟨hflight, dueStarts_eq_zero (hex.unlocked hfree.unlocked) habandoned⟩
  | _ => exact fun htriggers => htriggers.elim

/-! ### The steps -/

/-- A command that moves on and keeps the lock. -/
theorem Excluded.set {t : Harness} (hex : Excluded h) (hc : h.commands[i]? = some phase)
    (hcommands : t.commands = h.commands.set i next) (hfiles : t.files = h.files)
    (hholds : holds next ≤ holds phase) (hdue : due next + inFlight t ≤ due phase + inFlight h) :
    Excluded t := by
  have hhold := tally_set (w := holds) next hc
  have hdues := tally_set (w := due) next hc
  have hheld := hex.held
  have hflight := hex.flight
  refine ⟨?_, ?_⟩
  · rw [hfiles, holders, hcommands]
    simp only [holders] at hheld
    omega
  · rw [dueStarts, hcommands]
    simp only [dueStarts] at hflight
    omega

/-- The command that holds the lock leaves it to nobody. -/
theorem Excluded.leave (hex : Excluded h) (hc : h.commands[i]? = some phase)
    (hholds : holds phase = 1) (hnext : holds next = 0) (hdue : due next ≤ due phase) :
    Excluded (leave i next h) := by
  have hhold := tally_set (w := holds) next hc
  have hdues := tally_set (w := due) next hc
  have hheld : holders h ≤ 1 := hex.held.trans (by split_ifs <;> omega)
  have hflight := hex.flight
  refine ⟨?_, ?_⟩
  · have hnone : tally holds (h.commands.set i next) = 0 := by
      simp only [holders] at hheld
      omega
    simp [holders, HarnessTrigger.leave, hnone]
  · simp only [dueStarts, inFlight, HarnessTrigger.leave] at hflight ⊢
    omega

theorem Excluded.runImplement (hex : Excluded h) {args : String} {now : DateTime} {time : ℚ}
    (hcond : Undisturbed env h (.runImplement args now time)) :
    Excluded (runImplement env minInterval args now time h) := by
  by_cases hfree : Unguarded env args now h.files
  · obtain ⟨hflight, habandoned⟩ := hcond hfree
    have hholders := hex.unlocked hfree.unlocked
    have hdue := dueStarts_eq_zero hholders habandoned
    simp only [HarnessTrigger.runImplement, cmdRunImplement_unguarded hfree]
    simp only [holders, dueStarts, inFlight] at hholders hdue hflight
    refine ⟨?_, ?_⟩
    · simp [holders, holds, hholders, acquireCycleLock]
    · simp only [dueStarts, tally_snoc, due, inFlight]
      omega
  · obtain ⟨text, heq⟩ : ∃ text, cmdRunImplement env minInterval args now time h.files =
        (.reply text, h.files) := cmdRunImplement_guarded hfree
    simp only [HarnessTrigger.runImplement, heq]
    refine ⟨?_, ?_⟩
    · simpa [holders, holds] using hex.held
    · simpa [dueStarts, due, inFlight] using hex.flight

theorem Excluded.spawned (hex : Excluded h) (ok : Bool) : Excluded (spawned i ok h) := by
  unfold HarnessTrigger.spawned
  split
  next cycleId hc =>
    cases ok with
    | true => exact hex.set hc rfl rfl le_rfl le_rfl
    | false => exact hex.leave hc rfl rfl (Nat.zero_le 1)
  next => exact hex

theorem Excluded.started (hex : Excluded h) (script : Bool) : Excluded (started i script h) := by
  have hentering : (if script then h.entering + 1 else h.entering) ≤ h.entering + 1 := by
    split_ifs <;> omega
  simp only [HarnessTrigger.started]
  generalize (if script then h.entering + 1 else h.entering) = entering at hentering
  split
  next cycleId hc =>
    refine hex.set hc rfl rfl (by simp [holds]) ?_
    simp only [due, inFlight]
    omega
  next hc =>
    refine hex.set hc rfl rfl (by simp [holds]) ?_
    simp only [due, inFlight]
    omega
  next => exact hex

theorem Excluded.waited (hex : Excluded h) : Excluded (waited i h) := by
  unfold HarnessTrigger.waited
  split
  next cycleId hc => exact hex.leave hc rfl rfl le_rfl
  next => exact hex

theorem Excluded.cancelled (hex : Excluded h) : Excluded (cancelled i h) := by
  unfold HarnessTrigger.cancelled
  split
  next cycleId hc => exact hex.leave hc rfl rfl (Nat.zero_le 1)
  next cycleId hc => exact hex.leave hc rfl rfl le_rfl
  next cycleId hc => exact hex.leave hc rfl rfl le_rfl
  next => exact hex

theorem Excluded.entered (hex : Excluded h) : Excluded (entered h) := by
  have hflight := hex.flight
  simp only [dueStarts, inFlight] at hflight
  unfold HarnessTrigger.entered
  split_ifs with hnone hpaused
  · exact hex
  · exact ⟨hex.held, by simp only [dueStarts, inFlight]; omega⟩
  · exact ⟨hex.held, by simp only [dueStarts, inFlight]; omega⟩

theorem Excluded.pauseImplement (hex : Excluded h) (args : String) :
    Excluded { h with files := (cmdPauseImplement args h.files).2 } := by
  have hcycle : (cmdPauseImplement args h.files).2.cycle = h.files.cycle := by
    unfold cmdPauseImplement setPaused
    split_ifs <;> rfl
  exact ⟨by simpa only [holders, hcycle] using hex.held, hex.flight⟩

theorem Excluded.step (hex : Excluded h) (hcond : Undisturbed env h e) :
    Excluded (step env minInterval h e) := by
  cases e with
  | runImplement args now time => exact hex.runImplement hcond
  | pauseImplement args => exact hex.pauseImplement args
  | spawned i ok => exact hex.spawned ok
  | started i script => exact hex.started script
  | waited i => exact hex.waited
  | cancelled i => exact hex.cancelled
  | scheduled =>
    obtain ⟨hflight, hdue⟩ := hcond
    refine ⟨hex.held, ?_⟩
    simp only [dueStarts, inFlight, HarnessTrigger.step] at hflight hdue ⊢
    omega
  | entered => exact hex.entered
  | ended =>
    refine ⟨hex.held, ?_⟩
    have hflight := hex.flight
    simp only [dueStarts, inFlight, HarnessTrigger.step] at hflight ⊢
    omega

/-- A step without the condition triggers beside another start or leaves two to come or under
way. -/
theorem not_alone_of_disturbed (hcond : ¬Undisturbed env h e) :
    ¬Alone env minInterval h e ∨
      2 ≤ dueStarts (step env minInterval h e) + inFlight (step env minInterval h e) := by
  cases e with
  | runImplement args now time =>
    left
    intro halone
    refine hcond fun hfree => ?_
    obtain ⟨hflight, hdue⟩ := halone (triggers_iff.mpr hfree)
    refine ⟨hflight, fun hmem => ?_⟩
    have hnone : due .abandoned = 0 := tally_eq_zero.mp hdue _ hmem
    simp [due] at hnone
  | scheduled =>
    right
    have hbusy : ¬(inFlight h = 0 ∧ dueStarts h = 0) := hcond
    simp only [dueStarts, inFlight, HarnessTrigger.step] at hbusy ⊢
    omega
  | _ => exact absurd trivial hcond

/-! ### Every run -/

/-- In every run from an idle harness whose steps meet the condition, each trigger is alone and at
no time is more than one script in flight. -/
theorem one_cycle (env : String) (minInterval : ℤ) {h : Harness} {events : List Event}
    (hidle : Idle h) (hmeets : Meets (step env minInterval) (Undisturbed env) h events) :
    Meets (step env minInterval) (Alone env minInterval) h events ∧
      ∀ before, before <+: events → inFlight (run (step env minInterval) h before) ≤ 1 := by
  have hstep : ∀ h e, Excluded h → Undisturbed env h e → Excluded (step env minInterval h e) :=
    fun h e hex hcond => hex.step hcond
  refine ⟨hmeets.of_invariant hstep (fun h e hex hcond => hex.alone hcond) (.of_idle hidle), ?_⟩
  intro before hbefore
  have hex := invariant hstep (.of_idle hidle) (hmeets.of_prefix hbefore)
  exact (Nat.le_add_left _ _).trans hex.flight

def mondayEvening : DateTime := ⟨2026, 5, 18, 0, 18, 0, 0⟩

/-- A command whose script has looked at the pause lock. -/
def oneCycle : List Event := [
  .runImplement "" mondayEvening 0,
  .spawned 0 true,
  .started 0 true,
  .entered,
  .waited 0]

theorem one_cycle_ended :
    Meets (step "real" 300) (Alone "real" 300) {} (oneCycle ++ [.ended, .scheduled]) ∧
      ∀ before, before <+: oneCycle ++ [.ended, .scheduled] →
        inFlight (run (step "real" 300) {} before) ≤ 1 :=
  one_cycle "real" 300 ⟨rfl, rfl, rfl⟩
    ⟨fun _ => ⟨rfl, by decide⟩, trivial, trivial, trivial, trivial, trivial, ⟨rfl, by decide⟩, trivial⟩

/-- The command has removed the lock and its cycle runs: the next command is let through and issues
its start. -/
theorem triggered_again :
    inFlight (run (step "real" 300) {} oneCycle) = 1 ∧
      ¬Meets (step "real" 300) (Alone "real" 300) {}
        (oneCycle ++ [.runImplement "" mondayEvening 60]) ∧
      (run (step "real" 300) {}
        (oneCycle ++ [.runImplement "" mondayEvening 60, .spawned 1 true])).commands[1]? =
          some (.starting "manual-20260518-180000") := by
  refine ⟨by decide, ?_, by decide⟩
  intro halone
  have hlast := (meets_append.mp halone).2.1
  have hflight := (hlast ⟨manualCycleId mondayEvening, by decide⟩).1
  exact absurd hflight (by decide)

end KisAutotrader.HarnessTrigger.CycleExclusion
