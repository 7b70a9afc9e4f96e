import Mathlib.Data.Rat.Floor
import Mathlib.Algebra.Order.Field.Rat
import KisAutotrader.Interleaving
import KisAutotrader.Text

/-!
# Triggering an implementation cycle

The guard of a trigger and its two lock files, the commands of the bot that use it, and the cycle
script as far as it looks at the locks.
-/
namespace KisAutotrader.HarnessTrigger
open Interleaving Text

/-! ### The guard -/

/-- The pause lock and the cycle lock; the cycle lock holds the id of the cycle. -/
structure LockFiles where
  pause : Bool := false
  cycle : Option String := none
deriving DecidableEq

def paused (files : LockFiles) : Bool := files.pause

def setPaused (value : Bool) (files : LockFiles) : LockFiles := { files with pause := value }

structure TriggerDecision where
  allowed : Bool
  reason : String := ""
deriving DecidableEq

structure TriggerArgs where
  env : String
  marketHour : Bool
  force : Bool := false
  lastCompletedAt : Option ℚ := none

/-- `f"{x:.0f}"`: halves are rounded to even, and what is negative keeps its sign. -/
def wholeSeconds (x : ℚ) : String :=
  let n := ⌊|x|⌋
  let rest := |x| - n
  let rounded := if rest < 1/2 ∨ rest = 1/2 ∧ n % 2 = 0 then n else n + 1
  (if x < 0 then "-" else "") ++ toString rounded

def canTrigger (minInterval : ℤ) (now : ℚ) (files : LockFiles) (args : TriggerArgs) :
    TriggerDecision :=
  if paused files then ⟨false, "harness paused (pause lock present)"⟩
  else if files.cycle.isSome then ⟨false, "cycle in-flight (lock present)"⟩
  else if args.env = "real" ∧ args.marketHour ∧ ¬args.force then
    ⟨false, "KIS_ENV=real + market hour requires --force"⟩
  else
    match args.lastCompletedAt with
    | none => ⟨true, ""⟩
    | some last =>
        let elapsed := now - last
        if elapsed < minInterval then
          ⟨false, "min interval not met (elapsed=" ++ wholeSeconds elapsed ++ "s, required=" ++
            toString minInterval ++ "s)"⟩
        else ⟨true, ""⟩

def acquireCycleLock (cycleId : String) (files : LockFiles) : LockFiles :=
  { files with cycle := some cycleId }

/-- The file is removed, whoever wrote it; a file that is not there is no error. -/
def releaseCycleLock (files : LockFiles) : LockFiles := { files with cycle := none }

/-! ### The commands -/

/-- A reading of the clock in Korean time; Monday is weekday 0. -/
structure DateTime where
  year : ℕ
  month : ℕ
  day : ℕ
  weekday : ℕ
  hour : ℕ
  minute : ℕ
  second : ℕ

def isMarketHour (now : DateTime) : Bool :=
  if now.weekday ≥ 5 then false
  else (9 < now.hour ∨ now.hour = 9 ∧ 0 ≤ now.minute) ∧
    (now.hour < 15 ∨ now.hour = 15 ∧ now.minute ≤ 30)

def padded (width n : ℕ) : String :=
  let digits := (Nat.repr n).toList
  String.ofList (List.replicate (width - digits.length) '0' ++ digits)

def manualCycleId (now : DateTime) : String :=
  "manual-" ++ padded 4 now.year ++ padded 2 now.month ++ padded 2 now.day ++ "-" ++
    padded 2 now.hour ++ padded 2 now.minute ++ padded 2 now.second

/-- What a command does before its first suspension: it replies, or it holds the lock. -/
inductive Begun
  | reply (text : String)
  | locked (cycleId : String)
deriving DecidableEq

section Settings
variable (env : String) (minInterval : ℤ)

/-- `cmd_run_implement` up to `create_subprocess_exec`. Nothing is awaited between the check and
the lock; no time of a last completion is passed on. -/
def cmdRunImplement (args : String) (now : DateTime) (time : ℚ) (files : LockFiles) :
    Begun × LockFiles :=
  let dry := contains "--dry" args
  let force := contains "--force" args
  let decision := canTrigger minInterval time files
    { env := env, marketHour := isMarketHour now, force := force }
  if ¬decision.allowed then (.reply ("❌ 발동 차단: " ++ decision.reason), files)
  else if dry then (.reply "✅ 가드 통과 — 구현은 생략(--dry)", files)
  else
    let cycleId := manualCycleId now
    (.locked cycleId, acquireCycleLock cycleId files)

def cmdPauseImplement (args : String) (files : LockFiles) : String × LockFiles :=
  if strip args = "resume" ∨ strip args = "off" then
    ("▶️ 하네스 재개 (pause lock 제거)", setPaused false files)
  else ("⏸️ 하네스 일시 중단 (pause lock 설치 — 자동/수동 트리거 모두 차단)", setPaused true files)

/-! ### Commands and scripts, interleaved -/

/-- Where a command is. It holds the lock from its check on until it leaves the `try`. -/
inductive Phase
  /-- In `create_subprocess_exec`; nothing has been launched. -/
  | spawning (cycleId : String)
  /-- In `proc.wait()`; `launchctl start` runs and has not started the script. -/
  | starting (cycleId : String)
  /-- In `proc.wait()`; the script has been started. -/
  | waiting (cycleId : String)
  /-- It has ended, the `launchctl start` it issued has not. -/
  | abandoned
  | replied (text : String)
  | raised
deriving DecidableEq

/-- The lock files, the commands in the order of their calls, and the scripts: those that have not
looked at the pause lock and those past it. -/
structure Harness where
  files : LockFiles := {}
  commands : List Phase := []
  entering : ℕ := 0
  running : ℕ := 0
deriving DecidableEq

inductive Event
  | runImplement (args : String) (now : DateTime) (time : ℚ)
  | pauseImplement (args : String)
  /-- `create_subprocess_exec` returns, or it raises. -/
  | spawned (i : ℕ) (ok : Bool)
  /-- `launchctl start` has been carried out; launchd starts the script or leaves it. -/
  | started (i : ℕ) (script : Bool)
  | waited (i : ℕ)
  /-- The task of the command is cancelled where it waits. -/
  | cancelled (i : ℕ)
  | scheduled
  | entered
  | ended

/-- The command moves on and the `finally` removes the lock. -/
def leave (i : ℕ) (phase : Phase) (h : Harness) : Harness :=
  { h with files := releaseCycleLock h.files, commands := h.commands.set i phase }

def runImplement (args : String) (now : DateTime) (time : ℚ) (h : Harness) : Harness :=
  match cmdRunImplement env minInterval args now time h.files with
  | (.reply text, files) => { h with files := files, commands := h.commands ++ [.replied text] }
  | (.locked cycleId, files) =>
      { h with files := files, commands := h.commands ++ [.spawning cycleId] }

def spawned (i : ℕ) (ok : Bool) (h : Harness) : Harness :=
  match h.commands[i]? with
  | some (.spawning cycleId) =>
      if ok then { h with commands := h.commands.set i (.starting cycleId) } else leave i .raised h
  | _ => h

def started (i : ℕ) (script : Bool) (h : Harness) : Harness :=
  let entering := if script then h.entering + 1 else h.entering
  match h.commands[i]? with
  | some (.starting cycleId) =>
      { h with commands := h.commands.set i (.waiting cycleId), entering := entering }
  | some .abandoned => { h with commands := h.commands.set i .raised, entering := entering }
  | _ => h

def waited (i : ℕ) (h : Harness) : Harness :=
  match h.commands[i]? with
  | some (.waiting cycleId) =>
      leave i (.replied ("🚀 사이클 발동: " ++ cycleId ++ " (launchctl start 호출)")) h
  | _ => h

def cancelled (i : ℕ) (h : Harness) : Harness :=
  match h.commands[i]? with
  | some (.spawning _) | some (.waiting _) => leave i .raised h
  | some (.starting _) => leave i .abandoned h
  | _ => h

/-- The script asks for the pause lock and for no other. -/
def entered (h : Harness) : Harness :=
  if h.entering = 0 then h
  else if paused h.files then { h with entering := h.entering - 1 }
  else { h with entering := h.entering - 1, running := h.running + 1 }

def step (h : Harness) : Event → Harness
  | .runImplement args now time => runImplement env minInterval args now time h
  | .pauseImplement args => { h with files := (cmdPauseImplement args h.files).2 }
  | .spawned i ok => spawned i ok h
  | .started i script => started i script h
  | .waited i => waited i h
  | .cancelled i => cancelled i h
  | .scheduled => { h with entering := h.entering + 1 }
  | .entered => entered h
  | .ended => { h with running := h.running - 1 }

end Settings

/-! ### What the guard lets through -/

section Guard
variable {env : String} {minInterval : ℤ} {args : String} {now : DateTime} {time : ℚ}
  {files : LockFiles}

/-- A command that asks for a start in a state of the locks and at a time that the guard accepts. -/
structure Unguarded (env args : String) (now : DateTime) (files : LockFiles) : Prop where
  start : contains "--dry" args = false
  resumed : files.pause = false
  unlocked : files.cycle = none
  closed : env = "real" → isMarketHour now = true → contains "--force" args = true

theorem canTrigger_allowed_iff {trigger : TriggerArgs} (hlast : trigger.lastCompletedAt = none) :
    (canTrigger minInterval time files trigger).allowed = true ↔
      files.pause = false ∧ files.cycle = none ∧
        (trigger.env = "real" → trigger.marketHour = true → trigger.force = true) := by
  unfold canTrigger paused
  rw [hlast]
  split_ifs with hpause hcycle hreal
  · simp [hpause]
  · have hsome : files.cycle ≠ none := Option.isSome_iff_ne_none.mp hcycle
    simp [hsome]
  · simp [hreal]
  · have hnone : files.cycle = none := by simpa using hcycle
    simp only [true_iff]
    refine ⟨by simpa using hpause, hnone, fun henv hmarket => ?_⟩
    by_contra hforce
    exact hreal ⟨henv, hmarket, hforce⟩

theorem cmdRunImplement_unguarded (h : Unguarded env args now files) :
    cmdRunImplement env minInterval args now time files =
      (.locked (manualCycleId now), acquireCycleLock (manualCycleId now) files) := by
  have hallowed : (canTrigger minInterval time files
      { env := env, marketHour := isMarketHour now, force := contains "--force" args }).allowed :=
    (canTrigger_allowed_iff rfl).mpr ⟨h.resumed, h.unlocked, h.closed⟩
  simp [cmdRunImplement, hallowed, h.start]

/-- Any other command replies and leaves the locks. -/
theorem cmdRunImplement_guarded (h : ¬Unguarded env args now files) :
    ∃ text, cmdRunImplement env minInterval args now time files = (.reply text, files) := by
  by_cases hallowed : (canTrigger minInterval time files
      { env := env, marketHour := isMarketHour now, force := contains "--force" args }).allowed
  · obtain ⟨hpause, hcycle, hclosed⟩ := (canTrigger_allowed_iff rfl).mp hallowed
    cases hdry : contains "--dry" args with
    | true => exact ⟨_, by simp [cmdRunImplement, hallowed, hdry]; rfl⟩
    | false => exact absurd ⟨hdry, hpause, hcycle, hclosed⟩ h
  · exact ⟨_, by simp [cmdRunImplement, hallowed]; rfl⟩

end Guard

end KisAutotrader.HarnessTrigger
