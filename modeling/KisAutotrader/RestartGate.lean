import KisAutotrader.VerifierGate

/-!
# The gate before a restart

The script around an implementation cycle restarts the service after the cycle, the golden tests
and the verifier. Which changes the verifier sees is a matter of the revisions the cycle leaves.
-/
namespace KisAutotrader.RestartGate
open Text Verifier

/-! ### The repository -/

variable {β : Type}

/-- What git records of each path. -/
abbrev Tree (β : Type) := List (String × β)

/-- The revision checked out, the ones before it along first parents, and the files. -/
structure Repository (β : Type) where
  head : Tree β
  parents : List (Tree β) := []
  index : List String
  work : Tree β

/-- `HEAD~n`. -/
def Repository.rev (r : Repository β) : ℕ → Option (Tree β)
  | 0 => some r.head
  | n+1 => r.parents[n]?

/-- A cycle from where it starts: the revisions it adds, the newest first, and the index and the
files it leaves. -/
structure Cycle (β : Type) where
  start : Repository β
  commits : List (Tree β)
  index : List String
  work : Tree β

def Cycle.finish (c : Cycle β) : Repository β :=
  match c.commits with
  | [] => { c.start with index := c.index, work := c.work }
  | newest::older =>
      { head := newest
        parents := older ++ c.start.head :: c.start.parents
        index := c.index
        work := c.work }

/-- A Python file is not what it was when the cycle started. -/
def ChangedPython (c : Cycle β) (p : String) : Prop :=
  ".py".toList <:+ p.toList ∧ c.start.work.lookup p ≠ c.work.lookup p

instance [DecidableEq β] (c : Cycle β) (p : String) : Decidable (ChangedPython c p) := by
  unfold ChangedPython
  infer_instance

/-- What the script asks git: the status of `git diff --quiet HEAD`, and `git diff --numstat`
between two revisions, of which one may not exist. -/
structure Git (β : Type) where
  diffQuiet : Repository β → ℕ
  numstat : Option (Tree β) → Option (Tree β) → Except Raised Completed

section Tracked
variable [DecidableEq β]

/-- The paths of the revision and of the index whose files are not those of the revision; a path
that only the work tree has is none of them. -/
def differing (r : Repository β) : List String :=
  (r.head.map Prod.fst ++ r.index).filter fun p =>
    if p ∈ r.index then r.work.lookup p ≠ r.head.lookup p else (r.head.lookup p).isSome

/-- `git diff --quiet HEAD` ends with 0 if the tracked files are those of the revision. -/
structure Git.Documented (git : Git β) : Prop where
  quiet : ∀ r, git.diffQuiet r = 0 ↔ differing r = []

end Tracked

/-! ### The script -/

/-- What a run of the script meets. The exit codes are those of its commands, the log is the file of
the day when it is searched. -/
structure Invocation (β : Type) where
  paused : Bool := false
  syncExit : ℕ := 0
  cycle : Cycle β
  cycleExit : ℕ
  goldenExit : ℕ
  tools : Verifier.Outcome
  artifactWritten : Bool := true
  log : String

structure Report where
  verifierExit : Option ℕ := none
  restarted : Bool := false
deriving DecidableEq

section Script
variable (git : Git β) (lib : Library)

/-- The tools of the verifier; the range it asks git for is fixed. -/
def outcome (x : Invocation β) : Verifier.Outcome :=
  { x.tools with git := git.numstat (x.cycle.finish.rev 1) (x.cycle.finish.rev 0) }

/-- `run_verifier.main`; an exception that leaves it is exit code 1. -/
def runVerifier (o : Verifier.Outcome) (artifactWritten : Bool) : ℕ :=
  match run lib o with
  | .error _ => 1
  | .ok r =>
      if ¬artifactWritten then 1
      else if r.runnerError.any (· ≠ "") then 3
      else if (evaluateContract r.pytest r.mypy r.ruff r.diff).passed then 0 else 2

/-- `run_auto_implement.sh` up to the restart. -/
def runAutoImplement (x : Invocation β) : Report :=
  if x.paused then {}
  -- `set -e` ends the script here, the later exit codes are kept
  else if x.syncExit ≠ 0 then {}
  else
    let verifierExit :=
      if git.diffQuiet x.cycle.finish = 0 then none
      else some (runVerifier lib (outcome git x) x.artifactWritten)
    { verifierExit
      restarted := x.cycleExit = 0 ∧ x.goldenExit = 0 ∧ verifierExit.getD 0 = 0 ∧
        contains "implemented" x.log }

end Script

/-! ### What a restart stands for -/

section Property
variable (git : Git β) (lib : Library) (x : Invocation β)

/-- The verifier has passed on a change set with every Python file the cycle changed, and the
golden tests and the cycle have succeeded. -/
structure Verified : Prop where
  passed : (runAutoImplement git lib x).verifierExit = some 0
  scope : ∀ p, ChangedPython x.cycle p → p ∈ pyFiles (Gate.changed (outcome git x))
  golden : x.goldenExit = 0
  cycle : x.cycleExit = 0

/-- Nothing but the verifier keeps the script from the restart. -/
structure Permitted : Prop where
  running : x.paused = false
  synced : x.syncExit = 0
  cycle : x.cycleExit = 0
  golden : x.goldenExit = 0
  logged : contains "implemented" x.log = true

/-- The cycle leaves a tracked file that is not as committed, and what git lists for the last
revision names every Python file the cycle changed, unless the verifier finds fault. -/
structure Covered [DecidableEq β] : Prop where
  dirty : differing x.cycle.finish ≠ []
  named : x.artifactWritten = true → Gate.Accepted lib (outcome git x) →
    ∀ p, ChangedPython x.cycle p → p ∈ pyFiles (Gate.changed (outcome git x))

end Property

section Gate
variable {git : Git β} {lib : Library} {x : Invocation β} {o : Verifier.Outcome}

/-- Where an error of a tool is noted, no contract passes. -/
theorem runnerError_eq_none {r : RunnerResult} (hrun : run lib o = .ok r)
    (hverified : verified lib o = true) : r.runnerError = none := by
  obtain ⟨d, hdiff, -, ⟨ruff, hruff, -⟩, ⟨mypy, hmypy, -⟩, pytest, hpytest, -⟩ :=
    Gate.verified_steps.mp hverified
  rw [run, Gate.collect_run] at hrun
  simp only [hdiff, hruff, hmypy, hpytest, caught, Except.ok.injEq] at hrun
  rw [← hrun]

theorem runVerifier_eq_zero {artifactWritten : Bool} :
    runVerifier lib o artifactWritten = 0 ↔ artifactWritten = true ∧ Gate.Accepted lib o := by
  rw [← Gate.verified_iff]
  unfold runVerifier
  cases hrun : run lib o with
  | error e => simp [verified, hrun, marked]
  | ok r =>
    have hmarked : verified lib o = (evaluateContract r.pytest r.mypy r.ruff r.diff).passed := by
      simp [verified, hrun, marked]
    cases hpassed : verified lib o with
    | false =>
      simp only [← hmarked, hpassed]
      split_ifs <;> simp_all
    | true =>
      have hnone := runnerError_eq_none hrun hpassed
      simp only [← hmarked, hpassed, hnone]
      cases artifactWritten <;> simp

theorem Permitted.verifierExit_eq (h : Permitted x) :
    (runAutoImplement git lib x).verifierExit =
      if git.diffQuiet x.cycle.finish = 0 then none
      else some (runVerifier lib (outcome git x) x.artifactWritten) := by
  simp [runAutoImplement, h.running, h.synced]

theorem restarted_iff : (runAutoImplement git lib x).restarted = true ↔
    Permitted x ∧ (git.diffQuiet x.cycle.finish = 0 ∨
      runVerifier lib (outcome git x) x.artifactWritten = 0) := by
  constructor
  · intro hrestarted
    unfold runAutoImplement at hrestarted
    split_ifs at hrestarted with hpaused hsync hquiet
    · simp only [decide_eq_true_eq] at hrestarted
      obtain ⟨hcycle, hgolden, -, hlog⟩ := hrestarted
      exact ⟨⟨by simpa using hpaused, not_not.mp hsync, hcycle, hgolden, hlog⟩, Or.inl hquiet⟩
    · simp only [decide_eq_true_eq] at hrestarted
      obtain ⟨hcycle, hgolden, hverifier, hlog⟩ := hrestarted
      exact ⟨⟨by simpa using hpaused, not_not.mp hsync, hcycle, hgolden, hlog⟩, Or.inr hverifier⟩
  · rintro ⟨h, hverifier⟩
    have hexit : (if git.diffQuiet x.cycle.finish = 0 then none
        else some (runVerifier lib (outcome git x) x.artifactWritten)).getD 0 = 0 := by
      split_ifs with hquiet
      · rfl
      · exact hverifier.resolve_left hquiet
    simp only [runAutoImplement, h.running, h.synced, h.cycle, h.golden, h.logged, hexit]
    simp

end Gate

/-! ### The gate -/

/-- A cycle that commits all it changes is restarted without the verifier. -/
theorem committed_unverified [DecidableEq β] {git : Git β} (hgit : git.Documented) {lib : Library}
    {x : Invocation β} (hpermitted : Permitted x) (hclean : differing x.cycle.finish = []) :
    runAutoImplement git lib x = { verifierExit := none, restarted := true } := by
  have hquiet := (hgit.quiet _).mpr hclean
  have hexit : (runAutoImplement git lib x).verifierExit = none := by
    rw [hpermitted.verifierExit_eq, if_pos hquiet]
  have hrestarted : (runAutoImplement git lib x).restarted = true :=
    restarted_iff.mpr ⟨hpermitted, Or.inl hquiet⟩
  cases hreport : runAutoImplement git lib x
  simp_all

/-! ### Two cycles past the verifier -/

/-- Files as lists of lines; a line is added or deleted where the other file does not have it. -/
def lineGit : Git (List String) where
  diffQuiet r := if differing r = [] then 0 else 1
  numstat
    | some base, some head => .ok { stdout := String.join (((base ++ head).map Prod.fst).dedup.filterMap
        fun p => if base.lookup p = head.lookup p then none else some (entry base head p)) }
    | _, _ => .ok { stdout := "", stderr := "fatal: ambiguous argument 'HEAD~1..HEAD'\n" }
where
  entry (base head : Tree (List String)) (p : String) : String :=
    let old := (base.lookup p).getD []
    let new := (head.lookup p).getD []
    toString (new.countP (· ∉ old)) ++ "\t" ++ toString (old.countP (· ∉ new)) ++ "\t" ++ p ++ "\n"

theorem lineGit_documented : lineGit.Documented := by
  refine ⟨fun r => ?_⟩
  simp [lineGit]

def engine (limit : String) : String × List String := ("src/engine.py", ["LIMIT = " ++ limit])

def notes : String × List String := ("docs/notes.md", ["limit raised"])

def released : Repository (List String) where
  head := [engine "1", notes]
  parents := [[engine "1"]]
  index := ["src/engine.py", "docs/notes.md"]
  work := [engine "1", notes]

/-- ruff and mypy find nothing; no test has changed. -/
def checks : Verifier.Outcome where
  git := .ok { stdout := "" }
  ruff := .ok { stdout := "[]" }
  mypy := .ok { stdout := "Success: no issues found in 1 source file\n" }
  pytest := .ok { stdout := "" }

def invocation (cycle : Cycle (List String)) : Invocation (List String) where
  cycle := cycle
  cycleExit := 0
  goldenExit := 0
  tools := checks
  log := "[cycle] c-1\nproposal implemented\n"

/-- The cycle commits its change and leaves a clean tree. -/
def committed : Invocation (List String) := invocation {
  start := released
  commits := [[engine "2", notes]]
  index := ["src/engine.py", "docs/notes.md"]
  work := [engine "2", notes] }

/-- The cycle commits nothing; the last revision has the notes only. -/
def uncommitted : Invocation (List String) := invocation {
  start := released
  commits := []
  index := ["src/engine.py", "docs/notes.md"]
  work := [engine "2", notes] }

/-- The cycle commits its change and goes on with the notes. -/
def continued : Invocation (List String) := invocation {
  start := released
  commits := [[engine "2", notes]]
  index := ["src/engine.py", "docs/notes.md"]
  work := [engine "2", ("docs/notes.md", ["limit raised", "again"])] }

theorem changed_engine {p : String} (h : ChangedPython continued.cycle p) : p = "src/engine.py" := by
  obtain ⟨hpython, hne⟩ := h
  by_contra hengine
  by_cases hnotes : p = "docs/notes.md"
  · rw [hnotes] at hpython
    exact absurd hpython (by decide)
  · apply hne
    simp only [continued, invocation, released, engine, notes, List.lookup_cons,
      beq_false_of_ne hengine, beq_false_of_ne hnotes]

end KisAutotrader.RestartGate
