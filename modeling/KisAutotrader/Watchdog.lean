import Mathlib.Data.List.Induction
import KisAutotrader.TumblingWindow

/-!
# The watchdog

`watchdog.sh` runs every five minutes. Within the session of its market it restarts a
service whose cycles stand still, and hands repeated restarts to the automatic repair.
-/
namespace KisAutotrader.Watchdog
open TumblingWindow

/-- The first and the last minute of the day in which the watchdog acts. -/
structure Market where
  marketOpen : ℕ
  marketClose : ℕ

def krx : Market := ⟨9 * 60 + 5, 15 * 60 + 20⟩

def us : Market := ⟨9 * 60 + 5, 15 * 60 + 50⟩

def staleThreshold : ℤ := 300

def restartThreshold : ℕ := 3

def restartWindow : ℤ := 1800

/-- The answer of the health endpoint: the number of cycles where it can be read. -/
inductive Health
  | silent
  | unreadable
  | cycles (count : ℕ)
  deriving DecidableEq, Repr

/-- What one pass of the script finds: the day and minute of the market, the service list
before and after a restart, the health endpoint, the age of the log, the time of its count. -/
structure Pass where
  today : ℕ
  weekday : ℕ
  holiday : Bool
  minute : ℕ
  listed : Bool
  health : Health
  logAge : Option ℤ
  relisted : Bool
  countedAt : ℤ
  deriving DecidableEq, Repr

/-- The files that outlast a pass. -/
structure Files where
  state : Option ℕ := none
  restarts : Option Window := none
  healLock : Option ℕ := none
  deriving DecidableEq, Repr

inductive Action
  | start
  | restart
  | heal
  | skipHeal
  deriving DecidableEq, Repr

def inSession (market : Market) (p : Pass) : Prop :=
  p.weekday < 6 ∧ p.holiday = false ∧ market.marketOpen ≤ p.minute ∧ p.minute ≤ market.marketClose

instance (market : Market) (p : Pass) : Decidable (inSession market p) :=
  inferInstanceAs (Decidable (_ ∧ _))

/-- `trigger_auto_heal`: once a day. -/
def triggerAutoHeal (p : Pass) (files : Files) : Files × List Action :=
  if files.healLock = some p.today then (files, [.skipHeal])
  else ({ files with healLock := some p.today, restarts := none }, [.heal])

/-- `restart_service` with `increment_restart_count`. -/
def restartService (p : Pass) (files : Files) : Files × List Action :=
  let files := if p.relisted then { files with state := none } else files
  let count := tick restartWindow p.countedAt files.restarts
  let files := { files with restarts := some count }
  if count.count ≥ restartThreshold then
    ((triggerAutoHeal p files).1, .restart :: (triggerAutoHeal p files).2)
  else (files, [.restart])

/-- The check of the log, where the health endpoint does not help. -/
def checkLog (p : Pass) (files : Files) : Files × List Action :=
  match p.logAge with
  | none => (files, [])
  | some age => if age > staleThreshold then restartService p files else (files, [])

/-- One pass of the script. -/
def pass (market : Market) (files : Files) (p : Pass) : Files × List Action :=
  if ¬ inSession market p then ({ files with state := none, restarts := none }, [])
  else if p.listed = false then (files, [.start])
  else
    match p.health with
    | .silent => checkLog p files
    | .unreadable => checkLog p files
    | .cycles 0 => restartService p files
    | .cycles (n + 1) =>
      if files.state.getD 0 ≠ 0 ∧ n + 1 = files.state.getD 0 then restartService p files
      else ({ files with state := some (n + 1) }, [])

/-- The actions of a run, each with its pass. -/
def trace (market : Market) : Files → List Pass → List (Pass × Action)
  | _, [] => []
  | files, p::ps => (pass market files p).2.map (p, ·) ++ trace market (pass market files p).1 ps

/-- The files after a run. -/
def filesAfter (market : Market) (files : Files) (ps : List Pass) : Files :=
  ps.foldl (fun files p => (pass market files p).1) files

def restartTimes (actions : List (Pass × Action)) : List ℤ :=
  (actions.filter (·.2 = .restart)).map (·.1.countedAt)

def healDays (actions : List (Pass × Action)) : List ℕ :=
  (actions.filter (·.2 = .heal)).map (·.1.today)

/-- The restart asks for the repair. -/
def asks (p : Pass) (files : Files) : Bool :=
  alarm restartWindow restartThreshold p.countedAt files.restarts

/-- The repair takes place, and clears the count. -/
def mayHeal (p : Pass) (files : Files) : Bool := decide (files.healLock ≠ some p.today)

/-- A pass that restarts counts the restart, and heals where it asks and may. -/
structure Restarts (p : Pass) (files : Files) (result : Files × List Action) : Prop where
  restarts : result.1.restarts =
    after restartWindow restartThreshold p.countedAt (mayHeal p files) files.restarts
  healLock : result.1.healLock = if asks p files then some p.today else files.healLock
  actions : result.2 = .restart ::
    (if asks p files then (if mayHeal p files then [.heal] else [.skipHeal]) else [])

theorem restartService_spec (p : Pass) (files : Files) : Restarts p files (restartService p files) := by
  have hrestarts : (if p.relisted then { files with state := none } else files).restarts =
      files.restarts := by
    cases p.relisted <;> rfl
  have hlock : (if p.relisted then { files with state := none } else files).healLock =
      files.healLock := by
    cases p.relisted <;> rfl
  unfold restartService
  generalize (if p.relisted then { files with state := none } else files) = found at hrestarts hlock ⊢
  by_cases hasks : restartThreshold ≤ (tick restartWindow p.countedAt files.restarts).count
  · have halarm : asks p files = true := decide_eq_true hasks
    by_cases hhealed : files.healLock = some p.today
    · constructor <;>
        simp [hrestarts, hlock, hasks, halarm, hhealed, mayHeal, triggerAutoHeal, after]
    · have hmay : alarm restartWindow restartThreshold p.countedAt files.restarts = true := halarm
      constructor <;>
        simp [hrestarts, hlock, hasks, halarm, hhealed, mayHeal, triggerAutoHeal, after, hmay]
  · have hno : asks p files = false := decide_eq_false hasks
    have hquiet : alarm restartWindow restartThreshold p.countedAt files.restarts = false := hno
    constructor <;> simp [hrestarts, hlock, hasks, hno, after, hquiet]

/-- A pass that does not restart leaves the count and the lock, and a session not counted. -/
structure Waits (files : Files) (result : Files × List Action) : Prop where
  restarts : result.1.restarts = files.restarts
  healLock : result.1.healLock = files.healLock
  actions : ∀ a ∈ result.2, a = .start

theorem waits_refl (files : Files) : Waits files (files, []) := ⟨rfl, rfl, by simp⟩

theorem checkLog_spec (p : Pass) (files : Files) :
    Restarts p files (checkLog p files) ∨ Waits files (checkLog p files) := by
  unfold checkLog
  split
  · exact Or.inr (waits_refl files)
  · split_ifs
    · exact Or.inl (restartService_spec p files)
    · exact Or.inr (waits_refl files)

/-- What a pass can do within the session. -/
theorem pass_inSession {market : Market} {p : Pass} (h : inSession market p) (files : Files) :
    Restarts p files (pass market files p) ∨ Waits files (pass market files p) := by
  unfold pass
  rw [if_neg (not_not_intro h)]
  split_ifs
  · exact Or.inr ⟨rfl, rfl, by simp⟩
  · split
    · exact checkLog_spec p files
    · exact checkLog_spec p files
    · exact Or.inl (restartService_spec p files)
    · split_ifs
      · exact Or.inl (restartService_spec p files)
      · exact Or.inr ⟨rfl, rfl, by simp⟩

theorem pass_closed {market : Market} {p : Pass} (h : ¬ inSession market p) (files : Files) :
    pass market files p = ({ files with state := none, restarts := none }, []) := by
  rw [pass, if_pos h]

section Runs
variable {market : Market}

@[simp] theorem restartTimes_append (xs ys : List (Pass × Action)) :
    restartTimes (xs ++ ys) = restartTimes xs ++ restartTimes ys := by
  simp [restartTimes]

@[simp] theorem healDays_append (xs ys : List (Pass × Action)) :
    healDays (xs ++ ys) = healDays xs ++ healDays ys := by
  simp [healDays]

theorem trace_append (files : Files) (ps qs : List Pass) :
    trace market files (ps ++ qs) =
      trace market files ps ++ trace market (filesAfter market files ps) qs := by
  induction ps generalizing files with
  | nil => rfl
  | cons p ps ih => simp only [List.cons_append, trace, ih, filesAfter, List.foldl_cons, List.append_assoc]

theorem trace_snoc (files : Files) (ps : List Pass) (p : Pass) :
    trace market files (ps ++ [p]) =
      trace market files ps ++ (pass market (filesAfter market files ps) p).2.map (p, ·) := by
  rw [trace_append]
  simp [trace]

theorem filesAfter_snoc (files : Files) (ps : List Pass) (p : Pass) :
    filesAfter market files (ps ++ [p]) = (pass market (filesAfter market files ps) p).1 := by
  simp [filesAfter]

theorem mem_of_mem_trace {files : Files} {ps : List Pass} {x : Pass × Action}
    (h : x ∈ trace market files ps) : x.1 ∈ ps := by
  induction ps generalizing files with
  | nil => simp [trace] at h
  | cons p ps ih =>
    obtain h | h := List.mem_append.mp h
    · obtain ⟨a, -, rfl⟩ := List.mem_map.mp h
      exact List.mem_cons_self
    · exact List.mem_cons_of_mem p (ih h)

theorem restartTimes_le {files : Files} {ps : List Pass} {p : Pass}
    (hle : ∀ q ∈ ps, q.countedAt ≤ p.countedAt) :
    ∀ t ∈ restartTimes (trace market files ps), t ≤ p.countedAt := by
  intro t ht
  obtain ⟨x, hx, rfl⟩ := List.mem_map.mp ht
  exact hle x.1 (mem_of_mem_trace (List.mem_of_mem_filter hx))

/-- What a pass that restarts adds to the restarts and the repairs. -/
theorem Restarts.added {p : Pass} {files : Files} {result : Files × List Action}
    (h : Restarts p files result) : restartTimes (result.2.map (p, ·)) = [p.countedAt] ∧
      healDays (result.2.map (p, ·)) = if asks p files && mayHeal p files then [p.today] else [] := by
  rw [h.actions]
  cases asks p files <;> cases mayHeal p files <;> exact ⟨rfl, rfl⟩

theorem Waits.added {p : Pass} {files : Files} {result : Files × List Action}
    (h : Waits files result) : restartTimes (result.2.map (p, ·)) = [] ∧
      healDays (result.2.map (p, ·)) = [] := by
  constructor
  · simp only [restartTimes, List.map_eq_nil_iff, List.filter_eq_nil_iff, List.mem_map]
    rintro _ ⟨a, ha, rfl⟩
    simp [h.actions a ha]
  · simp only [healDays, List.map_eq_nil_iff, List.filter_eq_nil_iff, List.mem_map]
    rintro _ ⟨a, ha, rfl⟩
    simp [h.actions a ha]

/-- The count file counts restarts that lie within its window. -/
theorem counts_restarts {ps : List Pass} (htimes : ps.Pairwise fun p q => p.countedAt ≤ q.countedAt) :
    Counts restartWindow (filesAfter market {} ps).restarts
      (restartTimes (trace market {} ps)).reverse := by
  induction ps using List.reverseRecOn with
  | nil => exact counts_none _
  | append_singleton ps p ih =>
    obtain ⟨hps, -, hlast⟩ := List.pairwise_append.mp htimes
    have hle : ∀ q ∈ ps, q.countedAt ≤ p.countedAt := fun q hq => hlast q hq p List.mem_cons_self
    rw [trace_snoc, filesAfter_snoc, restartTimes_append]
    by_cases hsession : inSession market p
    · obtain hrestart | hwait := pass_inSession hsession (filesAfter market {} ps)
      · rw [hrestart.restarts, hrestart.added.1, List.reverse_append]
        apply (ih hps).after (by decide)
        intro t ht
        exact restartTimes_le hle t (List.mem_reverse.mp ht)
      · rw [hwait.restarts, hwait.added.1, List.append_nil]
        exact ih hps
    · rw [pass_closed hsession]
      exact counts_none _

/-- The lock holds the last day of a repair. -/
theorem healDays_lock {ps : List Pass} (hdays : ps.Pairwise fun p q => p.today ≤ q.today) :
    (healDays (trace market {} ps)).Pairwise (· < ·) ∧
      ∀ d ∈ healDays (trace market {} ps), ∃ lock, (filesAfter market {} ps).healLock = some lock ∧
        d ≤ lock ∧ ∃ q ∈ ps, lock = q.today := by
  induction ps using List.reverseRecOn with
  | nil => simp [trace, healDays]
  | append_singleton ps p ih =>
    obtain ⟨hps, -, hlast⟩ := List.pairwise_append.mp hdays
    obtain ⟨hgrow, hlock⟩ := ih hps
    have hle : ∀ q ∈ ps, q.today ≤ p.today := fun q hq => hlast q hq p List.mem_cons_self
    -- a pass without repair leaves the lock
    have hstays : ∀ result : Files × List Action,
        result.1.healLock = (filesAfter market {} ps).healLock → healDays (result.2.map (p, ·)) = [] →
        (healDays (trace market {} ps) ++ healDays (result.2.map (p, ·))).Pairwise (· < ·) ∧
          ∀ d ∈ healDays (trace market {} ps) ++ healDays (result.2.map (p, ·)),
            ∃ lock, result.1.healLock = some lock ∧ d ≤ lock ∧ ∃ q ∈ ps ++ [p], lock = q.today := by
      intro result hkept hnone
      rw [hnone, List.append_nil, hkept]
      refine ⟨hgrow, fun d hd => ?_⟩
      obtain ⟨lock, hsome, hdle, q, hq, hday⟩ := hlock d hd
      exact ⟨lock, hsome, hdle, q, List.mem_append_left _ hq, hday⟩
    rw [trace_snoc, filesAfter_snoc, healDays_append]
    by_cases hsession : inSession market p
    · obtain hrestart | hwait := pass_inSession hsession (filesAfter market {} ps)
      · have hadded := hrestart.added.2
        by_cases hasks : asks p (filesAfter market {} ps) = true
        · have hnow : ∀ d ∈ healDays (trace market {} ps), d ≤ p.today := by
            intro d hd
            obtain ⟨lock, -, hdle, q, hq, rfl⟩ := hlock d hd
            exact Nat.le_trans hdle (hle q hq)
          have hnew := hrestart.healLock
          rw [if_pos hasks] at hnew
          rw [hadded, hnew]
          by_cases hmay : mayHeal p (filesAfter market {} ps) = true
          · simp only [hasks, hmay, Bool.and_self, if_true]
            refine ⟨List.pairwise_append.mpr ⟨hgrow, List.pairwise_singleton _ _, ?_⟩, ?_⟩
            · intro d hd e he
              obtain rfl := List.mem_singleton.mp he
              obtain ⟨lock, hsome, hdle, q, hq, rfl⟩ := hlock d hd
              have hother : q.today ≠ p.today := by
                intro heq
                exact of_decide_eq_true hmay (hsome.trans (congrArg some heq))
              have hqle := hle q hq
              omega
            · intro d hd
              refine ⟨p.today, rfl, ?_, p, by simp, rfl⟩
              obtain hd | hd := List.mem_append.mp hd
              · exact hnow d hd
              · exact Nat.le_of_eq (List.mem_singleton.mp hd)
          · simp only [hasks, hmay, Bool.and_false, Bool.false_eq_true, if_false, List.append_nil]
            exact ⟨hgrow, fun d hd => ⟨p.today, rfl, hnow d hd, p, by simp, rfl⟩⟩
        · apply hstays
          · rw [hrestart.healLock, if_neg hasks]
          · rw [hadded]
            simp [hasks]
      · exact hstays _ hwait.healLock hwait.added.2
    · rw [pass_closed hsession]
      exact hstays _ rfl rfl

/-- Within a session the restarts raise the alarms of their windows, and each alarm asks. -/
theorem exists_events {ps : List Pass} (hsession : ∀ p ∈ ps, inSession market p) (files : Files) :
    ∃ es : List (ℤ × Bool), es.map Prod.fst = restartTimes (trace market files ps) ∧
      (true ∈ alarms restartWindow restartThreshold files.restarts es →
        ∃ x ∈ trace market files ps, x.2 = .heal ∨ x.2 = .skipHeal) := by
  induction ps generalizing files with
  | nil => exact ⟨[], rfl, by simp [alarms]⟩
  | cons p ps ih =>
    obtain ⟨es, htimes, hasked⟩ := ih (fun q hq => hsession q (List.mem_cons_of_mem p hq))
      (pass market files p).1
    have hlater : (∃ x ∈ trace market (pass market files p).1 ps, x.2 = .heal ∨ x.2 = .skipHeal) →
        ∃ x ∈ trace market files (p::ps), x.2 = .heal ∨ x.2 = .skipHeal := by
      rintro ⟨x, hx, hrepair⟩
      exact ⟨x, List.mem_append_right _ hx, hrepair⟩
    obtain hrestart | hwait := pass_inSession (hsession p List.mem_cons_self) files
    · refine ⟨(p.countedAt, mayHeal p files)::es, ?_, fun halarm => ?_⟩
      · rw [trace, restartTimes_append, hrestart.added.1, List.map_cons, htimes]
        rfl
      · rw [alarms] at halarm
        obtain hnow | hthen := List.mem_cons.mp halarm
        · have hasks : asks p files = true := hnow.symm
          refine ⟨(p, if mayHeal p files then .heal else .skipHeal), ?_, ?_⟩
          · apply List.mem_append_left
            rw [hrestart.actions, hasks]
            cases mayHeal p files <;> simp
          · cases mayHeal p files <;> simp
        · rw [hrestart.restarts] at hasked
          exact hlater (hasked hthen)
    · refine ⟨es, ?_, fun halarm => ?_⟩
      · rw [trace, restartTimes_append, hwait.added.1, htimes]
        rfl
      · rw [hwait.restarts] at hasked
        exact hlater (hasked halarm)

end Runs

/-- A repair comes from a restart that asks for it. -/
theorem restarts_of_heal {market : Market} {files : Files} {p : Pass}
    (h : .heal ∈ (pass market files p).2) :
    Restarts p files (pass market files p) ∧ asks p files = true := by
  by_cases hsession : inSession market p
  · obtain hrestart | hwait := pass_inSession hsession files
    · refine ⟨hrestart, ?_⟩
      by_contra hno
      rw [hrestart.actions] at h
      simp [hno] at h
    · have hstart := hwait.actions _ h
      cases hstart
  · rw [pass_closed hsession] at h
    cases h

/-- Over every run in which the clock does not go back: the repair takes place once a day at
most; where it does, three restarts lie within the window; and of five restarts of a session
within one window's length, one asks for it. -/
theorem repairs (market : Market) (passes : List Pass)
    (htimes : passes.Pairwise fun p q => p.countedAt ≤ q.countedAt)
    (hdays : passes.Pairwise fun p q => p.today ≤ q.today) :
    (healDays (trace market {} passes)).Pairwise (· < ·) ∧
      (∀ before p after, passes = before ++ p :: after →
        .heal ∈ (pass market (filesAfter market {} before) p).2 →
        ∃ earlier a b, restartTimes (trace market {} (before ++ [p])) = earlier ++ [a, b, p.countedAt] ∧
          p.countedAt - a ≤ restartWindow) ∧
      (∀ before during after low, passes = before ++ during ++ after →
        (∀ p ∈ during, inSession market p) →
        5 ≤ (restartTimes (trace market (filesAfter market {} before) during)).length →
        (∀ t ∈ restartTimes (trace market (filesAfter market {} before) during),
          low ≤ t ∧ t ≤ low + restartWindow) →
        ∃ x ∈ trace market (filesAfter market {} before) during, x.2 = .heal ∨ x.2 = .skipHeal) := by
  refine ⟨(healDays_lock hdays).1, ?_, ?_⟩
  · rintro before p after rfl hheal
    have hbefore := List.pairwise_append.mp htimes
    have hle : ∀ q ∈ before, q.countedAt ≤ p.countedAt :=
      fun q hq => hbefore.2.2 q hq p List.mem_cons_self
    have hcounts : Counts restartWindow (filesAfter market {} before).restarts _ := counts_restarts hbefore.1
    obtain ⟨hrestart, hasks⟩ := restarts_of_heal hheal
    have hlater : ∀ t ∈ (restartTimes (trace market {} before)).reverse, t ≤ p.countedAt :=
      fun t ht => restartTimes_le hle t (List.mem_reverse.mp ht)
    obtain ⟨hmany, hnear⟩ := hcounts.alarm (by decide) hlater hasks
    rw [trace_snoc, restartTimes_append, hrestart.added.1]
    obtain ⟨b, a, rest, hpast⟩ : ∃ b a rest,
        (restartTimes (trace market {} before)).reverse = b::a::rest := by
      match hpast : (restartTimes (trace market {} before)).reverse with
      | [] => simp [hpast, restartThreshold] at hmany
      | [b] => simp [hpast, restartThreshold] at hmany
      | b::a::rest => exact ⟨b, a, rest, rfl⟩
    refine ⟨rest.reverse, a, b, ?_, hnear a (by simp [hpast, restartThreshold])⟩
    rw [← List.reverse_reverse (restartTimes (trace market {} before)), hpast]
    simp
  · intro before during after low hsplit hsession hfive hwithin
    obtain ⟨es, hes, hasked⟩ := exists_events hsession (filesAfter market {} before)
    apply hasked
    rw [← hes] at hfive hwithin
    apply exists_alarm _ (by decide)
    · intro e he
      exact hwithin e.1 (List.mem_map_of_mem he)
    · simpa [restartThreshold] using hfive

section Witness

/-- A pass on a working day that finds no cycle since the start. -/
def idlePass (minute : ℕ) (countedAt : ℤ) : Pass :=
  ⟨20, 3, false, minute, true, .cycles 0, none, true, countedAt⟩

/-- Four restarts, one every five minutes. -/
def idleRun : List Pass := [idlePass 550 0, idlePass 555 300, idlePass 560 600, idlePass 565 900]

theorem repairs_idle :
    (healDays (trace krx {} idleRun)).Pairwise (· < ·) ∧
      (∀ before p after, idleRun = before ++ p :: after →
        .heal ∈ (pass krx (filesAfter krx {} before) p).2 →
        ∃ earlier a b, restartTimes (trace krx {} (before ++ [p])) = earlier ++ [a, b, p.countedAt] ∧
          p.countedAt - a ≤ restartWindow) ∧
      (∀ before during after low, idleRun = before ++ during ++ after →
        (∀ p ∈ during, inSession krx p) →
        5 ≤ (restartTimes (trace krx (filesAfter krx {} before) during)).length →
        (∀ t ∈ restartTimes (trace krx (filesAfter krx {} before) during),
          low ≤ t ∧ t ≤ low + restartWindow) →
        ∃ x ∈ trace krx (filesAfter krx {} before) during, x.2 = .heal ∨ x.2 = .skipHeal) :=
  repairs krx idleRun (by decide) (by decide)

example : healDays (trace krx {} idleRun) = [20] := by decide

/-- A window that ends between them lets three restarts of ten minutes pass. -/
example : healDays (trace krx {} [idlePass 550 0, idlePass 579 1740, idlePass 584 2040,
    idlePass 589 2340]) = [] := by decide

end Witness

end KisAutotrader.Watchdog
