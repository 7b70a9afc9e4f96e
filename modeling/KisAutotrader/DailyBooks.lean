import KisAutotrader.MarketDay
import KisAutotrader.TaskQueue

/-!
# The books of a day

After the market has closed the engine reads the day's trades and leaves two tasks, one with its
numbers and one that counts the trades again. Workers run them, perhaps more than once, while they
still record trades, and the scheduler counts on its own.
-/
namespace KisAutotrader.TaskQueue

variable {π ρ : Type} {cfg : Settings} {q : Queue π}

def EnqueueArgs.map (f : π → ρ) (args : EnqueueArgs π) : EnqueueArgs ρ where
  taskType := args.taskType
  payload := f args.payload
  priority := args.priority
  idempotencyKey := args.idempotencyKey
  maxRetries := args.maxRetries
  scheduledAt := args.scheduledAt

def Event.map (f : π → ρ) : Event π → Event ρ
  | .tick now => .tick now
  | .enqueue args tx => .enqueue (args.map f) tx
  | .start => .start
  | .work i tx locked => .work i tx locked
  | .cancel i => .cancel i
  | .crash i => .crash i
  | .stop i => .stop i

/-! ### What a step does to the tasks -/

/-- The tasks of the table and of the batches. -/
def Carried (q : Queue π) (t : TaskRow π) : Prop := t ∈ q.tasks ∨ ∃ w ∈ q.workers, t ∈ w.batch

/-- The row is that of an earlier one, and completed only if that was or its worker completes it. -/
structure Traces (q : Queue π) (w : Worker π) (r : TaskRow π) (s : TaskRow π) : Prop where
  mem : s ∈ q.tasks
  id : s.id = r.id
  payload : s.payload = r.payload
  completed : r.status = .completed → s.status = .completed ∨
    ∃ t rest, w.phase = .completing (t::rest) ∧ s.id = t.id

theorem Traces.self {w : Worker π} {r : TaskRow π} (h : r ∈ q.tasks) : Traces q w r r :=
  ⟨h, rfl, rfl, Or.inl⟩

/-- One worker's step: rows stay the rows they are, a batch is taken from the table, and a task is
completed next only after its handler has committed. -/
structure Worked (cfg : Settings) (q : Queue π) (w : Worker π) (tx : Tx) (tasks : List (TaskRow π))
    (v : Worker π) : Prop where
  rows : ∀ r ∈ tasks, ∃ s, Traces q w r s
  batch : ∀ t ∈ v.batch, t ∈ w.batch ∨ t ∈ q.tasks
  completing : ∀ t rest, v.phase = .completing (t::rest) →
    w.phase = .handling (t::rest) ∧ cfg.registered t.taskType = true ∧ tx = .committed

theorem mem_selected {locked : List ℕ} {t : TaskRow π} (h : t ∈ selected cfg locked q) : t ∈ q.tasks :=
  (List.mem_filter.mp ((List.mem_insertionSort _).mp (List.mem_of_mem_take h))).1

theorem traces_update {w : Worker π} {id : ℕ} {f : TaskRow π → TaskRow π} (hid : ∀ r, (f r).id = r.id)
    (hpayload : ∀ r, (f r).payload = r.payload)
    (hcompleted : ∀ r, r.id = id → (f r).status = .completed → r.status = .completed ∨
      ∃ t rest, w.phase = .completing (t::rest) ∧ r.id = t.id) :
    ∀ r ∈ (q.update id f).tasks, ∃ s, Traces q w r s := by
  intro r hr
  obtain ⟨s, hs, rfl⟩ := List.mem_map.mp hr
  by_cases hsame : s.id = id
  · rw [if_pos hsame]
    exact ⟨s, hs, (hid s).symm, (hpayload s).symm, hcompleted s hsame⟩
  · rw [if_neg hsame]
    exact ⟨s, .self hs⟩

theorem failed_payload (cfg : Settings) (now : ℚ) (r : TaskRow π) :
    (r.failed cfg now).payload = r.payload := by
  unfold TaskRow.failed
  split <;> rfl

theorem failed_not_completed (cfg : Settings) (now : ℚ) (r : TaskRow π) :
    (r.failed cfg now).status ≠ .completed := by
  unfold TaskRow.failed
  split <;> simp

theorem Worked.keep {w v : Worker π} {tx : Tx} (hbatch : ∀ t ∈ v.batch, t ∈ w.batch)
    (hphase : ∀ t rest, v.phase ≠ .completing (t::rest)) : Worked cfg q w tx q.tasks v where
  rows := fun r hr => ⟨r, .self hr⟩
  batch := fun t ht => Or.inl (hbatch t ht)
  completing := fun t rest h => absurd h (hphase t rest)

theorem Worked.sleep {w u : Worker π} {tx : Tx} {tasks : List (TaskRow π)}
    (hrows : ∀ r ∈ tasks, ∃ s, Traces q w r s) : Worked cfg q w tx tasks u.sleep where
  rows := hrows
  batch := by simp
  completing := by simp [Worker.sleep]

theorem Traces.same {w : Worker π} : ∀ r ∈ q.tasks, ∃ s, Traces q w r s := fun r hr => ⟨r, .self hr⟩

theorem process_phase (w : Worker π) (batch : List (TaskRow π)) :
    ∀ t rest, (w.process batch).phase ≠ .completing (t::rest) := by
  intro t rest
  unfold Worker.process Worker.polled
  split
  · dsimp only
    split <;> simp
  · simp

theorem failTask_worked (i : ℕ) {w : Worker π} {t : TaskRow π} {rest : List (TaskRow π)}
    (notify : Bool) (tx : Tx) (hrest : ∀ x ∈ rest, x ∈ w.batch) :
    ∃ tasks v, failTask cfg i w t rest notify tx q = { q with tasks }.put i v ∧
      Worked cfg q w tx tasks v := by
  have hrows : ∀ r ∈ (markFailed cfg t.id q).tasks, ∃ s, Traces q w r s :=
    traces_update (failed_id cfg q.clock) (failed_payload cfg q.clock)
      fun r _ hdone => absurd hdone (failed_not_completed cfg q.clock r)
  unfold failTask
  cases tx with
  | committed =>
    simp only [Queue.transact_committed, if_true]
    refine ⟨_, _, rfl, hrows, ?_, ?_⟩
    · intro x hx
      split at hx
      · exact Or.inl (hrest x hx)
      · rw [Worker.batch_process] at hx
        exact Or.inl (hrest x hx)
    · intro x xs hphase
      split at hphase
      · cases hphase
      · exact absurd hphase (process_phase w rest x xs)
  | rolledBack => exact ⟨_, _, rfl, .sleep Traces.same⟩
  | raisedAfterCommit => exact ⟨_, _, rfl, .sleep hrows⟩

theorem traces_dequeue {w : Worker π} (taken : List ℕ) :
    ∀ r ∈ (dequeue taken q).tasks, ∃ s, Traces q w r s := by
  intro r hr
  obtain ⟨s, hs, rfl⟩ := List.mem_map.mp hr
  by_cases htaken : s.id ∈ taken
  · rw [if_pos htaken]
    exact ⟨s, hs, rfl, rfl, fun hdone => by cases hdone⟩
  · rw [if_neg htaken]
    exact ⟨s, .self hs⟩

/-- The step of one worker, with what it leaves of the rows and of its batch. -/
theorem work_worked {i : ℕ} {w : Worker π} (hw : q.workers[i]? = some w) (tx : Tx) (locked : List ℕ) :
    ∃ tasks trades v, work cfg i w tx locked q = { q with tasks, trades }.put i v ∧
      Worked cfg q w tx tasks v := by
  have hsame : q = { q with tasks := q.tasks, trades := q.trades }.put i w := by
    obtain ⟨hi, hget⟩ := List.getElem?_eq_some_iff.mp hw
    have hset : q.workers.set i w = q.workers := hget ▸ List.set_getElem_self hi
    simp only [Queue.put, hset]
  obtain ⟨phase, pollCount, running⟩ := w
  unfold TaskQueue.work
  cases phase with
  | polling =>
    cases tx with
    | committed =>
      refine ⟨_, _, _, rfl, traces_dequeue _, fun t ht => ?_,
        fun x xs h => absurd h (process_phase _ _ x xs)⟩
      rw [if_pos rfl, Worker.batch_process] at ht
      exact Or.inr (mem_selected ht)
    | rolledBack => exact ⟨_, _, _, rfl, .sleep Traces.same⟩
    | raisedAfterCommit => exact ⟨_, _, _, rfl, .sleep (traces_dequeue _)⟩
  | handling batch =>
    cases batch with
    | nil => exact ⟨_, _, _, hsame, .keep (fun t ht => ht) (by simp)⟩
    | cons t rest =>
      dsimp only
      split
      · rename_i hregistered
        cases tx with
        | committed =>
          refine ⟨_, _, _, rfl, fun r hr => ⟨r, .self hr⟩, fun x hx => Or.inl hx, fun x xs hphase => ?_⟩
          simp only [if_true, Phase.completing.injEq, List.cons.injEq] at hphase
          obtain ⟨rfl, rfl⟩ := hphase
          exact ⟨rfl, hregistered, rfl⟩
        | rolledBack => exact ⟨_, _, _, rfl, .keep (fun x hx => hx) (by simp)⟩
        | raisedAfterCommit => exact ⟨_, _, _, rfl, .keep (fun x hx => hx) (by simp)⟩
      · obtain ⟨tasks, v, heq, hworked⟩ :=
          failTask_worked i (w := ⟨.handling (t::rest), pollCount, running⟩) false tx
            fun x hx => List.mem_cons_of_mem t hx
        exact ⟨tasks, _, v, heq, hworked⟩
  | completing batch =>
    cases batch with
    | nil => exact ⟨_, _, _, hsame, .keep (fun t ht => ht) (by simp)⟩
    | cons t rest =>
      have hrows : ∀ r ∈ (markCompleted t.id q).tasks,
          ∃ s, Traces q ⟨.completing (t::rest), pollCount, running⟩ r s :=
        traces_update (fun _ => rfl) (fun _ => rfl) fun r hid _ => Or.inr ⟨t, rest, rfl, hid⟩
      cases tx with
      | committed =>
        refine ⟨_, _, _, rfl, hrows, fun x hx => ?_, fun x xs h => absurd h (process_phase _ rest x xs)⟩
        rw [if_pos rfl, Worker.batch_process] at hx
        exact Or.inl (List.mem_cons_of_mem t hx)
      | rolledBack => exact ⟨_, _, _, rfl, .keep (fun x hx => hx) (by simp)⟩
      | raisedAfterCommit => exact ⟨_, _, _, rfl, hrows, fun x hx => Or.inl hx, by simp⟩
  | failing batch =>
    cases batch with
    | nil => exact ⟨_, _, _, hsame, .keep (fun t ht => ht) (by simp)⟩
    | cons t rest =>
      obtain ⟨tasks, v, heq, hworked⟩ :=
        failTask_worked i (w := ⟨.failing (t::rest), pollCount, running⟩) true tx
          fun x hx => List.mem_cons_of_mem t hx
      exact ⟨tasks, _, v, heq, hworked⟩
  | notifying batch =>
    refine ⟨_, _, _, rfl, .keep (fun x hx => ?_) (process_phase _ batch)⟩
    rwa [Worker.batch_process] at hx
  | cleaning =>
    have hrows : ∀ r ∈ (cleanupOldTasks q).tasks, ∃ s, Traces q ⟨.cleaning, pollCount, running⟩ r s :=
      fun r hr => ⟨r, .self (List.mem_filter.mp hr).1⟩
    cases tx with
    | rolledBack => exact ⟨_, _, _, rfl, .sleep Traces.same⟩
    | committed => exact ⟨_, _, _, rfl, .sleep hrows⟩
    | raisedAfterCommit => exact ⟨_, _, _, rfl, .sleep hrows⟩
  | sleeping =>
    dsimp only
    split
    · exact ⟨_, _, _, rfl, .keep (by simp [Worker.batch]) (by simp)⟩
    · exact ⟨_, _, _, rfl, .keep (by simp) (by simp [Worker.stopped])⟩
  | stopped => exact ⟨_, _, _, hsame, .keep (fun t ht => ht) (by simp)⟩

/-- A task that a step leaves was there before, or is the new one. -/
def Inherited (q : Queue π) (e : Event π) (nextId : ℕ) (t : TaskRow π) : Prop :=
  (∃ s, Carried q s ∧ s.id = t.id ∧ s.payload = t.payload) ∨
    ∃ args tx, e = .enqueue args tx ∧ t.id = q.nextId ∧ t.payload = args.payload ∧ q.nextId < nextId

/-- What any step does to the tasks. -/
structure Stepped (cfg : Settings) (q : Queue π) (e : Event π) (q' : Queue π) : Prop where
  nextId : q.nextId ≤ q'.nextId
  carried : ∀ t, Carried q' t → Inherited q e q'.nextId t
  completed : ∀ r ∈ q'.tasks, r.status = .completed →
    (∃ s ∈ q.tasks, s.payload = r.payload ∧ s.status = .completed) ∨
      ∃ w ∈ q.workers, ∃ t rest, w.phase = .completing (t::rest) ∧ ∃ s ∈ q.tasks, s.id = t.id ∧ s.payload = r.payload
  completing : ∀ w ∈ q'.workers, ∀ t rest, w.phase = .completing (t::rest) →
    (∃ v ∈ q.workers, v.phase = .completing (t::rest)) ∨
      ∃ i locked v, e = .work i .committed locked ∧ q.workers[i]? = some v ∧ v.phase = .handling (t::rest) ∧
        cfg.registered t.taskType = true

theorem stepped_workers {e : Event π} {q' : Queue π} (htasks : q'.tasks = q.tasks)
    (hnext : q'.nextId = q.nextId)
    (hbatch : ∀ w ∈ q'.workers, ∀ t ∈ w.batch, ∃ v ∈ q.workers, t ∈ v.batch)
    (hphase : ∀ w ∈ q'.workers, ∀ t rest, w.phase = .completing (t::rest) →
      ∃ v ∈ q.workers, v.phase = .completing (t::rest)) : Stepped cfg q e q' where
  nextId := hnext.ge
  carried t ht := by
    refine Or.inl ⟨t, ?_, rfl, rfl⟩
    rcases ht with ht | ⟨w, hw, ht⟩
    · exact Or.inl (htasks ▸ ht)
    · obtain ⟨v, hv, ht⟩ := hbatch w hw t ht
      exact Or.inr ⟨v, hv, ht⟩
  completed r hr hdone := Or.inl ⟨r, htasks ▸ hr, rfl, hdone⟩
  completing w hw t rest h := Or.inl (hphase w hw t rest h)

/-- A step that leaves the tasks and the workers alone. -/
theorem Stepped.frame {e : Event π} {q' : Queue π} (htasks : q'.tasks = q.tasks)
    (hworkers : q'.workers = q.workers) (hnext : q'.nextId = q.nextId) : Stepped cfg q e q' :=
  stepped_workers htasks hnext (fun w hw _ ht => ⟨w, hworkers ▸ hw, ht⟩)
    fun w hw _ _ h => ⟨w, hworkers ▸ hw, h⟩

theorem Stepped.same {e : Event π} : Stepped cfg q e q := .frame rfl rfl rfl

theorem Stepped.put {e : Event π} {i : ℕ} {w v : Worker π} (hw : q.workers[i]? = some w)
    (hbatch : ∀ t ∈ v.batch, t ∈ w.batch) (hphase : ∀ t rest, v.phase = .completing (t::rest) →
      w.phase = .completing (t::rest)) : Stepped cfg q e (q.put i v) := by
  have hmem := List.mem_of_getElem? hw
  refine @stepped_workers _ _ _ _ (q.put i v) rfl rfl ?_ ?_
  · intro u hu t ht
    rcases (List.mem_or_eq_of_mem_set hu).symm with rfl | hu
    · exact ⟨w, hmem, hbatch t ht⟩
    · exact ⟨u, hu, ht⟩
  · intro u hu t rest h
    rcases (List.mem_or_eq_of_mem_set hu).symm with rfl | hu
    · exact ⟨w, hmem, hphase t rest h⟩
    · exact ⟨u, hu, h⟩

theorem stepped_enqueue (args : EnqueueArgs π) (tx : Tx) :
    Stepped cfg q (.enqueue args tx) (step cfg q (.enqueue args tx)) := by
  simp only [step, TaskQueue.enqueue]
  split
  · exact .frame rfl rfl rfl
  · unfold Queue.transact
    split
    · exact .frame rfl rfl rfl
    · refine ⟨Nat.le_succ _, fun t ht => ?_, fun r hr hdone => ?_, fun w hw t rest h => Or.inl ⟨w, hw, h⟩⟩
      · rcases ht with ht | hheld
        · rcases List.mem_append.mp ht with ht | ht
          · exact Or.inl ⟨t, Or.inl ht, rfl, rfl⟩
          · obtain rfl := List.mem_singleton.mp ht
            exact Or.inr ⟨args, tx, rfl, rfl, rfl, Nat.lt_succ_self _⟩
        · exact Or.inl ⟨t, Or.inr hheld, rfl, rfl⟩
      · rcases List.mem_append.mp hr with hr | hr
        · exact Or.inl ⟨r, hr, rfl, hdone⟩
        · obtain rfl := List.mem_singleton.mp hr
          cases hdone

/-- The step of a worker is a step of the queue. -/
theorem Worked.stepped {i : ℕ} {w v : Worker π} {tx : Tx} {tasks : List (TaskRow π)}
    (h : Worked cfg q w tx tasks v) (hw : q.workers[i]? = some w) (locked : List ℕ) (trades : List (TradeRow π)) :
    Stepped cfg q (.work i tx locked) ({ q with tasks, trades }.put i v) := by
  have hmem := List.mem_of_getElem? hw
  refine ⟨le_rfl, fun t ht => Or.inl ?_, fun r hr hdone => ?_, fun u hu t rest hphase => ?_⟩
  · rcases ht with ht | ⟨u, hu, ht⟩
    · obtain ⟨s, hs⟩ := h.rows t ht
      exact ⟨s, Or.inl hs.mem, hs.id, hs.payload⟩
    · rcases (List.mem_or_eq_of_mem_set hu).symm with rfl | hu
      · rcases h.batch t ht with ht | ht
        · exact ⟨t, Or.inr ⟨w, hmem, ht⟩, rfl, rfl⟩
        · exact ⟨t, Or.inl ht, rfl, rfl⟩
      · exact ⟨t, Or.inr ⟨u, hu, ht⟩, rfl, rfl⟩
  · obtain ⟨s, hs⟩ := h.rows r hr
    rcases hs.completed hdone with hbefore | ⟨t, rest, hphase, hid⟩
    · exact Or.inl ⟨s, hs.mem, hs.payload, hbefore⟩
    · exact Or.inr ⟨w, hmem, t, rest, hphase, s, hs.mem, hid, hs.payload⟩
  · rcases (List.mem_or_eq_of_mem_set hu).symm with rfl | hu
    · obtain ⟨hhandling, hregistered, rfl⟩ := h.completing t rest hphase
      exact Or.inr ⟨i, locked, w, rfl, hw, hhandling, hregistered⟩
    · exact Or.inl ⟨u, hu, hphase⟩

theorem step_stepped (cfg : Settings) (q : Queue π) (e : Event π) : Stepped cfg q e (step cfg q e) := by
  cases e with
  | tick now => exact .frame rfl rfl rfl
  | enqueue args tx => exact stepped_enqueue args tx
  | start =>
    refine @stepped_workers _ _ _ _ { q with workers := q.workers ++ [{}] } rfl rfl ?_ ?_
    · intro w hw t ht
      rcases List.mem_append.mp hw with hw | hw
      · exact ⟨w, hw, ht⟩
      · obtain rfl := List.mem_singleton.mp hw
        simp [Worker.batch] at ht
    · intro w hw t rest h
      rcases List.mem_append.mp hw with hw | hw
      · exact ⟨w, hw, h⟩
      · obtain rfl := List.mem_singleton.mp hw
        cases h
  | work i tx locked =>
    simp only [step]
    cases hw : q.workers[i]? with
    | none => exact .same
    | some w =>
      obtain ⟨tasks, trades, v, heq, hworked⟩ := @work_worked _ cfg q i w hw tx locked
      dsimp only
      rw [heq]
      exact hworked.stepped hw locked trades
  | cancel i =>
    simp only [step]
    cases hw : q.workers[i]? with
    | none => exact .same
    | some w =>
      dsimp only
      split
      · exact .put hw (by simp) (by simp [Worker.stopped])
      · exact .same
  | crash i =>
    simp only [step]
    cases hw : q.workers[i]? with
    | none => exact .same
    | some w => exact .put hw (by simp) (by simp [Worker.stopped])
  | stop i =>
    simp only [step]
    cases hw : q.workers[i]? with
    | none => exact .same
    | some w => exact .put hw (fun t ht => ht) fun t rest h => h

/-- The ids of the tasks stay below the next one. -/
theorem Stepped.known {e : Event π} {q' : Queue π} (hstep : Stepped cfg q e q')
    (h : ∀ t, Carried q t → t.id < q.nextId) : ∀ t, Carried q' t → t.id < q'.nextId := by
  intro t ht
  rcases hstep.carried t ht with ⟨r, hr, hid, -⟩ | ⟨args, tx, -, hid, -, hlt⟩
  · rw [← hid]
    exact (h r hr).trans_le hstep.nextId
  · rw [hid]
    exact hlt

/-- Tasks of one id have one payload, since a new one has an id of its own. -/
theorem Stepped.alike {e : Event π} {q' : Queue π} (hstep : Stepped cfg q e q')
    (hknown : ∀ t, Carried q t → t.id < q.nextId)
    (h : ∀ t t', Carried q t → Carried q t' → t.id = t'.id → t.payload = t'.payload) :
    ∀ t t', Carried q' t → Carried q' t' → t.id = t'.id → t.payload = t'.payload := by
  intro t t' ht ht' hid
  rcases hstep.carried t ht with ⟨r, hr, hrid, hsame⟩ | ⟨args, tx, he, htid, hsame, -⟩
  · rcases hstep.carried t' ht' with ⟨r', hr', hrid', hsame'⟩ | ⟨args', tx', -, htid', -, -⟩
    · rw [← hsame, ← hsame']
      exact h r r' hr hr' (hrid.trans (hid.trans hrid'.symm))
    · have hlt := hknown r hr
      omega
  · rcases hstep.carried t' ht' with ⟨r', hr', hrid', hsame'⟩ | ⟨args', tx', he', -, hsame', -⟩
    · have hlt := hknown r' hr'
      omega
    · obtain ⟨rfl, rfl⟩ := Event.enqueue.inj (he.symm.trans he')
      rw [hsame, hsame']

end KisAutotrader.TaskQueue

namespace KisAutotrader.DailyBooks
open Interleaving LocalDay MarketDay OrderedDict TaskQueue

/-- A trade in the details of a performance. -/
structure Detail where
  stockCode : Code
  side : Side
  profitLossAmount : Option ℚ
  deriving DecidableEq

def detail (t : StoredTrade) : Detail where
  stockCode := t.stockCode
  side := t.tradeType
  profitLossAmount := t.profitLossAmount

/-- A row of `daily_performances`. -/
structure DailyPerformance where
  totalProfitLoss : ℚ
  profitRate : ℚ
  executionCount : ℕ
  details : List Detail
  deriving DecidableEq

/-- The payload of a task, as far as its handler writes the books. -/
inductive Payload
  | trade (row : StoredTrade)
  | performance (tradeDate : ℤ) (market : String) (row : DailyPerformance)
  | summary (reportDate : ℤ) (market : String)
  | other

/-- What is enqueued during the day. -/
inductive Request
  | recordTrade (row : StoredTrade)
  | other

def Request.payload : Request → Payload
  | .recordTrade row => .trade row
  | .other => .other

/-- What `post_market` knows: its market, the day and the balance. -/
structure Closing where
  market : String
  today : ℤ
  totalProfitLoss : ℚ
  totalProfitRate : ℚ

/-- The tables, the queue, and what closings have read and not enqueued yet. -/
structure State where
  queue : Queue Payload
  db : Database := {}
  performances : Dict (ℤ × String) DailyPerformance := .empty
  closings : List (ℤ × String × DailyPerformance) := []

inductive Event
  | queue (e : TaskQueue.Event Request)
  | close (c : Closing)
  | enqueuePerformance (i : ℕ) (tx : Tx)
  | enqueueSummary (reportDate : ℤ) (market : String) (tx : Tx)
  /-- `summarize_daily_job`, from the scheduler -/
  | summarizeDaily (reportDate : ℤ) (market : String)
  | screened (row : StoredScreening)
  | measured (row : SystemMetric)

section Model

variable (session : TimeZone) (cfg : TaskQueue.Settings) (isoformat : ℤ → String)

/-- What `_enqueue_daily_performance` writes into its payload. -/
def Closing.performance (c : Closing) (trades : List StoredTrade) : DailyPerformance where
  totalProfitLoss := c.totalProfitLoss
  profitRate := c.totalProfitRate / 100
  executionCount := (getTradesByDate session c.today (some c.market) trades).length
  details := (getTradesByDate session c.today (some c.market) trades).map detail

def performanceTask (tradeDate : ℤ) (market : String) (row : DailyPerformance) : EnqueueArgs Payload where
  taskType := "daily_performance"
  payload := .performance tradeDate market row
  priority := 5
  idempotencyKey := some ("daily_perf_" ++ market ++ "_" ++ isoformat tradeDate)

def summaryTask (reportDate : ℤ) (market : String) : EnqueueArgs Payload where
  taskType := "daily_summary"
  payload := .summary reportDate market
  priority := 1
  idempotencyKey := some ("daily_summary_" ++ market ++ "_" ++ isoformat reportDate)

/-- The handlers. A performance that is there stays; a summary is counted again. -/
def execute (s : State) : Payload → State
  | .trade row => { s with db := { s.db with trades := s.db.trades ++ [row] } }
  | .performance tradeDate market row =>
      if (s.performances.get? (tradeDate, market)).isSome then s
      else { s with performances := s.performances.set (tradeDate, market) row }
  | .summary reportDate market => { s with db := upsertDailySummary session reportDate market s.db }
  | .other => s

/-- The task whose handler the step of a worker runs. -/
def handled (q : Queue Payload) : TaskQueue.Event Payload → Option Payload
  | .work i tx _ =>
      match q.workers[i]? with
      | some ⟨.handling (t::_), _, _⟩ =>
          if cfg.registered t.taskType && tx ≠ .rolledBack then some t.payload else none
      | _ => none
  | _ => none

def onQueue (e : TaskQueue.Event Payload) (s : State) : State :=
  let s' : State := { s with queue := TaskQueue.step cfg s.queue e }
  match handled cfg s.queue e with
  | some payload => execute session s' payload
  | none => s'

def step (s : State) : Event → State
  | .queue e => onQueue session cfg (e.map Request.payload) s
  | .close c => { s with closings := s.closings ++ [(c.today, c.market, c.performance session s.db.trades)] }
  | .enqueuePerformance i tx =>
      match s.closings[i]? with
      | some (tradeDate, market, row) =>
          onQueue session cfg (.enqueue (performanceTask isoformat tradeDate market row) tx) s
      | none => s
  | .enqueueSummary reportDate market tx =>
      onQueue session cfg (.enqueue (summaryTask isoformat reportDate market) tx) s
  | .summarizeDaily reportDate market => { s with db := upsertDailySummary session reportDate market s.db }
  | .screened row => { s with db := { s.db with screeningResults := s.db.screeningResults ++ [row] } }
  | .measured row => { s with db := { s.db with systemMetrics := s.db.systemMetrics ++ [row] } }

end Model

/-! ### The handlers -/

/-- What a handler leaves, once it has committed. -/
def Done (s : State) : Payload → Prop
  | .trade row => row ∈ s.db.trades
  | .performance tradeDate market _ => (s.performances.get? (tradeDate, market)).isSome = true
  | .summary reportDate market => (s.db.dailySummary.get? (reportDate, market)).isSome = true
  | .other => True

/-- Trades and performances stay, and each summary has a row from its first on. -/
structure Grown (s s' : State) : Prop where
  trades : s.db.trades <+: s'.db.trades
  performances : ∀ key row, s.performances.get? key = some row → s'.performances.get? key = some row
  summaries : ∀ key, (s.db.dailySummary.get? key).isSome = true → (s'.db.dailySummary.get? key).isSome = true

theorem Grown.refl (s : State) : Grown s s := ⟨List.prefix_rfl, fun _ _ h => h, fun _ h => h⟩

theorem Grown.trans {s t u : State} (h : Grown s t) (h' : Grown t u) : Grown s u where
  trades := h.trades.trans h'.trades
  performances key row hrow := h'.performances key row (h.performances key row hrow)
  summaries key hkey := h'.summaries key (h.summaries key hkey)

theorem Grown.done {s s' : State} (h : Grown s s') {payload : Payload} (hdone : Done s payload) :
    Done s' payload := by
  cases payload with
  | trade row => exact h.trades.subset hdone
  | performance tradeDate market row =>
    obtain ⟨p, hp⟩ := Option.isSome_iff_exists.mp hdone
    exact Option.isSome_iff_exists.mpr ⟨p, h.performances _ p hp⟩
  | summary reportDate market => exact h.summaries _ hdone
  | other => trivial

section Execute

variable (session : TimeZone) (s : State)

theorem grown_upsert (reportDate : ℤ) (market : String) :
    Grown s { s with db := upsertDailySummary session reportDate market s.db } where
  trades := List.prefix_rfl
  performances _ _ h := h
  summaries key h := by
    simp only [upsertDailySummary, Dict.get?_set]
    split
    · rfl
    · exact h

theorem grown_execute (payload : Payload) : Grown s (execute session s payload) := by
  cases payload with
  | trade row => exact ⟨List.prefix_append _ _, fun _ _ h => h, fun _ h => h⟩
  | performance tradeDate market row =>
    simp only [execute]
    split
    · exact .refl s
    · rename_i hnone
      refine ⟨List.prefix_rfl, fun key p hp => ?_, fun _ h => h⟩
      by_cases hkey : key = (tradeDate, market)
      · subst hkey
        rw [hp] at hnone
        exact absurd rfl hnone
      · exact (Dict.get?_set_ne _ hkey _).trans hp
  | summary reportDate market => exact grown_upsert session s reportDate market
  | other => exact .refl s

theorem done_execute (payload : Payload) : Done (execute session s payload) payload := by
  cases payload with
  | trade row => simp [Done, execute]
  | performance tradeDate market row =>
    simp only [execute, Done]
    split
    · assumption
    · rw [Dict.get?_set_self]
      rfl
  | summary reportDate market => simp [Done, execute, upsertDailySummary, Dict.get?_set_self]
  | other => trivial

@[simp] theorem execute_queue (payload : Payload) : (execute session s payload).queue = s.queue := by
  cases payload <;> simp only [execute]
  split <;> rfl

@[simp] theorem execute_closings (payload : Payload) :
    (execute session s payload).closings = s.closings := by
  cases payload <;> simp only [execute]
  split <;> rfl

theorem performances_execute (payload : Payload) {key : ℤ × String} {row : DailyPerformance}
    (h : (execute session s payload).performances.get? key = some row) :
    s.performances.get? key = some row ∨ payload = .performance key.1 key.2 row := by
  cases payload with
  | performance tradeDate market new =>
    simp only [execute] at h
    split at h
    · exact Or.inl h
    · by_cases hkey : key = (tradeDate, market)
      · subst hkey
        obtain rfl := Option.some.inj ((Dict.get?_set_self _ _ _).symm.trans h)
        exact Or.inr rfl
      · exact Or.inl ((Dict.get?_set_ne _ hkey _).symm.trans h)
  | trade row => exact Or.inl h
  | summary reportDate market => exact Or.inl h
  | other => exact Or.inl h

theorem summaries_upsert (reportDate : ℤ) (market : String) {key : ℤ × String} {row : DailySummary}
    (h : (upsertDailySummary session reportDate market s.db).dailySummary.get? key = some row) :
    s.db.dailySummary.get? key = some row ∨ row = summarize session key.1 key.2 s.db := by
  by_cases hkey : key = (reportDate, market)
  · subst hkey
    exact Or.inr (Option.some.inj ((Dict.get?_set_self _ _ _).symm.trans h)).symm
  · exact Or.inl ((Dict.get?_set_ne _ hkey _).symm.trans h)

theorem summaries_execute (payload : Payload) {key : ℤ × String} {row : DailySummary}
    (h : (execute session s payload).db.dailySummary.get? key = some row) :
    s.db.dailySummary.get? key = some row ∨ row = summarize session key.1 key.2 s.db := by
  cases payload with
  | summary reportDate market => exact summaries_upsert session s reportDate market h
  | trade row => exact Or.inl h
  | performance tradeDate market new =>
    simp only [execute] at h
    split at h <;> exact Or.inl h
  | other => exact Or.inl h

end Execute

/-! ### Runs -/

section Runs

variable (session : TimeZone) (cfg : TaskQueue.Settings) (isoformat : ℤ → String) (now : ℚ)

/-- The tables and the queue after the events, from empty ones. -/
def books (es : List Event) : State := run (step session cfg isoformat) { queue := { clock := now } } es

/-- The numbers are those of a closing of that day and market, from the trades of that time. -/
def Closed (es : List Event) (day : ℤ) (market : String) (row : DailyPerformance) : Prop :=
  ∃ before c after, es = before ++ .close c :: after ∧ c.today = day ∧ c.market = market ∧
    row = c.performance session (books session cfg isoformat now before).db.trades

/-- The summary was counted from the tables of some earlier time. -/
def Counted (es : List Event) (day : ℤ) (market : String) (row : DailySummary) : Prop :=
  ∃ before e after, es = before ++ e :: after ∧
    row = summarize session day market (books session cfg isoformat now before).db

structure Kept (es : List Event) (s : State) : Prop where
  closings : ∀ x ∈ s.closings, Closed session cfg isoformat now es x.1 x.2.1 x.2.2
  carried : ∀ t, Carried s.queue t → ∀ day market row, t.payload = .performance day market row →
    Closed session cfg isoformat now es day market row
  performances : ∀ day market row, s.performances.get? (day, market) = some row →
    Closed session cfg isoformat now es day market row
  summaries : ∀ day market row, s.db.dailySummary.get? (day, market) = some row →
    Counted session cfg isoformat now es day market row
  known : ∀ t, Carried s.queue t → t.id < s.queue.nextId
  alike : ∀ t t', Carried s.queue t → Carried s.queue t' → t.id = t'.id → t.payload = t'.payload
  completing : ∀ w ∈ s.queue.workers, ∀ t rest, w.phase = .completing (t::rest) → Done s t.payload
  completed : ∀ r ∈ s.queue.tasks, r.status = .completed → Done s r.payload

variable {session cfg isoformat now}

theorem Closed.snoc {es : List Event} {day : ℤ} {market : String} {row : DailyPerformance} (e : Event)
    (h : Closed session cfg isoformat now es day market row) :
    Closed session cfg isoformat now (es ++ [e]) day market row := by
  obtain ⟨before, c, after, rfl, hday, hmarket, hrow⟩ := h
  exact ⟨before, c, after ++ [e], by simp, hday, hmarket, hrow⟩

theorem Counted.snoc {es : List Event} {day : ℤ} {market : String} {row : DailySummary} (e : Event)
    (h : Counted session cfg isoformat now es day market row) :
    Counted session cfg isoformat now (es ++ [e]) day market row := by
  obtain ⟨before, f, after, rfl, hrow⟩ := h
  exact ⟨before, f, after ++ [e], by simp, hrow⟩

theorem kept_start : Kept session cfg isoformat now [] { queue := { clock := now } } where
  closings x hx := by simp at hx
  carried t ht := by simp [Carried] at ht
  performances day market row h := by cases h
  summaries day market row h := by cases h
  known t ht := by simp [Carried] at ht
  alike t t' ht := by simp [Carried] at ht
  completing w hw := by simp at hw
  completed r hr := by simp at hr

theorem grown_onQueue (e : TaskQueue.Event Payload) (s : State) : Grown s (onQueue session cfg e s) := by
  have hqueue : Grown s { s with queue := TaskQueue.step cfg s.queue e } :=
    ⟨List.prefix_rfl, fun _ _ h => h, fun _ h => h⟩
  unfold onQueue
  cases handled cfg s.queue e with
  | none => exact hqueue
  | some payload => exact hqueue.trans (grown_execute session _ payload)

theorem grown_step (s : State) (e : Event) : Grown s (step session cfg isoformat s e) := by
  have hsame : ∀ s' : State, s'.db.trades = s.db.trades → s'.performances = s.performances →
      s'.db.dailySummary = s.db.dailySummary → Grown s s' := by
    intro s' htrades hperformances hsummaries
    exact ⟨by rw [htrades], by rw [hperformances]; exact fun _ _ h => h,
      by rw [hsummaries]; exact fun _ h => h⟩
  cases e with
  | queue e => exact grown_onQueue _ s
  | close c => exact hsame _ rfl rfl rfl
  | enqueuePerformance i tx =>
    simp only [step]
    split
    · exact grown_onQueue _ s
    · exact .refl s
  | enqueueSummary reportDate market tx =>
    simp only [step]
    exact grown_onQueue _ s
  | summarizeDaily reportDate market => exact grown_upsert session s reportDate market
  | screened row => exact hsame _ rfl rfl rfl
  | measured row => exact hsame _ rfl rfl rfl

theorem grown_run (s : State) (es : List Event) : Grown s (run (step session cfg isoformat) s es) := by
  induction es generalizing s with
  | nil => exact .refl s
  | cons e es ih => exact (grown_step s e).trans (ih _)

/-- The handler that a step ran has left its row. -/
theorem done_handled {e : TaskQueue.Event Payload} {s : State} {payload : Payload}
    (h : handled cfg s.queue e = some payload) : Done (onQueue session cfg e s) payload := by
  simp only [onQueue, h]
  exact done_execute session _ payload

theorem onQueue_queue (e : TaskQueue.Event Payload) (s : State) :
    (onQueue session cfg e s).queue = TaskQueue.step cfg s.queue e := by
  unfold onQueue
  cases handled cfg s.queue e <;> simp

theorem onQueue_closings (e : TaskQueue.Event Payload) (s : State) :
    (onQueue session cfg e s).closings = s.closings := by
  unfold onQueue
  cases handled cfg s.queue e <;> simp

theorem performances_onQueue {e : TaskQueue.Event Payload} {s : State} {key : ℤ × String}
    {row : DailyPerformance} (h : (onQueue session cfg e s).performances.get? key = some row) :
    s.performances.get? key = some row ∨ handled cfg s.queue e = some (.performance key.1 key.2 row) := by
  unfold onQueue at h
  cases hhandled : handled cfg s.queue e with
  | none =>
    rw [hhandled] at h
    exact Or.inl h
  | some payload =>
    rw [hhandled] at h
    rcases performances_execute session _ payload h with hold | rfl
    · exact Or.inl hold
    · exact Or.inr rfl

theorem summaries_onQueue {e : TaskQueue.Event Payload} {s : State} {key : ℤ × String} {row : DailySummary}
    (h : (onQueue session cfg e s).db.dailySummary.get? key = some row) :
    s.db.dailySummary.get? key = some row ∨ row = summarize session key.1 key.2 s.db := by
  unfold onQueue at h
  cases hhandled : handled cfg s.queue e with
  | none =>
    rw [hhandled] at h
    exact Or.inl h
  | some payload =>
    rw [hhandled] at h
    exact summaries_execute session { s with queue := TaskQueue.step cfg s.queue e } payload h

theorem handled_carried {e : TaskQueue.Event Payload} {q : Queue Payload} {payload : Payload}
    (h : handled cfg q e = some payload) : ∃ t, Carried q t ∧ t.payload = payload := by
  unfold handled at h
  split at h
  · split at h
    · rename_i t rest pollCount running hw
      split at h
      · obtain rfl := Option.some.inj h
        exact ⟨t, Or.inr ⟨_, List.mem_of_getElem? hw, List.mem_cons_self⟩, rfl⟩
      · cases h
    · cases h
  · cases h

/-- A step of the queue, the engine's own tasks among them. -/
theorem Kept.onQueue {es : List Event} {s : State} (h : Kept session cfg isoformat now es s)
    (hs : s = books session cfg isoformat now es) (E : Event) (e : TaskQueue.Event Payload)
    (hnew : ∀ args tx, e = .enqueue args tx → ∀ day market row, args.payload = .performance day market row →
      Closed session cfg isoformat now (es ++ [E]) day market row) :
    Kept session cfg isoformat now (es ++ [E]) (onQueue session cfg e s) := by
  have hstep := step_stepped cfg s.queue e
  have hqueue : (DailyBooks.onQueue session cfg e s).queue = TaskQueue.step cfg s.queue e :=
    onQueue_queue e s
  rw [← hqueue] at hstep
  have hgrown : Grown s (DailyBooks.onQueue session cfg e s) := grown_onQueue e s
  constructor
  · intro x hx
    rw [onQueue_closings] at hx
    exact (h.closings x hx).snoc E
  · intro t ht day market row hpayload
    rcases hstep.carried t ht with ⟨r, hr, -, hsame⟩ | ⟨args, tx, he, -, hsame, -⟩
    · exact (h.carried r hr day market row (hsame.trans hpayload)).snoc E
    · exact hnew args tx he day market row (hsame.symm.trans hpayload)
  · intro day market row hrow
    rcases performances_onQueue hrow with hold | hhandled
    · exact (h.performances day market row hold).snoc E
    · obtain ⟨t, ht, hpayload⟩ := handled_carried hhandled
      exact (h.carried t ht day market row hpayload).snoc E
  · intro day market row hrow
    rcases summaries_onQueue hrow with hold | rfl
    · exact (h.summaries day market row hold).snoc E
    · exact ⟨es, E, [], rfl, by rw [hs]⟩
  · exact hstep.known h.known
  · exact hstep.alike h.known h.alike
  · intro w hw t rest hphase
    rcases hstep.completing w hw t rest hphase with
      ⟨v, hv, hvphase⟩ | ⟨i, locked, v, rfl, hv, hvphase, hregistered⟩
    · exact hgrown.done (h.completing v hv t rest hvphase)
    · apply done_handled
      obtain ⟨phase, pollCount, running⟩ := v
      obtain rfl := hvphase
      simp [handled, hv, hregistered]
  · intro r hr hdone
    rcases hstep.completed r hr hdone with
      ⟨x, hx, hsame, hstatus⟩ | ⟨w, hw, t, rest, hphase, x, hx, hid, hsame⟩
    · rw [← hsame]
      exact hgrown.done (h.completed x hx hstatus)
    · have hbatch : t ∈ w.batch := by simp [Worker.batch, hphase]
      have hpayload := h.alike x t (Or.inl hx) (Or.inr ⟨w, hw, hbatch⟩) hid
      rw [← hsame, hpayload]
      exact hgrown.done (h.completing w hw t rest hphase)

/-- A step that leaves the queue alone. -/
theorem Kept.onTables {es : List Event} {s s' : State} (h : Kept session cfg isoformat now es s) (E : Event)
    (hgrown : Grown s s') (hqueue : s'.queue = s.queue)
    (hclosings : ∀ x ∈ s'.closings, x ∈ s.closings ∨
      Closed session cfg isoformat now (es ++ [E]) x.1 x.2.1 x.2.2)
    (hperformances : s'.performances = s.performances)
    (hsummaries : ∀ day market row, s'.db.dailySummary.get? (day, market) = some row →
      s.db.dailySummary.get? (day, market) = some row ∨
        Counted session cfg isoformat now (es ++ [E]) day market row) :
    Kept session cfg isoformat now (es ++ [E]) s' := by
  constructor
  · intro x hx
    exact (hclosings x hx).elim (fun hx => (h.closings x hx).snoc E) id
  · rw [hqueue]
    exact fun t ht day market row hpayload => (h.carried t ht day market row hpayload).snoc E
  · rw [hperformances]
    exact fun day market row hrow => (h.performances day market row hrow).snoc E
  · intro day market row hrow
    exact (hsummaries day market row hrow).elim (fun hold => (h.summaries day market row hold).snoc E) id
  · rw [hqueue]
    exact h.known
  · rw [hqueue]
    exact h.alike
  · rw [hqueue]
    exact fun w hw t rest hphase => hgrown.done (h.completing w hw t rest hphase)
  · rw [hqueue]
    exact fun r hr hdone => hgrown.done (h.completed r hr hdone)

theorem Kept.step {es : List Event} {s : State} (h : Kept session cfg isoformat now es s)
    (hs : s = books session cfg isoformat now es) (e : Event) :
    Kept session cfg isoformat now (es ++ [e]) (step session cfg isoformat s e) := by
  have hgrown : Grown s (DailyBooks.step session cfg isoformat s e) := grown_step s e
  cases e with
  | queue e =>
    apply h.onQueue hs
    intro args tx he day market row hpayload
    cases e with
    | enqueue request tx' =>
      obtain ⟨rfl, rfl⟩ := Event.enqueue.inj he
      simp only [EnqueueArgs.map] at hpayload
      cases hrequest : request.payload <;> rw [hrequest] at hpayload <;> cases hpayload
    | tick _ | start | work _ _ _ | cancel _ | crash _ | stop _ => cases he
  | close c =>
    apply h.onTables _ hgrown rfl _ rfl fun day market row hrow => Or.inl hrow
    intro x hx
    rcases List.mem_append.mp hx with hx | hx
    · exact Or.inl hx
    · obtain rfl := List.mem_singleton.mp hx
      exact Or.inr ⟨es, c, [], rfl, rfl, rfl, by rw [hs]⟩
  | enqueuePerformance i tx =>
    simp only [DailyBooks.step]
    cases hx : s.closings[i]? with
    | none =>
      exact h.onTables _ (.refl s) rfl (fun x hx => Or.inl hx) rfl fun day market row hrow => Or.inl hrow
    | some x =>
      apply h.onQueue hs
      intro args tx' he day market row hpayload
      obtain ⟨rfl, rfl⟩ := Event.enqueue.inj he
      obtain ⟨rfl, rfl, rfl⟩ := Payload.performance.inj hpayload
      exact (h.closings x (List.mem_of_getElem? hx)).snoc _
  | enqueueSummary reportDate market tx =>
    simp only [DailyBooks.step]
    apply h.onQueue hs
    intro args tx' he day market' row hpayload
    obtain ⟨rfl, rfl⟩ := Event.enqueue.inj he
    cases hpayload
  | summarizeDaily reportDate market =>
    apply h.onTables _ hgrown rfl (fun x hx => Or.inl hx) rfl
    intro day market' row hrow
    refine (summaries_upsert session s reportDate market hrow).imp_right ?_
    rintro rfl
    exact ⟨es, _, [], rfl, by rw [hs]⟩
  | screened row =>
    exact h.onTables _ hgrown rfl (fun x hx => Or.inl hx) rfl fun day market row hrow => Or.inl hrow
  | measured row =>
    exact h.onTables _ hgrown rfl (fun x hx => Or.inl hx) rfl fun day market row hrow => Or.inl hrow

theorem books_append (es later : List Event) : books session cfg isoformat now (es ++ later) =
    run (step session cfg isoformat) (books session cfg isoformat now es) later :=
  run_append _ _ _

theorem kept_books (es : List Event) :
    Kept session cfg isoformat now es (books session cfg isoformat now es) := by
  induction es using List.reverseRecOn with
  | nil => exact kept_start
  | append_singleton es e ih =>
    rw [books_append]
    exact ih.step rfl e

/-! ### The two books of a day -/

/-- The trades of the day and market that the table holds. -/
def tradesOf (session : TimeZone) (day : ℤ) (market : String) (s : State) : List StoredTrade :=
  s.db.trades.filter fun t => inNaiveDay session day t.tradedAt && (t.market = market)

theorem getTradesByDate_perm_tradesOf (day : ℤ) (market : String) (s : State) :
    (getTradesByDate session day (some market) s.db.trades).Perm (tradesOf session day market s) := by
  simp only [getTradesByDate, tradesOf, Option.all_some]
  exact List.perm_insertionSort _ _

/-- What a row lists is a beginning of the trades that are there later. -/
theorem tradesOf_prefix (before after : List Event) (day : ℤ) (market : String) :
    tradesOf session day market (books session cfg isoformat now before) <+:
      tradesOf session day market (books session cfg isoformat now (before ++ after)) := by
  have hgrown : Grown (books session cfg isoformat now before)
      (run (step session cfg isoformat) (books session cfg isoformat now before) after) := grown_run _ after
  rw [books_append]
  exact hgrown.trades.filter _

theorem Closed.beginning {es : List Event} {day : ℤ} {market : String} {row : DailyPerformance}
    (h : Closed session cfg isoformat now es day market row) :
    ∃ trades, trades <+: tradesOf session day market (books session cfg isoformat now es) ∧
      row.executionCount = trades.length ∧ row.details.Perm (trades.map detail) := by
  obtain ⟨before, c, after, rfl, rfl, rfl, rfl⟩ := h
  have hperm : (getTradesByDate session c.today (some c.market)
      (books session cfg isoformat now before).db.trades).Perm
      (tradesOf session c.today c.market (books session cfg isoformat now before)) :=
    getTradesByDate_perm_tradesOf _ _ _
  exact ⟨_, tradesOf_prefix before _ c.today c.market, hperm.length_eq, hperm.map detail⟩

theorem Counted.beginning {es : List Event} {day : ℤ} {market : String} {row : DailySummary}
    (h : Counted session cfg isoformat now es day market row) :
    ∃ trades, trades <+: tradesOf session day market (books session cfg isoformat now es) ∧
      row.toTradeCounts = countTrades trades := by
  obtain ⟨before, e, after, rfl, rfl⟩ := h
  exact ⟨_, tradesOf_prefix before _ day market, rfl⟩

theorem countTrades_length (trades : List StoredTrade) :
    (countTrades trades).totalBuyCount + (countTrades trades).totalSellCount = trades.length := by
  rw [List.length_eq_countP_add_countP (fun t : StoredTrade => decide (t.tradeType = .buy))]
  congr 1
  apply List.countP_congr
  intro t _
  cases t.tradeType <;> decide

/-- Two beginnings of one length are the same. -/
theorem beginning_unique {α : Type} {a b l : List α} (ha : a <+: l) (hb : b <+: l)
    (h : a.length = b.length) : a = b :=
  (List.prefix_of_prefix_length_le ha hb h.le).eq_of_length h

variable (session cfg isoformat now) in
/-- What the two rows of a day say of its trades. -/
structure RowsLaw (es : List Event) (day : ℤ) (market : String) : Prop where
  performance : ∀ row, (books session cfg isoformat now es).performances.get? (day, market) = some row →
    Closed session cfg isoformat now es day market row ∧
    ∀ later, (books session cfg isoformat now (es ++ later)).performances.get? (day, market) = some row
  summary : ∀ row, (books session cfg isoformat now es).db.dailySummary.get? (day, market) = some row →
    Counted session cfg isoformat now es day market row
  listed : ∀ row, (books session cfg isoformat now es).performances.get? (day, market) = some row →
    row.executionCount ≤ (tradesOf session day market (books session cfg isoformat now es)).length ∧
    (row.executionCount = (tradesOf session day market (books session cfg isoformat now es)).length ↔
      row.details.Perm ((tradesOf session day market (books session cfg isoformat now es)).map detail))
  counted : ∀ row, (books session cfg isoformat now es).db.dailySummary.get? (day, market) = some row →
    row.totalBuyCount + row.totalSellCount ≤
      (tradesOf session day market (books session cfg isoformat now es)).length ∧
    (row.totalBuyCount + row.totalSellCount =
        (tradesOf session day market (books session cfg isoformat now es)).length ↔
      row.toTradeCounts = countTrades (tradesOf session day market (books session cfg isoformat now es)))
  agree : ∀ p r, (books session cfg isoformat now es).performances.get? (day, market) = some p →
    (books session cfg isoformat now es).db.dailySummary.get? (day, market) = some r →
    p.executionCount = r.totalBuyCount + r.totalSellCount →
    ∃ trades, trades <+: tradesOf session day market (books session cfg isoformat now es) ∧
      p.details.Perm (trades.map detail) ∧ r.toTradeCounts = countTrades trades

end Runs

end KisAutotrader.DailyBooks
