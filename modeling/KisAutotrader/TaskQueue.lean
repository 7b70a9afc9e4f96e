import Mathlib.Data.List.Sort
import Mathlib.Algebra.Order.Ring.Unbundled.Rat
import KisAutotrader.Interleaving

/-!
# The task queue and its workers

A worker is a loop of transactions: it takes a batch, and for each task runs the
handler and marks the task. Between any two of them other workers may act, and
the worker may be cancelled at an await or crash anywhere.
-/
namespace KisAutotrader.TaskQueue

inductive TaskStatus
  | pending
  | running
  | completed
  | failed
  | dead
deriving DecidableEq

/-- A row of `task_queue`. -/
structure TaskRow (π : Type) where
  id : ℕ
  taskType : String
  payload : π
  status : TaskStatus := .pending
  priority : ℤ := 0
  idempotencyKey : Option String := none
  retryCount : ℕ := 0
  maxRetries : ℤ
  scheduledAt : ℚ
  createdAt : ℚ

/-- A row of `trades`, with the task whose handler wrote it. -/
structure TradeRow (π : Type) where
  task : ℕ
  payload : π

/-- What the caller of `enqueue` gives. -/
structure EnqueueArgs (π : Type) where
  taskType : String
  payload : π
  priority : ℤ := 0
  idempotencyKey : Option String := none
  maxRetries : Option ℤ := none
  scheduledAt : Option ℚ := none

structure Settings where
  maxRetries : ℤ
  retryBaseDelay : ℚ
  batchSize : ℕ
  registered : String → Bool

/-- The defaults of the settings, with a handler for every task type. -/
def Settings.defaults : Settings := ⟨5, 60, 10, fun _ => true⟩

/-- A transaction takes effect and returns, or raises without or in spite of its effect. -/
inductive Tx
  | committed
  | rolledBack
  | raisedAfterCommit
deriving DecidableEq

/-- What a worker does next; a batch begins with the task in hand. -/
inductive Phase (π : Type)
  | polling
  | handling (batch : List (TaskRow π))
  | completing (batch : List (TaskRow π))
  | failing (batch : List (TaskRow π))
  /-- the task in hand is done with, the rest of the batch is to come -/
  | notifying (batch : List (TaskRow π))
  | cleaning
  | sleeping
  | stopped

structure Worker (π : Type) where
  phase : Phase π := .polling
  pollCount : ℕ := 0
  running : Bool := true

structure Queue (π : Type) where
  clock : ℚ
  nextId : ℕ := 0
  tasks : List (TaskRow π) := []
  trades : List (TradeRow π) := []
  workers : List (Worker π) := []

variable {π : Type}

def Worker.batch (w : Worker π) : List (TaskRow π) :=
  match w.phase with
  | .handling batch => batch
  | .completing batch => batch
  | .failing batch => batch
  | .notifying batch => batch
  | _ => []

namespace Queue

def put (i : ℕ) (w : Worker π) (q : Queue π) : Queue π := { q with workers := q.workers.set i w }

def update (id : ℕ) (f : TaskRow π → TaskRow π) (q : Queue π) : Queue π :=
  { q with tasks := q.tasks.map fun r => if r.id = id then f r else r }

/-- The effect of a transaction, unless it is rolled back. -/
def transact (tx : Tx) (f : Queue π → Queue π) (q : Queue π) : Queue π :=
  if tx = .rolledBack then q else f q

@[simp] theorem transact_committed (f : Queue π → Queue π) (q : Queue π) :
    q.transact .committed f = f q := rfl

@[simp] theorem transact_rolledBack (f : Queue π → Queue π) (q : Queue π) :
    q.transact .rolledBack f = q := rfl

@[simp] theorem transact_raisedAfterCommit (f : Queue π → Queue π) (q : Queue π) :
    q.transact .raisedAfterCommit f = f q := rfl

end Queue

/-- The key of a task that is in the queue already. -/
def duplicate (key : Option String) (q : Queue π) : Bool :=
  key.isSome && q.tasks.any (·.idempotencyKey = key)

def enqueue (cfg : Settings) (args : EnqueueArgs π) (tx : Tx) (q : Queue π) : Queue π :=
  if duplicate args.idempotencyKey q then q
  else q.transact tx fun q =>
    { q with
      nextId := q.nextId + 1
      tasks := q.tasks ++ [{
        id := q.nextId, taskType := args.taskType, payload := args.payload, priority := args.priority,
        idempotencyKey := args.idempotencyKey, maxRetries := args.maxRetries.getD cfg.maxRetries,
        scheduledAt := args.scheduledAt.getD q.clock, createdAt := q.clock }] }

def TaskRow.selectable (now : ℚ) (r : TaskRow π) : Bool :=
  (r.status = .pending ∨ r.status = .failed) && decide (r.scheduledAt ≤ now) &&
    decide ((r.retryCount : ℤ) < r.maxRetries)

/-- The order of `dequeue`: the higher priority first, then the earlier schedule. -/
def TaskRow.before (r s : TaskRow π) : Prop :=
  s.priority < r.priority ∨ s.priority = r.priority ∧ r.scheduledAt ≤ s.scheduledAt

instance : DecidableRel (TaskRow.before (π := π)) := fun _ _ => inferInstanceAs (Decidable (_ ∨ _))

/-- The rows `dequeue` takes; those locked by another transaction are skipped. -/
def selected (cfg : Settings) (locked : List ℕ) (q : Queue π) : List (TaskRow π) :=
  ((q.tasks.filter fun r => r.selectable q.clock && !locked.contains r.id).insertionSort
    TaskRow.before).take cfg.batchSize

def dequeue (taken : List ℕ) (q : Queue π) : Queue π :=
  { q with tasks := q.tasks.map fun r => if r.id ∈ taken then { r with status := .running } else r }

def markCompleted (id : ℕ) (q : Queue π) : Queue π :=
  q.update id fun r => { r with status := .completed }

/-- `mark_failed` on the row it has read. -/
def TaskRow.failed (cfg : Settings) (now : ℚ) (r : TaskRow π) : TaskRow π :=
  if ((r.retryCount + 1 : ℕ) : ℤ) ≥ r.maxRetries then
    { r with retryCount := r.retryCount + 1, status := .dead }
  else
    { r with retryCount := r.retryCount + 1, status := .failed,
             scheduledAt := now + cfg.retryBaseDelay * 2 ^ r.retryCount }

@[simp] theorem failed_id (cfg : Settings) (now : ℚ) (r : TaskRow π) :
    (r.failed cfg now).id = r.id := by
  unfold TaskRow.failed
  split <;> rfl

@[simp] theorem failed_taskType (cfg : Settings) (now : ℚ) (r : TaskRow π) :
    (r.failed cfg now).taskType = r.taskType := by
  unfold TaskRow.failed
  split <;> rfl

/-- The attempt is counted, and the task is dead or has another one. -/
theorem failed_status (cfg : Settings) (now : ℚ) (r : TaskRow π) :
    (r.failed cfg now).status = .dead ∨ (r.failed cfg now).status = .failed ∧
      (r.failed cfg now).retryCount = r.retryCount + 1 ∧
      (r.failed cfg now).maxRetries = r.maxRetries ∧ ((r.retryCount + 1 : ℕ) : ℤ) < r.maxRetries := by
  unfold TaskRow.failed
  split
  · exact Or.inl rfl
  next hagain => exact Or.inr ⟨rfl, rfl, rfl, not_le.mp hagain⟩

def markFailed (cfg : Settings) (id : ℕ) (q : Queue π) : Queue π :=
  q.update id (TaskRow.failed cfg q.clock)

/-- What `mark_failed` returns. -/
def isDead (id : ℕ) (q : Queue π) : Bool :=
  (q.tasks.find? (·.id = id)).any fun r => decide (((r.retryCount + 1 : ℕ) : ℤ) ≥ r.maxRetries)

def cleanupOldTasks (q : Queue π) : Queue π :=
  { q with tasks := q.tasks.filter fun r =>
      ¬ ((r.status = .completed ∨ r.status = .dead) ∧ r.createdAt < q.clock - 7 * 86400) }

def recordTrade : String := "record_trade"

/-- The transaction of the handler, as far as `trades` is concerned. -/
def execute (t : TaskRow π) (q : Queue π) : Queue π :=
  { q with trades := if t.taskType = recordTrade then q.trades ++ [⟨t.id, t.payload⟩] else q.trades }

namespace Worker

/-- The end of a poll; every hundredth one cleans up. -/
def polled (w : Worker π) : Worker π :=
  { w with
    phase := if (w.pollCount + 1) % 100 = 0 then .cleaning else .sleeping
    pollCount := w.pollCount + 1 }

def process (batch : List (TaskRow π)) (w : Worker π) : Worker π :=
  if batch.isEmpty then w.polled else { w with phase := .handling batch }

@[simp] theorem batch_process (w : Worker π) (batch : List (TaskRow π)) :
    (w.process batch).batch = batch := by
  unfold process
  cases batch with
  | nil =>
    simp only [List.isEmpty_nil, if_true, polled]
    split <;> rfl
  | cons t rest => rfl

/-- The poll is over, with or without an exception. -/
def sleep (w : Worker π) : Worker π := { w with phase := .sleeping }

def stopped (w : Worker π) : Worker π := { w with phase := .stopped }

@[simp] theorem batch_sleep (w : Worker π) : w.sleep.batch = [] := rfl

@[simp] theorem batch_stopped (w : Worker π) : w.stopped.batch = [] := rfl

/-- The worker is suspended at an await. -/
def suspended (w : Worker π) : Bool :=
  match w.phase with
  | .handling _ => true
  | .notifying _ => true
  | .sleeping => true
  | _ => false

end Worker

/-- `mark_failed` on the task in hand; `notify` says whether a dead task is reported. -/
def failTask (cfg : Settings) (i : ℕ) (w : Worker π) (t : TaskRow π) (rest : List (TaskRow π))
    (notify : Bool) (tx : Tx) (q : Queue π) : Queue π :=
  (q.transact tx (markFailed cfg t.id)).put i <|
    if tx = .committed then
      if isDead t.id q && notify then { w with phase := .notifying rest } else w.process rest
    else w.sleep

/-- The next transaction of a worker, or the end of its await. -/
def work (cfg : Settings) (i : ℕ) (w : Worker π) (tx : Tx) (locked : List ℕ) (q : Queue π) : Queue π :=
  match w.phase with
  | .polling =>
      (q.transact tx (dequeue ((selected cfg locked q).map TaskRow.id))).put i <|
        if tx = .committed then w.process (selected cfg locked q) else w.sleep
  | .handling (t::rest) =>
      if cfg.registered t.taskType then
        (q.transact tx (execute t)).put i <|
          if tx = .committed then { w with phase := .completing (t::rest) }
          else { w with phase := .failing (t::rest) }
      else failTask cfg i w t rest false tx q
  | .completing (t::rest) =>
      (q.transact tx (markCompleted t.id)).put i <|
        if tx = .committed then w.process rest else { w with phase := .failing (t::rest) }
  | .failing (t::rest) => failTask cfg i w t rest true tx q
  | .notifying rest => q.put i (w.process rest)
  | .cleaning => (q.transact tx cleanupOldTasks).put i w.sleep
  | .sleeping => q.put i (if w.running then { w with phase := .polling } else w.stopped)
  | _ => q

/-- What can happen: time passes, a caller enqueues, a worker starts, does its next step, is
cancelled at an await, crashes, or is told to stop. -/
inductive Event (π : Type)
  | tick (now : ℚ)
  | enqueue (args : EnqueueArgs π) (tx : Tx)
  | start
  | work (i : ℕ) (tx : Tx) (locked : List ℕ)
  | cancel (i : ℕ)
  | crash (i : ℕ)
  | stop (i : ℕ)

def step (cfg : Settings) (q : Queue π) : Event π → Queue π
  | .tick now => { q with clock := max q.clock now }
  | .enqueue args tx => enqueue cfg args tx q
  | .start => { q with workers := q.workers ++ [{}] }
  | .work i tx locked =>
      match q.workers[i]? with
      | some w => work cfg i w tx locked q
      | none => q
  | .cancel i =>
      match q.workers[i]? with
      | some w => if w.suspended then q.put i w.stopped else q
      | none => q
  | .crash i =>
      match q.workers[i]? with
      | some w => q.put i w.stopped
      | none => q
  | .stop i =>
      match q.workers[i]? with
      | some w => q.put i { w with running := false }
      | none => q

end KisAutotrader.TaskQueue
