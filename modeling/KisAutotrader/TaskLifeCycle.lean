import Mathlib.Data.List.Count
import KisAutotrader.History
import KisAutotrader.TaskQueue

/-!
# The life cycle of a task

What is enqueued, taken, run, failed and settled is noted beside the queue. Whoever works on
the queue, in whatever order, the rows and the notes agree as long as no task that is settled is
marked again.
-/
namespace KisAutotrader.TaskQueue.TaskLifeCycle
open Interleaving History

variable {π : Type}

/-! ### The operations -/

/-- What is noted of a task: its insertion, the transactions that take or mark it, and the runs of
its handler. It is settled when it becomes completed or dead. -/
inductive Entry
  | enqueued (id : ℕ) (maxRetries : ℤ)
  | taken (id : ℕ)
  | ran (id : ℕ)
  | failed (id : ℕ) (now : ℚ)
  | settled (id : ℕ)
deriving DecidableEq

/-- The queue, the `enqueue` calls between their lookup and their insert, and the notes. -/
structure State (π : Type) where
  queue : Queue π
  checked : List (EnqueueArgs π) := []
  log : List Entry := []

/-- What happens to the queue: an event of its workers, one of the two halves of an `enqueue`, or an
operation of the service called on its own. -/
inductive Op (π : Type)
  | event (e : Event π)
  | check (args : EnqueueArgs π)
  | insert (i : ℕ) (tx : Tx)
  | markCompleted (id : ℕ) (tx : Tx)
  | markFailed (id : ℕ) (tx : Tx)
  | cleanup (days : ℚ) (tx : Tx)

/-- The arguments with their defaults, which are read when the call begins. -/
def resolve (cfg : Settings) (now : ℚ) (args : EnqueueArgs π) : EnqueueArgs π :=
  { args with
    maxRetries := some (args.maxRetries.getD cfg.maxRetries)
    scheduledAt := some (args.scheduledAt.getD now) }

/-- The lookup of `enqueue`; an empty key is not looked up. -/
def lookedUp (key : Option String) (q : Queue π) : Bool := duplicate (key.filter (· ≠ "")) q

def cleanupBefore (days : ℚ) (q : Queue π) : Queue π :=
  { q with tasks := q.tasks.filter fun r =>
      ¬ ((r.status = .completed ∨ r.status = .dead) ∧ r.createdAt < q.clock - days * 86400) }

section Notes
variable (cfg : Settings)

/-- The notes of a transaction, unless it is rolled back. -/
def effect (tx : Tx) (entries : List Entry) : List Entry :=
  if tx = .rolledBack then [] else entries

def failNotes (id : ℕ) (q : Queue π) : List Entry :=
  match q.tasks.find? (·.id = id) with
  | none => []
  | some r => .failed id q.clock ::
      if (r.failed cfg q.clock).status = .dead then [.settled id] else []

def settleNotes (id : ℕ) (q : Queue π) : List Entry :=
  match q.tasks.find? (·.id = id) with
  | none => []
  | some _ => [.settled id]

def enqueueNotes (args : EnqueueArgs π) (tx : Tx) (q : Queue π) : List Entry :=
  if duplicate args.idempotencyKey q then []
  else effect tx [.enqueued q.nextId (args.maxRetries.getD cfg.maxRetries)]

def workNotes (w : Worker π) (tx : Tx) (locked : List ℕ) (q : Queue π) : List Entry :=
  match w.phase with
  | .polling => effect tx ((selected cfg locked q).map fun t => .taken t.id)
  | .handling (t::_) =>
      if cfg.registered t.taskType then [.ran t.id] else effect tx (failNotes cfg t.id q)
  | .completing (t::_) => effect tx (settleNotes t.id q)
  | .failing (t::_) => effect tx (failNotes cfg t.id q)
  | _ => []

def eventNotes (q : Queue π) : Event π → List Entry
  | .enqueue args tx => enqueueNotes cfg args tx q
  | .work i tx locked =>
      match q.workers[i]? with
      | some w => workNotes cfg w tx locked q
      | none => []
  | _ => []

def step (s : State π) : Op π → State π
  | .event e => { s with
      queue := TaskQueue.step cfg s.queue e
      log := s.log ++ eventNotes cfg s.queue e }
  | .check args =>
      if lookedUp args.idempotencyKey s.queue then s
      else { s with checked := s.checked ++ [resolve cfg s.queue.clock args] }
  | .insert i tx =>
      match s.checked[i]? with
      | none => s
      -- the unique column rejects a key that has come in since the lookup
      | some args => { s with
          queue := enqueue cfg args tx s.queue
          checked := s.checked.eraseIdx i
          log := s.log ++ enqueueNotes cfg args tx s.queue }
  | .markCompleted id tx => { s with
      queue := s.queue.transact tx (markCompleted id)
      log := s.log ++ effect tx (settleNotes id s.queue) }
  | .markFailed id tx => { s with
      queue := s.queue.transact tx (markFailed cfg id)
      log := s.log ++ effect tx (failNotes cfg id s.queue) }
  | .cleanup days tx => { s with queue := s.queue.transact tx (cleanupBefore days) }

end Notes

/-! ### The life cycle -/

def takes (id : ℕ) (log : List Entry) : ℕ := log.count (.taken id)

def runs (id : ℕ) (log : List Entry) : ℕ := log.count (.ran id)

/-- The times at which the task failed. -/
def failures (id : ℕ) (log : List Entry) : List ℚ :=
  log.filterMap fun entry => match entry with
    | .failed j now => if j = id then some now else none
    | _ => none

/-- A task is not taken once it has been settled. -/
def Unsettled (before : List Entry) (entry : Entry) : Prop :=
  ∀ id, entry = .taken id → .settled id ∉ before

structure LifeCycle (cfg : Settings) (s : State π) : Prop where
  bounded : ∀ r ∈ s.queue.tasks, 1 ≤ r.maxRetries → 0 ≤ r.retryCount ∧ r.retryCount ≤ r.maxRetries
  waiting : ∀ r ∈ s.queue.tasks, 1 ≤ r.maxRetries → r.status = .pending ∨ r.status = .failed →
    r.retryCount < r.maxRetries
  dead : ∀ r ∈ s.queue.tasks, 1 ≤ r.maxRetries → (r.status = .dead ↔ r.retryCount = r.maxRetries)
  settled : EachAfter Unsettled s.log
  handled : ∀ (id : ℕ) (max : ℤ), .enqueued id max ∈ s.log → 1 ≤ max → (runs id s.log : ℤ) ≤ max
  postponed : ∀ r ∈ s.queue.tasks, r.status = .failed →
    (failures r.id s.log).length = r.retryCount ∧ ∃ now ∈ (failures r.id s.log).getLast?,
      r.scheduledAt = now + cfg.retryBaseDelay * 2 ^ ((failures r.id s.log).length - 1)
  keys : ∀ key : String, (s.queue.tasks.filter (·.idempotencyKey = some key)).length ≤ 1

/-- `mark_failed` may take effect on the row: it is neither dead, nor completed with an attempt
left. -/
def Markable (r : TaskRow π) : Prop := 1 ≤ r.maxRetries →
  r.status ≠ .dead ∧ (r.status = .completed → r.maxRetries ≤ r.retryCount + 1)

/-- `mark_failed` takes effect on a markable task. -/
def FailsMarkable (id : ℕ) (tx : Tx) (q : Queue π) : Prop :=
  tx ≠ .rolledBack → ∀ r ∈ q.tasks, r.id = id → Markable r

/-- `mark_completed` takes effect on a task that is not dead. -/
def CompletesAlive (id : ℕ) (tx : Tx) (q : Queue π) : Prop :=
  tx ≠ .rolledBack → ∀ r ∈ q.tasks, r.id = id → 1 ≤ r.maxRetries → r.status ≠ .dead

/-- No task is marked once it is settled. -/
def Guarded (cfg : Settings) (s : State π) : Op π → Prop
  | .event (.work i tx _) => ∀ w ∈ s.queue.workers[i]?,
      match w.phase with
      | .handling (t::_) => cfg.registered t.taskType = false → FailsMarkable t.id tx s.queue
      | .completing (t::_) => CompletesAlive t.id tx s.queue
      | .failing (t::_) => FailsMarkable t.id tx s.queue
      | _ => True
  | .markCompleted id tx => CompletesAlive id tx s.queue
  | .markFailed id tx => FailsMarkable id tx s.queue
  | _ => True

/-! ### Notes of other tasks -/

section Views
variable {log entries : List Entry} {id : ℕ}

@[simp] theorem takes_append : takes id (log ++ entries) = takes id log + takes id entries :=
  List.count_append

@[simp] theorem runs_append : runs id (log ++ entries) = runs id log + runs id entries :=
  List.count_append

@[simp] theorem failures_append :
    failures id (log ++ entries) = failures id log ++ failures id entries := List.filterMap_append

def Entry.task : Entry → ℕ
  | .enqueued id _ => id
  | .taken id => id
  | .ran id => id
  | .failed id _ => id
  | .settled id => id

/-- New entries come in when they take no task that is settled by then. -/
theorem unsettled_append (h : EachAfter Unsettled log)
    (hnew : ∀ j, .taken j ∈ entries → .settled j ∉ log ∧ .settled j ∉ entries) :
    EachAfter Unsettled (log ++ entries) := by
  intro before x after heq j hx
  rcases List.append_eq_append_iff.mp heq with ⟨mid, rfl, rfl⟩ | ⟨mid, rfl, hrest⟩
  · have hj := hnew j (by simp [hx])
    intro hmem
    rcases List.mem_append.mp hmem with hmem | hmem
    · exact hj.1 hmem
    · exact hj.2 (List.mem_append_left _ hmem)
  · cases mid with
    | nil =>
      have hj := hnew j (by
        rw [List.nil_append] at hrest
        rw [← hrest, hx]
        exact List.mem_cons_self)
      simpa using hj.1
    | cons y mid =>
      obtain rfl := (List.cons.inj hrest).1
      exact h before x mid rfl j hx

theorem unsettled_quiet (h : EachAfter Unsettled log) (hnew : ∀ j, .taken j ∉ entries) :
    EachAfter Unsettled (log ++ entries) :=
  unsettled_append h fun j hj => absurd hj (hnew j)

end Views

/-! ### One row and its notes -/

/-- What the notes say of a row. -/
structure RowKept (cfg : Settings) (log : List Entry) (r : TaskRow π) : Prop where
  enqueued : .enqueued r.id r.maxRetries ∈ log
  failures : (failures r.id log).length = r.retryCount
  bounded : 1 ≤ r.maxRetries → (r.retryCount : ℤ) ≤ r.maxRetries
  waiting : 1 ≤ r.maxRetries → r.status = .pending ∨ r.status = .failed → r.retryCount < r.maxRetries
  dead : 1 ≤ r.maxRetries → (r.status = .dead ↔ r.retryCount = r.maxRetries)
  postponed : r.status = .failed → ∃ now ∈ (TaskLifeCycle.failures r.id log).getLast?,
    r.scheduledAt = now + cfg.retryBaseDelay * 2 ^ ((TaskLifeCycle.failures r.id log).length - 1)
  settled : .settled r.id ∈ log → 1 ≤ r.maxRetries → r.status = .completed ∨ r.status = .dead
  takes : takes r.id log ≤ r.retryCount + 1
  idle : r.status = .pending ∨ r.status = .failed → TaskLifeCycle.takes r.id log ≤ r.retryCount

section Rows
variable {cfg : Settings} {log entries : List Entry} {r : TaskRow π}

/-- Notes of other tasks, and of the runs of this one, leave the row as it is. -/
theorem RowKept.other (h : RowKept cfg log r)
    (hother : ∀ entry ∈ entries, entry.task ≠ r.id ∨ entry = .ran r.id) :
    RowKept cfg (log ++ entries) r := by
  have htakes : TaskLifeCycle.takes r.id entries = 0 := by
    refine List.count_eq_zero.mpr fun hmem => ?_
    simpa [Entry.task] using hother _ hmem
  have hfailures : TaskLifeCycle.failures r.id entries = [] := by
    refine List.filterMap_eq_nil_iff.mpr fun entry hentry => ?_
    rcases hother entry hentry with hne | rfl
    · cases entry with
      | failed j now => exact if_neg hne
      | _ => rfl
    · rfl
  have hsettled : .settled r.id ∉ entries := by
    intro hmem
    simpa [Entry.task] using hother _ hmem
  refine ⟨List.mem_append_left _ h.enqueued, ?_, h.bounded, h.waiting, h.dead, ?_, ?_, ?_, ?_⟩
  · rw [failures_append, hfailures, List.append_nil]
    exact h.failures
  · rw [failures_append, hfailures, List.append_nil]
    exact h.postponed
  · intro hmem
    rcases List.mem_append.mp hmem with hmem | hmem
    · exact h.settled hmem
    · exact absurd hmem hsettled
  · rw [takes_append, htakes, Nat.add_zero]
    exact h.takes
  · rw [takes_append, htakes, Nat.add_zero]
    exact h.idle

/-- A row is taken by a transaction that takes no task twice. -/
theorem RowKept.take (h : RowKept cfg log r) {ids : List ℕ} (hids : ids.Nodup)
    (hstatus : r.status = .pending ∨ r.status = .failed) (hagain : (r.retryCount : ℤ) < r.maxRetries) :
    RowKept cfg (log ++ ids.map .taken) { r with status := .running } := by
  have htakes : TaskLifeCycle.takes r.id (ids.map Entry.taken) ≤ 1 := by
    have hinj : Function.Injective Entry.taken := fun a b hab => by simpa using hab
    exact List.nodup_iff_count_le_one.mp (hids.map hinj) _
  have hfailures : TaskLifeCycle.failures r.id (ids.map Entry.taken) = [] := by
    simp [TaskLifeCycle.failures, List.filterMap_map]
  have hidle := h.idle hstatus
  refine ⟨List.mem_append_left _ h.enqueued, ?_, h.bounded, by simp, ?_, by simp, ?_, ?_, by simp⟩
  · rw [failures_append, hfailures, List.append_nil]
    exact h.failures
  · intro _
    simp only [reduceCtorEq, false_iff]
    exact hagain.ne
  · intro hmem hmax
    have hold : .settled r.id ∈ log := by simpa using hmem
    rcases h.settled hold hmax with hdone | hdone <;> simp [hdone] at hstatus
  · rw [takes_append]
    exact Nat.add_le_add hidle htakes

theorem RowKept.complete (h : RowKept cfg log r) (halive : 1 ≤ r.maxRetries → r.status ≠ .dead) :
    RowKept cfg (log ++ [.settled r.id]) { r with status := .completed } := by
  have htakes : TaskLifeCycle.takes r.id [.settled r.id] = 0 := by simp [TaskLifeCycle.takes]
  have hfailures : TaskLifeCycle.failures r.id [.settled r.id] = [] := rfl
  refine ⟨List.mem_append_left _ h.enqueued, ?_, h.bounded, by simp, ?_, by simp, by simp, ?_, by simp⟩
  · rw [failures_append, hfailures, List.append_nil]
    exact h.failures
  · intro hmax
    simp only [reduceCtorEq, false_iff]
    exact fun heq => halive hmax ((h.dead hmax).mpr heq)
  · rw [takes_append, htakes, Nat.add_zero]
    exact h.takes

/-- The notes of a failure: dead at the last attempt, else postponed by one more doubling. -/
theorem RowKept.fail (h : RowKept cfg log r) (hmarkable : Markable r) (now : ℚ) :
    RowKept cfg (log ++ .failed r.id now ::
      if (r.failed cfg now).status = .dead then [.settled r.id] else []) (r.failed cfg now) := by
  have hlt : 1 ≤ r.maxRetries → (r.retryCount : ℤ) < r.maxRetries := by
    intro hmax
    refine lt_of_le_of_ne (h.bounded hmax) fun heq => ?_
    exact (hmarkable hmax).1 ((h.dead hmax).mpr heq)
  have htakes := h.takes
  by_cases hlast : ((r.retryCount + 1 : ℕ) : ℤ) ≥ r.maxRetries
  · have hfailed : r.failed cfg now = { r with retryCount := r.retryCount + 1, status := .dead } :=
      if_pos hlast
    have hviews : TaskLifeCycle.takes r.id [.failed r.id now, .settled r.id] = 0 ∧
        TaskLifeCycle.failures r.id [.failed r.id now, .settled r.id] = [now] := by
      simp [TaskLifeCycle.takes, TaskLifeCycle.failures]
    rw [hfailed, if_pos rfl]
    refine ⟨List.mem_append_left _ h.enqueued, ?_, ?_, by simp, ?_, by simp, by simp, ?_, by simp⟩
    · simp [hviews.2, h.failures]
    · intro hmax
      have hcount := hlt hmax
      push_cast
      omega
    · intro hmax
      have hcount := hlt hmax
      simp only [true_iff]
      push_cast at hlast ⊢
      omega
    · rw [takes_append, hviews.1]
      exact htakes.trans (Nat.le_succ _)
  · have hfailed : r.failed cfg now = { r with
        retryCount := r.retryCount + 1
        status := .failed
        scheduledAt := now + cfg.retryBaseDelay * 2 ^ r.retryCount } := if_neg hlast
    have hviews : TaskLifeCycle.takes r.id [.failed r.id now] = 0 ∧
        TaskLifeCycle.failures r.id [.failed r.id now] = [now] := by
      simp [TaskLifeCycle.takes, TaskLifeCycle.failures]
    have hagain : ((r.retryCount + 1 : ℕ) : ℤ) < r.maxRetries := not_le.mp hlast
    have hunsettled : 1 ≤ r.maxRetries → .settled r.id ∉ log := by
      intro hmax hmem
      rcases h.settled hmem hmax with hdone | hdone
      · have hnone := (hmarkable hmax).2 hdone
        push_cast at hagain
        omega
      · exact (hmarkable hmax).1 hdone
    rw [hfailed, if_neg (by simp)]
    refine ⟨List.mem_append_left _ h.enqueued, ?_, fun _ => hagain.le, fun _ _ => hagain, ?_, ?_, ?_, ?_, ?_⟩
    · simp [hviews.2, h.failures]
    · intro _
      simp only [reduceCtorEq, false_iff]
      exact hagain.ne
    · intro _
      refine ⟨now, by simp [hviews.2], ?_⟩
      simp [hviews.2, h.failures]
    · intro hmem hmax
      have hold : .settled r.id ∈ log := by simpa using hmem
      exact absurd hold (hunsettled hmax)
    · rw [takes_append, hviews.1]
      exact htakes.trans (Nat.le_succ _)
    · intro _
      rw [takes_append, hviews.1]
      exact htakes

/-- A new row of a task that nothing but runs is noted of. -/
theorem RowKept.new (hunknown : ∀ entry ∈ log, entry ≠ .ran entry.task → entry.task ≠ r.id)
    (hstatus : r.status = .pending) (hcount : r.retryCount = 0) :
    RowKept cfg (log ++ [.enqueued r.id r.maxRetries]) r := by
  have htakes : TaskLifeCycle.takes r.id (log ++ [.enqueued r.id r.maxRetries]) = 0 := by
    have hold : TaskLifeCycle.takes r.id log = 0 :=
      List.count_eq_zero.mpr fun hmem => hunknown _ hmem (by simp) rfl
    rw [takes_append, hold]
    simp [TaskLifeCycle.takes]
  have hfailures : TaskLifeCycle.failures r.id (log ++ [.enqueued r.id r.maxRetries]) = [] := by
    have hold : TaskLifeCycle.failures r.id log = [] := by
      refine List.filterMap_eq_nil_iff.mpr fun entry hentry => ?_
      cases entry with
      | failed j now => exact if_neg (hunknown _ hentry (by simp))
      | _ => rfl
    rw [failures_append, hold]
    rfl
  refine ⟨by simp, by simp [hfailures, hcount], ?_, ?_, ?_, by simp [hstatus], ?_, by simp [htakes],
    by simp [htakes]⟩
  · intro hmax
    simpa [hcount] using zero_le_one.trans hmax
  · intro hmax _
    simpa [hcount] using Int.lt_of_lt_of_le zero_lt_one hmax
  · intro hmax
    have hpos := Int.lt_of_lt_of_le zero_lt_one hmax
    simpa [hstatus, hcount] using hpos.ne
  · intro hmem
    have hold : .settled r.id ∈ log := by simpa using hmem
    exact absurd rfl (hunknown _ hold (by simp))

end Rows

/-! ### The queue and its notes -/

/-- Notes that neither bring in a task nor take one. -/
def Marking (id : ℕ) (entries : List Entry) : Prop :=
  ∀ entry ∈ entries, entry = .settled id ∨ ∃ now, entry = .failed id now

/-- What the notes say of the queue. -/
structure Kept (cfg : Settings) (q : Queue π) (log : List Entry) : Prop where
  ids : (q.tasks.map TaskRow.id).Nodup
  fresh : ∀ r ∈ q.tasks, r.id < q.nextId
  known : ∀ entry ∈ log, entry = .ran entry.task ∨ entry.task < q.nextId
  unique : ∀ id m n, .enqueued id m ∈ log → .enqueued id n ∈ log → m = n
  rows : ∀ r ∈ q.tasks, RowKept cfg log r
  bound : ∀ (id : ℕ) (max : ℤ), .enqueued id max ∈ log → 1 ≤ max → (takes id log : ℤ) ≤ max
  unsettled : EachAfter Unsettled log
  keys : (q.tasks.filterMap TaskRow.idempotencyKey).Nodup

section Effects
variable {cfg : Settings} {q : Queue π} {log : List Entry}

theorem Kept.put (h : Kept cfg q log) (i : ℕ) (w : Worker π) : Kept cfg (q.put i w) log :=
  ⟨h.ids, h.fresh, h.known, h.unique, h.rows, h.bound, h.unsettled, h.keys⟩

theorem Kept.execute (h : Kept cfg q log) (t : TaskRow π) : Kept cfg (execute t q) log :=
  ⟨h.ids, h.fresh, h.known, h.unique, h.rows, h.bound, h.unsettled, h.keys⟩

/-- A run of a handler is noted. -/
theorem Kept.ran (h : Kept cfg q log) (id : ℕ) : Kept cfg q (log ++ [.ran id]) where
  ids := h.ids
  fresh := h.fresh
  known entry hentry := by
    rcases List.mem_append.mp hentry with hentry | hentry
    · exact h.known entry hentry
    · obtain rfl := List.mem_singleton.mp hentry
      exact Or.inl rfl
  unique j m n hm hn := h.unique j m n (by simpa using hm) (by simpa using hn)
  rows r hr := by
    refine (h.rows r hr).other fun entry hentry => ?_
    obtain rfl := List.mem_singleton.mp hentry
    by_cases hid : id = r.id
    · exact Or.inr (by rw [hid])
    · exact Or.inl hid
  bound j max hmem hmax := by
    have htakes : takes j [Entry.ran id] = 0 := by simp [takes]
    rw [takes_append, htakes, Nat.add_zero]
    exact h.bound j max (by simpa using hmem) hmax
  unsettled := unsettled_quiet h.unsettled (by simp)
  keys := h.keys

/-- Rows may be deleted. -/
theorem Kept.delete (h : Kept cfg q log) (keep : TaskRow π → Bool) :
    Kept cfg { q with tasks := q.tasks.filter keep } log where
  ids := h.ids.sublist (List.filter_sublist.map _)
  fresh r hr := h.fresh r (List.mem_of_mem_filter hr)
  known := h.known
  unique := h.unique
  rows r hr := h.rows r (List.mem_of_mem_filter hr)
  bound := h.bound
  unsettled := h.unsettled
  keys := h.keys.sublist (List.filter_sublist.filterMap _)

theorem Kept.sole (h : Kept cfg q log) {r s : TaskRow π} (hr : r ∈ q.tasks) (hs : s ∈ q.tasks)
    (hid : r.id = s.id) : r = s := List.inj_on_of_nodup_map h.ids hr hs hid

theorem map_kept {γ : Type} {f : TaskRow π → TaskRow π} {g : TaskRow π → γ} (hg : ∀ r, g (f r) = g r)
    (rows : List (TaskRow π)) : (rows.map f).map g = rows.map g := by
  rw [List.map_map]
  exact List.map_congr_left fun r _ => hg r

theorem filterMap_kept {γ : Type} {f : TaskRow π → TaskRow π} {g : TaskRow π → Option γ}
    (hg : ∀ r, g (f r) = g r) (rows : List (TaskRow π)) :
    (rows.map f).filterMap g = rows.filterMap g := by
  rw [List.filterMap_map]
  exact congrArg (List.filterMap · rows) (funext hg)

/-- One row is marked. -/
theorem Kept.mark (h : Kept cfg q log) {s : TaskRow π} (hs : s ∈ q.tasks) {f : TaskRow π → TaskRow π}
    {entries : List Entry} (hid : ∀ r, (f r).id = r.id)
    (hkey : ∀ r, (f r).idempotencyKey = r.idempotencyKey) (hmarking : Marking s.id entries)
    (hrow : RowKept cfg (log ++ entries) (f s)) : Kept cfg (q.update s.id f) (log ++ entries) := by
  have htask : ∀ entry ∈ entries, entry.task = s.id := by
    intro entry hentry
    rcases hmarking entry hentry with rfl | ⟨now, rfl⟩ <;> rfl
  have htaken : ∀ j, .taken j ∉ entries := by
    intro j hmem
    rcases hmarking _ hmem with hentry | ⟨now, hentry⟩ <;> cases hentry
  have henqueued : ∀ j max, .enqueued j max ∈ log ++ entries → .enqueued j max ∈ log := by
    intro j max hmem
    rcases List.mem_append.mp hmem with hmem | hmem
    · exact hmem
    · rcases hmarking _ hmem with hentry | ⟨now, hentry⟩ <;> cases hentry
  have htakes : ∀ j, takes j entries = 0 := fun j => List.count_eq_zero.mpr (htaken j)
  have hsame : ∀ r : TaskRow π, (if r.id = s.id then f r else r).id = r.id ∧
      (if r.id = s.id then f r else r).idempotencyKey = r.idempotencyKey := by
    intro r
    split
    · exact ⟨hid r, hkey r⟩
    · exact ⟨rfl, rfl⟩
  have hupdated : ∀ r ∈ (q.update s.id f).tasks, ∃ r' ∈ q.tasks, r.id = r'.id ∧
      (r'.id = s.id ∧ r = f s ∨ r'.id ≠ s.id ∧ r = r') := by
    intro r hr
    obtain ⟨r', hr', rfl⟩ := List.mem_map.mp hr
    by_cases heq : r'.id = s.id
    · refine ⟨r', hr', by rw [if_pos heq, hid], Or.inl ⟨heq, ?_⟩⟩
      rw [if_pos heq, h.sole hr' hs heq]
    · exact ⟨r', hr', by rw [if_neg heq], Or.inr ⟨heq, if_neg heq⟩⟩
  refine ⟨?_, ?_, ?_, ?_, ?_, ?_, unsettled_quiet h.unsettled htaken, ?_⟩
  · rw [Queue.update, map_kept fun r => (hsame r).1]
    exact h.ids
  · intro r hr
    obtain ⟨r', hr', hsame, -⟩ := hupdated r hr
    rw [hsame]
    exact h.fresh r' hr'
  · intro entry hentry
    rcases List.mem_append.mp hentry with hentry | hentry
    · exact h.known entry hentry
    · rw [htask entry hentry]
      exact Or.inr (h.fresh s hs)
  · exact fun j m n hm hn => h.unique j m n (henqueued j m hm) (henqueued j n hn)
  · intro r hr
    obtain ⟨r', hr', -, ⟨-, rfl⟩ | ⟨hne, rfl⟩⟩ := hupdated r hr
    · exact hrow
    · exact (h.rows r hr').other fun entry hentry => Or.inl (by rw [htask entry hentry]; exact hne.symm)
  · intro j max hmem hmax
    rw [takes_append, htakes, Nat.add_zero]
    exact h.bound j max (henqueued j max hmem) hmax
  · rw [Queue.update, filterMap_kept fun r => (hsame r).2]
    exact h.keys

theorem update_absent {id : ℕ} (hnone : ∀ r ∈ q.tasks, r.id ≠ id) (f : TaskRow π → TaskRow π) :
    q.update id f = q := by
  have hsame : (q.tasks.map fun r => if r.id = id then f r else r) = q.tasks := by
    refine (List.map_congr_left fun r hr => ?_).trans (List.map_id _)
    exact if_neg (hnone r hr)
  rw [Queue.update, hsame]

/-- `mark_failed` and its notes. -/
theorem Kept.markFailed (h : Kept cfg q log) {id : ℕ}
    (hmarkable : ∀ r ∈ q.tasks, r.id = id → Markable r) :
    Kept cfg (markFailed cfg id q) (log ++ failNotes cfg id q) := by
  unfold failNotes TaskQueue.markFailed
  cases hfind : q.tasks.find? (·.id = id) with
  | none =>
    rw [update_absent (by simpa using hfind), List.append_nil]
    exact h
  | some s =>
    have hs := List.mem_of_find?_eq_some hfind
    obtain rfl : s.id = id := by simpa using List.find?_some hfind
    refine h.mark hs (fun r => failed_id cfg q.clock r) (fun r => ?_) ?_
      ((h.rows s hs).fail (hmarkable s hs rfl) q.clock)
    · unfold TaskRow.failed
      split <;> rfl
    · intro entry hentry
      rcases List.mem_cons.mp hentry with rfl | hentry
      · exact Or.inr ⟨q.clock, rfl⟩
      · split at hentry
        · exact Or.inl (List.mem_singleton.mp hentry)
        · simp at hentry

/-- `mark_completed` and its notes. -/
theorem Kept.markCompleted (h : Kept cfg q log) {id : ℕ}
    (halive : ∀ r ∈ q.tasks, r.id = id → 1 ≤ r.maxRetries → r.status ≠ .dead) :
    Kept cfg (markCompleted id q) (log ++ settleNotes id q) := by
  unfold settleNotes TaskQueue.markCompleted
  cases hfind : q.tasks.find? (·.id = id) with
  | none =>
    rw [update_absent (by simpa using hfind), List.append_nil]
    exact h
  | some s =>
    have hs := List.mem_of_find?_eq_some hfind
    obtain rfl : s.id = id := by simpa using List.find?_some hfind
    refine h.mark hs (fun _ => rfl) (fun _ => rfl) ?_ ((h.rows s hs).complete (halive s hs rfl))
    intro entry hentry
    exact Or.inl (List.mem_singleton.mp hentry)

theorem selected_mem {locked : List ℕ} {t : TaskRow π} (ht : t ∈ selected cfg locked q) :
    t ∈ q.tasks ∧ (t.status = .pending ∨ t.status = .failed) ∧ (t.retryCount : ℤ) < t.maxRetries := by
  have hfilter := (List.mem_insertionSort TaskRow.before).mp (List.mem_of_mem_take ht)
  obtain ⟨hmem, hselectable⟩ := List.mem_filter.mp hfilter
  simp only [TaskRow.selectable, Bool.and_eq_true, decide_eq_true_eq] at hselectable
  exact ⟨hmem, hselectable.1.1.1, hselectable.1.2⟩

theorem selected_nodup (h : Kept cfg q log) (locked : List ℕ) :
    ((selected cfg locked q).map TaskRow.id).Nodup := by
  have hfiltered : ((q.tasks.filter fun r => r.selectable q.clock && !locked.contains r.id).map
      TaskRow.id).Nodup := h.ids.sublist (List.filter_sublist.map TaskRow.id)
  have hperm := (List.perm_insertionSort TaskRow.before
    (q.tasks.filter fun r => r.selectable q.clock && !locked.contains r.id)).map TaskRow.id
  exact (hperm.nodup_iff.mpr hfiltered).sublist ((List.take_sublist _ _).map TaskRow.id)

/-- `dequeue` and its notes. -/
theorem Kept.dequeue (h : Kept cfg q log) (locked : List ℕ) :
    Kept cfg (dequeue ((selected cfg locked q).map TaskRow.id) q)
      (log ++ (selected cfg locked q).map fun t => .taken t.id) := by
  have hnodup := selected_nodup h locked
  have hentries : (selected cfg locked q).map (fun t => Entry.taken t.id) =
      ((selected cfg locked q).map TaskRow.id).map .taken := by rw [List.map_map]; rfl
  rw [hentries]
  generalize hids : (selected cfg locked q).map TaskRow.id = ids at hnodup ⊢
  have htaken : ∀ id ∈ ids, ∃ r ∈ q.tasks, r.id = id ∧ (r.status = .pending ∨ r.status = .failed) ∧
      (r.retryCount : ℤ) < r.maxRetries := by
    intro id hid
    rw [← hids] at hid
    obtain ⟨t, ht, rfl⟩ := List.mem_map.mp hid
    obtain ⟨hmem, hstatus, hagain⟩ := selected_mem ht
    exact ⟨t, hmem, rfl, hstatus, hagain⟩
  have hsame : ∀ r : TaskRow π, (if r.id ∈ ids then { r with status := .running } else r).id = r.id ∧
      (if r.id ∈ ids then { r with status := .running } else r).idempotencyKey = r.idempotencyKey := by
    intro r
    split <;> exact ⟨rfl, rfl⟩
  have htakes : ∀ id, takes id (ids.map Entry.taken) = ids.count id := by
    intro id
    exact List.count_map_of_injective ids Entry.taken (fun a b hab => by simpa using hab) id
  refine ⟨?_, ?_, ?_, ?_, ?_, ?_, ?_, ?_⟩
  · rw [TaskQueue.dequeue, map_kept fun r => (hsame r).1]
    exact h.ids
  · intro r hr
    obtain ⟨r', hr', rfl⟩ := List.mem_map.mp hr
    rw [(hsame r').1]
    exact h.fresh r' hr'
  · intro entry hentry
    rcases List.mem_append.mp hentry with hentry | hentry
    · exact h.known entry hentry
    · obtain ⟨id, hid, rfl⟩ := List.mem_map.mp hentry
      obtain ⟨r, hr, rfl, -⟩ := htaken id hid
      exact Or.inr (h.fresh r hr)
  · exact fun j m n hm hn => h.unique j m n (by simpa using hm) (by simpa using hn)
  · intro r hr
    obtain ⟨r', hr', rfl⟩ := List.mem_map.mp hr
    by_cases hid : r'.id ∈ ids
    · obtain ⟨t, ht, heq, hstatus, hagain⟩ := htaken r'.id hid
      obtain rfl := h.sole ht hr' heq
      rw [if_pos hid]
      exact (h.rows t ht).take hnodup hstatus hagain
    · rw [if_neg hid]
      refine (h.rows r' hr').other fun entry hentry => Or.inl ?_
      obtain ⟨id, hmem, rfl⟩ := List.mem_map.mp hentry
      rintro rfl
      exact hid hmem
  · intro id max hmem hmax
    have hold : .enqueued id max ∈ log := by simpa using hmem
    rw [takes_append, htakes]
    by_cases hid : id ∈ ids
    · obtain ⟨r, hr, rfl, hstatus, hagain⟩ := htaken id hid
      have hidle := (h.rows r hr).idle hstatus
      have hsole := h.unique r.id max r.maxRetries hold (h.rows r hr).enqueued
      have hone := List.nodup_iff_count_le_one.mp hnodup r.id
      push_cast
      omega
    · rw [List.count_eq_zero.mpr hid, Nat.add_zero]
      exact h.bound id max hold hmax
  · refine unsettled_append h.unsettled fun j hj => ⟨fun hsettled => ?_, by simp⟩
    obtain ⟨r, hr, rfl, hstatus, hagain⟩ := htaken j (by simpa using hj)
    have hmax : 1 ≤ r.maxRetries := by omega
    rcases (h.rows r hr).settled hsettled hmax with hdone | hdone <;> simp [hdone] at hstatus
  · rw [TaskQueue.dequeue, filterMap_kept fun r => (hsame r).2]
    exact h.keys

/-- A transaction and its notes: both are there, or neither is. -/
theorem Kept.transact (h : Kept cfg q log) {tx : Tx} {f : Queue π → Queue π} {entries : List Entry}
    (hf : tx ≠ .rolledBack → Kept cfg (f q) (log ++ entries)) :
    Kept cfg (q.transact tx f) (log ++ effect tx entries) := by
  unfold Queue.transact effect
  split
  · rw [List.append_nil]
    exact h
  · exact hf ‹_›

/-- A row comes in under the next id. -/
theorem Kept.insert (h : Kept cfg q log) {r : TaskRow π} (hid : r.id = q.nextId)
    (hstatus : r.status = .pending) (hcount : r.retryCount = 0)
    (hkey : duplicate r.idempotencyKey q = false) :
    Kept cfg { q with nextId := q.nextId + 1, tasks := q.tasks ++ [r] }
      (log ++ [.enqueued r.id r.maxRetries]) := by
  have hunknown : ∀ entry ∈ log, entry ≠ .ran entry.task → entry.task ≠ r.id := by
    intro entry hentry hran
    rw [hid]
    exact ((h.known entry hentry).resolve_left hran).ne
  have hbefore : ∀ s ∈ q.tasks, s.id ≠ r.id := fun s hs => hid ▸ (h.fresh s hs).ne
  refine ⟨?_, ?_, ?_, ?_, ?_, ?_, unsettled_quiet h.unsettled (by simp), ?_⟩
  · rw [List.map_append]
    refine List.nodup_append.mpr ⟨h.ids, by simp, fun a ha b hb => ?_⟩
    obtain ⟨s, hs, rfl⟩ := List.mem_map.mp ha
    obtain rfl : b = r.id := by simpa using hb
    exact hbefore s hs
  · intro s hs
    rcases List.mem_append.mp hs with hs | hs
    · exact (h.fresh s hs).trans (Nat.lt_succ_self _)
    · rw [List.mem_singleton.mp hs, hid]
      exact Nat.lt_succ_self _
  · intro entry hentry
    rcases List.mem_append.mp hentry with hentry | hentry
    · exact (h.known entry hentry).imp_right fun hlt => hlt.trans (Nat.lt_succ_self _)
    · rw [List.mem_singleton.mp hentry]
      exact Or.inr (hid.trans_lt (Nat.lt_succ_self _))
  · intro id m n hm hn
    rcases List.mem_append.mp hm with hm | hm <;> rcases List.mem_append.mp hn with hn | hn
    · exact h.unique id m n hm hn
    · obtain ⟨rfl, rfl⟩ : id = r.id ∧ n = _ := by simpa using hn
      exact absurd rfl (hunknown _ hm (by simp))
    · obtain ⟨rfl, rfl⟩ : id = r.id ∧ m = _ := by simpa using hm
      exact absurd rfl (hunknown _ hn (by simp))
    · obtain ⟨-, rfl⟩ : id = r.id ∧ m = _ := by simpa using hm
      obtain ⟨-, rfl⟩ : id = r.id ∧ n = _ := by simpa using hn
      rfl
  · intro s hs
    rcases List.mem_append.mp hs with hs | hs
    · refine (h.rows s hs).other fun entry hentry => Or.inl ?_
      obtain rfl := List.mem_singleton.mp hentry
      exact (hbefore s hs).symm
    · obtain rfl := List.mem_singleton.mp hs
      exact RowKept.new hunknown hstatus hcount
  · intro id max hmem hmax
    have hnone : takes id [Entry.enqueued r.id r.maxRetries] = 0 := by simp [takes]
    rw [takes_append, hnone, Nat.add_zero]
    rcases List.mem_append.mp hmem with hmem | hmem
    · exact h.bound id max hmem hmax
    · obtain ⟨rfl, -⟩ : id = r.id ∧ max = _ := by simpa using hmem
      have htakes : takes r.id log = 0 :=
        List.count_eq_zero.mpr fun hmem => hunknown _ hmem (by simp) rfl
      rw [htakes]
      exact zero_le_one.trans hmax
  · rw [List.filterMap_append]
    cases hsome : r.idempotencyKey with
    | none => simpa [hsome] using h.keys
    | some key =>
      have habsent : some key ∉ q.tasks.map TaskRow.idempotencyKey := by
        simpa [duplicate, hsome] using hkey
      refine List.nodup_append.mpr ⟨h.keys, by simp [hsome], fun a ha b hb => ?_⟩
      obtain rfl : b = key := by simpa [hsome, eq_comm] using hb
      rintro rfl
      obtain ⟨s, hs, hskey⟩ := List.mem_filterMap.mp ha
      exact habsent (List.mem_map.mpr ⟨s, hs, hskey⟩)

/-- `enqueue` and its notes. -/
theorem Kept.enqueue (h : Kept cfg q log) (args : EnqueueArgs π) (tx : Tx) :
    Kept cfg (enqueue cfg args tx q) (log ++ enqueueNotes cfg args tx q) := by
  unfold TaskQueue.enqueue enqueueNotes
  cases hduplicate : duplicate args.idempotencyKey q with
  | true => simpa using h
  | false =>
    simp only [Bool.false_eq_true, if_false]
    exact h.transact fun _ => h.insert rfl rfl rfl hduplicate

end Effects

/-! ### The runs of the handlers -/

/-- The tasks of a batch whose handler is still to be run. -/
def toHandle : Phase π → List (TaskRow π)
  | .handling batch => batch
  | .completing batch => batch.tail
  | .failing batch => batch.tail
  | .notifying batch => batch
  | _ => []

def waiting (id : ℕ) (w : Worker π) : ℕ := ((toHandle w.phase).map TaskRow.id).count id

/-- A task is run, or still to be run, at most as often as it has been taken. -/
def Handled (q : Queue π) (log : List Entry) : Prop :=
  ∀ id, runs id log + tally (waiting id) q.workers ≤ takes id log

section Handling
variable {cfg : Settings} {q : Queue π} {log entries : List Entry} {i : ℕ} {w v : Worker π}

@[simp] theorem waiting_process (id : ℕ) (batch : List (TaskRow π)) :
    waiting id (w.process batch) = (batch.map TaskRow.id).count id := by
  cases batch with
  | nil =>
    simp only [waiting, Worker.process, Worker.polled, List.isEmpty_nil, if_true]
    split <;> rfl
  | cons t rest => rfl

@[simp] theorem waiting_sleep (id : ℕ) : waiting id w.sleep = 0 := rfl

@[simp] theorem waiting_stopped (id : ℕ) : waiting id w.stopped = 0 := rfl

theorem Handled.quiet (h : Handled q log) (hruns : ∀ id, runs id entries = 0) :
    Handled q (log ++ entries) := by
  intro id
  rw [runs_append, takes_append, hruns, Nat.add_zero]
  exact (h id).trans (Nat.le_add_right _ _)

/-- What a worker still has to handle goes down with each run. -/
theorem Handled.put {q' : Queue π} (h : Handled q log) (hw : q.workers[i]? = some w)
    (hworkers : q'.workers = q.workers)
    (hstep : ∀ id, runs id entries + waiting id v ≤ waiting id w + takes id entries) :
    Handled (q'.put i v) (log ++ entries) := by
  intro id
  have hset := tally_set (w := waiting id) v hw
  have hold := h id
  have hnew := hstep id
  simp only [Queue.put, hworkers, runs_append, takes_append]
  omega

theorem runs_effect {entries : List Entry} {j : ℕ} (hnone : .ran j ∉ entries) (tx : Tx) :
    runs j (effect tx entries) = 0 := by
  refine List.count_eq_zero.mpr fun hmem => ?_
  unfold effect at hmem
  split at hmem
  · simp at hmem
  · exact hnone hmem

theorem runs_failNotes (id j : ℕ) (tx : Tx) : runs j (effect tx (failNotes cfg id q)) = 0 := by
  refine runs_effect (fun hmem => ?_) tx
  unfold failNotes at hmem
  split at hmem
  · simp at hmem
  · split at hmem <;> simp at hmem

theorem runs_settleNotes (id j : ℕ) (tx : Tx) : runs j (effect tx (settleNotes id q)) = 0 := by
  refine runs_effect (fun hmem => ?_) tx
  unfold settleNotes at hmem
  split at hmem <;> simp at hmem

theorem runs_enqueueNotes (j : ℕ) (args : EnqueueArgs π) (tx : Tx) :
    runs j (enqueueNotes cfg args tx q) = 0 := by
  unfold enqueueNotes
  split
  · rfl
  · exact runs_effect (by simp) tx

theorem workers_transact {f : Queue π → Queue π} (hf : (f q).workers = q.workers) (tx : Tx) :
    (q.transact tx f).workers = q.workers := by
  unfold Queue.transact
  split
  · rfl
  · exact hf

theorem Handled.failTask (h : Handled q log) (hw : q.workers[i]? = some w) {t : TaskRow π}
    {rest : List (TaskRow π)} (hrest : ∀ id, (rest.map TaskRow.id).count id ≤ waiting id w)
    (notify : Bool) (tx : Tx) :
    Handled (failTask cfg i w t rest notify tx q) (log ++ effect tx (failNotes cfg t.id q)) := by
  have hworkers : (q.transact tx (markFailed cfg t.id)).workers = q.workers :=
    workers_transact (f := markFailed cfg t.id) rfl tx
  refine h.put hw hworkers fun id => ?_
  rw [runs_failNotes, Nat.zero_add]
  refine le_trans ?_ ((hrest id).trans (Nat.le_add_right _ _))
  split
  · split
    · exact le_refl _
    · rw [waiting_process]
  · exact Nat.zero_le _

/-- The next step of a worker. -/
theorem Handled.work (h : Handled q log) (hw : q.workers[i]? = some w) (tx : Tx) (locked : List ℕ) :
    Handled (work cfg i w tx locked q) (log ++ workNotes cfg w tx locked q) := by
  have hstay : Handled q (log ++ []) := by
    rw [List.append_nil]
    exact h
  unfold TaskQueue.work workNotes
  cases hphase : w.phase with
  | polling =>
    have hworkers : (q.transact tx (dequeue ((selected cfg locked q).map TaskRow.id))).workers =
        q.workers := workers_transact (f := dequeue ((selected cfg locked q).map TaskRow.id)) rfl tx
    refine h.put hw hworkers fun id => ?_
    have hruns : runs id ((selected cfg locked q).map fun t => Entry.taken t.id) = 0 :=
      List.count_eq_zero.mpr (by simp)
    have htakes : takes id ((selected cfg locked q).map fun t => Entry.taken t.id) =
        ((selected cfg locked q).map TaskRow.id).count id := by
      have hmap : (selected cfg locked q).map (fun t => Entry.taken t.id) =
          ((selected cfg locked q).map TaskRow.id).map .taken := by rw [List.map_map]; rfl
      rw [takes, hmap]
      exact List.count_map_of_injective _ Entry.taken (fun a b hab => by simpa using hab) id
    cases tx with
    | committed => simp [effect, hruns, htakes]
    | rolledBack => simp [effect, runs]
    | raisedAfterCommit => simp [effect, hruns]
  | handling batch =>
    cases batch with
    | nil => exact hstay
    | cons t rest =>
      have hwaiting : ∀ id, waiting id w = (rest.map TaskRow.id).count id + if t.id = id then 1 else 0 := by
        intro id
        simp [waiting, toHandle, hphase, List.count_cons]
      dsimp only
      by_cases hregistered : cfg.registered t.taskType = true
      · rw [if_pos hregistered, if_pos hregistered]
        have hworkers : (q.transact tx (execute t)).workers = q.workers :=
          workers_transact (f := execute t) rfl tx
        refine h.put hw hworkers fun id => ?_
        have hruns : runs id [Entry.ran t.id] = if t.id = id then 1 else 0 := by
          simp [runs, List.count_singleton]
        rw [hwaiting, hruns]
        by_cases htx : tx = .committed <;> simp [htx, waiting, toHandle] <;> omega
      · rw [if_neg hregistered, if_neg hregistered]
        refine h.failTask hw (fun id => ?_) false tx
        rw [hwaiting]
        exact Nat.le_add_right _ _
  | completing batch =>
    cases batch with
    | nil => exact hstay
    | cons t rest =>
      have hworkers : (q.transact tx (markCompleted t.id)).workers = q.workers :=
        workers_transact (f := markCompleted t.id) rfl tx
      refine h.put hw hworkers fun id => ?_
      rw [runs_settleNotes, Nat.zero_add]
      refine le_trans ?_ (Nat.le_add_right _ _)
      have hrest : waiting id w = (rest.map TaskRow.id).count id := by simp [waiting, hphase, toHandle]
      by_cases htx : tx = .committed
      · simp [htx, hrest]
      · simp [htx, waiting, hphase, toHandle]
  | failing batch =>
    cases batch with
    | nil => exact hstay
    | cons t rest =>
      exact h.failTask hw (fun id => by simp [waiting, toHandle, hphase]) true tx
  | notifying rest =>
    refine h.put hw rfl fun id => ?_
    rw [waiting_process]
    simp [waiting, hphase, toHandle, runs]
  | cleaning =>
    have hworkers : (q.transact tx cleanupOldTasks).workers = q.workers :=
      workers_transact (f := cleanupOldTasks) rfl tx
    exact h.put hw hworkers fun id => by simp [runs]
  | sleeping =>
    refine h.put hw rfl fun id => ?_
    by_cases hrunning : w.running = true <;> simp [hrunning, waiting, toHandle, runs, Worker.stopped]
  | stopped => exact hstay

end Handling

/-! ### Runs -/

section Runs
variable {cfg : Settings} {q : Queue π} {log : List Entry}

/-- The rows and the workers agree with the notes. -/
structure Lived (cfg : Settings) (q : Queue π) (log : List Entry) : Prop where
  kept : Kept cfg q log
  handled : Handled q log

theorem Kept.failTask (h : Kept cfg q log) {i : ℕ} {w : Worker π} {t : TaskRow π}
    {rest : List (TaskRow π)} {notify : Bool} {tx : Tx} (hmarkable : FailsMarkable t.id tx q) :
    Kept cfg (failTask cfg i w t rest notify tx q) (log ++ effect tx (failNotes cfg t.id q)) :=
  (h.transact fun htx => h.markFailed (hmarkable htx)).put i _

theorem cleanupBefore_week : cleanupBefore 7 = cleanupOldTasks (π := π) := rfl

theorem Kept.cleanup (h : Kept cfg q log) (days : ℚ) (tx : Tx) :
    Kept cfg (q.transact tx (cleanupBefore days)) log := by
  have hclean : Kept cfg (q.transact tx (cleanupBefore days)) (log ++ effect tx []) := by
    refine h.transact fun _ => ?_
    rw [List.append_nil]
    exact h.delete _
  have hnone : effect tx [] = [] := ite_self _
  rwa [hnone, List.append_nil] at hclean

theorem Kept.work (h : Kept cfg q log) {i : ℕ} {w : Worker π} {tx : Tx} {locked : List ℕ}
    (hguarded : match w.phase with
      | .handling (t::_) => cfg.registered t.taskType = false → FailsMarkable t.id tx q
      | .completing (t::_) => CompletesAlive t.id tx q
      | .failing (t::_) => FailsMarkable t.id tx q
      | _ => True) :
    Kept cfg (work cfg i w tx locked q) (log ++ workNotes cfg w tx locked q) := by
  have hstay : Kept cfg q (log ++ []) := by
    rw [List.append_nil]
    exact h
  unfold TaskQueue.work workNotes
  cases hphase : w.phase with
  | polling => exact (h.transact fun _ => h.dequeue locked).put i _
  | handling batch =>
    cases batch with
    | nil => exact hstay
    | cons t rest =>
      simp only [hphase] at hguarded
      dsimp only
      by_cases hregistered : cfg.registered t.taskType = true
      · rw [if_pos hregistered, if_pos hregistered]
        have hran := h.ran t.id
        have hexecuted : Kept cfg (q.transact tx (TaskQueue.execute t)) (log ++ [.ran t.id]) := by
          unfold Queue.transact
          split
          · exact hran
          · exact hran.execute t
        exact hexecuted.put i _
      · rw [if_neg hregistered, if_neg hregistered]
        exact h.failTask (hguarded (by simpa using hregistered))
  | completing batch =>
    cases batch with
    | nil => exact hstay
    | cons t rest =>
      simp only [hphase] at hguarded
      exact (h.transact fun htx => h.markCompleted (hguarded htx)).put i _
  | failing batch =>
    cases batch with
    | nil => exact hstay
    | cons t rest =>
      simp only [hphase] at hguarded
      exact h.failTask hguarded
  | notifying rest => exact hstay.put i _
  | cleaning =>
    have hclean := h.cleanup 7 tx
    rw [cleanupBefore_week] at hclean
    dsimp only
    rw [List.append_nil]
    exact hclean.put i _
  | sleeping => exact hstay.put i _
  | stopped => exact hstay

theorem workers_enqueue (args : EnqueueArgs π) (tx : Tx) :
    (enqueue cfg args tx q).workers = q.workers := by
  unfold TaskQueue.enqueue
  split
  · rfl
  · exact workers_transact rfl tx

theorem Handled.of_workers {q' : Queue π} (h : Handled q log) (hworkers : q'.workers = q.workers) :
    Handled q' log := by
  intro id
  rw [hworkers]
  exact h id

theorem Lived.enqueue (h : Lived cfg q log) (args : EnqueueArgs π) (tx : Tx) :
    Lived cfg (enqueue cfg args tx q) (log ++ enqueueNotes cfg args tx q) :=
  ⟨h.kept.enqueue args tx,
    (h.handled.quiet fun id => runs_enqueueNotes id args tx).of_workers (workers_enqueue args tx)⟩

/-- A worker that goes on with no more to handle than before. -/
theorem Lived.put (h : Lived cfg q log) {i : ℕ} {w v : Worker π} (hw : q.workers[i]? = some w)
    (hless : ∀ id, waiting id v ≤ waiting id w) : Lived cfg (q.put i v) log := by
  have hput : Handled (q.put i v) (log ++ []) := h.handled.put hw rfl fun id => by
    simpa [runs, takes] using hless id
  rw [List.append_nil] at hput
  exact ⟨h.kept.put i v, hput⟩

theorem Lived.event {s : State π} (h : Lived cfg s.queue s.log) {e : Event π}
    (hguarded : Guarded cfg s (.event e)) :
    Lived cfg (TaskQueue.step cfg s.queue e) (s.log ++ eventNotes cfg s.queue e) := by
  have hstay : Lived cfg s.queue (s.log ++ []) := by
    rw [List.append_nil]
    exact h
  cases e with
  | tick now =>
    exact ⟨⟨h.kept.ids, h.kept.fresh, hstay.kept.known, hstay.kept.unique, hstay.kept.rows,
      hstay.kept.bound, hstay.kept.unsettled, h.kept.keys⟩, hstay.handled⟩
  | enqueue args tx => exact h.enqueue args tx
  | start =>
    refine ⟨⟨h.kept.ids, h.kept.fresh, hstay.kept.known, hstay.kept.unique, hstay.kept.rows,
      hstay.kept.bound, hstay.kept.unsettled, h.kept.keys⟩, fun id => ?_⟩
    have hidle : waiting id ({} : Worker π) = 0 := rfl
    simpa [TaskQueue.step, eventNotes, hidle] using h.handled id
  | work i tx locked =>
    simp only [TaskQueue.step, eventNotes]
    cases hw : s.queue.workers[i]? with
    | none => exact hstay
    | some w => exact ⟨h.kept.work (hguarded w hw), h.handled.work hw tx locked⟩
  | cancel i =>
    simp only [TaskQueue.step, eventNotes]
    cases hw : s.queue.workers[i]? with
    | none => exact hstay
    | some w =>
      dsimp only
      split
      · exact hstay.put hw fun id => Nat.zero_le _
      · exact hstay
  | crash i =>
    simp only [TaskQueue.step, eventNotes]
    cases hw : s.queue.workers[i]? with
    | none => exact hstay
    | some w => exact hstay.put hw fun id => Nat.zero_le _
  | stop i =>
    simp only [TaskQueue.step, eventNotes]
    cases hw : s.queue.workers[i]? with
    | none => exact hstay
    | some w => exact hstay.put hw fun id => le_refl _

/-- An operation that marks no settled task. -/
theorem Lived.step {s : State π} {op : Op π} (h : Lived cfg s.queue s.log)
    (hguarded : Guarded cfg s op) :
    Lived cfg (step cfg s op).queue (TaskLifeCycle.step cfg s op).log := by
  cases op with
  | event e => exact h.event hguarded
  | check args =>
    simp only [TaskLifeCycle.step]
    split <;> exact h
  | insert i tx =>
    simp only [TaskLifeCycle.step]
    cases s.checked[i]? with
    | none => exact h
    | some args => exact h.enqueue args tx
  | markCompleted id tx =>
    exact ⟨h.kept.transact fun htx => h.kept.markCompleted (hguarded htx),
      (h.handled.quiet fun j => runs_settleNotes id j tx).of_workers (workers_transact rfl tx)⟩
  | markFailed id tx =>
    exact ⟨h.kept.transact fun htx => h.kept.markFailed (hguarded htx),
      (h.handled.quiet fun j => runs_failNotes id j tx).of_workers (workers_transact rfl tx)⟩
  | cleanup days tx =>
    exact ⟨h.kept.cleanup days tx, h.handled.of_workers (workers_transact rfl tx)⟩

theorem Lived.lifeCycle {s : State π} (h : Lived cfg s.queue s.log) : LifeCycle cfg s where
  bounded r hr hmax := ⟨Nat.zero_le _, (h.kept.rows r hr).bounded hmax⟩
  waiting r hr := (h.kept.rows r hr).waiting
  dead r hr := (h.kept.rows r hr).dead
  settled := h.kept.unsettled
  handled id max hmem hmax := by
    have htaken := h.handled id
    have hbound := h.kept.bound id max hmem hmax
    omega
  postponed r hr hfailed := ⟨(h.kept.rows r hr).failures, (h.kept.rows r hr).postponed hfailed⟩
  keys key := by
    have hcount := List.nodup_iff_count_le_one.mp h.kept.keys key
    rw [List.count_filterMap, List.countP_eq_length_filter] at hcount
    have hsame : (fun r : TaskRow π => decide (r.idempotencyKey = some key)) =
        fun r => r.idempotencyKey == some key := by
      funext r
      rw [Bool.eq_iff_iff, decide_eq_true_iff, beq_iff_eq]
    rw [hsame]
    exact hcount

end Runs

/-- In every run in which no settled task is marked, every task has its life cycle. -/
theorem life_cycle (cfg : Settings) (now : ℚ) (ops : List (Op π))
    (hguarded : Meets (step cfg) (Guarded cfg) { queue := { clock := now } } ops) :
    LifeCycle cfg (run (step cfg) { queue := { clock := now } } ops) := by
  have hstart : Lived cfg ({ clock := now } : Queue π) [] :=
    ⟨⟨List.nodup_nil, by simp, by simp, by simp, by simp, by simp, eachAfter_nil _, List.nodup_nil⟩,
      fun id => by simp [runs]⟩
  have hstep : ∀ (s : State π) (op : Op π), Lived cfg s.queue s.log → Guarded cfg s op →
      Lived cfg (step cfg s op).queue (step cfg s op).log := fun _ _ h hcond => h.step hcond
  have hlived : Lived cfg (run (step cfg) { queue := { clock := now } } ops).queue
      (run (step cfg) { queue := { clock := now } } ops).log := invariant hstep hstart hguarded
  exact hlived.lifeCycle

instance (r : TaskRow π) : Decidable (Markable r) := inferInstanceAs (Decidable (_ → _))

instance (id : ℕ) (tx : Tx) (q : Queue π) : Decidable (FailsMarkable id tx q) :=
  inferInstanceAs (Decidable (_ → ∀ r ∈ q.tasks, _))

instance (id : ℕ) (tx : Tx) (q : Queue π) : Decidable (CompletesAlive id tx q) :=
  inferInstanceAs (Decidable (_ → ∀ r ∈ q.tasks, _))

instance (cfg : Settings) (s : State π) (op : Op π) : Decidable (Guarded cfg s op) :=
  match op with
  | .event (.work i tx _) =>
      have (w : Worker π) : Decidable (match w.phase with
          | .handling (t::_) => cfg.registered t.taskType = false → FailsMarkable t.id tx s.queue
          | .completing (t::_) => CompletesAlive t.id tx s.queue
          | .failing (t::_) => FailsMarkable t.id tx s.queue
          | _ => True) :=
        match w.phase with
        | .handling (_::_) => inferInstanceAs (Decidable (_ → FailsMarkable _ tx s.queue))
        | .completing (_::_) => inferInstanceAs (Decidable (CompletesAlive _ tx s.queue))
        | .failing (_::_) => inferInstanceAs (Decidable (FailsMarkable _ tx s.queue))
        | .handling [] | .completing [] | .failing [] | .polling | .notifying _ | .cleaning
        | .sleeping | .stopped => isTrue trivial
      inferInstanceAs (Decidable (∀ w ∈ s.queue.workers[i]?, _))
  | .markCompleted id tx => inferInstanceAs (Decidable (CompletesAlive id tx s.queue))
  | .markFailed id tx => inferInstanceAs (Decidable (FailsMarkable id tx s.queue))
  | .event (.tick _) | .event (.enqueue ..) | .event .start | .event (.cancel _)
  | .event (.crash _) | .event (.stop _) | .check _ | .insert .. | .cleanup .. => isTrue trivial

/-- Two calls with one key pass the lookup; the task they leave fails once, then succeeds. -/
def keyedRun : List (Op Unit) :=
  let args : EnqueueArgs Unit := { taskType := "telegram_notify", payload := (), idempotencyKey := some "k" }
  [.check args, .check args, .insert 0 .committed, .insert 0 .committed, .event .start,
    .event (.work 0 .committed []), .event (.work 0 .rolledBack []), .event (.work 0 .committed []),
    .event (.work 0 .committed []), .event (.tick 161), .event (.work 0 .committed []),
    .event (.work 0 .committed []), .event (.work 0 .committed [])]

theorem life_cycle_keyed :
    LifeCycle .defaults (run (step .defaults) { queue := { clock := 100 } } keyedRun) :=
  life_cycle .defaults 100 keyedRun (by decide +kernel)

/-- `mark_completed` takes effect and raises; the handler of the completed task runs again. -/
def recompletedRun : List (Op Unit) :=
  [.event (.enqueue { taskType := "telegram_notify", payload := () } .committed), .event .start,
    .event (.work 0 .committed []), .event (.work 0 .committed []),
    .event (.work 0 .raisedAfterCommit []), .event (.work 0 .committed []),
    .event (.work 0 .committed []), .event (.tick 161), .event (.work 0 .committed [])]

theorem completed_taken_again : ¬ ∀ (cfg : Settings) (now : ℚ) (ops : List (Op Unit)),
    LifeCycle cfg (run (step cfg) { queue := { clock := now } } ops) := by
  intro hall
  have hunsettled := (hall .defaults 100 recompletedRun).settled
  have hlog : (run (step .defaults) { queue := { clock := 100 } } recompletedRun).log =
      [.enqueued 0 5, .taken 0, .ran 0, .settled 0, .failed 0 100] ++ .taken 0 :: [] := by
    decide +kernel
  rw [hlog] at hunsettled
  exact hunsettled _ _ _ rfl 0 rfl (by simp)

end KisAutotrader.TaskQueue.TaskLifeCycle
