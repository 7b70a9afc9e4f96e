import KisAutotrader.TaskQueue

/-!
# No task is lost

A task that a worker has taken is found again only through that worker, so a
worker may leave its batch only when no task of it is running.
-/
namespace KisAutotrader.TaskQueue.TaskKeeping
open Interleaving

variable {π : Type} {cfg : Settings} {q : Queue π}

/-- A live worker has the task in its batch. -/
def Held (q : Queue π) (id : ℕ) : Prop := ∃ w ∈ q.workers, ∃ t ∈ w.batch, t.id = id

/-- A task that is not done with can be taken, now or when its time has come, or is held by a live
worker. -/
structure Kept (q : Queue π) : Prop where
  selectable : ∀ r ∈ q.tasks, r.status = .pending ∨ r.status = .failed → (r.retryCount : ℤ) < r.maxRetries
  running : ∀ r ∈ q.tasks, r.status = .running → Held q r.id

/-- No task of the batch is running. -/
def Idle (q : Queue π) (batch : List (TaskRow π)) : Prop :=
  ∀ t ∈ batch, ∀ r ∈ q.tasks, r.id = t.id → r.status ≠ .running

/-- What `mark_failed` on the first task leaves unmarked when it raises. -/
def unmarked (tx : Tx) (batch : List (TaskRow π)) : List (TaskRow π) :=
  match tx with
  | .committed => []
  | .rolledBack => batch
  | .raisedAfterCommit => batch.tail

/-- A step after which a worker no longer has its batch leaves none of it running. -/
def Tidy (cfg : Settings) (q : Queue π) (w : Worker π) (tx : Tx) (locked : List ℕ) : Prop :=
  match w.phase with
  | .polling => tx = .raisedAfterCommit → (selected cfg locked q).isEmpty = true
  | .handling (t::rest) => cfg.registered t.taskType = false → Idle q (unmarked tx (t::rest))
  | .failing batch => Idle q (unmarked tx batch)
  | _ => True

/-- Tasks are enqueued with a retry to spare, and workers leave no running task behind. -/
def Tended (cfg : Settings) (q : Queue π) : Event π → Prop
  | .enqueue args tx => tx ≠ .rolledBack → duplicate args.idempotencyKey q = false →
      0 < args.maxRetries.getD cfg.maxRetries
  | .work i tx locked => ∀ w ∈ q.workers[i]?, Tidy cfg q w tx locked
  | .cancel i => ∀ w ∈ q.workers[i]?, w.suspended = true → Idle q w.batch
  | .crash i => ∀ w ∈ q.workers[i]?, Idle q w.batch
  | _ => True

instance (q : Queue π) (batch : List (TaskRow π)) : Decidable (Idle q batch) :=
  inferInstanceAs (Decidable (∀ t ∈ batch, _))

instance (q : Queue π) (w : Worker π) (tx : Tx) (locked : List ℕ) : Decidable (Tidy cfg q w tx locked) := by
  unfold Tidy
  split <;> infer_instance

instance (q : Queue π) (e : Event π) : Decidable (Tended cfg q e) := by
  cases e <;> unfold Tended <;> infer_instance

/-- The step of one worker, seen through the rows it leaves. -/
theorem Kept.step {i : ℕ} {w v : Worker π} {tasks : List (TaskRow π)} {trades : List (TradeRow π)}
    (hw : q.workers[i]? = some w)
    (hselectable : ∀ r ∈ tasks, r.status = .pending ∨ r.status = .failed →
      (r.retryCount : ℤ) < r.maxRetries)
    (hrunning : ∀ r ∈ tasks, r.status = .running →
      (∃ t ∈ v.batch, t.id = r.id) ∨ Held q r.id ∧ ∀ t ∈ w.batch, t.id ≠ r.id) :
    Kept ({ q with tasks, trades }.put i v) := by
  refine ⟨hselectable, fun r hr hstatus => ?_⟩
  rcases hrunning r hr hstatus with hheld | ⟨⟨u, hu, t, ht, hid⟩, hother⟩
  · exact ⟨v, mem_set_self v hw, hheld⟩
  · rcases eq_or_mem_set v hw hu with rfl | hu
    · exact absurd hid (hother t ht)
    · exact ⟨u, hu, t, ht, hid⟩

theorem mem_update {id : ℕ} {f : TaskRow π → TaskRow π} {r : TaskRow π} (h : r ∈ (q.update id f).tasks) :
    (∃ s ∈ q.tasks, s.id = id ∧ r = f s) ∨ r ∈ q.tasks ∧ r.id ≠ id := by
  obtain ⟨s, hs, rfl⟩ := List.mem_map.mp h
  by_cases hid : s.id = id
  · exact Or.inl ⟨s, hs, hid, if_pos hid⟩
  · rw [if_neg hid]
    exact Or.inr ⟨hs, hid⟩

/-- `mark_failed` marks the first task of the batch; the rest is kept, or idle. -/
theorem Kept.failTask (h : Kept q) {i : ℕ} {w : Worker π} (hw : q.workers[i]? = some w) {t : TaskRow π}
    {rest : List (TaskRow π)} (hbatch : w.batch = t::rest) {tx : Tx} (notify : Bool)
    (hidle : Idle q (unmarked tx (t::rest))) : Kept (failTask cfg i w t rest notify tx q) := by
  have hmarked : ∀ r ∈ (markFailed cfg t.id q).tasks, r.status = .pending ∨ r.status = .failed →
      (r.retryCount : ℤ) < r.maxRetries := by
    intro r hr hstatus
    rcases mem_update hr with ⟨s, -, -, rfl⟩ | ⟨hr, -⟩
    · rcases failed_status cfg q.clock s with hdead | ⟨-, hcount, hmax, hagain⟩
      · rw [hdead] at hstatus
        simp at hstatus
      · rw [hcount, hmax]
        exact hagain
    · exact h.selectable r hr hstatus
  have hrunning : ∀ r ∈ (markFailed cfg t.id q).tasks, r.status = .running →
      r ∈ q.tasks ∧ r.id ≠ t.id := by
    intro r hr hstatus
    rcases mem_update hr with ⟨s, -, -, rfl⟩ | hr
    · rcases failed_status cfg q.clock s with hdead | ⟨hfailed, -⟩
      · rw [hdead] at hstatus
        cases hstatus
      · rw [hfailed] at hstatus
        cases hstatus
    · exact hr
  cases tx with
  | committed =>
    refine Kept.step hw hmarked fun r hr hstatus => ?_
    obtain ⟨hmem, hne⟩ := hrunning r hr hstatus
    have hrest : (if isDead t.id q && notify then { w with phase := .notifying rest }
        else w.process rest).batch = rest := by
      split
      · rfl
      · exact Worker.batch_process w rest
    by_cases hin : ∃ t' ∈ rest, t'.id = r.id
    · rw [if_pos rfl, hrest]
      exact Or.inl hin
    · refine Or.inr ⟨h.running r hmem hstatus, fun t' ht' hid => ?_⟩
      rw [hbatch] at ht'
      rcases List.mem_cons.mp ht' with rfl | ht'
      · exact hne hid.symm
      · exact hin ⟨t', ht', hid⟩
  | rolledBack =>
    refine Kept.step hw h.selectable fun r hr hstatus => ?_
    refine Or.inr ⟨h.running r hr hstatus, fun t' ht' hid => ?_⟩
    rw [hbatch] at ht'
    exact hidle t' ht' r hr hid.symm hstatus
  | raisedAfterCommit =>
    refine Kept.step hw hmarked fun r hr hstatus => ?_
    obtain ⟨hmem, hne⟩ := hrunning r hr hstatus
    refine Or.inr ⟨h.running r hmem hstatus, fun t' ht' hid => ?_⟩
    rw [hbatch] at ht'
    rcases List.mem_cons.mp ht' with rfl | ht'
    · exact hne hid.symm
    · exact hidle t' ht' r hmem hid.symm hstatus

/-- A step that leaves the rows alone and keeps the batch. -/
theorem Kept.keep (h : Kept q) {i : ℕ} {w v : Worker π} (hw : q.workers[i]? = some w)
    (hbatch : v.batch = w.batch) (trades : List (TradeRow π)) : Kept ({ q with trades }.put i v) := by
  have hrunning : ∀ r ∈ q.tasks, r.status = .running →
      (∃ t ∈ v.batch, t.id = r.id) ∨ Held q r.id ∧ ∀ t ∈ w.batch, t.id ≠ r.id := by
    intro r hr hstatus
    by_cases hin : ∃ t ∈ w.batch, t.id = r.id
    · rw [hbatch]
      exact Or.inl hin
    · exact Or.inr ⟨h.running r hr hstatus, fun t ht hid => hin ⟨t, ht, hid⟩⟩
  exact Kept.step (w := w) hw h.selectable hrunning

theorem Kept.stay (h : Kept q) {i : ℕ} {w v : Worker π} (hw : q.workers[i]? = some w)
    (hbatch : v.batch = w.batch) : Kept (q.put i v) := h.keep hw hbatch q.trades

/-- A worker leaves a batch of which nothing is running. -/
theorem Kept.leave (h : Kept q) {i : ℕ} {w v : Worker π} (hw : q.workers[i]? = some w)
    (hidle : Idle q w.batch) : Kept (q.put i v) := by
  refine Kept.step hw h.selectable fun r hr hstatus => ?_
  refine Or.inr ⟨h.running r hr hstatus, fun t ht hid => ?_⟩
  exact hidle t ht r hr hid.symm hstatus

theorem mem_dequeue {taken : List ℕ} {r : TaskRow π} (h : r ∈ (dequeue taken q).tasks) :
    r.status = .running ∧ r.id ∈ taken ∨ r ∈ q.tasks ∧ r.id ∉ taken := by
  obtain ⟨s, hs, rfl⟩ := List.mem_map.mp h
  by_cases hid : s.id ∈ taken
  · rw [if_pos hid]
    exact Or.inl ⟨rfl, hid⟩
  · rw [if_neg hid]
    exact Or.inr ⟨hs, hid⟩

/-- What `dequeue` switches to running goes into the batch. -/
theorem Kept.dequeue (h : Kept q) {i : ℕ} {w : Worker π} (hw : q.workers[i]? = some w)
    (hempty : w.batch = []) (batch : List (TaskRow π)) :
    Kept ((dequeue (batch.map TaskRow.id) q).put i (w.process batch)) := by
  refine Kept.step hw ?_ ?_
  · intro r hr hstatus
    rcases mem_dequeue hr with ⟨hrunning, -⟩ | ⟨hr, -⟩
    · rw [hrunning] at hstatus
      simp at hstatus
    · exact h.selectable r hr hstatus
  · intro r hr hstatus
    rcases mem_dequeue hr with ⟨-, htaken⟩ | ⟨hr, -⟩
    · rw [Worker.batch_process]
      exact Or.inl (List.mem_map.mp htaken)
    · exact Or.inr ⟨h.running r hr hstatus, by simp [hempty]⟩

theorem dequeue_nil (q : Queue π) : dequeue [] q = q := by simp [dequeue]

theorem Kept.markCompleted (h : Kept q) {i : ℕ} {w v : Worker π} (hw : q.workers[i]? = some w)
    {t : TaskRow π} (hkeeps : ∀ t' ∈ w.batch, t'.id ≠ t.id → ∃ s ∈ v.batch, s.id = t'.id) :
    Kept ((markCompleted t.id q).put i v) := by
  refine Kept.step hw ?_ ?_
  · intro r hr hstatus
    rcases mem_update hr with ⟨s, -, -, rfl⟩ | ⟨hr, -⟩
    · simp at hstatus
    · exact h.selectable r hr hstatus
  · intro r hr hstatus
    rcases mem_update hr with ⟨s, -, -, rfl⟩ | ⟨hr, hne⟩
    · cases hstatus
    · by_cases hin : ∃ t' ∈ w.batch, t'.id = r.id
      · obtain ⟨t', ht', hid⟩ := hin
        obtain ⟨s, hs, hsid⟩ := hkeeps t' ht' (hid ▸ hne)
        exact Or.inl ⟨s, hs, hsid.trans hid⟩
      · exact Or.inr ⟨h.running r hr hstatus, fun t' ht' hid => hin ⟨t', ht', hid⟩⟩

theorem Kept.cleanup (h : Kept q) {i : ℕ} {w : Worker π} (hw : q.workers[i]? = some w)
    (hempty : w.batch = []) (v : Worker π) : Kept ((cleanupOldTasks q).put i v) := by
  refine Kept.step hw ?_ ?_
  · intro r hr hstatus
    exact h.selectable r (List.mem_filter.mp hr).1 hstatus
  · intro r hr hstatus
    exact Or.inr ⟨h.running r (List.mem_filter.mp hr).1 hstatus, by simp [hempty]⟩

theorem Kept.work (h : Kept q) {i : ℕ} {w : Worker π} (hw : q.workers[i]? = some w) {tx : Tx}
    {locked : List ℕ} (htidy : Tidy cfg q w tx locked) : Kept (work cfg i w tx locked q) := by
  obtain ⟨phase, pollCount, running⟩ := w
  unfold TaskQueue.work
  cases phase with
  | polling =>
    cases tx with
    | committed => exact h.dequeue hw rfl (selected cfg locked q)
    | rolledBack =>
      apply h.stay hw
      rfl
    | raisedAfterCommit =>
      have hnone : selected cfg locked q = [] := List.isEmpty_iff.mp (htidy rfl)
      have hsame : TaskQueue.dequeue ((selected cfg locked q).map TaskRow.id) q = q := by
        rw [hnone]
        exact dequeue_nil q
      simp only [Queue.transact_raisedAfterCommit, hsame]
      apply h.stay hw
      rfl
  | handling batch =>
    cases batch with
    | nil => exact h
    | cons t rest =>
      dsimp only
      split
      · have hdone : Kept ((execute t q).put i ⟨.completing (t::rest), pollCount, running⟩) ∧
            Kept ((execute t q).put i ⟨.failing (t::rest), pollCount, running⟩) := by
          constructor <;> apply h.keep hw <;> rfl
        cases tx with
        | committed => exact hdone.1
        | rolledBack =>
          apply h.stay hw
          rfl
        | raisedAfterCommit => exact hdone.2
      · rename_i hunregistered
        exact h.failTask hw rfl false (htidy (by simpa using hunregistered))
  | completing batch =>
    cases batch with
    | nil => exact h
    | cons t rest =>
      cases tx with
      | committed =>
        refine h.markCompleted hw fun t' ht' hne => ?_
        rcases List.mem_cons.mp ht' with rfl | ht'
        · exact absurd rfl hne
        · exact ⟨t', by simpa [Worker.batch_process] using ht', rfl⟩
      | rolledBack =>
        apply h.stay hw
        rfl
      | raisedAfterCommit => exact h.markCompleted hw fun t' ht' _ => ⟨t', ht', rfl⟩
  | failing batch =>
    cases batch with
    | nil => exact h
    | cons t rest => exact h.failTask hw rfl true htidy
  | notifying batch => exact h.stay hw (Worker.batch_process _ batch)
  | cleaning =>
    cases tx with
    | rolledBack =>
      apply h.stay hw
      rfl
    | committed => exact h.cleanup hw rfl _
    | raisedAfterCommit => exact h.cleanup hw rfl _
  | sleeping =>
    dsimp only
    split <;> apply h.stay hw <;> rfl
  | stopped => exact h

theorem Kept.enqueue (h : Kept q) (args : EnqueueArgs π) {tx : Tx}
    (hretries : tx ≠ .rolledBack → duplicate args.idempotencyKey q = false →
      0 < args.maxRetries.getD cfg.maxRetries) : Kept (enqueue cfg args tx q) := by
  unfold TaskQueue.enqueue Queue.transact
  split
  · exact h
  · rename_i hnew
    split
    · exact h
    · rename_i heffect
      have hpositive := hretries heffect (by simpa using hnew)
      refine ⟨fun r hr hstatus => ?_, fun r hr hstatus => ?_⟩
      · rcases List.mem_append.mp hr with hr | hr
        · exact h.selectable r hr hstatus
        · obtain rfl := List.mem_singleton.mp hr
          simpa using hpositive
      · rcases List.mem_append.mp hr with hr | hr
        · exact h.running r hr hstatus
        · obtain rfl := List.mem_singleton.mp hr
          cases hstatus

theorem kept_step (h : Kept q) {e : Event π} (htended : Tended cfg q e) : Kept (step cfg q e) := by
  cases e with
  | tick now => exact ⟨h.selectable, h.running⟩
  | enqueue args tx => exact h.enqueue args htended
  | start =>
    refine ⟨h.selectable, fun r hr hstatus => ?_⟩
    obtain ⟨w, hw, hheld⟩ := h.running r hr hstatus
    exact ⟨w, List.mem_append_left _ hw, hheld⟩
  | work i tx locked =>
    simp only [step]
    cases hw : q.workers[i]? with
    | none => exact h
    | some w => exact h.work hw (htended w hw)
  | cancel i =>
    simp only [step]
    cases hw : q.workers[i]? with
    | none => exact h
    | some w =>
      dsimp only
      split
      · rename_i hsuspended
        exact h.leave hw (htended w hw hsuspended)
      · exact h
  | crash i =>
    simp only [step]
    cases hw : q.workers[i]? with
    | none => exact h
    | some w => exact h.leave hw (htended w hw)
  | stop i =>
    simp only [step]
    cases hw : q.workers[i]? with
    | none => exact h
    | some w =>
      apply h.stay hw
      rfl

/-- In every run whose workers leave no running task behind, no task is lost. -/
theorem no_task_lost (cfg : Settings) (now : ℚ) (events : List (Event π))
    (htended : Meets (step cfg) (Tended cfg) { clock := now } events) :
    Kept (run (step cfg) { clock := now } events) := by
  have hstart : Kept ({ clock := now } : Queue π) := ⟨by simp, by simp⟩
  have hstep : ∀ (q : Queue π) (e : Event π), Kept q → Tended cfg q e → Kept (step cfg q e) :=
    fun _ _ h htended => kept_step h htended
  exact invariant hstep hstart htended

/-- Two tasks are taken at once; the first one fails and is tried again, then the worker is
cancelled in its sleep. -/
def retryingRun : List (Event Unit) :=
  [.start, .enqueue { taskType := recordTrade, payload := () } .committed,
    .enqueue { taskType := "telegram_notify", payload := () } .committed, .work 0 .committed [],
    .work 0 .rolledBack [], .work 0 .committed [], .work 0 .committed [], .work 0 .committed [],
    .tick 161, .work 0 .committed [], .work 0 .committed [], .work 0 .committed [],
    .work 0 .committed [], .cancel 0]

theorem no_task_lost_retrying : Kept (run (step .defaults) { clock := 100 } retryingRun) :=
  no_task_lost .defaults 100 retryingRun (by decide +kernel)

/-- A worker crashes in the handler of the task it has taken. -/
def crashingRun : List (Event Unit) :=
  [.start, .enqueue { taskType := recordTrade, payload := () } .committed, .work 0 .committed [], .crash 0]

theorem crashing_loses : ¬ ∀ (cfg : Settings) (now : ℚ) (events : List (Event Unit)),
    Kept (run (step cfg) { clock := now } events) := by
  intro h
  have hkept := h .defaults 100 crashingRun
  have hrow : ∃ r ∈ (run (step .defaults) { clock := 100 } crashingRun).tasks, r.status = .running := by
    decide +kernel
  obtain ⟨r, hr, hstatus⟩ := hrow
  obtain ⟨w, hw, t, ht, -⟩ := hkept.running r hr hstatus
  have hidle : ∀ w ∈ (run (step .defaults) { clock := 100 } crashingRun).workers, w.batch.isEmpty = true := by
    decide +kernel
  rw [List.isEmpty_iff.mp (hidle w hw)] at ht
  simp at ht

end KisAutotrader.TaskQueue.TaskKeeping
