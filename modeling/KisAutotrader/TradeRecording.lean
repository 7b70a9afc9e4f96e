import KisAutotrader.TaskQueue

/-!
# Each fill is recorded once

The handler of a `record_trade` task commits its row before the task is marked,
so a task that is tried again after that commit is recorded again.
-/
namespace KisAutotrader.TaskQueue.TradeRecording
open Interleaving

variable {π : Type} {cfg : Settings} {q : Queue π}

/-- The rows of `trades` that the task has written. -/
def written (id : ℕ) (trades : List (TradeRow π)) : ℕ := (trades.map TradeRow.task).count id

/-- A completed `record_trade` task has its row, and no task has two. -/
structure RecordedOnce (q : Queue π) : Prop where
  completed : ∀ r ∈ q.tasks, r.taskType = recordTrade → r.status = .completed → written r.id q.trades = 1
  once : ∀ id, written id q.trades ≤ 1

/-- `mark_failed` gives the task another attempt. -/
def Again (id : ℕ) (q : Queue π) : Prop :=
  ∃ r ∈ q.tasks, r.id = id ∧ ((r.retryCount + 1 : ℕ) : ℤ) < r.maxRetries

/-- A task that gets another attempt has not written its row yet. -/
def RetriedUnwritten (q : Queue π) : Event π → Prop
  | .work i tx _ => ∀ w ∈ q.workers[i]?,
      match w.phase with
      | .failing (t::_) => tx ≠ .rolledBack → Again t.id q → written t.id q.trades = 0
      | _ => True
  | _ => True

instance (id : ℕ) (q : Queue π) : Decidable (Again id q) :=
  inferInstanceAs (Decidable (∃ r ∈ q.tasks, _))

instance (q : Queue π) (e : Event π) : Decidable (RetriedUnwritten q e) :=
  match e with
  | .work i tx _ =>
      have (w : Worker π) : Decidable (match w.phase with
          | .failing (t::_) => tx ≠ .rolledBack → Again t.id q → written t.id q.trades = 0
          | _ => True) :=
        match w.phase with
        | .failing (t::_) => inferInstanceAs (Decidable (_ → Again t.id q → _))
        | .failing [] | .polling | .handling _ | .completing _ | .notifying _ | .cleaning
        | .sleeping | .stopped => isTrue trivial
      inferInstanceAs (Decidable (∀ w ∈ q.workers[i]?, _))
  | .tick _ | .enqueue .. | .start | .cancel _ | .crash _ | .stop _ => isTrue trivial

/-- How often the task stands in the batch of a worker. -/
def holding (id : ℕ) (w : Worker π) : ℕ := (w.batch.map TaskRow.id).count id

def holders (id : ℕ) (q : Queue π) : ℕ := tally (holding id) q.workers

/-- What is written of the tasks a worker has in its batch. -/
def Ready (trades : List (TradeRow π)) (w : Worker π) : Prop :=
  match w.phase with
  | .handling batch => ∀ t ∈ batch, written t.id trades = 0
  | .completing (t::rest) => (t.taskType = recordTrade → written t.id trades = 1) ∧
      ∀ t ∈ rest, written t.id trades = 0
  | .failing (_::rest) => ∀ t ∈ rest, written t.id trades = 0
  | .notifying rest => ∀ t ∈ rest, written t.id trades = 0
  | _ => True

/-- Every task is in one place, and has written its row at most once. -/
structure Sound (q : Queue π) : Prop where
  ids : (q.tasks.map TaskRow.id).Nodup
  fresh : ∀ r ∈ q.tasks, r.id < q.nextId
  traded : ∀ x ∈ q.trades, x.task < q.nextId
  bounded : ∀ w ∈ q.workers, ∀ t ∈ w.batch, t.id < q.nextId
  types : ∀ w ∈ q.workers, ∀ t ∈ w.batch, ∀ r ∈ q.tasks, r.id = t.id → r.taskType = t.taskType
  held : ∀ id, holders id q ≤ 1
  waiting : ∀ r ∈ q.tasks, r.status = .pending ∨ r.status = .failed →
    written r.id q.trades = 0 ∧ holders r.id q = 0
  completed : ∀ r ∈ q.tasks, r.taskType = recordTrade → r.status = .completed → written r.id q.trades = 1
  once : ∀ id, written id q.trades ≤ 1
  ready : ∀ w ∈ q.workers, Ready q.trades w

/-- A batch that no worker has, of tasks that no worker can take. -/
structure Free (q : Queue π) (batch : List (TaskRow π)) : Prop where
  nodup : (batch.map TaskRow.id).Nodup
  bounded : ∀ t ∈ batch, t.id < q.nextId
  types : ∀ t ∈ batch, ∀ r ∈ q.tasks, r.id = t.id → r.taskType = t.taskType
  unheld : ∀ t ∈ batch, holders t.id q = 0
  busy : ∀ t ∈ batch, ∀ r ∈ q.tasks, r.id = t.id → ¬ (r.status = .pending ∨ r.status = .failed)

theorem holding_pos {w : Worker π} {t : TaskRow π} (ht : t ∈ w.batch) : 0 < holding t.id w :=
  List.count_pos_iff.mpr (List.mem_map_of_mem ht)

theorem holding_le_holders {id : ℕ} {w : Worker π} (hw : w ∈ q.workers) : holding id w ≤ holders id q :=
  le_tally hw

theorem Free.rest {t : TaskRow π} {rest : List (TaskRow π)} (h : Free q (t::rest)) : Free q rest :=
  ⟨(List.nodup_cons.mp h.nodup).2, fun s hs => h.bounded s (List.mem_cons_of_mem t hs),
    fun s hs => h.types s (List.mem_cons_of_mem t hs), fun s hs => h.unheld s (List.mem_cons_of_mem t hs),
    fun s hs => h.busy s (List.mem_cons_of_mem t hs)⟩

theorem Free.empty : Free q ([] : List (TaskRow π)) :=
  ⟨List.nodup_nil, by simp, by simp, by simp, by simp⟩

theorem Free.ne {t s : TaskRow π} {rest : List (TaskRow π)} (h : Free q (t::rest)) (hs : s ∈ rest) :
    s.id ≠ t.id := by
  intro heq
  have hnot := (List.nodup_cons.mp h.nodup).1
  rw [← heq] at hnot
  exact hnot (List.mem_map_of_mem hs)

section Drop
variable {i : ℕ} {w v : Worker π}

theorem holders_put (id : ℕ) (hw : q.workers[i]? = some w) :
    holders id (q.put i v) + holding id w = holders id q + holding id v :=
  tally_set v hw

/-- A worker that drops its batch. -/
theorem Sound.drop (h : Sound q) (hw : q.workers[i]? = some w) (hempty : v.batch = [])
    (hready : ∀ trades, Ready trades v) : Sound (q.put i v) := by
  have hnone : ∀ id, holding id v = 0 := by
    intro id
    simp [holding, hempty]
  have hless : ∀ id, holders id (q.put i v) ≤ holders id q := by
    intro id
    have hput := holders_put (v := v) id hw
    have hzero := hnone id
    omega
  refine ⟨h.ids, h.fresh, h.traded, ?_, ?_, fun id => (hless id).trans (h.held id), ?_, h.completed,
    h.once, forall_set h.ready (hready q.trades)⟩
  · exact forall_set h.bounded (by simp [hempty])
  · exact forall_set h.types (by simp [hempty])
  · intro r hr hstatus
    have hwaiting := h.waiting r hr hstatus
    have hholders := hless r.id
    exact ⟨hwaiting.1, by omega⟩

/-- The batch it has dropped is free. -/
theorem Sound.free (h : Sound q) (hw : q.workers[i]? = some w) (hempty : v.batch = []) :
    Free (q.put i v) w.batch := by
  have hmem := List.mem_of_getElem? hw
  refine ⟨?_, h.bounded w hmem, h.types w hmem, fun t ht => ?_, fun t ht r hr hid hstatus => ?_⟩
  · refine List.nodup_iff_count_le_one.mpr fun id => ?_
    exact (holding_le_holders hmem).trans (h.held id)
  · have hput := holders_put (v := v) t.id hw
    have hone := h.held t.id
    have hpos := holding_pos ht
    have hzero : holding t.id v = 0 := by simp [holding, hempty]
    omega
  · have hzero := (h.waiting r hr hstatus).2
    have hpos := holding_pos ht
    have hle : holding t.id w ≤ holders t.id q := holding_le_holders hmem
    rw [hid] at hzero
    omega

/-- A worker with an empty batch takes a free one. -/
theorem Sound.take (h : Sound q) (hw : q.workers[i]? = some w) (hempty : w.batch = [])
    (hfree : Free q v.batch) (hready : Ready q.trades v) : Sound (q.put i v) := by
  have hput : ∀ id, holders id (q.put i v) = holders id q + holding id v := by
    intro id
    have hset := holders_put (v := v) id hw
    have hzero : holding id w = 0 := by simp [holding, hempty]
    omega
  have hother : ∀ id, (∀ t ∈ v.batch, t.id ≠ id) → holding id v = 0 := by
    intro id hne
    refine List.count_eq_zero.mpr fun hmem => ?_
    obtain ⟨t, ht, hid⟩ := List.mem_map.mp hmem
    exact hne t ht hid
  refine ⟨h.ids, h.fresh, h.traded, forall_set h.bounded hfree.bounded, forall_set h.types hfree.types,
    ?_, ?_, h.completed, h.once, forall_set h.ready hready⟩
  · intro id
    rw [hput]
    by_cases hin : ∃ t ∈ v.batch, t.id = id
    · obtain ⟨t, ht, rfl⟩ := hin
      rw [hfree.unheld t ht, Nat.zero_add]
      exact List.nodup_iff_count_le_one.mp hfree.nodup t.id
    · rw [hother id fun t ht hid => hin ⟨t, ht, hid⟩]
      exact h.held id
  · intro r hr hstatus
    obtain ⟨hwritten, hholders⟩ := h.waiting r hr hstatus
    refine ⟨hwritten, ?_⟩
    rw [hput, hholders, hother r.id fun t ht hid => hfree.busy t ht r hr hid.symm hstatus]

end Drop

section Effects

/-- A transaction that marks rows leaves their tasks where they are. -/
theorem Sound.mark (h : Sound q) {g : TaskRow π → TaskRow π} (hid : ∀ r, (g r).id = r.id)
    (htype : ∀ r, (g r).taskType = r.taskType)
    (hwaiting : ∀ r ∈ q.tasks, (g r).status = .pending ∨ (g r).status = .failed →
      written r.id q.trades = 0 ∧ holders r.id q = 0)
    (hcompleted : ∀ r ∈ q.tasks, r.taskType = recordTrade → (g r).status = .completed →
      written r.id q.trades = 1) : Sound { q with tasks := q.tasks.map g } := by
  have hids : (q.tasks.map g).map TaskRow.id = q.tasks.map TaskRow.id := by
    simp [Function.comp_def, hid]
  refine ⟨?_, ?_, h.traded, h.bounded, ?_, h.held, ?_, ?_, h.once, h.ready⟩
  · rw [hids]
    exact h.ids
  · intro r hr
    obtain ⟨s, hs, rfl⟩ := List.mem_map.mp hr
    rw [hid]
    exact h.fresh s hs
  · intro w hw t ht r hr hsame
    obtain ⟨s, hs, rfl⟩ := List.mem_map.mp hr
    rw [hid] at hsame
    rw [htype]
    exact h.types w hw t ht s hs hsame
  · intro r hr hstatus
    obtain ⟨s, hs, rfl⟩ := List.mem_map.mp hr
    rw [hid]
    exact hwaiting s hs hstatus
  · intro r hr hrecord hstatus
    obtain ⟨s, hs, rfl⟩ := List.mem_map.mp hr
    rw [htype] at hrecord
    rw [hid]
    exact hcompleted s hs hrecord hstatus

theorem Free.mark {batch : List (TaskRow π)} (h : Free q batch) {g : TaskRow π → TaskRow π}
    (hid : ∀ r, (g r).id = r.id) (htype : ∀ r, (g r).taskType = r.taskType)
    (hbusy : ∀ t ∈ batch, ∀ r ∈ q.tasks, r.id = t.id →
      ¬ ((g r).status = .pending ∨ (g r).status = .failed)) :
    Free { q with tasks := q.tasks.map g } batch := by
  refine ⟨h.nodup, h.bounded, ?_, h.unheld, ?_⟩
  · intro t ht r hr hsame
    obtain ⟨s, hs, rfl⟩ := List.mem_map.mp hr
    rw [hid] at hsame
    rw [htype]
    exact h.types t ht s hs hsame
  · intro t ht r hr hsame
    obtain ⟨s, hs, rfl⟩ := List.mem_map.mp hr
    rw [hid] at hsame
    exact hbusy t ht s hs hsame

theorem Sound.markCompleted {t : TaskRow π} {rest : List (TaskRow π)} (h : Sound q)
    (hfree : Free q (t::rest)) (hwritten : t.taskType = recordTrade → written t.id q.trades = 1) :
    Sound (markCompleted t.id q) ∧ Free (markCompleted t.id q) (t::rest) := by
  have hid : ∀ r : TaskRow π, (if r.id = t.id then { r with status := .completed } else r).id = r.id := by
    intro r
    split <;> rfl
  have htype : ∀ r : TaskRow π,
      (if r.id = t.id then { r with status := .completed } else r).taskType = r.taskType := by
    intro r
    split <;> rfl
  refine ⟨h.mark hid htype ?_ ?_, hfree.mark hid htype ?_⟩
  · intro r hr hstatus
    split at hstatus
    · simp at hstatus
    · exact h.waiting r hr hstatus
  · intro r hr hrecord hstatus
    split at hstatus
    · rename_i hsame
      have hsametype := hfree.types t List.mem_cons_self r hr hsame
      rw [hsame]
      exact hwritten (hsametype ▸ hrecord)
    · exact h.completed r hr hrecord hstatus
  · intro s hs r hr hsame hstatus
    split at hstatus
    · simp at hstatus
    · exact hfree.busy s hs r hr hsame hstatus

/-- `mark_failed` on a task that no worker has any more, and that has written nothing if it gets
another attempt. -/
theorem Sound.markFailed {t : TaskRow π} {rest : List (TaskRow π)} (h : Sound q)
    (hfree : Free q (t::rest)) (hwritten : Again t.id q → written t.id q.trades = 0) :
    Sound (markFailed cfg t.id q) ∧ Free (markFailed cfg t.id q) rest := by
  have hid : ∀ r : TaskRow π, (if r.id = t.id then r.failed cfg q.clock else r).id = r.id := by
    intro r
    split
    · exact failed_id cfg q.clock r
    · rfl
  have htype : ∀ r : TaskRow π,
      (if r.id = t.id then r.failed cfg q.clock else r).taskType = r.taskType := by
    intro r
    split
    · exact failed_taskType cfg q.clock r
    · rfl
  refine ⟨h.mark hid htype ?_ ?_, hfree.rest.mark hid htype ?_⟩
  · intro r hr hstatus
    split at hstatus
    · rename_i hsame
      have hagain : Again t.id q := by
        rcases failed_status cfg q.clock r with hdead | ⟨-, -, -, hagain⟩
        · rw [hdead] at hstatus
          simp at hstatus
        · exact ⟨r, hr, hsame, hagain⟩
      rw [hsame]
      exact ⟨hwritten hagain, hfree.unheld t List.mem_cons_self⟩
    · exact h.waiting r hr hstatus
  · intro r hr hrecord hstatus
    split at hstatus
    · rcases failed_status cfg q.clock r with hdead | ⟨hfailed, -⟩
      · rw [hdead] at hstatus
        cases hstatus
      · rw [hfailed] at hstatus
        cases hstatus
    · exact h.completed r hr hrecord hstatus
  · intro s hs r hr hsame
    have hne : r.id ≠ t.id := by
      rw [hsame]
      exact hfree.ne hs
    rw [if_neg hne]
    exact hfree.rest.busy s hs r hr hsame

theorem written_snoc (id : ℕ) (trades : List (TradeRow π)) (x : TradeRow π) :
    written id (trades ++ [x]) = written id trades + if x.task = id then 1 else 0 := by
  simp [written, List.count_singleton]

theorem Ready.of_written {trades trades' : List (TradeRow π)} {w : Worker π} (h : Ready trades w)
    (hsame : ∀ t ∈ w.batch, written t.id trades' = written t.id trades) : Ready trades' w := by
  obtain ⟨phase, pollCount, running⟩ := w
  cases phase with
  | handling batch => exact fun t ht => (hsame t ht).trans (h t ht)
  | completing batch =>
    cases batch with
    | nil => trivial
    | cons t rest =>
      refine ⟨fun hrecord => (hsame t List.mem_cons_self).trans (h.1 hrecord), fun s hs => ?_⟩
      exact (hsame s (List.mem_cons_of_mem t hs)).trans (h.2 s hs)
  | failing batch =>
    cases batch with
    | nil => trivial
    | cons t rest => exact fun s hs => (hsame s (List.mem_cons_of_mem t hs)).trans (h s hs)
  | notifying batch => exact fun t ht => (hsame t ht).trans (h t ht)
  | _ => trivial

/-- The handler writes the row of a task that is in its hands alone. -/
theorem Sound.execute {t : TaskRow π} {rest : List (TaskRow π)} (h : Sound q)
    (hfree : Free q (t::rest)) (hwritten : ∀ s ∈ t::rest, written s.id q.trades = 0) :
    Sound (execute t q) ∧ Free (execute t q) (t::rest) ∧
      (t.taskType = recordTrade → written t.id (execute t q).trades = 1) ∧
      ∀ s ∈ rest, written s.id (execute t q).trades = 0 := by
  by_cases hrecord : t.taskType = recordTrade
  · simp only [TaskQueue.execute, hrecord, if_true]
    have hzero := hwritten t List.mem_cons_self
    have hself : written t.id (q.trades ++ [⟨t.id, t.payload⟩]) = 1 := by
      simp [written_snoc, hzero]
    have hother : ∀ id, id ≠ t.id → written id (q.trades ++ [⟨t.id, t.payload⟩]) = written id q.trades := by
      intro id hne
      simp [written_snoc, hne.symm]
    refine ⟨⟨h.ids, h.fresh, ?_, h.bounded, h.types, h.held, ?_, ?_, ?_, ?_⟩,
      ⟨hfree.nodup, hfree.bounded, hfree.types, hfree.unheld, hfree.busy⟩, fun _ => hself, ?_⟩
    · intro x hx
      rcases List.mem_append.mp hx with hx | hx
      · exact h.traded x hx
      · obtain rfl := List.mem_singleton.mp hx
        exact hfree.bounded t List.mem_cons_self
    · intro r hr hstatus
      have hne : r.id ≠ t.id := fun hsame => hfree.busy t List.mem_cons_self r hr hsame hstatus
      rw [hother r.id hne]
      exact h.waiting r hr hstatus
    · intro r hr hrecord' hstatus
      by_cases hsame : r.id = t.id
      · rw [hsame]
        exact hself
      · rw [hother r.id hsame]
        exact h.completed r hr hrecord' hstatus
    · intro id
      by_cases hsame : id = t.id
      · rw [hsame]
        exact hself.le
      · rw [hother id hsame]
        exact h.once id
    · intro w hw
      refine (h.ready w hw).of_written fun s hs => hother s.id fun hsame => ?_
      have hpos := holding_pos hs
      have hle : holding s.id w ≤ holders s.id q := holding_le_holders hw
      have hnone := hfree.unheld t List.mem_cons_self
      rw [← hsame] at hnone
      omega
    · intro s hs
      rw [hother s.id (hfree.ne hs)]
      exact hwritten s (List.mem_cons_of_mem t hs)
  · have hsame : TaskQueue.execute t q = q := by simp [TaskQueue.execute, hrecord]
    rw [hsame]
    exact ⟨h, hfree, fun hrecord' => absurd hrecord' hrecord,
      fun s hs => hwritten s (List.mem_cons_of_mem t hs)⟩

theorem Sound.cleanup (h : Sound q) : Sound (cleanupOldTasks q) := by
  have hmem : ∀ r ∈ (cleanupOldTasks q).tasks, r ∈ q.tasks := fun r hr => (List.mem_filter.mp hr).1
  refine ⟨?_, fun r hr => h.fresh r (hmem r hr), h.traded, h.bounded, ?_, h.held, ?_, ?_, h.once, h.ready⟩
  · exact h.ids.sublist (List.filter_sublist.map TaskRow.id)
  · exact fun w hw t ht r hr => h.types w hw t ht r (hmem r hr)
  · exact fun r hr => h.waiting r (hmem r hr)
  · exact fun r hr => h.completed r (hmem r hr)

/-- The rows `dequeue` takes become a free batch of unwritten tasks. -/
theorem Sound.dequeue (cfg : Settings) (h : Sound q) (locked : List ℕ) :
    let batch := selected cfg locked q
    let taken := batch.map TaskRow.id
    Sound (dequeue taken q) ∧ Free (dequeue taken q) batch ∧ ∀ t ∈ batch, written t.id q.trades = 0 := by
  intro batch taken
  have hid : ∀ r : TaskRow π, (if r.id ∈ taken then { r with status := .running } else r).id = r.id := by
    intro r
    split <;> rfl
  have htype : ∀ r : TaskRow π,
      (if r.id ∈ taken then { r with status := .running } else r).taskType = r.taskType := by
    intro r
    split <;> rfl
  have hsorted : ∀ t ∈ batch, t ∈ q.tasks ∧ (t.status = .pending ∨ t.status = .failed) := by
    intro t ht
    have hfilter := (List.mem_insertionSort TaskRow.before).mp (List.mem_of_mem_take ht)
    obtain ⟨hmem, hselectable⟩ := List.mem_filter.mp hfilter
    simp only [TaskRow.selectable, Bool.and_eq_true, decide_eq_true_eq] at hselectable
    exact ⟨hmem, hselectable.1.1.1⟩
  have hnodup : taken.Nodup := by
    have hfiltered : (((q.tasks.filter fun r => r.selectable q.clock && !locked.contains r.id)).map
        TaskRow.id).Nodup := h.ids.sublist (List.filter_sublist.map TaskRow.id)
    have hperm := (List.perm_insertionSort TaskRow.before
      (q.tasks.filter fun r => r.selectable q.clock && !locked.contains r.id)).map TaskRow.id
    exact (hperm.nodup_iff.mpr hfiltered).sublist ((List.take_sublist _ _).map TaskRow.id)
  have hsame : ∀ t ∈ batch, ∀ r ∈ q.tasks, r.id = t.id → r = t := by
    intro t ht r hr heq
    exact List.inj_on_of_nodup_map h.ids hr (hsorted t ht).1 heq
  have hdequeued : Sound (TaskQueue.dequeue taken q) := by
    refine h.mark hid htype ?_ ?_
    · intro r hr hstatus
      split at hstatus
      · simp at hstatus
      · exact h.waiting r hr hstatus
    · intro r hr hrecord hstatus
      split at hstatus
      · cases hstatus
      · exact h.completed r hr hrecord hstatus
  refine ⟨hdequeued, ⟨hnodup, ?_, ?_, ?_, ?_⟩, ?_⟩
  · intro t ht
    exact h.fresh t (hsorted t ht).1
  · intro t ht r hr heq
    obtain ⟨s, hs, rfl⟩ := List.mem_map.mp hr
    rw [hid] at heq
    rw [htype, hsame t ht s hs heq]
  · intro t ht
    obtain ⟨hmem, hstatus⟩ := hsorted t ht
    exact (h.waiting t hmem hstatus).2
  · intro t ht r hr heq hstatus
    obtain ⟨s, hs, rfl⟩ := List.mem_map.mp hr
    rw [hid] at heq
    have htaken : s.id ∈ taken := by
      rw [heq]
      exact List.mem_map_of_mem ht
    rw [if_pos htaken] at hstatus
    simp at hstatus
  · intro t ht
    obtain ⟨hmem, hstatus⟩ := hsorted t ht
    exact (h.waiting t hmem hstatus).1

end Effects

section Steps
variable {i : ℕ} {w : Worker π}

theorem ready_process {trades : List (TradeRow π)} {batch : List (TaskRow π)}
    (h : ∀ t ∈ batch, written t.id trades = 0) (w : Worker π) : Ready trades (w.process batch) := by
  unfold Worker.process
  cases batch with
  | nil =>
    simp only [List.isEmpty_nil, if_true, Worker.polled]
    split <;> trivial
  | cons t rest => exact h

theorem put_put (i : ℕ) (v u : Worker π) (q : Queue π) : (q.put i v).put i u = q.put i u := by
  simp [Queue.put]

theorem stopped_get (hw : q.workers[i]? = some w) :
    (q.put i w.stopped).workers[i]? = some w.stopped := by
  have hi := (List.getElem?_eq_some_iff.mp hw).1
  simp [Queue.put, hi]

/-- The worker drops its batch, its transaction takes effect, and it takes on what is left. -/
theorem Sound.resume {tasks : List (TaskRow π)} {trades : List (TradeRow π)} {v : Worker π}
    (hw : q.workers[i]? = some w) (heffect : Sound { q.put i w.stopped with tasks, trades })
    (hfree : Free { q.put i w.stopped with tasks, trades } v.batch) (hready : Ready trades v) :
    Sound ({ q with tasks, trades }.put i v) := by
  have hagain : { q with tasks, trades }.put i v = { q.put i w.stopped with tasks, trades }.put i v := by
    simp [Queue.put]
  rw [hagain]
  exact heffect.take (stopped_get hw) rfl hfree hready

theorem Sound.stopped (h : Sound q) (hw : q.workers[i]? = some w) :
    Sound (q.put i w.stopped) ∧ Free (q.put i w.stopped) w.batch :=
  ⟨h.drop hw rfl fun _ => trivial, h.free hw rfl⟩

/-- A worker that goes on with the tasks of its batch. -/
theorem Sound.goOn (h : Sound q) (hw : q.workers[i]? = some w) {v : Worker π} (hbatch : v.batch = w.batch)
    (hready : Ready q.trades v) : Sound (q.put i v) := by
  obtain ⟨hstopped, hfree⟩ := h.stopped hw
  rw [← put_put i w.stopped v]
  exact hstopped.take (stopped_get hw) rfl (hbatch ▸ hfree) hready

theorem Sound.failTask (h : Sound q) (hw : q.workers[i]? = some w) {t : TaskRow π}
    {rest : List (TaskRow π)} (hbatch : w.batch = t::rest) (hrest : ∀ s ∈ rest, written s.id q.trades = 0)
    {tx : Tx} (notify : Bool) (hwritten : tx ≠ .rolledBack → Again t.id q → written t.id q.trades = 0) :
    Sound (failTask cfg i w t rest notify tx q) := by
  obtain ⟨hstopped, hfree⟩ := h.stopped hw
  rw [hbatch] at hfree
  unfold TaskQueue.failTask
  have hmarked : tx ≠ .rolledBack → Sound (TaskQueue.markFailed cfg t.id (q.put i w.stopped)) ∧
      Free (TaskQueue.markFailed cfg t.id (q.put i w.stopped)) rest :=
    fun heffect => hstopped.markFailed hfree (hwritten heffect)
  cases tx with
  | committed =>
    obtain ⟨hfailed, hfree'⟩ := hmarked (by simp)
    simp only [Queue.transact_committed, if_true]
    split
    · exact Sound.resume hw hfailed hfree' hrest
    · refine Sound.resume hw hfailed ?_ (ready_process hrest w)
      rw [Worker.batch_process]
      exact hfree'
  | rolledBack => exact h.drop hw rfl fun _ => trivial
  | raisedAfterCommit =>
    obtain ⟨hfailed, hfree'⟩ := hmarked (by simp)
    exact Sound.resume hw hfailed Free.empty trivial

theorem Sound.work (h : Sound q) (hw : q.workers[i]? = some w) {tx : Tx} {locked : List ℕ}
    (hcond : RetriedUnwritten q (.work i tx locked)) : Sound (work cfg i w tx locked q) := by
  have hready := h.ready w (List.mem_of_getElem? hw)
  have hunwritten := hcond w hw
  obtain ⟨hstopped, hfree⟩ := h.stopped hw
  obtain ⟨phase, pollCount, running⟩ := w
  unfold TaskQueue.work
  cases phase with
  | polling =>
    obtain ⟨hdequeued, hbatch, hfresh⟩ := hstopped.dequeue cfg locked
    cases tx with
    | committed =>
      simp only [Queue.transact_committed, if_true]
      refine Sound.resume hw hdequeued ?_ (ready_process hfresh _)
      rw [Worker.batch_process]
      exact hbatch
    | rolledBack => exact h.drop hw rfl fun _ => trivial
    | raisedAfterCommit => exact Sound.resume hw hdequeued Free.empty trivial
  | handling batch =>
    cases batch with
    | nil => exact h
    | cons t rest =>
      have hrest : ∀ s ∈ rest, written s.id q.trades = 0 := fun s hs => hready s (List.mem_cons_of_mem t hs)
      obtain ⟨hexecuted, hfree', hself, hothers⟩ := hstopped.execute hfree hready
      dsimp only
      split
      · cases tx with
        | committed =>
          simp only [Queue.transact_committed, if_true]
          exact Sound.resume hw hexecuted hfree' ⟨hself, hothers⟩
        | rolledBack =>
          apply h.goOn hw
          · rfl
          · exact hrest
        | raisedAfterCommit => exact Sound.resume hw hexecuted hfree' hothers
      · exact h.failTask hw rfl hrest false fun _ _ => hready t List.mem_cons_self
  | completing batch =>
    cases batch with
    | nil => exact h
    | cons t rest =>
      obtain ⟨hmarked, hfree'⟩ := hstopped.markCompleted hfree hready.1
      cases tx with
      | committed =>
        simp only [Queue.transact_committed, if_true]
        refine Sound.resume hw hmarked ?_ (ready_process hready.2 _)
        rw [Worker.batch_process]
        exact hfree'.rest
      | rolledBack =>
        apply h.goOn hw
        · rfl
        · exact hready.2
      | raisedAfterCommit => exact Sound.resume hw hmarked hfree' hready.2
  | failing batch =>
    cases batch with
    | nil => exact h
    | cons t rest => exact h.failTask hw rfl hready true hunwritten
  | notifying batch => exact h.goOn hw (Worker.batch_process _ batch) (ready_process hready _)
  | cleaning =>
    have hnone : Free (cleanupOldTasks (q.put i (Worker.stopped ⟨.cleaning, pollCount, running⟩)))
        (Worker.sleep ⟨.cleaning, pollCount, running⟩).batch := Free.empty
    cases tx with
    | rolledBack => exact h.drop hw rfl fun _ => trivial
    | committed => exact Sound.resume hw hstopped.cleanup hnone trivial
    | raisedAfterCommit => exact Sound.resume hw hstopped.cleanup hnone trivial
  | sleeping =>
    dsimp only
    split <;> exact h.drop hw rfl fun _ => trivial
  | stopped => exact h

theorem Sound.enqueue (h : Sound q) (args : EnqueueArgs π) (tx : Tx) : Sound (enqueue cfg args tx q) := by
  unfold TaskQueue.enqueue Queue.transact
  split
  · exact h
  · split
    · exact h
    · have hunwritten : written q.nextId q.trades = 0 := by
        refine List.count_eq_zero.mpr fun hmem => ?_
        obtain ⟨x, hx, heq⟩ := List.mem_map.mp hmem
        exact absurd heq (h.traded x hx).ne
      have hunheld : holders q.nextId q = 0 := by
        refine tally_eq_zero.mpr fun w hw => List.count_eq_zero.mpr fun hmem => ?_
        obtain ⟨t, ht, heq⟩ := List.mem_map.mp hmem
        exact absurd heq (h.bounded w hw t ht).ne
      refine ⟨?_, ?_, ?_, ?_, ?_, h.held, ?_, ?_, h.once, h.ready⟩
      · rw [List.map_append]
        refine List.nodup_append.mpr ⟨h.ids, by simp, fun a ha b hb => ?_⟩
        obtain ⟨r, hr, rfl⟩ := List.mem_map.mp ha
        obtain rfl : b = q.nextId := by simpa using hb
        exact (h.fresh r hr).ne
      · intro r hr
        rcases List.mem_append.mp hr with hr | hr
        · exact (h.fresh r hr).trans (Nat.lt_succ_self _)
        · obtain rfl := List.mem_singleton.mp hr
          exact Nat.lt_succ_self _
      · exact fun x hx => (h.traded x hx).trans (Nat.lt_succ_self _)
      · exact fun w hw t ht => (h.bounded w hw t ht).trans (Nat.lt_succ_self _)
      · intro w hw t ht r hr heq
        rcases List.mem_append.mp hr with hr | hr
        · exact h.types w hw t ht r hr heq
        · obtain rfl := List.mem_singleton.mp hr
          exact absurd heq.symm (h.bounded w hw t ht).ne
      · intro r hr hstatus
        rcases List.mem_append.mp hr with hr | hr
        · exact h.waiting r hr hstatus
        · obtain rfl := List.mem_singleton.mp hr
          exact ⟨hunwritten, hunheld⟩
      · intro r hr hrecord hstatus
        rcases List.mem_append.mp hr with hr | hr
        · exact h.completed r hr hrecord hstatus
        · obtain rfl := List.mem_singleton.mp hr
          cases hstatus

theorem sound_step (h : Sound q) {e : Event π} (hcond : RetriedUnwritten q e) : Sound (step cfg q e) := by
  cases e with
  | tick now =>
    exact ⟨h.ids, h.fresh, h.traded, h.bounded, h.types, h.held, h.waiting, h.completed, h.once, h.ready⟩
  | enqueue args tx => exact h.enqueue args tx
  | start =>
    have hholders : ∀ id, holders id { q with workers := q.workers ++ [{}] } = holders id q := by
      intro id
      simp [holders, holding, Worker.batch]
    refine ⟨h.ids, h.fresh, h.traded, ?_, ?_, fun id => (hholders id).trans_le (h.held id), ?_,
      h.completed, h.once, ?_⟩
    · intro w hw
      rcases List.mem_append.mp hw with hw | hw
      · exact h.bounded w hw
      · obtain rfl := List.mem_singleton.mp hw
        simp [Worker.batch]
    · intro w hw
      rcases List.mem_append.mp hw with hw | hw
      · exact h.types w hw
      · obtain rfl := List.mem_singleton.mp hw
        simp [Worker.batch]
    · intro r hr hstatus
      obtain ⟨hwritten, hunheld⟩ := h.waiting r hr hstatus
      exact ⟨hwritten, (hholders r.id).trans hunheld⟩
    · intro w hw
      rcases List.mem_append.mp hw with hw | hw
      · exact h.ready w hw
      · obtain rfl := List.mem_singleton.mp hw
        trivial
  | work i tx locked =>
    simp only [step]
    cases hw : q.workers[i]? with
    | none => exact h
    | some w => exact h.work hw hcond
  | cancel i =>
    simp only [step]
    cases hw : q.workers[i]? with
    | none => exact h
    | some w =>
      dsimp only
      split
      · exact h.drop hw rfl fun _ => trivial
      · exact h
  | crash i =>
    simp only [step]
    cases hw : q.workers[i]? with
    | none => exact h
    | some w => exact h.drop hw rfl fun _ => trivial
  | stop i =>
    simp only [step]
    cases hw : q.workers[i]? with
    | none => exact h
    | some w =>
      apply h.goOn hw
      · rfl
      · exact h.ready w (List.mem_of_getElem? hw)

end Steps

/-- In every run that retries only tasks without a row, each fill is recorded once. -/
theorem recorded_once (cfg : Settings) (now : ℚ) (events : List (Event π))
    (hretried : Meets (step cfg) RetriedUnwritten { clock := now } events) :
    RecordedOnce (run (step cfg) { clock := now } events) := by
  have hstart : Sound ({ clock := now } : Queue π) :=
    ⟨List.nodup_nil, by simp, by simp, by simp, by simp, by simp [holders], by simp, by simp,
      by simp [written], by simp⟩
  have hstep : ∀ (q : Queue π) (e : Event π), Sound q → RetriedUnwritten q e → Sound (step cfg q e) :=
    fun _ _ h hcond => sound_step h hcond
  have hsound := invariant hstep hstart hretried
  exact ⟨hsound.completed, hsound.once⟩

/-- The handler's first transaction fails, its second one is committed. -/
def retriedRun : List (Event Unit) :=
  [.start, .enqueue { taskType := recordTrade, payload := () } .committed, .work 0 .committed [],
    .work 0 .rolledBack [], .work 0 .committed [], .work 0 .committed [], .tick 161,
    .work 0 .committed [], .work 0 .committed [], .work 0 .committed []]

theorem recorded_once_retried : RecordedOnce (run (step .defaults) { clock := 100 } retriedRun) :=
  recorded_once .defaults 100 retriedRun (by decide +kernel)

/-- The row is committed, `mark_completed` raises, and the task is tried again. -/
def unmarkedRun : List (Event Unit) :=
  [.start, .enqueue { taskType := recordTrade, payload := () } .committed, .work 0 .committed [],
    .work 0 .committed [], .work 0 .rolledBack [], .work 0 .committed [], .work 0 .committed [], .tick 161,
    .work 0 .committed [], .work 0 .committed [], .work 0 .committed []]

theorem unmarked_twice : ¬ ∀ (cfg : Settings) (now : ℚ) (events : List (Event Unit)),
    RecordedOnce (run (step cfg) { clock := now } events) := by
  intro h
  have honce := (h .defaults 100 unmarkedRun).once 0
  have htwo : written 0 (run (step .defaults) { clock := 100 } unmarkedRun).trades = 2 := by
    decide +kernel
  omega

end KisAutotrader.TaskQueue.TradeRecording
