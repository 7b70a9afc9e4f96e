import Mathlib.Data.List.Induction
import KisAutotrader.Proposals

/-!
# Runs of proposals

What any sequence of calls, accepted or rejected, leaves in the table.
-/
namespace KisAutotrader.Proposals
open OrderedDict Text

section Outcome
variable {P α β : Type}

/-- The result of a call with the table it leaves. -/
def outcome (c : Call P α) (t : Table P) : Except Error α × Table P := (ExceptT.run c).run t

@[simp] theorem outcome_pure (a : α) (t : Table P) : outcome (pure a) t = (.ok a, t) := rfl

@[simp] theorem outcome_throw (e : Error) (t : Table P) :
    outcome (throw e : Call P α) t = (.error e, t) := rfl

@[simp] theorem outcome_get (t : Table P) : outcome (get : Call P (Table P)) t = (.ok t, t) := rfl

@[simp] theorem outcome_set (s t : Table P) : outcome (set s : Call P PUnit) t = (.ok ⟨⟩, s) := rfl

@[simp] theorem outcome_modify (f : Table P → Table P) (t : Table P) :
    outcome (modify f : Call P PUnit) t = (.ok ⟨⟩, f t) := rfl

@[simp] theorem outcome_bind (c : Call P α) (k : α → Call P β) (t : Table P) :
    outcome (c >>= k) t =
      match outcome c t with
      | (.ok a, s) => outcome (k a) s
      | (.error e, s) => (.error e, s) := by
  simp only [outcome, ExceptT.run_bind, StateT.run_bind]
  rcases (ExceptT.run c).run t with ⟨e | a, s⟩ <;> rfl

@[simp] theorem outcome_map (f : α → β) (c : Call P α) (t : Table P) :
    outcome (f <$> c) t = ((outcome c t).1.map f, (outcome c t).2) := by
  rw [← bind_pure_comp, outcome_bind]
  rcases outcome c t with ⟨e | a, s⟩ <;> rfl

end Outcome

section Effects
variable {P : Type}

theorem Table.eq_of_get? {t : Table P} {id : ℕ} {p q : Proposal P} (hget : t.get? id = some p)
    (hq : q ∈ t.rows) (hid : q.id = id) : q = p := by
  have hp : p ∈ t.rows := List.mem_of_find?_eq_some hget
  have hpid : p.id = id := by simpa using List.find?_some hget
  exact List.inj_on_of_nodup_map t.ids hq hp (hid.trans hpid.symm)

theorem Table.get?_add (t : Table P) (p : Proposal P) (hnew : t.findByPath p.path = none) :
    (t.add p hnew).get? t.nextId = some { p with id := t.nextId } := by
  have hold : t.rows.find? (·.id = t.nextId) = none := by
    rw [List.find?_eq_none]
    intro q hq
    simpa using (t.fresh q hq).ne
  unfold Table.get? Table.add
  rw [List.find?_append, hold]
  simp

theorem outcome_require (id : ℕ) (t : Table P) :
    outcome (require id) t =
      match t.get? id with
      | none => (.error (.lookupError s!"Proposal id={id} not found"), t)
      | some p => (.ok p, t) := by
  unfold require
  rw [outcome_bind, outcome_get]
  cases hget : t.get? id <;> simp [hget]

theorem outcome_create (now : ℤ) (path title : String) (category : ImplementationCategory)
    (state : ProposalState) (priority : ProposalPriority) (t : Table P) :
    outcome (create now path title category state priority) t =
      if hnew : t.findByPath path = none then
        (.ok t.nextId, t.add (newProposal now path title category state priority) hnew)
      else (.error .integrityError, t) := by
  unfold create
  rw [outcome_bind, outcome_get]
  by_cases hnew : t.findByPath path = none
  · simp [hnew, Except.map]
  · simp [hnew]

theorem outcome_mark (id : ℕ) (required : List ProposalState) (message : Proposal P → String)
    (f : Proposal P → Proposal P) (hkeeps : ∀ p, (f p).id = p.id ∧ (f p).path = p.path)
    (t : Table P) :
    outcome (mark id required message f hkeeps) t =
      match t.get? id with
      | none => (.error (.lookupError s!"Proposal id={id} not found"), t)
      | some p =>
          if p.state ∈ required then (.ok (), t.edit id f hkeeps)
          else (.error (.valueError (message p)), t) := by
  unfold mark
  rw [outcome_bind, outcome_require]
  cases hget : t.get? id with
  | none => rfl
  | some p =>
      by_cases hstate : p.state ∈ required
      · simp [hstate]
      · simp [hstate]

theorem outcome_setPrediction (now : ℤ) (id : ℕ) (prediction : Option P) (t : Table P) :
    outcome (setPrediction now id prediction) t =
      match t.get? id with
      | none => (.error (.lookupError s!"Proposal id={id} not found"), t)
      | some _ =>
          (.ok (), t.edit id (fun p => { p with prediction, updatedAt := now }) fun _ => ⟨rfl, rfl⟩)
    := by
  unfold setPrediction
  rw [outcome_bind, outcome_require]
  cases t.get? id <;> simp

theorem Table.rows_edit_add (t : Table P) (p : Proposal P) (hnew : t.findByPath p.path = none)
    (f : Proposal P → Proposal P) (hkeeps : ∀ p, (f p).id = p.id ∧ (f p).path = p.path) :
    ((t.add p hnew).edit t.nextId f hkeeps).rows = t.rows ++ [f { p with id := t.nextId }] := by
  have hold : t.rows.map (fun q => if q.id = t.nextId then f q else q) = t.rows := by
    conv_rhs => rw [← List.map_id t.rows]
    apply List.map_congr_left
    intro q hq
    rw [if_neg (t.fresh q hq).ne]
    rfl
  unfold Table.edit Table.add
  simp [hold]

theorem outcome_create_new (now : ℤ) {path : String} (title : String)
    (category : ImplementationCategory) (state : ProposalState) (priority : ProposalPriority)
    {t : Table P} (hnew : t.findByPath path = none) :
    ∃ (p : Proposal P) (hp : t.findByPath p.path = none),
      outcome (create now path title category state priority) t = (.ok t.nextId, t.add p hp) ∧
        p.state = state ∧ p.cycleId = none := by
  refine ⟨newProposal now path title category state priority, hnew, ?_, rfl, rfl⟩
  rw [outcome_create, dif_pos hnew]

/-- A file that is synced is skipped or becomes a new row. -/
theorem outcome_syncFile (now : ℤ) (md : MarkdownFile P) (t : Table P) :
    (t.findByPath md.path ≠ none ∧ outcome (syncFile now md) t = (.ok (), t)) ∨
      (t.findByPath md.path = none ∧ ∃ p t', outcome (syncFile now md) t = (.ok (), t') ∧
        t'.rows = t.rows ++ [p] ∧ p.state = md.state ∧ p.cycleId = none) := by
  by_cases hnew : t.findByPath md.path = none
  · right
    refine ⟨hnew, ?_⟩
    obtain ⟨p, hp, hcreate, hstate, hcycle⟩ := outcome_create_new now
      (parseProposal md.stem md.text).title
      (coerceCategory (parseProposal md.stem md.text).category)
      (coerceState (parseProposal md.stem md.text).state)
      (coercePriority (parseProposal md.stem md.text).priority) hnew
    unfold syncFile
    cases hprediction : md.prediction with
    | none =>
        refine ⟨{ p with id := t.nextId }, t.add p hp, ?_, rfl, hstate, hcycle⟩
        simp [hnew, hcreate, Except.map]
    | some prediction =>
        let f : Proposal P → Proposal P := fun q =>
          { q with prediction := some prediction, updatedAt := now }
        refine ⟨f { p with id := t.nextId }, (t.add p hp).edit t.nextId f fun _ => ⟨rfl, rfl⟩, ?_,
          t.rows_edit_add p hp f _, hstate, hcycle⟩
        simp [hnew, hcreate, outcome_setPrediction, Table.get?_add, f]
  · left
    refine ⟨hnew, ?_⟩
    unfold syncFile
    simp [Option.isSome_iff_ne_none.mpr hnew]

end Effects

section Steps
variable {P : Type}

/-- The calls that write to the table. -/
inductive Op (P : Type) where
  | create (path title : String) (category : ImplementationCategory) (state : ProposalState)
      (priority : ProposalPriority)
  | syncFile (md : MarkdownFile P)
  | markInFlight (proposalId : ℕ) (cycleId : String)
  | markImplemented (proposalId : ℕ)
  | markFailed (proposalId : ℕ) (reason : String)
  | markSkipped (proposalId : ℕ) (reason : String)
  | setPrediction (proposalId : ℕ) (prediction : Option P)

def Op.call (now : ℤ) : Op P → Call P Unit
  | create path title category state priority => do
      let _ ← Proposals.create now path title category state priority
  | syncFile md => Proposals.syncFile now md
  | markInFlight proposalId cycleId => Proposals.markInFlight now proposalId cycleId
  | markImplemented proposalId => Proposals.markImplemented now proposalId
  | markFailed proposalId reason => Proposals.markFailed now proposalId reason
  | markSkipped proposalId reason => Proposals.markSkipped now proposalId reason
  | setPrediction proposalId prediction => Proposals.setPrediction now proposalId prediction

/-- A call together with the clock it reads. -/
abbrev TimedOp (P : Type) := ℤ × Op P

def step (t : Table P) (op : TimedOp P) : Table P := (outcome (op.2.call op.1) t).2

def Rejected (t : Table P) (op : TimedOp P) : Prop := ∃ e, (outcome (op.2.call op.1) t).1 = .error e

def after (ops : List (TimedOp P)) : Table P := ops.foldl step .empty

@[simp] theorem after_concat (ops : List (TimedOp P)) (op : TimedOp P) :
    after (ops ++ [op]) = step (after ops) op := by
  simp [after]

/-- The changes of state the repository documents. -/
inductive Transition : ProposalState → ProposalState → Prop where
  | start : Transition .ready .inFlight
  | implement : Transition .inFlight .implemented
  | fail : Transition .inFlight .failed
  | skipReady : Transition .ready .skipped
  | skipDraft : Transition .draft .skipped

def Proposal.Tracked (p : Proposal P) : Prop := p.state = .inFlight ↔ p.cycleId ≠ none

/-- What a call may make of a row. -/
structure Proposal.Becomes (p q : Proposal P) : Prop where
  id : q.id = p.id
  state : q.state = p.state ∨ Transition p.state q.state
  tracked : p.Tracked → q.Tracked

theorem Proposal.Becomes.refl (p : Proposal P) : p.Becomes p := ⟨rfl, .inl rfl, fun h => h⟩

/-- The call makes a new row that is in flight. -/
def Op.NamesInFlight (t : Table P) : Op P → Prop
  | create path _ _ state _ => t.findByPath path = none ∧ state = .inFlight
  | syncFile md => t.findByPath md.path = none ∧ md.state = .inFlight
  | _ => False

/-- What a call can do to the table. -/
structure Effect (t : Table P) (op : TimedOp P) (t' : Table P) : Prop where
  rejected : Rejected t op → t' = t
  rows : ∃ (g : Proposal P → Proposal P) (added : List (Proposal P)),
    t'.rows = t.rows.map g ++ added ∧ (∀ p ∈ t.rows, p.Becomes (g p)) ∧
      (∀ q ∈ added, q.cycleId = none ∧ (q.state = .inFlight ↔ op.2.NamesInFlight t)) ∧
      (op.2.NamesInFlight t → added ≠ [])

theorem Effect.unchanged {t t' : Table P} {op : TimedOp P} (ht : t' = t)
    (hnames : ¬ op.2.NamesInFlight t) : Effect t op t' where
  rejected _ := ht
  rows := ⟨id, [], by simp [ht], fun p _ => .refl p, by simp, fun h => absurd h hnames⟩

theorem effect_edit {t : Table P} {op : TimedOp P} {id : ℕ} {f : Proposal P → Proposal P}
    {hkeeps : ∀ p, (f p).id = p.id ∧ (f p).path = p.path}
    (hout : outcome (op.2.call op.1) t = (.ok (), t.edit id f hkeeps))
    (hnames : ¬ op.2.NamesInFlight t)
    (hbecomes : ∀ p ∈ t.rows, p.id = id → p.Becomes (f p)) : Effect t op (step t op) where
  rejected := by
    rintro ⟨e, he⟩
    rw [hout] at he
    cases he
  rows := by
    refine ⟨fun p => if p.id = id then f p else p, [], ?_, ?_, by simp, fun h => absurd h hnames⟩
    · simp [step, hout, Table.edit]
    · intro p hp
      by_cases hid : p.id = id
      · simpa [hid] using hbecomes p hp hid
      · simpa [hid] using Proposal.Becomes.refl p

theorem effect_mark {t : Table P} {op : TimedOp P} {id : ℕ} {required : List ProposalState}
    {message : Proposal P → String} {f : Proposal P → Proposal P}
    {hkeeps : ∀ p, (f p).id = p.id ∧ (f p).path = p.path}
    (hop : op.2.call op.1 = mark id required message f hkeeps) (hnames : ¬ op.2.NamesInFlight t)
    (hbecomes : ∀ p : Proposal P, p.state ∈ required → p.Becomes (f p)) :
    Effect t op (step t op) := by
  have hout := outcome_mark id required message f hkeeps t
  rw [← hop] at hout
  cases hget : t.get? id with
  | none =>
      rw [hget] at hout
      exact .unchanged (by simp [step, hout]) hnames
  | some found =>
      rw [hget] at hout
      by_cases hstate : found.state ∈ required
      · simp only [if_pos hstate] at hout
        apply effect_edit hout hnames
        intro p hp hid
        rw [Table.eq_of_get? hget hp hid]
        exact hbecomes found hstate
      · simp only [if_neg hstate] at hout
        exact .unchanged (by simp [step, hout]) hnames

/-- A call for rows of one state, each of which it moves on. -/
theorem effect_transition {t : Table P} {op : TimedOp P} {id : ℕ} {source target : ProposalState}
    {message : Proposal P → String} {f : Proposal P → Proposal P}
    {hkeeps : ∀ p, (f p).id = p.id ∧ (f p).path = p.path}
    (hop : op.2.call op.1 = mark id [source] message f hkeeps) (hnames : ¬ op.2.NamesInFlight t)
    (hmove : Transition source target) (hstate : ∀ p, (f p).state = target)
    (htracked : ∀ p, (f p).Tracked) : Effect t op (step t op) := by
  apply effect_mark hop hnames
  intro p hp
  refine ⟨(hkeeps p).1, .inr ?_, fun _ => htracked p⟩
  rw [List.mem_singleton.mp hp, hstate]
  exact hmove

theorem effect_added {t : Table P} {op : TimedOp P} {p : Proposal P}
    (hok : (outcome (op.2.call op.1) t).1 = .ok ()) (hrows : (step t op).rows = t.rows ++ [p])
    (hstate : p.state = .inFlight ↔ op.2.NamesInFlight t) (hcycle : p.cycleId = none) :
    Effect t op (step t op) where
  rejected := by
    rintro ⟨e, he⟩
    rw [hok] at he
    cases he
  rows := ⟨id, [p], by simp [hrows], fun q _ => .refl q, by simp [hstate, hcycle], by simp⟩

theorem step_effect (t : Table P) (op : TimedOp P) : Effect t op (step t op) := by
  obtain ⟨now, op⟩ := op
  cases op with
  | create path title category state priority =>
      by_cases hnew : t.findByPath path = none
      · obtain ⟨p, hp, hcreate, hstate, hcycle⟩ :=
          outcome_create_new now title category state priority hnew
        have hcall : outcome ((Op.create path title category state priority).call now) t =
            (.ok (), t.add p hp) := by
          simp [Op.call, hcreate, Except.map]
        apply effect_added (p := { p with id := t.nextId })
        · rw [hcall]
        · rw [step, hcall]
          rfl
        · simp [Op.NamesInFlight, hnew, hstate]
        · exact hcycle
      · apply Effect.unchanged
        · simp [step, Op.call, outcome_create, hnew]
        · exact fun h => hnew h.1
  | syncFile md =>
      rcases outcome_syncFile now md t with ⟨hold, hcall⟩ | ⟨hnew, p, t', hcall, hrows, hstate, hcycle⟩
      · apply Effect.unchanged
        · rw [step]
          exact congrArg Prod.snd hcall
        · exact fun h => hold h.1
      · apply effect_added (p := p)
        · exact congrArg Prod.fst hcall
        · rw [← hrows]
          exact congrArg (fun r => r.2.rows) hcall
        · simp [Op.NamesInFlight, hnew, hstate]
        · exact hcycle
  | markInFlight id cycleId =>
      apply effect_transition rfl ?_ .start fun p => rfl
      · simp [Proposal.Tracked]
      · exact not_false
  | markImplemented id =>
      apply effect_transition rfl ?_ .implement fun p => rfl
      · simp [Proposal.Tracked]
      · exact not_false
  | markFailed id reason =>
      apply effect_transition rfl ?_ .fail fun p => rfl
      · simp [Proposal.Tracked]
      · exact not_false
  | markSkipped id reason =>
      apply effect_mark rfl
      · exact not_false
      · intro p hp
        have hp : p.state = .ready ∨ p.state = .draft := by simpa using hp
        refine ⟨rfl, .inr ?_, fun htracked => ?_⟩
        · rcases hp with hready | hdraft
          · rw [hready]
            exact .skipReady
          · rw [hdraft]
            exact .skipDraft
        · -- the call leaves `cycle_id` as it is, which is null in the states it asks for
          have hcycle : p.cycleId = none := by
            by_contra hsome
            rcases hp with h | h <;> cases h.symm.trans (htracked.mpr hsome)
          simp [Proposal.Tracked, hcycle]
  | setPrediction id prediction =>
      have hout := outcome_setPrediction now id prediction t
      cases hget : t.get? id with
      | none =>
          rw [hget] at hout
          apply Effect.unchanged
          · exact congrArg Prod.snd hout
          · exact not_false
      | some found =>
          rw [hget] at hout
          exact effect_edit hout not_false fun p _ _ => ⟨rfl, .inl rfl, fun h => h⟩

end Steps

section Runs
variable {P : Type} {ops before rest : List (TimedOp P)} {op : TimedOp P}

theorem exists_becomes {t : Table P} {p : Proposal P} (op : TimedOp P) (hp : p ∈ t.rows) :
    ∃ q ∈ (step t op).rows, p.Becomes q := by
  obtain ⟨g, added, hrows, hbecomes, -, -⟩ := (step_effect t op).rows
  refine ⟨g p, ?_, hbecomes p hp⟩
  rw [hrows]
  exact List.mem_append_left _ (List.mem_map_of_mem hp)

theorem tracked_step {t : Table P} (htracked : ∀ p ∈ t.rows, p.Tracked)
    (hnames : ¬ op.2.NamesInFlight t) : ∀ p ∈ (step t op).rows, p.Tracked := by
  obtain ⟨g, added, hrows, hbecomes, hadded, -⟩ := (step_effect t op).rows
  intro q hq
  rw [hrows] at hq
  rcases List.mem_append.mp hq with hold | hnew
  · obtain ⟨p, hp, rfl⟩ := List.mem_map.mp hold
    exact (hbecomes p hp).tracked (htracked p hp)
  · obtain ⟨hcycle, hstate⟩ := hadded q hnew
    simp [Proposal.Tracked, hcycle, hstate, hnames]

theorem exists_untracked_step {t : Table P} (hnames : op.2.NamesInFlight t) :
    ∃ p ∈ (step t op).rows, ¬ p.Tracked := by
  obtain ⟨g, added, hrows, -, hadded, hne⟩ := (step_effect t op).rows
  obtain ⟨q, hq⟩ := List.exists_mem_of_ne_nil added (hne hnames)
  refine ⟨q, ?_, ?_⟩
  · rw [hrows]
    exact List.mem_append_right _ hq
  · obtain ⟨hcycle, hstate⟩ := hadded q hq
    simp [Proposal.Tracked, hcycle, hstate, hnames]

/-- No row of the run is created in flight. -/
def CreatesNoneInFlight (ops : List (TimedOp P)) : Prop :=
  ∀ before op, before ++ [op] <+: ops → ¬ op.2.NamesInFlight (after before)

theorem tracked_after (hnone : CreatesNoneInFlight ops) : ∀ p ∈ (after ops).rows, p.Tracked := by
  induction ops using List.reverseRecOn with
  | nil => simp [after, Table.empty]
  | append_singleton before op ih =>
      rw [after_concat]
      have hbefore : CreatesNoneInFlight before := fun earlier op' hbegins =>
        hnone earlier op' (hbegins.trans (List.prefix_append _ _))
      exact tracked_step (ih hbefore) (hnone before op List.prefix_rfl)

/-- The state of a row whose state is final is the same after any further calls. -/
theorem final_after {p : Proposal P} (rest : List (TimedOp P)) (hp : p ∈ (after before).rows)
    (hfinal : p.state ∈ [.implemented, .failed, .skipped]) :
    ∃ q ∈ (after (before ++ rest)).rows, q.id = p.id ∧ q.state = p.state := by
  induction rest using List.reverseRecOn with
  | nil => exact ⟨p, by simpa using hp, rfl, rfl⟩
  | append_singleton rest op ih =>
      obtain ⟨q, hq, hid, hstate⟩ := ih
      obtain ⟨r, hr, hbecomes⟩ := exists_becomes op hq
      refine ⟨r, by rwa [← List.append_assoc, after_concat], hbecomes.id.trans hid, ?_⟩
      rcases hbecomes.state with hsame | htransition
      · exact hsame.trans hstate
      · rw [hstate] at htransition
        revert htransition hfinal
        cases p.state <;> simp <;> intro h <;> cases h

theorem mem_listInFlightForCycle {t : Table P} {cycleId : String} {p : Proposal P} :
    p ∈ t.listInFlightForCycle cycleId ↔
      p ∈ t.rows ∧ p.state = .inFlight ∧ p.cycleId = some cycleId := by
  simp [Table.listInFlightForCycle]

/-- A proposal that is in flight is found under the cycle it names, and under no other. -/
theorem Proposal.Tracked.listed {t : Table P} {p : Proposal P} (htracked : p.Tracked)
    (hp : p ∈ t.rows) (hstate : p.state = .inFlight) :
    ∃! cycleId, p ∈ t.listInFlightForCycle cycleId := by
  obtain ⟨cycleId, hcycle⟩ := Option.ne_none_iff_exists'.mp (htracked.mp hstate)
  refine ⟨cycleId, mem_listInFlightForCycle.mpr ⟨hp, hstate, hcycle⟩, ?_⟩
  intro other hother
  exact (Option.some.inj (hcycle.symm.trans (mem_listInFlightForCycle.mp hother).2.2)).symm

/-- A loop of calls is a run, up to the call that raises. -/
theorem forM_run {α : Type} (now : ℤ) (f : α → Op P) (l : List α) (t : Table P) :
    ∃ calls, calls <+: l.map (fun a => (now, f a)) ∧
      (outcome (l.forM fun a => (f a).call now) t).2 = calls.foldl step t := by
  induction l generalizing t with
  | nil => exact ⟨[], List.prefix_rfl, rfl⟩
  | cons a l ih =>
      have hhead : (outcome ((f a).call now) t).2 = step t (now, f a) := rfl
      rw [List.forM, outcome_bind]
      rcases hout : outcome ((f a).call now) t with ⟨e | u, t'⟩
      · refine ⟨[(now, f a)], by simp, ?_⟩
        rw [List.foldl_cons, List.foldl_nil, ← hhead, hout]
      · obtain ⟨calls, hbegins, hcalls⟩ := ih t'
        refine ⟨(now, f a)::calls, by simpa using hbegins, ?_⟩
        rw [List.foldl_cons, ← hhead, hout]
        exact hcalls

theorem syncDirectory_run (now : ℤ) (files : List (MarkdownFile P)) (t : Table P) :
    ∃ calls, calls <+: files.map (fun md => (now, Op.syncFile md)) ∧
      (outcome (syncDirectory now files) t).2 = calls.foldl step t :=
  forM_run now Op.syncFile files t

theorem applyVerificationResult_run (now : ℤ) (cycleId : String) (contract : ContractResult)
    (t : Table P) :
    ∃ calls : List (TimedOp P),
      (outcome (applyVerificationResult now cycleId contract) t).2 = calls.foldl step t := by
  unfold applyVerificationResult
  rw [outcome_bind, outcome_get]
  cases contract.passed with
  | true =>
      obtain ⟨calls, -, hcalls⟩ := forM_run now (fun p : Proposal P => .markImplemented p.id)
        (t.listInFlightForCycle cycleId) t
      exact ⟨calls, hcalls⟩
  | false =>
      obtain ⟨calls, -, hcalls⟩ := forM_run now (fun p : Proposal P => .markFailed p.id
        (String.ofList ((failureReason contract).toList.take 1000))) (t.listInFlightForCycle cycleId) t
      exact ⟨calls, hcalls⟩

/-- What the state machine promises of a run, in every state it reaches. -/
structure Orderly (ops : List (TimedOp P)) : Prop where
  tracked : ∀ before, before <+: ops → ∀ p ∈ (after before).rows,
    (p.state = .inFlight ↔ p.cycleId ≠ none)
  listed : ∀ before, before <+: ops → ∀ p ∈ (after before).rows, p.state = .inFlight →
    ∃! cycleId, p ∈ (after before).listInFlightForCycle cycleId
  changes : ∀ before op, before ++ [op] <+: ops → ∀ p ∈ (after before).rows,
    ∃ q ∈ (after (before ++ [op])).rows,
      q.id = p.id ∧ (q.state = p.state ∨ Transition p.state q.state)
  final : ∀ before rest, before ++ rest <+: ops → ∀ p ∈ (after before).rows,
    p.state ∈ [.implemented, .failed, .skipped] →
      ∃ q ∈ (after (before ++ rest)).rows, q.id = p.id ∧ q.state = p.state
  rejected : ∀ before op, before ++ [op] <+: ops → Rejected (after before) op →
    (after (before ++ [op])).rows = (after before).rows

/-- A run is orderly iff no call of it adds a row that is in flight from the start. -/
theorem orderly_iff (ops : List (TimedOp P)) : Orderly ops ↔ CreatesNoneInFlight ops := by
  constructor
  · intro horderly before op hbegins hnames
    obtain ⟨p, hp, huntracked⟩ := exists_untracked_step hnames
    rw [← after_concat] at hp
    exact huntracked (horderly.tracked _ hbegins p hp)
  · intro hnone
    have htracked : ∀ before, before <+: ops → ∀ p ∈ (after before).rows, p.Tracked := by
      intro before hbegins
      exact tracked_after fun earlier op h => hnone earlier op (h.trans hbegins)
    constructor
    · exact htracked
    · intro before hbegins p hp hstate
      exact (htracked before hbegins p hp).listed hp hstate
    · intro before op _ p hp
      obtain ⟨q, hq, hbecomes⟩ := exists_becomes op hp
      exact ⟨q, by rwa [after_concat], hbecomes.id, hbecomes.state⟩
    · intro before rest _ p hp hfinal
      exact final_after rest hp hfinal
    · intro before op _ hrejected
      rw [after_concat, (step_effect _ op).rejected hrejected]

end Runs

/-- A file whose metadata name a proposal in flight. -/
def inFlightFile : MarkdownFile Unit where
  path := "/docs/proposals/a.md"
  stem := "a"
  text := "# A\n## 메타데이터\n- 상태: in_flight"
  prediction := none

theorem inFlightFile_state : inFlightFile.state = .inFlight := by
  decide +kernel

/-- The row made from that file is in flight without a cycle. -/
theorem sync_without_cycle : ¬ Orderly [((0, .syncFile inFlightFile) : TimedOp Unit)] := by
  intro horderly
  have hnames : (Op.syncFile inFlightFile).NamesInFlight (after []) := ⟨rfl, inFlightFile_state⟩
  have huntracked : ∃ p ∈ (step (after []) (0, Op.syncFile inFlightFile)).rows, ¬ p.Tracked :=
    exists_untracked_step hnames
  obtain ⟨p, hp, hne⟩ := huntracked
  exact hne (horderly.tracked _ List.prefix_rfl p hp)

end KisAutotrader.Proposals
