import KisAutotrader.TelegramBot

/-!
# What becomes of a command

Over restarts and crashes a command runs at most once, as long as every start learns
which updates are old. While the process lives, what arrives is handled in turn and
nothing is left out.
-/
namespace KisAutotrader.TelegramBot.CommandDelivery
open Acknowledged Interleaving

/-- What is below `seen` has been handled or skipped: no request of this process returns it,
and a new process finds it within its first batch. -/
structure Kept (seen : ℕ) (s : State) : Prop where
  ordered : Ascending Update.updateId s.pending
  posted : ∀ update ∈ s.pending, update.updateId ≤ s.lastId
  seen_le : seen ≤ s.lastId + 1
  growing : s.dispatched.Pairwise fun d e => d.1 < e.1
  handled : ∀ d ∈ s.dispatched, d.1 < seen
  few : (before Update.updateId seen s.pending).length ≤ limit
  passed : s.phase.polls = true →
    ∀ update ∈ s.pending, update.updateId < seen → update.updateId < s.offset
  ascending : Ascending Update.updateId s.phase.rest
  fresh : ∀ update ∈ s.phase.rest, seen ≤ update.updateId ∧ update.updateId ≤ s.lastId ∧
    (before Update.updateId (update.updateId + 1) s.pending).length ≤ limit

/-- The task moves on without a request. -/
theorem Kept.goes {seen : ℕ} {s : State} (h : Kept seen s) (phase : Phase)
    (replies : List (ℕ × String × String)) (hpolls : phase.polls = true → s.phase.polls = true)
    (hrest : phase.rest.Sublist s.phase.rest) :
    Kept seen { s with phase := phase, replies := replies } where
  ordered := h.ordered
  posted := h.posted
  seen_le := h.seen_le
  growing := h.growing
  handled := h.handled
  few := h.few
  passed hp := h.passed (hpolls hp)
  ascending := h.ascending.sublist hrest
  fresh update hu := h.fresh update (hrest.subset hu)

/-- What the server no longer has does no harm. -/
theorem Kept.filtered {seen : ℕ} {s : State} (h : Kept seen s) (keep : Update → Bool) :
    Kept seen { s with pending := s.pending.filter keep } := by
  have hsub : (s.pending.filter keep).Sublist s.pending := List.filter_sublist
  have hlength : ∀ n, (before Update.updateId n (s.pending.filter keep)).length ≤
      (before Update.updateId n s.pending).length := fun n => (hsub.filter _).length_le
  exact {
    ordered := h.ordered.sublist hsub
    posted := fun update hu => h.posted update (hsub.subset hu)
    seen_le := h.seen_le
    growing := h.growing
    handled := h.handled
    few := (hlength seen).trans h.few
    passed := fun hp update hu => h.passed hp update (hsub.subset hu)
    ascending := h.ascending
    fresh := fun update hu => by
      obtain ⟨hseen, hlast, hfew⟩ := h.fresh update hu
      exact ⟨hseen, hlast, (hlength _).trans hfew⟩ }

theorem Kept.confirm {seen : ℕ} {s : State} (h : Kept seen s) : Kept seen s.confirm :=
  h.filtered fun update => s.offset ≤ update.updateId

/-- What is posted lies after all that was handled or taken up. -/
theorem Kept.post {seen : ℕ} {s : State} {update : Update} (h : Kept seen s)
    (hnew : s.lastId < update.updateId) :
    Kept seen { s with lastId := update.updateId, pending := s.pending ++ [update] } := by
  have hsame : ∀ n, n ≤ s.lastId + 1 → before Update.updateId n (s.pending ++ [update]) =
      before Update.updateId n s.pending := by
    intro n hn
    have hnil : before Update.updateId n [update] = [] := by
      apply before_eq_nil
      intro x hx
      obtain rfl := List.mem_singleton.mp hx
      omega
    rw [before_append, hnil, List.append_nil]
  exact {
    ordered := h.ordered.snoc fun x hx => (h.posted x hx).trans_lt hnew
    posted := by
      intro x hx
      obtain hx | hx := List.mem_append.mp hx
      · exact (h.posted x hx).trans hnew.le
      · obtain rfl := List.mem_singleton.mp hx
        exact le_rfl
    seen_le := h.seen_le.trans (by show s.lastId + 1 ≤ update.updateId + 1; omega)
    growing := h.growing
    handled := h.handled
    few := by
      show (before _ seen (s.pending ++ [update])).length ≤ limit
      rw [hsame seen h.seen_le]
      exact h.few
    passed := by
      intro hp x hx hlt
      obtain hx | hx := List.mem_append.mp hx
      · exact h.passed hp x hx hlt
      · obtain rfl := List.mem_singleton.mp hx
        have hle := h.seen_le
        omega
    ascending := h.ascending
    fresh := by
      intro x hx
      obtain ⟨hseen, hlast, hfew⟩ := h.fresh x hx
      refine ⟨hseen, hlast.trans hnew.le, ?_⟩
      show (before _ (x.updateId + 1) (s.pending ++ [update])).length ≤ limit
      rw [hsame _ (by omega)]
      exact hfew }

/-- The first request of a process finds what is old in its batch. -/
theorem Kept.flushed {seen : ℕ} {s : State} (h : Kept seen s) :
    Kept seen { s.confirm with
      phase := .polling
      offset := if s.batch = [] then s.offset else nextOffset s.batch } := by
  have hc := h.confirm
  exact {
    ordered := hc.ordered
    posted := hc.posted
    seen_le := hc.seen_le
    growing := hc.growing
    handled := hc.handled
    few := hc.few
    passed := by
      intro _ update hu hlt
      have hbatch : update ∈ s.batch := mem_take_of_lt hc.ordered hc.few hu hlt
      have hne : s.batch ≠ [] := List.ne_nil_of_mem hbatch
      simp only [hne, if_false]
      exact lt_nextOffset hbatch
    ascending := List.Pairwise.nil
    fresh := by simp [Phase.rest] }

/-- A later request returns only what has not been handled. -/
theorem Kept.polled {seen : ℕ} {s : State} (h : Kept seen s) (hpolls : s.phase.polls = true) :
    Kept seen { s.confirm with phase := .handling s.batch } := by
  have hc := h.confirm
  have hbatch : s.batch.Sublist s.confirm.pending := List.take_sublist _ _
  exact {
    ordered := hc.ordered
    posted := hc.posted
    seen_le := hc.seen_le
    growing := hc.growing
    handled := hc.handled
    few := hc.few
    passed := fun _ => hc.passed hpolls
    ascending := hc.ordered.sublist hbatch
    fresh := by
      intro update hu
      have hmem := hbatch.subset hu
      refine ⟨?_, hc.posted update hmem, before_length_le hc.ordered hu⟩
      by_contra hlt
      have hold := hc.passed hpolls update hmem (by omega)
      have hsince := (mem_since.mp hmem).2
      exact absurd hold (by show ¬ update.updateId < s.offset; omega) }

/-- What an update is answered with lies on: its phase, and the command it starts. -/
def handled (config : Config) (update : Update) (rest : List Update) :
    Phase × List (ℕ × String × String) :=
  match request config update with
  | .malformed => (.sleeping, [])
  | .ignored => (.handling rest, [])
  | .unknown chatId command => (.replying update chatId (unknownReply config command) rest, [])
  | .run chatId command args => (.running update chatId rest, [(update.updateId, command, args)])

theorem handle_eq (config : Config) (s : State) (update : Update) (rest : List Update) :
    s.handle config update rest =
      { s with
        offset := max s.offset (update.updateId + 1)
        phase := (handled config update rest).1
        dispatched := s.dispatched ++ (handled config update rest).2 } := by
  unfold State.handle handled
  cases request config update <;> simp

theorem handled_rest (config : Config) (update : Update) (rest : List Update) :
    (handled config update rest).1.rest <+: rest := by
  unfold handled
  cases request config update <;> simp [Phase.rest]

theorem handled_dispatched (config : Config) (update : Update) (rest : List Update) :
    (handled config update rest).2.Pairwise (fun d e => d.1 < e.1) ∧
      ∀ d ∈ (handled config update rest).2, d.1 = update.updateId := by
  unfold handled
  cases request config update <;> simp

/-- Handling an update puts it, and all before it, behind the offset. -/
theorem Kept.taken {seen : ℕ} {s : State} (h : Kept seen s) (config : Config) {update : Update}
    {rest : List Update} (hphase : s.phase = .handling (update::rest)) :
    Kept (update.updateId + 1) (s.handle config update rest) := by
  have hrest : s.phase.rest = update::rest := by rw [hphase]; rfl
  obtain ⟨hseen, hlast, hfew⟩ := h.fresh update (by simp [hrest])
  have hord := List.pairwise_cons.mp (hrest ▸ h.ascending)
  have hsub := (handled_rest config update rest).sublist
  obtain ⟨hgrow, hown⟩ := handled_dispatched config update rest
  rw [handle_eq]
  exact {
    ordered := h.ordered
    posted := h.posted
    seen_le := Nat.succ_le_succ hlast
    growing := by
      refine List.pairwise_append.mpr ⟨h.growing, hgrow, fun d hd e he => ?_⟩
      rw [hown e he]
      exact (h.handled d hd).trans_le hseen
    handled := by
      intro d hd
      obtain hd | hd := List.mem_append.mp hd
      · have hlt := h.handled d hd
        omega
      · rw [hown d hd]
        omega
    few := hfew
    passed := fun _ x _ hlt => hlt.trans_le (le_max_right _ _)
    ascending := List.Pairwise.sublist hsub hord.2
    fresh := by
      intro x hx
      obtain ⟨_, hxlast, hxfew⟩ := h.fresh x (by rw [hrest]; exact List.mem_cons_of_mem _ (hsub.subset hx))
      exact ⟨hord.1 x (hsub.subset hx), hxlast, hxfew⟩ }

/-- A request that gets no answer may still confirm. -/
theorem Kept.seen {seen : ℕ} {s : State} (h : Kept seen s) (confirmed : Bool) :
    Kept seen (if confirmed then s.confirm else s) := by
  cases confirmed with
  | true => exact h.confirm
  | false => exact h

theorem seen_phase (s : State) (confirmed : Bool) :
    (if confirmed then s.confirm else s).phase = s.phase := by
  cases confirmed <;> rfl

theorem step_kept (config : Config) {seen : ℕ} {s : State} {e : Event} (h : Kept seen s)
    (hnumbered : Numbered s e) (hflush : FlushAnswered s e) :
    ∃ seen, Kept seen (step config s e) := by
  cases e with
  | post update => exact ⟨seen, h.post (hnumbered update rfl)⟩
  | expire updateId => exact ⟨seen, h.filtered _⟩
  | start =>
    simp only [step]
    split
    next =>
      split_ifs
      · exact ⟨seen, h.goes .flushing s.replies (by simp [Phase.polls]) (List.nil_sublist _)⟩
      · exact ⟨seen, h⟩
    next => exact ⟨seen, h⟩
  | answered =>
    simp only [step]
    split
    next => exact ⟨seen, h.flushed⟩
    next hphase => exact ⟨seen, h.polled (by rw [hphase]; rfl)⟩
    next => exact ⟨seen, h⟩
  | refused confirmed =>
    simp only [step]
    split
    next hphase => exact absurd hphase (hflush rfl)
    next => exact ⟨seen, h.seen confirmed⟩
    next => exact ⟨seen, h⟩
  | raised confirmed =>
    simp only [step]
    split
    next hphase => exact absurd hphase (hflush rfl)
    next hphase =>
      refine ⟨seen, (h.seen confirmed).goes .sleeping _ (fun _ => ?_) (List.nil_sublist _)⟩
      rw [seen_phase, hphase]
      rfl
    next => exact ⟨seen, h⟩
  | handle =>
    simp only [step]
    split
    next hphase =>
      exact ⟨seen, h.goes .polling s.replies (fun _ => by rw [hphase]; rfl) (List.nil_sublist _)⟩
    next update rest hphase => exact ⟨update.updateId + 1, h.taken config hphase⟩
    next => exact ⟨seen, h⟩
  | returned text =>
    simp only [step]
    split
    next update chatId rest hphase =>
      exact ⟨seen, h.goes (.replying update chatId text rest) s.replies
        (fun _ => by rw [hphase]; rfl) (by rw [hphase]; exact List.Sublist.refl _)⟩
    next => exact ⟨seen, h⟩
  | failed error =>
    simp only [step]
    split
    next update chatId rest hphase =>
      exact ⟨seen, h.goes (.replying update chatId (failedReply error) rest) s.replies
        (fun _ => by rw [hphase]; rfl) (by rw [hphase]; exact List.Sublist.refl _)⟩
    next => exact ⟨seen, h⟩
  | replied =>
    simp only [step]
    split
    next update chatId text rest hphase =>
      exact ⟨seen, h.goes (.handling rest) _ (fun _ => by rw [hphase]; rfl)
        (by rw [hphase]; exact List.Sublist.refl _)⟩
    next => exact ⟨seen, h⟩
  | woken =>
    simp only [step]
    split
    next hphase =>
      exact ⟨seen, h.goes .polling s.replies (fun _ => by rw [hphase]; rfl) (List.nil_sublist _)⟩
    next => exact ⟨seen, h⟩
  | cancel => exact ⟨seen, h.goes .stopped s.replies (by simp [Phase.polls]) (List.nil_sublist _)⟩
  | crash =>
    have hstopped := h.goes .stopped s.replies (by simp [Phase.polls]) (List.nil_sublist _)
    exact ⟨seen, { hstopped with passed := by simp [step, Phase.polls] }⟩

theorem kept_initial : Kept 0 initial where
  ordered := List.Pairwise.nil
  posted := by simp [initial]
  seen_le := Nat.zero_le _
  growing := List.Pairwise.nil
  handled := by simp [initial]
  few := Nat.zero_le _
  passed := by simp [initial]
  ascending := List.Pairwise.nil
  fresh := by simp [initial, Phase.rest]

/-- Over every run, with restarts, crashes and lost requests at any point, no command runs
twice and none runs after a later one, as long as each start learns which updates are old. -/
theorem no_command_twice (config : Config) (events : List Event)
    (hnumbered : Meets (step config) Numbered initial events)
    (hflush : Meets (step config) FlushAnswered initial events) :
    (run (step config) initial events).dispatched.Pairwise fun d e => d.1 < e.1 := by
  have hkept : ∃ seen, Kept seen (run (step config) initial events) := by
    refine @invariant _ _ _ _ (fun s => ∃ seen, Kept seen s) ?_ _ _ ⟨0, kept_initial⟩ (hnumbered.and hflush)
    rintro s e ⟨seen, h⟩ ⟨hn, hf⟩
    exact step_kept config h hn hf
  obtain ⟨_, h⟩ := hkept
  exact h.growing

section Witness

def own : Config := ⟨true, "token", "7", ["stop"]⟩

def stopMessage (updateId : ℕ) : Update := ⟨updateId, some ⟨"7", "/stop"⟩⟩

/-- A command runs, the process dies before it confirms it, and a new one starts. -/
def restarted : List Event :=
  [.start, .answered, .post (stopMessage 4), .answered, .handle, .crash, .start, .answered,
    .post (stopMessage 5), .answered, .handle]

theorem no_command_twice_restarted :
    (run (step own) initial restarted).dispatched.Pairwise fun d e => d.1 < e.1 :=
  no_command_twice own restarted (by decide +kernel) (by decide +kernel)

example : (run (step own) initial restarted).dispatched = [(4, "stop", ""), (5, "stop", "")] := by
  decide +kernel

/-- Where the first request of the new process fails, the command runs once more. -/
example : (run (step own) initial [.start, .answered, .post (stopMessage 4), .answered, .handle,
    .crash, .start, .raised false, .answered, .handle]).dispatched =
      [(4, "stop", ""), (4, "stop", "")] := by
  decide +kernel

end Witness

section Process

/-- What an update runs. -/
def dispatch (config : Config) (update : Update) : Option (ℕ × String × String) :=
  match request config update with
  | .run _ command args => some (update.updateId, command, args)
  | _ => none

/-- The answer an update is owed, and where it goes. -/
def answer (config : Config) (update : Update) : Option (ℕ × String) :=
  match request config update with
  | .run _ _ _ => some (update.updateId, config.chatId)
  | .unknown _ _ => some (update.updateId, config.chatId)
  | _ => none

/-- The answer being made. -/
def inAnswer : Phase → List (ℕ × String)
  | .running update chatId _ => [(update.updateId, chatId)]
  | .replying update chatId _ _ => [(update.updateId, chatId)]
  | _ => []

/-- The answers given and being made. -/
def answers (s : State) : List (ℕ × String) :=
  s.replies.map (fun reply => (reply.1, reply.2.1)) ++ inAnswer s.phase

/-- The numbering of the server, and the offset within it. -/
structure Sound (s : State) : Prop where
  ordered : Ascending Update.updateId s.pending
  posted : ∀ update ∈ s.pending, update.updateId ≤ s.lastId
  offset_le : s.offset ≤ s.lastId + 1
  rest_le : ∀ update ∈ s.phase.rest, update.updateId ≤ s.lastId

/-- Of what has arrived since, what lies before the offset is dealt with, and the rest is there. -/
structure Delivered (config : Config) (start : State) (arrivals : List Update) (s : State) : Prop where
  ordered : Ascending Update.updateId arrivals
  posted : ∀ update ∈ arrivals, update.updateId ≤ s.lastId
  offset_le : s.offset ≤ s.lastId + 1
  polls : s.phase.polls = true
  kept : since Update.updateId s.offset s.pending = since Update.updateId s.offset arrivals
  dispatched : s.dispatched =
    start.dispatched ++ (before Update.updateId s.offset arrivals).filterMap (dispatch config)
  answered : answers s =
    answers start ++ (before Update.updateId s.offset arrivals).filterMap (answer config)
  rest : s.phase.rest <+: since Update.updateId s.offset arrivals

variable {config : Config} {start : State}

/-- A request changes nothing but what the server may forget. -/
theorem Delivered.confirm {arrivals : List Update} {s : State} (h : Delivered config start arrivals s) :
    Delivered config start arrivals s.confirm where
  ordered := h.ordered
  posted := h.posted
  offset_le := h.offset_le
  polls := h.polls
  kept := by
    show since _ s.offset (since _ s.offset s.pending) = _
    rw [since_since le_rfl, h.kept]
    rfl
  dispatched := h.dispatched
  answered := h.answered
  rest := h.rest

/-- The task moves on with the same answers and a part of its batch. -/
theorem Delivered.goes {arrivals : List Update} {s : State} (h : Delivered config start arrivals s)
    (phase : Phase) (replies : List (ℕ × String × String)) (hpolls : phase.polls = true)
    (hanswers : answers { s with phase := phase, replies := replies } = answers s)
    (hrest : phase.rest <+: since Update.updateId s.offset arrivals) :
    Delivered config start arrivals { s with phase := phase, replies := replies } where
  ordered := h.ordered
  posted := h.posted
  offset_le := h.offset_le
  polls := hpolls
  kept := h.kept
  dispatched := h.dispatched
  answered := hanswers.trans h.answered
  rest := hrest

theorem Delivered.post {arrivals : List Update} {s : State} {update : Update}
    (h : Delivered config start arrivals s) (hnew : s.lastId < update.updateId) :
    Delivered config start (arrivals ++ [update])
      { s with lastId := update.updateId, pending := s.pending ++ [update] } := by
  have hle := h.offset_le
  have hbefore : before Update.updateId s.offset (arrivals ++ [update]) =
      before Update.updateId s.offset arrivals := by
    have hnil : before Update.updateId s.offset [update] = [] := by
      apply before_eq_nil
      intro x hx
      obtain rfl := List.mem_singleton.mp hx
      omega
    rw [before_append, hnil, List.append_nil]
  exact {
    ordered := h.ordered.snoc fun x hx => (h.posted x hx).trans_lt hnew
    posted := by
      intro x hx
      obtain hx | hx := List.mem_append.mp hx
      · exact (h.posted x hx).trans hnew.le
      · obtain rfl := List.mem_singleton.mp hx
        exact le_rfl
    offset_le := h.offset_le.trans (by show s.lastId + 1 ≤ update.updateId + 1; omega)
    polls := h.polls
    kept := by
      show since _ s.offset (s.pending ++ [update]) = since _ s.offset (arrivals ++ [update])
      rw [since_append, since_append, h.kept]
    dispatched := by rw [hbefore]; exact h.dispatched
    answered := by rw [hbefore]; exact h.answered
    rest := by
      show s.phase.rest <+: since _ s.offset (arrivals ++ [update])
      rw [since_append]
      exact h.rest.trans (List.prefix_append _ _) }

/-- The commands and answers of one update. -/
theorem handled_eq (config : Config) (update : Update) (rest : List Update) :
    (handled config update rest).2 = (dispatch config update).toList ∧
      inAnswer (handled config update rest).1 = (answer config update).toList ∧
      (handled config update rest).1.polls = true := by
  have hown := request_own config update
  unfold handled dispatch answer
  cases hrequest : request config update with
  | malformed => simp [inAnswer, Phase.polls]
  | ignored => simp [inAnswer, Phase.polls]
  | unknown chatId command =>
    obtain rfl : chatId = config.chatId := hown chatId (by simp [hrequest, Request.chat])
    simp [inAnswer, Phase.polls]
  | run chatId command args =>
    obtain rfl : chatId = config.chatId := hown chatId (by simp [hrequest, Request.chat])
    simp [inAnswer, Phase.polls]

theorem filterMap_snoc {α β : Type} (f : α → Option β) (xs : List α) (x : α) :
    (xs ++ [x]).filterMap f = xs.filterMap f ++ (f x).toList := by
  cases hx : f x <;> simp [hx]

/-- Handling the first update of the batch takes the first arrival from the offset on. -/
theorem Delivered.taken {arrivals : List Update} {s : State} (h : Delivered config start arrivals s)
    {update : Update} {rest : List Update} (hphase : s.phase = .handling (update::rest)) :
    Delivered config start arrivals (s.handle config update rest) := by
  obtain ⟨hcommands, hanswer, hpolls⟩ := handled_eq config update rest
  obtain ⟨later, hlater⟩ : update::rest <+: since Update.updateId s.offset arrivals := by
    have hrest := h.rest
    rwa [hphase] at hrest
  obtain ⟨hbefore, hsince⟩ := take_first h.ordered hlater.symm
  have hupdate : update ∈ since Update.updateId s.offset arrivals := by simp [← hlater]
  have hmem := mem_since.mp hupdate
  have hoffset : max s.offset (update.updateId + 1) = update.updateId + 1 := max_eq_right (by omega)
  have hnone : inAnswer s.phase = [] := by rw [hphase]; rfl
  rw [handle_eq, hoffset]
  exact {
    ordered := h.ordered
    posted := h.posted
    offset_le := Nat.succ_le_succ (h.posted update hmem.1)
    polls := hpolls
    kept := by
      show since _ (update.updateId + 1) s.pending = since _ (update.updateId + 1) arrivals
      rw [← since_since (by omega : s.offset ≤ update.updateId + 1) s.pending, h.kept,
        since_since (by omega)]
    dispatched := by
      show s.dispatched ++ (handled config update rest).2 = _
      rw [h.dispatched, hbefore, filterMap_snoc, hcommands, List.append_assoc]
    answered := by
      have hgiven := h.answered
      simp only [answers, hnone, List.append_nil] at hgiven
      show s.replies.map _ ++ inAnswer (handled config update rest).1 = _
      rw [hgiven, hbefore, filterMap_snoc, hanswer, List.append_assoc]
      rfl
    rest := by
      show (handled config update rest).1.rest <+: since _ (update.updateId + 1) arrivals
      rw [hsince]
      exact (handled_rest config update rest).trans (List.prefix_append _ _) }

theorem Delivered.seen {arrivals : List Update} {s : State} (h : Delivered config start arrivals s)
    (confirmed : Bool) : Delivered config start arrivals (if confirmed then s.confirm else s) := by
  cases confirmed with
  | true => exact h.confirm
  | false => exact h

theorem step_delivered {arrivals : List Update} {s : State} {e : Event}
    (h : Delivered config start arrivals s) (hnumbered : Numbered s e) (hsame : e.sameProcess = true) :
    Delivered config start (arrivals ++ e.posted.toList) (step config s e) := by
  cases e with
  | post update => exact h.post (hnumbered update rfl)
  | expire updateId => cases hsame
  | start => cases hsame
  | cancel => cases hsame
  | crash => cases hsame
  | answered =>
    simp only [step, Event.posted, Option.toList_none, List.append_nil]
    split
    next hphase =>
      have hpolls := h.polls
      simp [hphase, Phase.polls] at hpolls
    next hphase =>
      apply h.confirm.goes (.handling s.batch) s.replies rfl (by simp [answers, inAnswer, hphase, State.confirm])
      have hkept := h.kept
      show (since _ s.offset s.pending).take limit <+: since _ s.offset arrivals
      rw [← hkept]
      exact List.take_prefix _ _
    next => exact h
  | refused confirmed =>
    simp only [step, Event.posted, Option.toList_none, List.append_nil]
    split
    next hphase =>
      have hpolls := h.polls
      simp [hphase, Phase.polls] at hpolls
    next => exact h.seen confirmed
    next => exact h
  | raised confirmed =>
    simp only [step, Event.posted, Option.toList_none, List.append_nil]
    split
    next hphase =>
      have hpolls := h.polls
      simp [hphase, Phase.polls] at hpolls
    next hphase =>
      apply (h.seen confirmed).goes .sleeping _ rfl _ List.nil_prefix
      simp [answers, inAnswer, seen_phase, hphase]
    next => exact h
  | handle =>
    simp only [step, Event.posted, Option.toList_none, List.append_nil]
    split
    next hphase =>
      exact h.goes .polling s.replies rfl (by simp [answers, inAnswer, hphase]) List.nil_prefix
    next update rest hphase => exact h.taken hphase
    next => exact h
  | returned text =>
    simp only [step, Event.posted, Option.toList_none, List.append_nil]
    split
    next update chatId rest hphase =>
      have hrest := h.rest
      rw [hphase] at hrest
      exact h.goes (.replying update chatId text rest) s.replies rfl
        (by simp [answers, inAnswer, hphase]) hrest
    next => exact h
  | failed error =>
    simp only [step, Event.posted, Option.toList_none, List.append_nil]
    split
    next update chatId rest hphase =>
      have hrest := h.rest
      rw [hphase] at hrest
      exact h.goes (.replying update chatId (failedReply error) rest) s.replies rfl
        (by simp [answers, inAnswer, hphase]) hrest
    next => exact h
  | replied =>
    simp only [step, Event.posted, Option.toList_none, List.append_nil]
    split
    next update chatId text rest hphase =>
      have hrest := h.rest
      rw [hphase] at hrest
      exact h.goes (.handling rest) _ rfl (by simp [answers, inAnswer, hphase]) hrest
    next => exact h
  | woken =>
    simp only [step, Event.posted, Option.toList_none, List.append_nil]
    split
    next hphase =>
      exact h.goes .polling s.replies rfl (by simp [answers, inAnswer, hphase]) List.nil_prefix
    next => exact h

theorem run_delivered {events : List Event} {arrivals : List Update} {s : State}
    (h : Delivered config start arrivals s) (hnumbered : Meets (step config) Numbered s events)
    (hsame : ∀ e ∈ events, e.sameProcess = true) :
    Delivered config start (arrivals ++ events.filterMap Event.posted)
      (run (step config) s events) := by
  induction events generalizing s arrivals with
  | nil => simpa using h
  | cons e es ih =>
    have hstep := step_delivered h hnumbered.1 (hsame e List.mem_cons_self)
    have hrest := ih hstep hnumbered.2 fun f hf => hsame f (List.mem_cons_of_mem e hf)
    have hposted : (e::es).filterMap Event.posted = e.posted.toList ++ es.filterMap Event.posted := by
      cases hp : e.posted <;> simp [hp]
    rw [hposted, ← List.append_assoc]
    exact hrest

/-- Without a new update the numbering stays, whatever is forgotten or taken up. -/
theorem Sound.shrinks {s t : State} (h : Sound s) (hlast : t.lastId = s.lastId)
    (hpending : t.pending.Sublist s.pending) (hoffset : t.offset ≤ s.lastId + 1)
    (hrest : ∀ update ∈ t.phase.rest, update ∈ s.phase.rest ∨ update ∈ s.pending) : Sound t where
  ordered := h.ordered.sublist hpending
  posted update hu := hlast ▸ h.posted update (hpending.subset hu)
  offset_le := hlast ▸ hoffset
  rest_le update hu := by
    rw [hlast]
    obtain hu | hu := hrest update hu
    · exact h.rest_le update hu
    · exact h.posted update hu

theorem Sound.post {s : State} {update : Update} (h : Sound s) (hnew : s.lastId < update.updateId) :
    Sound { s with lastId := update.updateId, pending := s.pending ++ [update] } where
  ordered := h.ordered.snoc fun x hx => (h.posted x hx).trans_lt hnew
  posted x hx := by
    obtain hx | hx := List.mem_append.mp hx
    · exact (h.posted x hx).trans hnew.le
    · obtain rfl := List.mem_singleton.mp hx
      exact le_rfl
  offset_le := h.offset_le.trans (by show s.lastId + 1 ≤ update.updateId + 1; omega)
  rest_le x hx := (h.rest_le x hx).trans hnew.le

theorem batch_subset {s : State} {update : Update} (h : update ∈ s.batch) : update ∈ s.pending :=
  (mem_since.mp (List.mem_of_mem_take h)).1

theorem seen_sublist (s : State) (confirmed : Bool) :
    (if confirmed then s.confirm else s).pending.Sublist s.pending := by
  cases confirmed with
  | true => exact List.filter_sublist
  | false => exact List.Sublist.refl _

theorem seen_frame (s : State) (confirmed : Bool) :
    (if confirmed then s.confirm else s).lastId = s.lastId ∧
      (if confirmed then s.confirm else s).offset = s.offset := by
  cases confirmed <;> exact ⟨rfl, rfl⟩

theorem step_sound (config : Config) {s : State} {e : Event} (h : Sound s) (hnumbered : Numbered s e) :
    Sound (step config s e) := by
  have hstays : ∀ phase : Phase, ∀ replies : List (ℕ × String × String),
      phase.rest ⊆ s.phase.rest → Sound { s with phase := phase, replies := replies } :=
    fun phase replies hsub => h.shrinks rfl (List.Sublist.refl _) h.offset_le
      fun update hu => Or.inl (hsub hu)
  cases e with
  | post update => exact h.post (hnumbered update rfl)
  | expire updateId =>
    exact h.shrinks rfl List.filter_sublist h.offset_le fun update hu => Or.inl hu
  | start =>
    simp only [step]
    split
    next =>
      split_ifs
      · exact hstays .flushing s.replies (List.nil_subset _)
      · exact h
    next => exact h
  | answered =>
    simp only [step]
    split
    next =>
      refine h.shrinks rfl List.filter_sublist ?_ (by simp [Phase.rest])
      show (if s.batch = [] then s.offset else nextOffset s.batch) ≤ s.lastId + 1
      split_ifs
      · exact h.offset_le
      · exact nextOffset_le.mpr fun update hu => h.posted update (batch_subset hu)
    next =>
      exact h.shrinks rfl List.filter_sublist h.offset_le fun update hu => Or.inr (batch_subset hu)
    next => exact h
  | refused confirmed =>
    obtain ⟨hlast, hoffset⟩ := seen_frame s confirmed
    simp only [step]
    split
    next =>
      exact h.shrinks hlast (seen_sublist s confirmed) (hoffset.le.trans h.offset_le) (by simp [Phase.rest])
    next =>
      apply h.shrinks hlast (seen_sublist s confirmed) (hoffset.le.trans h.offset_le)
      rw [seen_phase]
      exact fun update hu => Or.inl hu
    next => exact h
  | raised confirmed =>
    obtain ⟨hlast, hoffset⟩ := seen_frame s confirmed
    simp only [step]
    split
    next =>
      exact h.shrinks hlast (seen_sublist s confirmed) (hoffset.le.trans h.offset_le) (by simp [Phase.rest])
    next =>
      exact h.shrinks hlast (seen_sublist s confirmed) (hoffset.le.trans h.offset_le) (by simp [Phase.rest])
    next => exact h
  | handle =>
    simp only [step]
    split
    next => exact hstays .polling s.replies (List.nil_subset _)
    next update rest hphase =>
      have hrest : s.phase.rest = update::rest := by rw [hphase]; rfl
      have hle := h.rest_le update (by simp [hrest])
      rw [handle_eq]
      refine h.shrinks rfl (List.Sublist.refl _) (max_le h.offset_le (Nat.succ_le_succ hle)) ?_
      intro x hx
      rw [hrest]
      exact Or.inl (List.mem_cons_of_mem _ ((handled_rest config update rest).subset hx))
    next => exact h
  | returned text =>
    simp only [step]
    split
    next update chatId rest hphase =>
      exact hstays (.replying update chatId text rest) s.replies (by rw [hphase]; exact List.Subset.refl _)
    next => exact h
  | failed error =>
    simp only [step]
    split
    next update chatId rest hphase =>
      exact hstays (.replying update chatId (failedReply error) rest) s.replies
        (by rw [hphase]; exact List.Subset.refl _)
    next => exact h
  | replied =>
    simp only [step]
    split
    next update chatId text rest hphase =>
      exact hstays (.handling rest) _ (by rw [hphase]; exact List.Subset.refl _)
    next => exact h
  | woken =>
    simp only [step]
    split
    next => exact hstays .polling s.replies (List.nil_subset _)
    next => exact h
  | cancel => exact hstays .stopped s.replies (List.nil_subset _)
  | crash =>
    exact h.shrinks rfl (List.Sublist.refl _) (Nat.zero_le _) (by simp [step, Phase.rest])

theorem sound_initial : Sound initial where
  ordered := List.Pairwise.nil
  posted := by simp [initial]
  offset_le := Nat.zero_le _
  rest_le := by simp [initial, Phase.rest]

theorem run_sound (config : Config) {events : List Event}
    (hnumbered : Meets (step config) Numbered initial events) :
    Sound (run (step config) initial events) :=
  invariant (fun _ _ h hn => step_sound config h hn) sound_initial hnumbered

/-- When the task asks, what the server holds from the offset on is still to come. -/
theorem delivered_start {s : State} (h : Sound s) (hpolling : s.phase = .polling) :
    Delivered config s (since Update.updateId s.offset s.pending) s where
  ordered := h.ordered.since
  posted update hu := h.posted update (mem_since.mp hu).1
  offset_le := h.offset_le
  polls := by rw [hpolling]; rfl
  kept := (since_since le_rfl _).symm
  dispatched := by
    rw [before_eq_nil fun update hu => (mem_since.mp hu).2]
    simp
  answered := by
    rw [before_eq_nil fun update hu => (mem_since.mp hu).2]
    simp
  rest := by
    rw [hpolling]
    exact List.nil_prefix

end Process

end KisAutotrader.TelegramBot.CommandDelivery
