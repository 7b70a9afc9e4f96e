import KisAutotrader.WebSocketManager

/-!
# Sends that raise

What the websocket manager is left in when a send raises inside a call that was
made while it was connected.
-/
namespace KisAutotrader.WebSocketManager.FailingSends
open Interleaving

inductive Call
  | subscribe (code : StockCode)
  | unsubscribe (code : StockCode)
  | disconnect
deriving DecidableEq

def Call.event : Call → Event
  | .subscribe code => .subscribe code
  | .unsubscribe code => .unsubscribe code
  | .disconnect => .disconnect

/-- The manager is connected with the set it had, or disconnected and ready to connect. -/
def Usable (before m : Manager) : Prop :=
  (m.state = .connected ∨ m.state = .active) ∧ m.subscriptions.Perm before.subscriptions ∨
    m.state = .disconnected ∧ m.ws = none

/-- What is asked of a call that raises: it leaves the manager usable, and `disconnect` leaves it
disconnected. -/
def Survives (before : Manager) (call : Call) (m : Manager) : Prop :=
  Usable before m ∧ (call = .disconnect → m.state = .disconnected)

/-- The task waits for a send of a subscribe or an unsubscribe message. -/
def Sending : Task → Prop
  | .subscribing _ (.send _) => True
  | .unsubscribing _ (.send _) => True
  | .unsubscribingAll _ => True
  | _ => False

/-- The state, the connection and the set are the same. -/
def Same (m m' : Manager) : Prop :=
  m'.state = m.state ∧ m'.ws = m.ws ∧ m'.subscriptions.Perm m.subscriptions

/-- The call goes on, or something happens that leaves the manager and the call alone. -/
def Calm (i : ℕ) (m : Manager) (e : Event) : Prop :=
  e = .resume i true ∨ Same m (step m e) ∧ (step m e).tasks[i]? = m.tasks[i]?

/-- How far a call has come, and what it has done to the manager by then. -/
inductive Stage (before m : Manager) : Call → Task → Prop
  | debouncing (code : StockCode) (wake : ℚ) (h : Same before m) :
      Stage before m (.subscribe code) (.subscribing code (.debounce wake))
  | subscribing (code : StockCode) (ws : ℕ) (h : m.state = .subscribing) :
      Stage before m (.subscribe code) (.subscribing code (.send ws))
  | subscribed (code : StockCode) : Stage before m (.subscribe code) .finished
  | unsubscribing (code : StockCode) (await : Await) (h : Same before m) :
      Stage before m (.unsubscribe code) (.unsubscribing code await)
  | unsubscribed (code : StockCode) : Stage before m (.unsubscribe code) .finished
  | unsubscribingAll (codes : List StockCode) (h : Same before m) :
      Stage before m .disconnect (.unsubscribingAll codes)
  | cancelling (h : m.state = before.state) : Stage before m .disconnect .cancelling
  | closing (h : m.state = before.state) : Stage before m .disconnect .closing
  | disconnected (h : m.state = .disconnected ∧ m.ws = none) : Stage before m .disconnect .finished

/-- The task of a call that was made before. -/
def Underway (before : Manager) (call : Call) (i : ℕ) (m : Manager) : Prop :=
  ∃ t, m.tasks[i]? = some t ∧ Stage before m call t

variable {before m : Manager} {i : ℕ}

theorem Same.trans {m m' m'' : Manager} (h : Same m m') (h' : Same m' m'') : Same m m'' :=
  ⟨h'.1.trans h.1, h'.2.1.trans h.2.1, h'.2.2.trans h.2.2⟩

theorem Same.put (h : Same before m) (i : ℕ) (t : Task) : Same before (m.put i t) := h

theorem Stage.same {m' : Manager} {call : Call} {t : Task} (hstage : Stage before m call t)
    (hsame : Same m m') : Stage before m' call t := by
  cases hstage with
  | debouncing code wake h => exact .debouncing code wake (h.trans hsame)
  | subscribing code ws h => exact .subscribing code ws (hsame.1.trans h)
  | subscribed code => exact .subscribed code
  | unsubscribing code await h => exact .unsubscribing code await (h.trans hsame)
  | unsubscribed code => exact .unsubscribed code
  | unsubscribingAll codes h => exact .unsubscribingAll codes (h.trans hsame)
  | cancelling h => exact .cancelling (hsame.1.trans h)
  | closing h => exact .closing (hsame.1.trans h)
  | disconnected h => exact .disconnected ⟨hsame.1.trans h.1, hsame.2.1.trans h.2⟩

theorem tasks_put {t : Task} (hi : i < m.tasks.length) : (m.put i t).tasks[i]? = some t := by
  simp [Manager.put, hi]

/-- A task is put where the call has its own. -/
theorem Underway.put {call : Call} {t : Task} (hi : i < m.tasks.length)
    (h : Stage before (m.put i t) call t) : Underway before call i (m.put i t) :=
  ⟨t, tasks_put hi, h⟩

theorem same_put (m : Manager) (i : ℕ) (t : Task) : Same m (m.put i t) :=
  ⟨rfl, rfl, List.Perm.refl _⟩

/-! ### One step of a call -/

theorem underway_sendSubscribe {code : StockCode} (hi : i < m.tasks.length) :
    Underway before (.subscribe code) i
      (Manager.settle i (.subscribing code) (m.sendSubscribe .user code)) := by
  unfold Manager.sendSubscribe
  cases m.ws with
  | some ws => exact Underway.put hi (.subscribing code ws rfl)
  | none => exact Underway.put hi (.subscribed code)

theorem underway_sendUnsubscribe {code : StockCode} (hi : i < m.tasks.length)
    (hsame : Same before m) :
    Underway before (.unsubscribe code) i
      (Manager.settle i (.unsubscribing code) (m.sendUnsubscribe code)) := by
  unfold Manager.sendUnsubscribe
  cases m.ws with
  | some ws => exact Underway.put hi (.unsubscribing code _ (hsame.trans (same_put m i _)))
  | none => exact Underway.put hi (.unsubscribed code)

theorem underway_close (hi : i < m.tasks.length) (hstate : m.state = before.state) :
    Underway before .disconnect i (m.close i) := by
  unfold Manager.close
  cases m.ws with
  | some ws => exact Underway.put hi (.closing hstate)
  | none => exact Underway.put hi (.disconnected ⟨rfl, rfl⟩)

theorem underway_cancelReceive (hi : i < m.tasks.length) (hstate : m.state = before.state) :
    Underway before .disconnect i (m.cancelReceive i) := by
  unfold Manager.cancelReceive
  split
  · split
    · exact underway_close hi hstate
    · refine Underway.put ?_ (.cancelling hstate)
      simpa [Manager.put] using hi
  · exact underway_close hi hstate

theorem underway_unsubscribeAll (hi : i < m.tasks.length) (hsame : Same before m)
    (codes : List StockCode) : Underway before .disconnect i (m.unsubscribeAll i codes) := by
  unfold Manager.unsubscribeAll
  split
  · exact Underway.put hi (.unsubscribingAll _ (hsame.trans (same_put m i _)))
  · exact underway_cancelReceive hi hsame.1

theorem length_of_getElem? {t : Task} (h : m.tasks[i]? = some t) : i < m.tasks.length :=
  (List.getElem?_eq_some_iff.mp h).1

/-- A call that goes on without an exception. -/
theorem underway_resume {call : Call} {t : Task} (ht : m.tasks[i]? = some t)
    (hstage : Stage before m call t) : Underway before call i (m.resume i true t) := by
  have hi := length_of_getElem? ht
  cases hstage with
  | debouncing code wake h =>
    simp only [Manager.resume, Manager.resumeSubscribe]
    split
    · exact Underway.put hi (.debouncing code wake (h.trans (same_put m i _)))
    · exact underway_sendSubscribe hi
  | subscribing code ws h => exact Underway.put hi (.subscribed code)
  | subscribed code => exact ⟨.finished, ht, .subscribed code⟩
  | unsubscribing code await h =>
    cases await with
    | debounce wake =>
      simp only [Manager.resume, Manager.resumeUnsubscribe]
      split
      · exact Underway.put hi (.unsubscribing code _ (h.trans (same_put m i _)))
      · exact underway_sendUnsubscribe hi h
    | send ws => exact Underway.put hi (.unsubscribed code)
  | unsubscribed code => exact ⟨.finished, ht, .unsubscribed code⟩
  | unsubscribingAll codes h => exact underway_unsubscribeAll hi h codes
  | cancelling h => exact underway_close hi h
  | closing h => exact Underway.put hi (.disconnected ⟨rfl, rfl⟩)
  | disconnected h => exact ⟨.finished, ht, .disconnected h⟩

theorem underway_step {call : Call} {e : Event} (h : Underway before call i m)
    (hcalm : Calm i m e) : Underway before call i (step m e) := by
  obtain ⟨t, ht, hstage⟩ := h
  rcases hcalm with rfl | ⟨hsame, htask⟩
  · simp only [step, ht]
    exact underway_resume ht hstage
  · exact ⟨t, htask.trans ht, hstage.same hsame⟩

theorem underway_subscribe {code : StockCode} (hi : i < m.tasks.length) (hsame : Same before m) :
    Underway before (.subscribe code) i
      (Manager.settle i (.subscribing code) (m.subscribe .user code)) := by
  unfold Manager.subscribe
  split_ifs with hstate hmem hfull hdebounced
  · exact Underway.put hi (.subscribed code)
  · exact Underway.put hi (.subscribed code)
  · exact Underway.put hi (.debouncing code _ (hsame.trans (same_put m i _)))
  · exact underway_sendSubscribe hi
  · exact Underway.put hi (.subscribed code)

theorem underway_unsubscribe {code : StockCode} (hi : i < m.tasks.length) (hsame : Same before m) :
    Underway before (.unsubscribe code) i
      (Manager.settle i (.unsubscribing code) (m.unsubscribe code)) := by
  unfold Manager.unsubscribe
  split_ifs with hmem hdebounced
  · exact Underway.put hi (.unsubscribing code _ (hsame.trans (same_put m i _)))
  · exact underway_sendUnsubscribe hi hsame
  · exact Underway.put (m := m.note (.unsubscribed code)) hi (.unsubscribed code)

/-- A call made while the manager is connected. -/
theorem underway_call (hconnected : m.state = .connected ∨ m.state = .active) (call : Call) :
    Underway m call m.tasks.length (step m call.event) := by
  have hi : m.tasks.length < (m.tasks ++ [Task.finished]).length := by simp
  have hsame (m' : Manager) (h : m'.state = m.state ∧ m'.ws = m.ws ∧
      m'.subscriptions = m.subscriptions) : Same m m' := ⟨h.1, h.2.1, h.2.2 ▸ List.Perm.refl _⟩
  cases call with
  | subscribe code => exact underway_subscribe hi (hsame _ ⟨rfl, rfl, rfl⟩)
  | unsubscribe code => exact underway_unsubscribe hi (hsame _ ⟨rfl, rfl, rfl⟩)
  | disconnect =>
    have hstate : m.state ≠ .disconnected := by rcases hconnected with h | h <;> simp [h]
    simp only [Call.event, step, Manager.call, Manager.disconnect, if_neg hstate]
    exact underway_unsubscribeAll (m := { m with running := false, tasks := m.tasks ++ [.finished] })
      hi (hsame _ ⟨rfl, rfl, rfl⟩) _

/-- Every calm run of a call that was made while the manager was connected. -/
theorem underway_run (hconnected : m.state = .connected ∨ m.state = .active) (call : Call)
    {events : List Event} (hcalm : Meets step (Calm m.tasks.length) (step m call.event) events) :
    Underway m call m.tasks.length (run step (step m call.event) events) :=
  invariant (fun _ _ h hc => underway_step h hc) (underway_call hconnected call) hcalm

/-! ### A send raises -/

/-- A failing send ends its call and changes nothing else. -/
theorem resume_raises {t : Task} (hsend : Sending t) : m.resume i false t = m.put i .finished := by
  match t, hsend with
  | .subscribing code (.send ws), _ => rfl
  | .unsubscribing code (.send ws), _ => rfl
  | .unsubscribingAll codes, _ => rfl

theorem Same.usable (h : Same before m) (hconnected : before.state = .connected ∨ before.state = .active) :
    Usable before m := by
  refine Or.inl ⟨?_, h.2.2⟩
  rw [h.1]
  exact hconnected

/-- The manager after a call and the events that follow it. -/
def after (m : Manager) (call : Call) (events : List Event) : Manager :=
  run step (step m call.event) events

variable {call : Call} {events : List Event} {t : Task}

theorem after_resume (ht : (after m call events).tasks[i]? = some t) (ok : Bool) :
    after m call (events ++ [.resume i ok]) = (after m call events).resume i ok t := by
  rw [after, run_append, run_cons, run_nil, step]
  simp only [after] at ht ⊢
  rw [ht]

/-- The send itself changes nothing. -/
theorem survives_raise (ht : (after m call events).tasks[i]? = some t) (hsend : Sending t) :
    Survives before call (after m call (events ++ [.resume i false])) ↔
      Survives before call (after m call events) := by
  rw [after_resume ht, resume_raises hsend]
  exact Iff.rfl

theorem survives_calm (hconnected : m.state = .connected ∨ m.state = .active)
    (hcalm : Meets step (Calm m.tasks.length) (step m call.event) events)
    (ht : (after m call events).tasks[m.tasks.length]? = some t) (hsend : Sending t) :
    Survives m call (after m call events) ↔ ∃ code, call = .unsubscribe code := by
  obtain ⟨t', ht', hstage⟩ := underway_run hconnected call hcalm
  obtain rfl : t' = t := Option.some.inj (ht'.symm.trans ht)
  have hnot : m.state ≠ .disconnected := by rcases hconnected with h | h <;> simp [h]
  cases hstage with
  | subscribing code ws h =>
    refine iff_of_false (fun hs => ?_) (by simp)
    rcases hs.1 with ⟨hs, -⟩ | ⟨hs, -⟩
    · rcases hs with hs | hs <;> exact absurd (h.symm.trans hs) (by decide)
    · exact absurd (h.symm.trans hs) (by decide)
  | unsubscribing code await h =>
    exact iff_of_true ⟨h.usable hconnected, by simp⟩ ⟨code, rfl⟩
  | unsubscribingAll codes h =>
    exact iff_of_false (fun hs => hnot (h.1.symm.trans (hs.2 rfl))) (by simp)
  | debouncing => exact hsend.elim
  | subscribed => exact hsend.elim
  | unsubscribed => exact hsend.elim
  | cancelling => exact hsend.elim
  | closing => exact hsend.elim
  | disconnected => exact hsend.elim

/-- A `disconnect` that returns has disconnected. -/
theorem disconnected_of_finished (hconnected : m.state = .connected ∨ m.state = .active)
    (hcalm : Meets step (Calm m.tasks.length) (step m Call.disconnect.event) events)
    (ht : (after m .disconnect events).tasks[m.tasks.length]? = some .finished) :
    (after m .disconnect events).state = .disconnected ∧ (after m .disconnect events).ws = none := by
  obtain ⟨t', ht', hstage⟩ := underway_run hconnected .disconnect hcalm
  obtain rfl : t' = .finished := Option.some.inj (ht'.symm.trans ht)
  cases hstage with
  | disconnected h => exact h

/-- A `disconnect` in which a send or the closing handshake raises has not. -/
theorem not_disconnected_of_raises (hconnected : m.state = .connected ∨ m.state = .active)
    (hcalm : Meets step (Calm m.tasks.length) (step m Call.disconnect.event) events)
    (ht : (after m .disconnect events).tasks[m.tasks.length]? = some t)
    (hraises : Sending t ∨ t = .closing) :
    (after m .disconnect (events ++ [.resume m.tasks.length false])).state ≠ .disconnected := by
  obtain ⟨t', ht', hstage⟩ := underway_run hconnected .disconnect hcalm
  obtain rfl : t' = t := Option.some.inj (ht'.symm.trans ht)
  have hnot : m.state ≠ .disconnected := by rcases hconnected with h | h <;> simp [h]
  rw [after_resume ht]
  cases hstage with
  | unsubscribingAll codes h => exact fun hs => hnot (h.1.symm.trans hs)
  | cancelling => simp [Sending] at hraises
  | closing h => exact fun hs => hnot (h.symm.trans hs)
  | disconnected => simp [Sending] at hraises

/-- The reconnect loop catches what a subscribe message of its own raises. -/
theorem resubscribe_raises {saved rest : List StockCode} {code : StockCode} {ws : ℕ}
    (ht : m.tasks[i]? = some (.resubscribing saved rest code (.send ws))) :
    (step m (.resume i false)).state = .disconnected ∧ (step m (.resume i false)).ws = none := by
  simp only [step, ht, Manager.resume, Manager.resumeSubscribe, Manager.resubscribed,
    Manager.reconnectLoop, Bool.false_eq_true, if_false]
  split_ifs <;> exact ⟨rfl, rfl⟩

/-- A send that raises inside a call leaves the manager usable exactly where the call is an
`unsubscribe`, or, if other tasks have changed the manager since the call, where they had left it
so; `disconnect` leaves it disconnected exactly where nothing raises. A send inside the reconnect loop
always leaves it usable. -/
theorem survives_iff (m : Manager) (hconnected : m.state = .connected ∨ m.state = .active)
    (call : Call) (events : List Event) :
    (∀ t, (after m call events).tasks[m.tasks.length]? = some t → Sending t →
      (Survives m call (after m call (events ++ [.resume m.tasks.length false])) ↔
        Survives m call (after m call events))) ∧
    (Meets step (Calm m.tasks.length) (step m call.event) events →
      ∀ t, (after m call events).tasks[m.tasks.length]? = some t →
        (Sending t →
          (Survives m call (after m call (events ++ [.resume m.tasks.length false])) ↔
            ∃ code, call = .unsubscribe code)) ∧
        (call = .disconnect →
          (t = .finished → (after m call events).state = .disconnected ∧
            (after m call events).ws = none) ∧
          (Sending t ∨ t = .closing →
            (after m call (events ++ [.resume m.tasks.length false])).state ≠ .disconnected))) ∧
    ∀ (m' : Manager) i saved rest code ws,
      m'.tasks[i]? = some (.resubscribing saved rest code (.send ws)) →
        Usable m (step m' (.resume i false)) := by
  refine ⟨fun t ht hsend => survives_raise ht hsend, fun hcalm t ht => ⟨fun hsend => ?_, ?_⟩,
    fun _ _ _ _ _ _ ht => Or.inr (resubscribe_raises ht)⟩
  · exact (survives_raise ht hsend).trans (survives_calm hconnected hcalm ht hsend)
  · rintro rfl
    constructor
    · rintro rfl
      exact disconnected_of_finished hconnected hcalm ht
    · exact not_disconnected_of_raises hconnected hcalm ht

/-- A manager that has connected. -/
def opened : Manager :=
  run step { maxReconnect := 5, baseDelay := 1, clock := 100 } [.connect, .resume 0 true]

/-- A manager with one code in its set. -/
def subscribed : Manager := run step opened [.subscribe "005930", .resume 2 true]

theorem survives_iff_opened :
    Survives opened (.subscribe "005930") (after opened (.subscribe "005930") [.resume 2 false]) ↔
      ∃ code, Call.subscribe "005930" = .unsubscribe code :=
  ((survives_iff opened (Or.inl (by decide +kernel)) (.subscribe "005930") []).2.1 trivial
    (.subscribing "005930" (.send 0)) (by decide +kernel)).1 trivial

/-- After a failing subscribe message every later `subscribe` is refused; a `disconnect` whose send
raises leaves the manager active. -/
theorem failing_subscribe_stuck :
    opened.state = .connected ∧
      ¬ Survives opened (.subscribe "005930") (after opened (.subscribe "005930") [.resume 2 false]) ∧
      subscribed.state = .active ∧
      (after subscribed .disconnect [.resume 3 false]).state = .active := by
  have hstate : (after opened (.subscribe "005930") [.resume 2 false]).state = .subscribing := by
    decide +kernel
  refine ⟨by decide +kernel, ?_, by decide +kernel, by decide +kernel⟩
  rintro ⟨⟨hs | hs, -⟩ | ⟨hs, -⟩, -⟩ <;> exact absurd (hstate.symm.trans hs) (by decide)

end KisAutotrader.WebSocketManager.FailingSends
