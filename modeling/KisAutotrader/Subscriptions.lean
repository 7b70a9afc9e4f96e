import KisAutotrader.History
import KisAutotrader.WebSocketManager

/-!
# The subscriptions of the websocket manager

What a call has checked before its awaits may no longer hold when it resumes.
Where it still does, the set of subscriptions and the connection agree.
-/
namespace KisAutotrader.WebSocketManager.Subscriptions
open Interleaving History

/-- After every completed `unsubscribe` of the code the user has called `subscribe` for it. -/
def Clean (code : StockCode) (log : List Entry) : Prop :=
  ∀ before after, log = before ++ .unsubscribed code::after → .called code ∈ after

/-- A reconnect subscribes only to codes that are still wanted. -/
def Wanted (before : List Entry) (entry : Entry) : Prop :=
  ∀ code, entry = .subscribed .reconnect code → Clean code before

/-- Connection, subscriptions and record at every moment of a run. -/
structure Consistent (m : Manager) : Prop where
  connected : m.state = .connected ∨ m.state = .active → ∃ ws, m.ws = some ws
  sent : m.state = .connected ∨ m.state = .active →
    ∀ ws ∈ m.ws, ∀ code ∈ m.subscriptions, (ws, code) ∈ m.sent
  nodup : m.subscriptions.Nodup
  cap : m.subscriptions.length ≤ maxSubscriptions
  wanted : EachAfter Wanted m.log

/-- The codes a task has still to subscribe to. -/
def codes : Task → List StockCode
  | .subscribing code _ => [code]
  | .sleeping saved _ => saved
  | .reconnecting saved => saved
  | .resubscribing saved rest code _ => code::(rest ++ saved)
  | _ => []

/-- The await has ended, and the call ends with it. -/
def Ends (await : Await) (ok : Bool) (m : Manager) : Prop :=
  match await with
  | .debounce wake => wake ≤ m.clock ∧ m.ws = none
  | .send _ => ok = true

/-- The subscribe message went out on the connection there is, and the set has room. -/
def Recordable (code : StockCode) (await : Await) (m : Manager) : Prop :=
  (∃ ws ∈ m.ws, await = .send ws ∨ (ws, code) ∈ m.sent) ∧
    (code ∈ m.subscriptions ∨ m.subscriptions.length < maxSubscriptions)

/-- No task has still to subscribe to the code. -/
def Unheld (code : StockCode) (m : Manager) : Prop := ∀ t ∈ m.tasks, code ∉ codes t

/-- No task has still to subscribe to the code, and without it there is a connection or the set is
not empty. -/
def Releasable (code : StockCode) (m : Manager) : Prop :=
  Unheld code m ∧ (m.subscriptions.erase code = [] → m.ws ≠ none)

/-- What the task has checked before its await still holds. -/
def Resumable (ok : Bool) (m : Manager) : Task → Prop
  | .connecting => ok = true → m.subscriptions = []
  | .subscribing code await => Ends await ok m → Recordable code await m
  | .resubscribing _ _ code await => Ends await ok m → Recordable code await m
  | .unsubscribing code await => Ends await ok m → Releasable code m
  | _ => True

/-- The same of a call of `unsubscribe` that completes without an await. -/
def Unsubscribable (code : StockCode) (m : Manager) : Prop :=
  if code ∈ m.subscriptions then m.debounced = false → m.ws = none → Releasable code m
  else Unheld code m

/-- A call that completes does so on the connection, the set and the tasks it relies on. -/
def Undisturbed (m : Manager) : Event → Prop
  | .unsubscribe code => Unsubscribable code m
  | .resume i ok => ∀ t ∈ m.tasks[i]?, Resumable ok m t
  | _ => True

instance (await : Await) (ok : Bool) (m : Manager) : Decidable (Ends await ok m) := by
  cases await <;> unfold Ends <;> infer_instance

instance (code : StockCode) (await : Await) (m : Manager) : Decidable (Recordable code await m) :=
  inferInstanceAs (Decidable (_ ∧ _))

instance (code : StockCode) (m : Manager) : Decidable (Unheld code m) :=
  inferInstanceAs (Decidable (∀ t ∈ m.tasks, _))

instance (code : StockCode) (m : Manager) : Decidable (Releasable code m) :=
  inferInstanceAs (Decidable (_ ∧ _))

instance (ok : Bool) (m : Manager) (t : Task) : Decidable (Resumable ok m t) := by
  cases t <;> unfold Resumable <;> infer_instance

instance (code : StockCode) (m : Manager) : Decidable (Unsubscribable code m) := by
  unfold Unsubscribable
  infer_instance

instance (m : Manager) (e : Event) : Decidable (Undisturbed m e) := by
  cases e <;> unfold Undisturbed <;> infer_instance

theorem Unsubscribable.call {code : StockCode} {m : Manager} (h : Unsubscribable code m) :
    Unsubscribable code { m with tasks := m.tasks ++ [.finished] } := by
  have hunheld : Unheld code m → Unheld code { m with tasks := m.tasks ++ [.finished] } := by
    intro hm t ht
    rcases List.mem_append.mp ht with ht | ht
    · exact hm t ht
    · obtain rfl := List.mem_singleton.mp ht
      simp [codes]
  unfold Unsubscribable at h ⊢
  split at h
  · rename_i hmem
    rw [if_pos hmem]
    intro hdebounced hws
    obtain ⟨hm, hconnection⟩ := h hdebounced hws
    exact ⟨hunheld hm, hconnection⟩
  · rename_i hmem
    rw [if_neg hmem]
    exact hunheld h

/-- The last entry is no completed `unsubscribe` of the code; a new call makes the code wanted
again. -/
theorem clean_snoc {code : StockCode} {log : List Entry} {entry : Entry}
    (hentry : entry ≠ .unsubscribed code) (h : Clean code log ∨ entry = .called code) :
    Clean code (log ++ [entry]) := by
  intro before after heq
  rcases List.eq_nil_or_concat' after with rfl | ⟨after, z, rfl⟩
  · obtain ⟨-, hlast⟩ := List.append_inj' heq rfl
    exact absurd (List.cons.inj hlast).1 hentry
  · have hsplit : log ++ [entry] = (before ++ .unsubscribed code::after) ++ [z] := by simpa using heq
    obtain ⟨hlog, hz⟩ := List.append_inj' hsplit rfl
    rcases h with hclean | hcalled
    · exact List.mem_append_left _ (hclean before after hlog)
    · rw [← hcalled, (List.cons.inj hz).1]
      simp

theorem Clean.snoc {code : StockCode} {log : List Entry} (h : Clean code log) {entry : Entry}
    (hentry : entry ≠ .unsubscribed code) : Clean code (log ++ [entry]) :=
  clean_snoc hentry (Or.inl h)

theorem Clean.unsubscribed {code other : StockCode} {log : List Entry} (h : Clean other log)
    (hne : other ≠ code) : Clean other (log ++ [.unsubscribed code]) :=
  h.snoc fun heq => hne (Entry.unsubscribed.inj heq).symm

theorem clean_called (code : StockCode) (log : List Entry) : Clean code (log ++ [.called code]) :=
  clean_snoc (by simp) (Or.inr rfl)

/-- A code in the set or in the hands of a task is wanted. -/
structure Sound (m : Manager) : Prop where
  connected : m.state = .connected ∨ m.state = .active → ∃ ws, m.ws = some ws
  sent : ∀ ws ∈ m.ws, ∀ code ∈ m.subscriptions, (ws, code) ∈ m.sent
  nodup : m.subscriptions.Nodup
  cap : m.subscriptions.length ≤ maxSubscriptions
  wanted : EachAfter Wanted m.log
  clean : ∀ code ∈ m.subscriptions, Clean code m.log
  held : ∀ t ∈ m.tasks, ∀ code ∈ codes t, Clean code m.log

variable {m : Manager}

theorem Sound.put (h : Sound m) (i : ℕ) {t : Task} (ht : ∀ code ∈ codes t, Clean code m.log) :
    Sound (m.put i t) :=
  ⟨h.connected, h.sent, h.nodup, h.cap, h.wanted, h.clean, forall_set h.held ht⟩

theorem Sound.finish (h : Sound m) (i : ℕ) : Sound (m.put i .finished) :=
  h.put i (by simp [codes])

theorem Sound.lose (h : Sound m) : Sound m.lose :=
  ⟨by simp [Manager.lose], by simp [Manager.lose], h.nodup, h.cap, h.wanted, h.clean, h.held⟩

theorem Sound.awaiting (h : Sound m) {state : ConnectionState}
    (hstate : ¬ (state = .connected ∨ state = .active)) : Sound { m with state } :=
  ⟨fun hconnected => absurd hconnected hstate, h.sent, h.nodup, h.cap, h.wanted, h.clean, h.held⟩

theorem Sound.spawn (h : Sound m) {t : Task} (ht : codes t = []) :
    Sound { m with tasks := m.tasks ++ [t] } := by
  refine ⟨h.connected, h.sent, h.nodup, h.cap, h.wanted, h.clean, fun t' ht' => ?_⟩
  obtain ht' | ht' := List.mem_append.mp ht'
  · exact h.held t' ht'
  · obtain rfl := List.mem_singleton.mp ht'
    simp [ht]

/-- The record grows by an entry that is no completed `unsubscribe`. -/
theorem Sound.note (h : Sound m) {entry : Entry} (hentry : ∀ code, entry ≠ .unsubscribed code)
    (hwanted : Wanted m.log entry) : Sound (m.note entry) :=
  ⟨h.connected, h.sent, h.nodup, h.cap, EachAfter.snoc h.wanted hwanted,
    fun code hcode => (h.clean code hcode).snoc (hentry code),
    fun t ht code hcode => (h.held t ht code hcode).snoc (hentry code)⟩

theorem Sound.clear (h : Sound m) : Sound { m with subscriptions := [] } :=
  ⟨h.connected, by simp, List.nodup_nil, Nat.zero_le _, h.wanted, by simp, h.held⟩

/-- A new connection is established with an empty set. -/
theorem Sound.establish (h : Sound m) (hempty : m.subscriptions = []) : Sound m.establish := by
  refine ⟨fun _ => ⟨_, rfl⟩, ?_, h.nodup, h.cap, h.wanted, h.clean, h.held⟩
  simp [Manager.establish, hempty]

/-- A code is added to the set once its message has gone out on the connection there is. -/
theorem Sound.subscribed (h : Sound m) {code : StockCode} (caller : Caller) (hws : m.ws ≠ none)
    (hsent : ∀ ws ∈ m.ws, (ws, code) ∈ m.sent)
    (hroom : code ∈ m.subscriptions ∨ m.subscriptions.length < maxSubscriptions)
    (hclean : Clean code m.log) : Sound (m.subscribed caller code) := by
  have hentry : ∀ other, Entry.subscribed caller code ≠ .unsubscribed other := by simp
  have hset : ∀ other ∈ (m.subscribed caller code).subscriptions, other ∈ m.subscriptions ∨ other = code := by
    intro other hother
    simp only [Manager.subscribed] at hother
    split at hother
    · exact Or.inl hother
    · simpa using hother
  refine ⟨fun _ => Option.ne_none_iff_exists'.mp hws, ?_, ?_, ?_, ?_, ?_, ?_⟩
  · intro ws hcurrent other hother
    rcases hset other hother with hother | rfl
    · exact h.sent ws hcurrent other hother
    · exact hsent ws hcurrent
  · simp only [Manager.subscribed]
    split
    · exact h.nodup
    · rename_i hnew
      refine List.nodup_append.mpr ⟨h.nodup, by simp, fun other hother last hlast => ?_⟩
      obtain rfl := List.mem_singleton.mp hlast
      exact fun heq => hnew (heq ▸ hother)
  · simp only [Manager.subscribed]
    split
    · exact h.cap
    · rename_i hnew
      have hlength := hroom.resolve_left hnew
      simp only [List.length_append, List.length_singleton]
      omega
  · refine EachAfter.snoc h.wanted fun other hother => ?_
    obtain ⟨-, rfl⟩ := Entry.subscribed.inj hother
    exact hclean
  · intro other hother
    rcases hset other hother with hother | rfl
    · exact (h.clean other hother).snoc (hentry other)
    · exact hclean.snoc (hentry other)
  · intro t ht other hother
    exact (h.held t ht other hother).snoc (hentry other)

theorem Sound.unsubscribed (h : Sound m) {code : StockCode} (hrelease : Releasable code m) :
    Sound (m.unsubscribed code) := by
  obtain ⟨hunheld, hconnection⟩ := hrelease
  refine ⟨?_, ?_, h.nodup.erase code, ?_, ?_, ?_, ?_⟩
  · intro hstate
    simp only [Manager.unsubscribed] at hstate ⊢
    split at hstate
    · rename_i hempty
      exact Option.ne_none_iff_exists'.mp (hconnection hempty)
    · exact h.connected hstate
  · intro ws hws other hmem
    exact h.sent ws hws other (List.mem_of_mem_erase hmem)
  · exact List.length_erase_le.trans h.cap
  · exact EachAfter.snoc h.wanted fun other heq => by cases heq
  · intro other hmem
    have hne : other ≠ code := (h.nodup.mem_erase_iff.mp hmem).1
    exact (h.clean other (List.mem_of_mem_erase hmem)).unsubscribed hne
  · intro t ht other hmem
    have hne : other ≠ code := fun heq => hunheld t ht (heq ▸ hmem)
    exact (h.held t ht other hmem).unsubscribed hne

/-- A call of `unsubscribe` that finds nothing to do completes all the same. -/
theorem Sound.notSubscribed (h : Sound m) {code : StockCode} (hunheld : Unheld code m)
    (habsent : code ∉ m.subscriptions) : Sound (m.note (.unsubscribed code)) := by
  refine ⟨h.connected, h.sent, h.nodup, h.cap, ?_, ?_, ?_⟩
  · exact EachAfter.snoc h.wanted fun other heq => by cases heq
  · intro other hmem
    have hne : other ≠ code := fun heq => habsent (heq ▸ hmem)
    exact (h.clean other hmem).unsubscribed hne
  · intro t ht other hmem
    have hne : other ≠ code := fun heq => hunheld t ht (heq ▸ hmem)
    exact (h.held t ht other hmem).unsubscribed hne

/-- A call of `subscribe` up to its first await: it does nothing yet, or sends on the connection
there is. -/
inductive Begun (m : Manager) : Manager × Outcome → Prop
  | unchanged (outcome : Outcome) : Begun m (m, outcome)
  | sends (ws : ℕ) (hws : m.ws = some ws) :
      Begun m ({ m with state := .subscribing }, .waits (.send ws))

theorem begun_sendSubscribe (caller : Caller) (code : StockCode) {ws : ℕ} (hws : m.ws = some ws) :
    Begun m (m.sendSubscribe caller code) := by
  have hsends : m.sendSubscribe caller code =
      ({ m with state := .subscribing }, .waits (.send ws)) := by
    simp only [Manager.sendSubscribe, hws]
  rw [hsends]
  exact Begun.sends ws hws

theorem begun_subscribe (h : Sound m) (caller : Caller) (code : StockCode) :
    Begun m (m.subscribe caller code) := by
  unfold Manager.subscribe
  split_ifs with hstate hmem hfull hdebounced
  · exact Begun.unchanged _
  · exact Begun.unchanged _
  · exact Begun.unchanged _
  · obtain ⟨ws, hws⟩ := h.connected hstate
    exact begun_sendSubscribe caller code hws
  · exact Begun.unchanged _

theorem Begun.sound {r : Manager × Outcome} (hbegun : Begun m r) (h : Sound m) : Sound r.1 := by
  cases hbegun with
  | unchanged outcome => exact h
  | sends ws hws => exact h.awaiting (by simp)

theorem Begun.log {r : Manager × Outcome} (hbegun : Begun m r) : r.1.log = m.log := by
  cases hbegun with
  | unchanged outcome => rfl
  | sends ws hws => rfl

/-- A resumed `subscribe` keeps the manager sound, and what it does to the record leaves its codes
clean. -/
theorem resumeSubscribe_sound (h : Sound m) (caller : Caller) {code : StockCode} {await : Await}
    {ok : Bool} (hcond : Ends await ok m → Recordable code await m) (hclean : Clean code m.log) :
    Sound (m.resumeSubscribe caller code await ok).1 ∧
      ∀ other, Clean other m.log → Clean other (m.resumeSubscribe caller code await ok).1.log := by
  cases await with
  | debounce wake =>
    simp only [Manager.resumeSubscribe]
    split
    · exact ⟨h, fun _ hother => hother⟩
    · rename_i hwake
      cases hws : m.ws with
      | none =>
        obtain ⟨⟨ws, hcurrent, -⟩, -⟩ := hcond ⟨not_lt.mp hwake, hws⟩
        rw [hws] at hcurrent
        simp at hcurrent
      | some ws =>
        have hbegun := begun_sendSubscribe caller code hws
        refine ⟨hbegun.sound h, fun other hother => ?_⟩
        rw [hbegun.log]
        exact hother
  | send conn =>
    cases ok with
    | false => exact ⟨h, fun _ hother => hother⟩
    | true =>
      obtain ⟨⟨ws, hcurrent, hmessage⟩, hroom⟩ := hcond rfl
      have hrecorded : Sound { m with sent := (conn, code)::m.sent } := by
        refine ⟨h.connected, fun ws' hws' other hmem => ?_, h.nodup, h.cap, h.wanted, h.clean, h.held⟩
        exact List.mem_cons_of_mem _ (h.sent ws' hws' other hmem)
      have hsent : ∀ ws' ∈ m.ws, (ws', code) ∈ (conn, code)::m.sent := by
        intro ws' hws'
        obtain rfl := Option.some.inj (hws'.symm.trans hcurrent)
        rcases hmessage with hconn | hmessage
        · obtain rfl := Await.send.inj hconn
          exact List.mem_cons_self
        · exact List.mem_cons_of_mem _ hmessage
      have hopen : m.ws ≠ none := fun hnone => by simp [hnone] at hcurrent
      refine ⟨hrecorded.subscribed caller hopen hsent hroom hclean, fun other hother => ?_⟩
      exact hother.snoc (by simp)

theorem Sound.reconnectLoop (h : Sound m) (i : ℕ) {saved : List StockCode}
    (hsaved : ∀ code ∈ saved, Clean code m.log) : Sound (m.reconnectLoop i saved) := by
  unfold Manager.reconnectLoop
  split
  · have hcounted : Sound { m with reconnectCount := m.reconnectCount + 1 } :=
      ⟨h.connected, h.sent, h.nodup, h.cap, h.wanted, h.clean, h.held⟩
    exact hcounted.put i hsaved
  · exact h.finish i

theorem Sound.startReceiving (h : Sound m) : Sound m.startReceiving := by
  have hspawned : Sound { m with tasks := m.tasks ++ [.looping] } := h.spawn rfl
  exact ⟨h.connected, h.sent, h.nodup, h.cap, h.wanted, h.clean, hspawned.held⟩

theorem Sound.restore (h : Sound m) (i : ℕ) {saved rest : List StockCode}
    (hsaved : ∀ code ∈ saved, Clean code m.log) (hrest : ∀ code ∈ rest, Clean code m.log) :
    Sound (m.restore i saved rest) := by
  induction rest generalizing m with
  | nil =>
    have hstarted := h.startReceiving
    have hreset : Sound { m.startReceiving with reconnectCount := 0 } :=
      ⟨hstarted.connected, hstarted.sent, hstarted.nodup, hstarted.cap, hstarted.wanted,
        hstarted.clean, hstarted.held⟩
    exact hreset.finish i
  | cons code rest ih =>
    have hbegun := begun_subscribe h .reconnect code
    have hsound := hbegun.sound h
    have hlog := hbegun.log
    rw [Manager.restore]
    split
    · rename_i v heq
      rw [heq] at hsound hlog
      rw [← hlog] at hsaved hrest
      exact ih hsound hsaved fun other hother => hrest other (List.mem_cons_of_mem _ hother)
    · rename_i v heq
      rw [heq] at hsound hlog
      rw [← hlog] at hsaved
      exact hsound.lose.reconnectLoop i hsaved
    · rename_i v await heq
      rw [heq] at hsound hlog
      rw [← hlog] at hsaved hrest
      refine hsound.put i fun other hother => ?_
      rcases List.mem_cons.mp hother with rfl | hother
      · exact hrest other List.mem_cons_self
      · rcases List.mem_append.mp hother with hother | hother
        · exact hrest other (List.mem_cons_of_mem _ hother)
        · exact hsaved other hother

/-- The reconnect loop goes on after an await inside `subscribe`. -/
theorem resubscribed_sound (i : ℕ) {saved rest : List StockCode} {code : StockCode}
    {r : Manager × Outcome} (h : Sound r.1) (hcode : Clean code r.1.log)
    (hsaved : ∀ other ∈ saved, Clean other r.1.log) (hrest : ∀ other ∈ rest, Clean other r.1.log) :
    Sound (Manager.resubscribed i saved rest code r) := by
  obtain ⟨v, outcome⟩ := r
  cases outcome with
  | returned => exact h.restore i hsaved hrest
  | raised => exact h.lose.reconnectLoop i hsaved
  | waits await =>
    refine h.put i fun other hother => ?_
    rcases List.mem_cons.mp hother with rfl | hother
    · exact hcode
    · rcases List.mem_append.mp hother with hother | hother
      · exact hrest other hother
      · exact hsaved other hother

theorem settle_sound (i : ℕ) {waiting : Await → Task} {r : Manager × Outcome} (h : Sound r.1)
    (hcodes : ∀ await, ∀ code ∈ codes (waiting await), Clean code r.1.log) :
    Sound (Manager.settle i waiting r) := by
  obtain ⟨v, outcome⟩ := r
  cases outcome with
  | returned => exact h.finish i
  | raised => exact h.finish i
  | waits await => exact h.put i (hcodes await)

theorem sendUnsubscribe_sound (h : Sound m) {code : StockCode}
    (hrelease : m.ws = none → Releasable code m) : Sound (m.sendUnsubscribe code).1 := by
  unfold Manager.sendUnsubscribe
  split
  · exact h
  · rename_i hws
    exact h.unsubscribed (hrelease hws)

theorem unsubscribe_sound (h : Sound m) {code : StockCode} (hcond : Unsubscribable code m) :
    Sound (m.unsubscribe code).1 := by
  unfold Unsubscribable at hcond
  unfold Manager.unsubscribe
  split_ifs with hmem hdebounced
  · rw [if_pos hmem] at hcond
    exact h
  · rw [if_pos hmem] at hcond
    exact sendUnsubscribe_sound h (hcond (by simpa using hdebounced))
  · rw [if_neg hmem] at hcond
    exact h.notSubscribed hcond hmem

theorem resumeUnsubscribe_sound (h : Sound m) {code : StockCode} {await : Await} {ok : Bool}
    (hcond : Ends await ok m → Releasable code m) : Sound (m.resumeUnsubscribe code await ok).1 := by
  cases await with
  | debounce wake =>
    simp only [Manager.resumeUnsubscribe]
    split
    · exact h
    · rename_i hwake
      exact sendUnsubscribe_sound h fun hws => hcond ⟨not_lt.mp hwake, hws⟩
  | send ws =>
    cases ok with
    | false => exact h
    | true => exact h.unsubscribed (hcond rfl)

theorem Sound.close (h : Sound m) (i : ℕ) : Sound (m.close i) := by
  unfold Manager.close
  split
  · exact h.put i (by simp [codes])
  · exact h.lose.finish i

theorem Sound.cancelReceive (h : Sound m) (i : ℕ) : Sound (m.cancelReceive i) := by
  unfold Manager.cancelReceive
  split
  · split
    · exact h.close i
    · exact (h.finish _).put i (by simp [codes])
  · exact h.close i

theorem Sound.unsubscribeAll (h : Sound m) (i : ℕ) (all : List StockCode) :
    Sound (m.unsubscribeAll i all) := by
  unfold Manager.unsubscribeAll
  split
  · exact h.put i (by simp [codes])
  · exact h.clear.cancelReceive i

theorem Sound.run (h : Sound m) (running : Bool) : Sound { m with running } :=
  ⟨h.connected, h.sent, h.nodup, h.cap, h.wanted, h.clean, h.held⟩

theorem Sound.receiveLoop (h : Sound m) (i : ℕ) : Sound (m.receiveLoop i) := by
  unfold Manager.receiveLoop
  split
  · exact h.put i (by simp [codes])
  · exact h.finish i

theorem Sound.handshake (h : Sound m) (i : ℕ) {ok : Bool} (hempty : ok = true → m.subscriptions = []) :
    Sound (m.connected i ok) := by
  unfold Manager.connected
  split
  · rename_i hok
    have hestablished := h.establish (hempty hok)
    have hreset : Sound { m.establish with reconnectCount := 0 } :=
      ⟨hestablished.connected, hestablished.sent, hestablished.nodup, hestablished.cap,
        hestablished.wanted, hestablished.clean, hestablished.held⟩
    exact hreset.startReceiving.finish i
  · exact (h.awaiting (by simp)).finish i

theorem Sound.reconnected (h : Sound m) (i : ℕ) {saved : List StockCode} {ok : Bool}
    (hsaved : ∀ code ∈ saved, Clean code m.log) : Sound (m.reconnected i saved ok) := by
  unfold Manager.reconnected
  split
  · have hcleared : Sound { m.establish with subscriptions := [] } := h.clear.establish rfl
    exact hcleared.restore i hsaved hsaved
  · exact h.lose.reconnectLoop i hsaved

theorem resume_sound (h : Sound m) {i : ℕ} {ok : Bool} {t : Task} (ht : t ∈ m.tasks)
    (hcond : Resumable ok m t) : Sound (m.resume i ok t) := by
  have hheld := h.held t ht
  cases t with
  | connecting => exact h.handshake i hcond
  | unsubscribingAll all =>
    simp only [Manager.resume]
    split
    · exact h.unsubscribeAll i all
    · exact h.finish i
  | cancelling => exact h.close i
  | closing =>
    simp only [Manager.resume]
    split
    · exact h.lose.finish i
    · exact h.finish i
  | subscribing code await =>
    have hclean : Clean code m.log := hheld code List.mem_cons_self
    obtain ⟨hsound, hkeeps⟩ := resumeSubscribe_sound h .user hcond hclean
    refine settle_sound i hsound fun await' other hother => ?_
    obtain rfl := List.mem_singleton.mp hother
    exact hkeeps other hclean
  | unsubscribing code await =>
    exact settle_sound i (resumeUnsubscribe_sound h hcond) (by simp [codes])
  | looping => exact h.receiveLoop i
  | receiving =>
    simp only [Manager.resume]
    split
    · exact h.put i (by simp [codes])
    · exact h.lose.reconnectLoop i h.clean
  | handling => exact h.receiveLoop i
  | sleeping saved wake =>
    simp only [Manager.resume]
    split
    · exact h
    · exact (h.awaiting (by simp)).put i hheld
  | reconnecting saved => exact h.reconnected i hheld
  | resubscribing saved rest code await =>
    have hclean : Clean code m.log := hheld code List.mem_cons_self
    obtain ⟨hsound, hkeeps⟩ := resumeSubscribe_sound h .reconnect hcond hclean
    refine resubscribed_sound i hsound (hkeeps code hclean) ?_ ?_
    · intro other hother
      exact hkeeps other (hheld other (by simp [codes, hother]))
    · intro other hother
      exact hkeeps other (hheld other (by simp [codes, hother]))
  | finished => exact h

theorem sound_step (h : Sound m) {e : Event} (hcond : Undisturbed m e) : Sound (step m e) := by
  cases e with
  | tick now => exact ⟨h.connected, h.sent, h.nodup, h.cap, h.wanted, h.clean, h.held⟩
  | connect =>
    have hcalled : Sound { m with tasks := m.tasks ++ [.finished] } := h.spawn rfl
    simp only [step, Manager.call, Manager.connect]
    split
    · exact hcalled.finish _
    · exact (hcalled.awaiting (by simp)).put _ (by simp [codes])
  | disconnect =>
    have hcalled : Sound { m with tasks := m.tasks ++ [.finished] } := h.spawn rfl
    simp only [step, Manager.call, Manager.disconnect]
    split
    · exact hcalled.finish _
    · exact (hcalled.run false).unsubscribeAll _ _
  | subscribe code =>
    have hnoted : Sound (m.note (.called code)) := h.note (by simp) (by simp [Wanted])
    have hcalled : Sound { m.note (.called code) with tasks := (m.note (.called code)).tasks ++ [.finished] } :=
      hnoted.spawn rfl
    have hbegun := begun_subscribe hcalled .user code
    refine settle_sound _ (hbegun.sound hcalled) fun await other hother => ?_
    obtain rfl := List.mem_singleton.mp hother
    rw [hbegun.log]
    exact clean_called other m.log
  | unsubscribe code =>
    have hcalled : Sound { m with tasks := m.tasks ++ [.finished] } := h.spawn rfl
    exact settle_sound _ (unsubscribe_sound hcalled hcond.call) (by simp [codes])
  | resume i ok =>
    simp only [step]
    cases ht : m.tasks[i]? with
    | none => exact h
    | some t => exact resume_sound h (List.mem_of_getElem? ht) (hcond t ht)
  | reorder all =>
    simp only [step]
    split
    · rename_i hperm
      refine ⟨h.connected, ?_, hperm.nodup_iff.mpr h.nodup, ?_, h.wanted, ?_, h.held⟩
      · intro ws hws code hcode
        exact h.sent ws hws code (hperm.mem_iff.mp hcode)
      · exact hperm.length_eq.trans_le h.cap
      · intro code hcode
        exact h.clean code (hperm.mem_iff.mp hcode)
    · exact h

/-- In every run whose completing calls are undisturbed, the connection, the set and the record
agree. -/
theorem subscriptions_consistent (maxReconnect : ℕ) (baseDelay now : ℚ) (events : List Event)
    (hundisturbed : Meets step Undisturbed { maxReconnect, baseDelay, clock := now } events) :
    Consistent (run step { maxReconnect, baseDelay, clock := now } events) := by
  have hstart : Sound { maxReconnect, baseDelay, clock := now } :=
    ⟨by simp, by simp, List.nodup_nil, Nat.zero_le _, eachAfter_nil _, by simp, by simp⟩
  have hstep : ∀ m e, Sound m → Undisturbed m e → Sound (step m e) :=
    fun _ _ h hcond => sound_step h hcond
  have hsound := invariant hstep hstart hundisturbed
  exact ⟨hsound.connected, fun _ => hsound.sent, hsound.nodup, hsound.cap, hsound.wanted⟩

/-- A connection with one code, which is lost, established again, and released. -/
def reconnectingRun : List Event :=
  [.connect, .resume 0 true, .resume 1 true, .subscribe "005930", .resume 2 true, .resume 1 false,
    .tick 102, .resume 1 true, .resume 1 true, .resume 1 true, .tick 110, .unsubscribe "005930",
    .resume 4 true]

theorem subscriptions_consistent_reconnecting :
    Consistent (run step { maxReconnect := 5, baseDelay := 1, clock := 100 } reconnectingRun) :=
  subscriptions_consistent 5 1 100 reconnectingRun (by decide +kernel)

/-- The connection is lost during the debounce of a second code. -/
def debouncingRun : List Event :=
  [.connect, .resume 0 true, .resume 1 true, .subscribe "005930", .resume 2 true,
    .subscribe "000660", .resume 1 false, .tick 101, .resume 3 true]

theorem debouncing_disconnected : ¬ ∀ (maxReconnect : ℕ) (baseDelay now : ℚ) (events : List Event),
    Consistent (run step { maxReconnect, baseDelay, clock := now } events) := by
  intro h
  have hconnected := (h 5 1 100 debouncingRun).connected (by decide +kernel)
  obtain ⟨ws, hws⟩ := hconnected
  have hnone : (run step { maxReconnect := 5, baseDelay := 1, clock := 100 } debouncingRun).ws = none := by
    decide +kernel
  rw [hnone] at hws
  exact absurd hws (by simp)

end KisAutotrader.WebSocketManager.Subscriptions
