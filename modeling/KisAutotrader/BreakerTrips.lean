import Mathlib.Tactic.Linarith
import KisAutotrader.HttpClient

/-!
# The trips of the circuit breaker

The breaker is asked once per request, so it keeps its promises only if nothing
is under way any more when it trips.
-/
namespace KisAutotrader.HttpClient.BreakerTrips
open Interleaving

/-- Open, with the reset timeout still running. -/
def Blocked (s : State) : Prop := s.breaker.isOpen = true ∧ s.breaker.elapsed s.clock = false

/-- The transmissions started so far. -/
def transmissions (s : State) : ℕ := tally Request.sent s.requests

/-- The request may still transmit. -/
def mayTransmit (r : Request) : ℕ :=
  match r.phase with
  | .authorising | .hashing | .acquiring _ | .transmitting _ => 1
  | .backoff k _ => if k + 1 < maxRetries then 1 else 0
  | .returned | .raised => 0

/-- The breaker at every moment of a run. -/
structure Settled (baseResetTimeout : ℚ) (s : State) : Prop where
  trips : s.breaker.tripCount = s.trips
  timeout : s.breaker.isOpen = true → s.breaker.currentResetTimeout =
    min (baseResetTimeout * 2 ^ (s.breaker.tripCount - 1)) maxResetTimeout
  starts : ∀ e, transmissions s < transmissions (step s e) → ¬ Blocked s

/-- A failure that trips the breaker ends its own request, and no other one may still
transmit. -/
def TripsAlone (s : State) : Event → Prop
  | .answer i a => ∀ r ∈ s.requests[i]?,
      match r.phase with
      | .transmitting k => a.failure = true →
          s.breaker.failureCount + 1 ≥ s.breaker.failureThreshold →
          (a.final r = true ∨ k + 1 = maxRetries) ∧ tally mayTransmit s.requests ≤ 1
      | _ => True
  | _ => True

instance (s : State) (e : Event) : Decidable (TripsAlone s e) := by
  cases e with
  | answer i a =>
    unfold TripsAlone
    have hcase : ∀ r : Request, Decidable (match r.phase with
        | .transmitting k => a.failure = true →
            s.breaker.failureCount + 1 ≥ s.breaker.failureThreshold →
            (a.final r = true ∨ k + 1 = maxRetries) ∧ tally mayTransmit s.requests ≤ 1
        | _ => True) := by
      intro r
      cases r.phase <;> infer_instance
    infer_instance
  | _ => exact isTrue trivial

/-- Nothing may transmit while the breaker is open. -/
structure Quiet (baseResetTimeout : ℚ) (s : State) : Prop where
  base : s.breaker.baseResetTimeout = baseResetTimeout
  trips : s.breaker.tripCount = s.trips
  timeout : s.breaker.isOpen = true → s.breaker.currentResetTimeout =
    min (baseResetTimeout * 2 ^ (s.breaker.tripCount - 1)) maxResetTimeout
  quiet : s.breaker.isOpen = true → tally mayTransmit s.requests = 0

variable {base : ℚ} {s : State}

theorem Quiet.put {i : ℕ} {r q : Request} (h : Quiet base s) (hr : s.requests[i]? = some r)
    (hle : mayTransmit q ≤ mayTransmit r) : Quiet base (s.put i q) := by
  refine ⟨h.base, h.trips, h.timeout, fun hopen => ?_⟩
  have htally := tally_set (w := mayTransmit) q hr
  have hquiet := h.quiet hopen
  simp only [put_requests]
  omega

/-- A request that transmits finds the breaker closed. -/
theorem Quiet.closed {i k : ℕ} {r : Request} (h : Quiet base s) (hr : s.requests[i]? = some r)
    (hphase : r.phase = .transmitting k) : s.breaker.isOpen = false := by
  by_contra hopen
  rw [Bool.not_eq_false] at hopen
  have hle := le_tally (w := mayTransmit) (List.mem_of_getElem? hr)
  have hone : mayTransmit r = 1 := by simp [mayTransmit, hphase]
  have hquiet := h.quiet hopen
  omega

theorem tryHalfOpen_quiet (h : Quiet base s) :
    Quiet base { s with breaker := (s.breaker.tryHalfOpen s.clock).1 } := by
  unfold CircuitBreaker.tryHalfOpen
  split
  · exact ⟨h.base, h.trips, fun hopen => by simp at hopen, fun hopen => by simp at hopen⟩
  · exact h

theorem isAvailable_quiet (h : Quiet base s) :
    Quiet base { s with breaker := (s.breaker.isAvailable s.clock).1 } := by
  unfold CircuitBreaker.isAvailable
  split
  · exact tryHalfOpen_quiet h
  · exact h

/-- An available breaker is closed. -/
theorem isAvailable_closed (b : CircuitBreaker) (now : ℚ) (h : (b.isAvailable now).2 = true) :
    (b.isAvailable now).1.isOpen = false := by
  unfold CircuitBreaker.isAvailable CircuitBreaker.tryHalfOpen at *
  by_cases hopen : b.isOpen = true
  · by_cases helapsed : b.elapsed now = true
    · simp [hopen, helapsed]
    · simp [hopen, helapsed] at h
  · simp [hopen]

theorem Quiet.request (h : Quiet base s) (idempotent useHashkey : Bool) :
    Quiet base (request idempotent useHashkey s) := by
  have hbreaker := isAvailable_quiet h
  refine ⟨hbreaker.base, hbreaker.trips, hbreaker.timeout, fun hopen => ?_⟩
  have hquiet := hbreaker.quiet hopen
  have hrefused : (s.breaker.isAvailable s.clock).2 = false := by
    by_contra havailable
    rw [Bool.not_eq_false] at havailable
    have hclosed := isAvailable_closed s.breaker s.clock havailable
    simp only [HttpClient.request] at hopen
    rw [hclosed] at hopen
    exact absurd hopen Bool.false_ne_true
  simp only [HttpClient.request, hrefused, tally_snoc] at hquiet ⊢
  simpa [Request.new, mayTransmit] using hquiet

theorem mayTransmit_tryAttempt (r : Request) (k : ℕ) :
    mayTransmit { r with phase := tryAttempt k } = if k < maxRetries then 1 else 0 := by
  unfold tryAttempt
  by_cases hk : k < maxRetries
  · rw [if_pos hk, if_pos hk]
    rfl
  · rw [if_neg hk, if_neg hk]
    rfl

theorem Quiet.proceed (h : Quiet base s) (i : ℕ) : Quiet base (proceed i s) := by
  have hproceeded := proceed_proceeded i s
  generalize HttpClient.proceed i s = t at hproceeded ⊢
  cases hproceeded with
  | stay => exact h
  | authorised r hr hphase =>
    refine h.put hr ?_
    have hone : mayTransmit r = 1 := by simp [mayTransmit, hphase]
    split
    · exact hone.ge
    · rw [hone, mayTransmit_tryAttempt]
      decide
  | hashed r hr hphase =>
    refine h.put hr ?_
    have hone : mayTransmit r = 1 := by simp [mayTransmit, hphase]
    rw [hone, mayTransmit_tryAttempt]
    decide
  | transmits r k hr hphase => exact h.put hr (by simp [mayTransmit, hphase])
  | retries r k wake hr hphase =>
    refine h.put hr ?_
    rw [mayTransmit_tryAttempt]
    simp [mayTransmit, hphase]

theorem recordFailure_trips (hclosed : s.breaker.isOpen = false)
    (htrips : s.breaker.tripCount = s.trips) :
    s.recordFailure.breaker.tripCount = s.recordFailure.trips := by
  unfold State.recordFailure CircuitBreaker.recordFailure
  simp only
  split <;> simp [hclosed, htrips]

theorem recordFailure_timeout (b : CircuitBreaker) (now : ℚ) (hclosed : b.isOpen = false)
    (hopen : (b.recordFailure now).isOpen = true) :
    (b.recordFailure now).currentResetTimeout =
      min (b.baseResetTimeout * 2 ^ ((b.recordFailure now).tripCount - 1)) maxResetTimeout ∧
    b.failureCount + 1 ≥ b.failureThreshold := by
  unfold CircuitBreaker.recordFailure at hopen ⊢
  simp only at hopen ⊢
  split at hopen
  next htrip => simp [htrip]
  next => simp [hclosed] at hopen

theorem recordFailure_base (b : CircuitBreaker) (now : ℚ) :
    (b.recordFailure now).baseResetTimeout = b.baseResetTimeout := by
  unfold CircuitBreaker.recordFailure
  simp only
  split <;> rfl

/-- A recorded failure, after which the request cannot transmit if the breaker has tripped. -/
theorem Quiet.failure {i k : ℕ} {r q : Request} (h : Quiet base s) (hr : s.requests[i]? = some r)
    (hphase : r.phase = .transmitting k)
    (halone : s.breaker.failureCount + 1 ≥ s.breaker.failureThreshold →
      mayTransmit q = 0 ∧ tally mayTransmit s.requests ≤ 1) : Quiet base (s.recordFailure.put i q) := by
  have hclosed := h.closed hr hphase
  refine ⟨(recordFailure_base _ _).trans h.base, recordFailure_trips hclosed h.trips, fun hopen => ?_,
    fun hopen => ?_⟩
  · rw [← h.base]
    exact (recordFailure_timeout s.breaker s.clock hclosed hopen).1
  · obtain ⟨hzero, hone⟩ := halone (recordFailure_timeout s.breaker s.clock hclosed hopen).2
    have htally := tally_set (w := mayTransmit) q hr
    have hself : mayTransmit r = 1 := by simp [mayTransmit, hphase]
    simp only [put_requests, recordFailure_requests]
    omega

theorem Quiet.answer {i : ℕ} {a : Answer} (h : Quiet base s) (hcond : TripsAlone s (.answer i a)) :
    Quiet base (answer i a s) := by
  have hanswered := answer_answered i a s
  generalize HttpClient.answer i a s = t at hanswered ⊢
  cases hanswered with
  | stay => exact h
  | repeated r k wake hr hphase _ =>
    refine h.put hr ?_
    simp only [mayTransmit, hphase]
    split <;> omega
  | failed r k hr hphase hfailure _ =>
    have halone := hcond r hr
    simp only [hphase] at halone
    exact h.failure hr hphase fun htrip => ⟨rfl, (halone hfailure htrip).2⟩
  | retried r k hr hphase hfailure hagain =>
    have halone := hcond r hr
    simp only [hphase] at halone
    refine h.failure hr hphase fun htrip => ?_
    obtain ⟨hends, hone⟩ := halone hfailure htrip
    rw [hagain] at hends
    have hlast : k + 1 = maxRetries := hends.resolve_left Bool.false_ne_true
    exact ⟨by simp [mayTransmit, hlast], hone⟩
  | succeeded r k phase hr hphase _ =>
    refine ⟨h.base, rfl, fun hopen => ?_, fun hopen => ?_⟩ <;>
      simp [State.recordSuccess, CircuitBreaker.recordSuccess] at hopen
  | raised r k hr hphase => exact h.put hr (Nat.zero_le _)

theorem quiet_step {e : Event} (h : Quiet base s) (hcond : TripsAlone s e) : Quiet base (step s e) := by
  cases e with
  | tick now => exact ⟨h.base, h.trips, h.timeout, h.quiet⟩
  | request idempotent useHashkey => exact h.request idempotent useHashkey
  | proceed i => exact h.proceed i
  | fail i =>
    have hfailed := fail_failed i s
    simp only [step]
    generalize fail i s = t at hfailed ⊢
    cases hfailed with
    | stay => exact h
    | raised r hr _ => exact h.put hr (Nat.zero_le _)
  | answer i a => exact h.answer hcond
  | checkOpen =>
    simp only [step, CircuitBreaker.checkOpen]
    split
    · exact tryHalfOpen_quiet h
    · exact h

theorem not_started {t : State} {i : ℕ} {r q : Request} (h : transmissions s < transmissions t)
    (hset : t.requests = s.requests.set i q) (hr : s.requests[i]? = some r)
    (hsent : q.sent = r.sent) : False := by
  have htally := tally_set (w := Request.sent) q hr
  unfold transmissions at h
  rw [hset] at h
  omega

/-- Only a request that has its permit starts a transmission. -/
theorem transmissions_step {e : Event} (h : transmissions s < transmissions (step s e)) :
    ∃ r ∈ s.requests, mayTransmit r = 1 := by
  cases e with
  | tick now => exact absurd h (lt_irrefl _)
  | request idempotent useHashkey =>
    simp [transmissions, step, request, Request.new] at h
  | proceed i =>
    have hproceeded := proceed_proceeded i s
    simp only [step] at h
    generalize proceed i s = t at hproceeded h
    cases hproceeded with
    | stay => exact absurd h (lt_irrefl _)
    | authorised r hr _ => exact (not_started h rfl hr rfl).elim
    | hashed r hr _ => exact (not_started h rfl hr rfl).elim
    | transmits r k hr hphase => exact ⟨r, List.mem_of_getElem? hr, by simp [mayTransmit, hphase]⟩
    | retries r k wake hr _ => exact (not_started h rfl hr rfl).elim
  | fail i =>
    have hfailed := fail_failed i s
    simp only [step] at h
    generalize fail i s = t at hfailed h
    cases hfailed with
    | stay => exact absurd h (lt_irrefl _)
    | raised r hr _ => exact (not_started h rfl hr rfl).elim
  | answer i a =>
    have hanswered := answer_answered i a s
    simp only [step] at h
    generalize answer i a s = t at hanswered h
    cases hanswered with
    | stay => exact absurd h (lt_irrefl _)
    | repeated r k wake hr _ _ => exact (not_started h rfl hr rfl).elim
    | failed r k hr _ _ _ => exact (not_started h rfl hr rfl).elim
    | retried r k hr _ _ _ => exact (not_started h rfl hr rfl).elim
    | succeeded r k phase hr _ _ => exact (not_started h rfl hr rfl).elim
    | raised r k hr _ => exact (not_started h rfl hr rfl).elim
  | checkOpen => exact absurd h (lt_irrefl _)

/-- In every run whose trips come alone, the breaker blocks what it should, counts its
trips and backs off by them. -/
theorem breaker_settled (threshold : ℕ) (timeout now : ℚ) (events : List Event)
    (halone : Meets step TripsAlone (.start threshold timeout now) events) :
    Settled timeout (run step (.start threshold timeout now) events) := by
  have hstart : Quiet timeout (State.start threshold timeout now) :=
    ⟨rfl, rfl, fun hopen => by simp [State.start, CircuitBreaker.init] at hopen, fun _ => rfl⟩
  have hquiet := invariant (fun _ _ => quiet_step) hstart halone
  refine ⟨hquiet.trips, hquiet.timeout, fun e hstarts hblocked => ?_⟩
  obtain ⟨r, hr, hone⟩ := transmissions_step hstarts
  have hle := le_tally (w := mayTransmit) hr
  have hzero := hquiet.quiet hblocked.1
  omega

/-- A request up to the answer of its first transmission. -/
def firstAnswer (i status : ℕ) : List Event :=
  [.request true false, .proceed i, .proceed i, .answer i (.response status none true)]

/-- The next attempt of a request, after its sleep, up to its answer. -/
def nextAnswer (i status : ℕ) (now : ℚ) : List Event :=
  [.tick now, .proceed i, .proceed i, .answer i (.response status none true)]

/-- Five requests in a row are rejected, and a sixth one is blocked. -/
def rejectedRun : List Event :=
  firstAnswer 0 400 ++ firstAnswer 1 400 ++ firstAnswer 2 400 ++ firstAnswer 3 400 ++ firstAnswer 4 400 ++
    [.request true false]

theorem breaker_settled_rejected : Settled 30 (run step (.start 5 30 100) rejectedRun) :=
  breaker_settled 5 30 100 rejectedRun (by decide +kernel)

/-- Two requests meet a failing server; the second one's second attempt trips the breaker. -/
def failingRun : List Event :=
  firstAnswer 0 500 ++ nextAnswer 0 500 101 ++ nextAnswer 0 500 103 ++ [.tick 107, .proceed 0] ++
    firstAnswer 1 500 ++ nextAnswer 1 500 108 ++ [.tick 110, .proceed 1]

theorem failing_transmits : ¬ ∀ (threshold : ℕ) (timeout now : ℚ) (events : List Event),
    Settled timeout (run step (.start threshold timeout now) events) := by
  intro h
  have hstarts := (h 5 30 100 failingRun).starts (.proceed 1) (by decide +kernel)
  exact hstarts ⟨by decide +kernel, by decide +kernel⟩

end KisAutotrader.HttpClient.BreakerTrips
