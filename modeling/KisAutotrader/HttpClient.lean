import Mathlib.Algebra.Order.Ring.Unbundled.Rat
import KisAutotrader.Interleaving

/-!
# The HTTP client and its circuit breaker

Requests of one client share a breaker and are interleaved at the awaits of
`_request`: the token, the hashkey, the rate limiter, the response and the sleeps.
-/
namespace KisAutotrader.HttpClient
open Interleaving

def maxRetries : ℕ := 3

def retryBaseDelay : ℚ := 1

def circuitFailureThreshold : ℕ := 5

def circuitResetTimeout : ℚ := 30

def maxResetTimeout : ℚ := 300

structure CircuitBreaker where
  failureThreshold : ℕ
  baseResetTimeout : ℚ
  currentResetTimeout : ℚ
  failureCount : ℕ := 0
  lastFailureTime : ℚ := 0
  isOpen : Bool := false
  tripCount : ℕ := 0

namespace CircuitBreaker

def init (failureThreshold : ℕ) (resetTimeout : ℚ) : CircuitBreaker :=
  { failureThreshold, baseResetTimeout := resetTimeout, currentResetTimeout := resetTimeout }

def recordSuccess (b : CircuitBreaker) : CircuitBreaker :=
  { b with
    failureCount := 0
    isOpen := false
    tripCount := 0
    currentResetTimeout := b.baseResetTimeout }

def recordFailure (b : CircuitBreaker) (now : ℚ) : CircuitBreaker :=
  let failureCount := b.failureCount + 1
  if failureCount ≥ b.failureThreshold then
    let tripCount := b.tripCount + 1
    { b with
      failureCount
      lastFailureTime := now
      isOpen := true
      tripCount
      currentResetTimeout := min (b.baseResetTimeout * 2 ^ (tripCount - 1)) maxResetTimeout }
  else { b with failureCount, lastFailureTime := now }

/-- The reset timeout has passed since the last failure. -/
def elapsed (b : CircuitBreaker) (now : ℚ) : Bool :=
  decide (now - b.lastFailureTime ≥ b.currentResetTimeout)

def tryHalfOpen (b : CircuitBreaker) (now : ℚ) : CircuitBreaker × Bool :=
  if b.isOpen && b.elapsed now then ({ b with failureCount := 0, isOpen := false }, true)
  else (b, false)

def isAvailable (b : CircuitBreaker) (now : ℚ) : CircuitBreaker × Bool :=
  if b.isOpen then b.tryHalfOpen now else (b, true)

/-- The property `is_open`, which half-opens as well. -/
def checkOpen (b : CircuitBreaker) (now : ℚ) : CircuitBreaker × Bool :=
  let b := if b.isOpen then (b.tryHalfOpen now).1 else b
  (b, b.isOpen)

end CircuitBreaker

/-- How a transmission ends: with a response, whose `Retry-After` header and body may not
parse, with an `httpx.HTTPError`, or with any other exception. -/
inductive Answer
  | response (status : ℕ) (retryAfter : Option ℚ) (json : Bool)
  | httpError
  | error
deriving DecidableEq

inductive Phase
  | authorising
  | hashing
  | acquiring (attempt : ℕ)
  | transmitting (attempt : ℕ)
  | backoff (attempt : ℕ) (wake : ℚ)
  | returned
  | raised
deriving DecidableEq

/-- A call of `_request` with the transmissions it has started and their answers. -/
structure Request where
  idempotent : Bool
  useHashkey : Bool
  phase : Phase
  sent : ℕ := 0
  answers : List Answer := []
deriving DecidableEq

/-- `trips` counts the transitions of the breaker from closed to open since the last success. -/
structure State where
  breaker : CircuitBreaker
  clock : ℚ
  requests : List Request := []
  trips : ℕ := 0

def State.put (s : State) (i : ℕ) (r : Request) : State := { s with requests := s.requests.set i r }

def State.recordSuccess (s : State) : State :=
  { s with breaker := s.breaker.recordSuccess, trips := 0 }

def State.recordFailure (s : State) : State :=
  let b := s.breaker.recordFailure s.clock
  { s with breaker := b, trips := if !s.breaker.isOpen && b.isOpen then s.trips + 1 else s.trips }

@[simp] theorem put_requests (s : State) (i : ℕ) (r : Request) :
    (s.put i r).requests = s.requests.set i r := rfl

@[simp] theorem put_breaker (s : State) (i : ℕ) (r : Request) : (s.put i r).breaker = s.breaker := rfl

@[simp] theorem put_trips (s : State) (i : ℕ) (r : Request) : (s.put i r).trips = s.trips := rfl

@[simp] theorem put_clock (s : State) (i : ℕ) (r : Request) : (s.put i r).clock = s.clock := rfl

@[simp] theorem recordFailure_requests (s : State) : s.recordFailure.requests = s.requests := rfl

@[simp] theorem recordFailure_clock (s : State) : s.recordFailure.clock = s.clock := rfl

@[simp] theorem recordSuccess_requests (s : State) : s.recordSuccess.requests = s.requests := rfl

@[simp] theorem recordSuccess_clock (s : State) : s.recordSuccess.clock = s.clock := rfl

def Request.new (idempotent useHashkey available : Bool) : Request :=
  { idempotent, useHashkey, phase := if available then .authorising else .raised }

/-- A new request asks the breaker once. -/
def request (idempotent useHashkey : Bool) (s : State) : State :=
  let (b, available) := s.breaker.isAvailable s.clock
  { s with breaker := b, requests := s.requests ++ [.new idempotent useHashkey available] }

/-- The head of the retry loop. -/
def tryAttempt (attempt : ℕ) : Phase := if attempt < maxRetries then .acquiring attempt else .raised

/-- The awaited token, hashkey, permit or sleep has come. -/
def proceed (i : ℕ) (s : State) : State :=
  match s.requests[i]? with
  | none => s
  | some r =>
    match r.phase with
    | .authorising => s.put i { r with phase := if r.useHashkey then .hashing else tryAttempt 0 }
    | .hashing => s.put i { r with phase := tryAttempt 0 }
    | .acquiring k => s.put i { r with phase := .transmitting k, sent := r.sent + 1 }
    | .backoff k wake => if s.clock < wake then s else s.put i { r with phase := tryAttempt (k + 1) }
    | _ => s

/-- The await for a token, a hashkey, a permit or a sleep raises. -/
def fail (i : ℕ) (s : State) : State :=
  match s.requests[i]? with
  | none => s
  | some r =>
    match r.phase with
    | .authorising | .hashing | .acquiring _ | .backoff _ _ => s.put i { r with phase := .raised }
    | _ => s

/-- The delay before the attempt after `attempt`. -/
def retryDelay (attempt : ℕ) : ℚ := retryBaseDelay * 2 ^ attempt

/-- A server or network error: an order is never repeated after one. -/
def State.retry (s : State) (i k : ℕ) (r : Request) : State :=
  s.recordFailure.put i
    { r with phase := if r.idempotent then .backoff k (s.clock + retryDelay k) else .raised }

/-- The transmission of attempt `k` has ended. -/
def finish (i k : ℕ) (r : Request) (s : State) : Answer → State
  | .response status retryAfter json =>
      if status = 429 then
        match retryAfter with
        | some delay => s.put i { r with phase := .backoff k (s.clock + delay) }
        | none => s.put i { r with phase := .raised }
      else if status ≥ 500 then s.retry i k r
      else if status ≥ 400 then s.recordFailure.put i { r with phase := .raised }
      else s.recordSuccess.put i { r with phase := if json then .returned else .raised }
  | .httpError => s.retry i k r
  | .error => s.put i { r with phase := .raised }

def answer (i : ℕ) (a : Answer) (s : State) : State :=
  match s.requests[i]? with
  | none => s
  | some r =>
    match r.phase with
    | .transmitting k => finish i k { r with answers := r.answers ++ [a] } s a
    | _ => s

inductive Event
  | tick (now : ℚ)
  | request (idempotent useHashkey : Bool)
  | proceed (i : ℕ)
  | fail (i : ℕ)
  | answer (i : ℕ) (a : Answer)
  | checkOpen
deriving DecidableEq

def step (s : State) : Event → State
  | .tick now => { s with clock := max s.clock now }
  | .request idempotent useHashkey => request idempotent useHashkey s
  | .proceed i => proceed i s
  | .fail i => fail i s
  | .answer i a => answer i a s
  | .checkOpen => { s with breaker := (s.breaker.checkOpen s.clock).1 }

def State.start (failureThreshold : ℕ) (resetTimeout now : ℚ) : State :=
  { breaker := .init failureThreshold resetTimeout, clock := now }

/-- How a request goes on. -/
inductive Proceeded (i : ℕ) (s : State) : State → Prop
  | stay : Proceeded i s s
  | authorised (r : Request) (hr : s.requests[i]? = some r) (hphase : r.phase = .authorising) :
      Proceeded i s (s.put i { r with phase := if r.useHashkey then .hashing else tryAttempt 0 })
  | hashed (r : Request) (hr : s.requests[i]? = some r) (hphase : r.phase = .hashing) :
      Proceeded i s (s.put i { r with phase := tryAttempt 0 })
  | transmits (r : Request) (k : ℕ) (hr : s.requests[i]? = some r) (hphase : r.phase = .acquiring k) :
      Proceeded i s (s.put i { r with phase := .transmitting k, sent := r.sent + 1 })
  | retries (r : Request) (k : ℕ) (wake : ℚ) (hr : s.requests[i]? = some r)
      (hphase : r.phase = .backoff k wake) :
      Proceeded i s (s.put i { r with phase := tryAttempt (k + 1) })

theorem proceed_proceeded (i : ℕ) (s : State) : Proceeded i s (proceed i s) := by
  unfold proceed
  split
  · exact .stay
  next r hr =>
    split
    next hphase => exact .authorised r hr hphase
    next hphase => exact .hashed r hr hphase
    next k hphase => exact .transmits r k hr hphase
    next k wake hphase =>
      split
      · exact .stay
      · exact .retries r k wake hr hphase
    · exact .stay

/-- How a request ends early. -/
inductive Failed (i : ℕ) (s : State) : State → Prop
  | stay : Failed i s s
  | raised (r : Request) (hr : s.requests[i]? = some r) (hphase : ∀ k, r.phase ≠ .transmitting k) :
      Failed i s (s.put i { r with phase := .raised })

theorem fail_failed (i : ℕ) (s : State) : Failed i s (fail i s) := by
  unfold fail
  split
  · exact .stay
  next r hr =>
    split
    next hphase => exact .raised r hr (by simp [hphase])
    next hphase => exact .raised r hr (by simp [hphase])
    next hphase => exact .raised r hr (by simp [hphase])
    next hphase => exact .raised r hr (by simp [hphase])
    · exact .stay

/-- The answer counts as a failure of the server. -/
def Answer.failure : Answer → Bool
  | .response status _ _ => status ≠ 429 && status ≥ 400
  | .httpError => true
  | .error => false

/-- The answer says that the request was rejected for now. -/
def Answer.tooMany : Answer → Bool
  | .response status _ _ => status = 429
  | _ => false

/-- The request is not repeated after the failure, wherever the loop stands. -/
def Answer.final (a : Answer) (r : Request) : Bool :=
  !r.idempotent ||
    match a with
    | .response status _ _ => status < 500
    | _ => false

/-- What an answer does to its request. -/
inductive Answered (i : ℕ) (a : Answer) (s : State) : State → Prop
  | stay : Answered i a s s
  | repeated (r : Request) (k : ℕ) (wake : ℚ) (hr : s.requests[i]? = some r)
      (hphase : r.phase = .transmitting k) (hmany : a.tooMany = true) : Answered i a s
        (s.put i { r with phase := .backoff k wake, answers := r.answers ++ [a] })
  | failed (r : Request) (k : ℕ) (hr : s.requests[i]? = some r) (hphase : r.phase = .transmitting k)
      (hfailure : a.failure = true) (hfinal : a.final r = true) : Answered i a s
        (s.recordFailure.put i { r with phase := .raised, answers := r.answers ++ [a] })
  | retried (r : Request) (k : ℕ) (hr : s.requests[i]? = some r) (hphase : r.phase = .transmitting k)
      (hfailure : a.failure = true) (hagain : a.final r = false) : Answered i a s
        (s.recordFailure.put i
          { r with phase := .backoff k (s.clock + retryDelay k), answers := r.answers ++ [a] })
  | succeeded (r : Request) (k : ℕ) (phase : Phase) (hr : s.requests[i]? = some r)
      (hphase : r.phase = .transmitting k) (hend : phase = .returned ∨ phase = .raised) : Answered i a s
        (s.recordSuccess.put i { r with phase, answers := r.answers ++ [a] })
  | raised (r : Request) (k : ℕ) (hr : s.requests[i]? = some r) (hphase : r.phase = .transmitting k) :
      Answered i a s (s.put i { r with phase := .raised, answers := r.answers ++ [a] })

theorem retry_answered {i k : ℕ} {a : Answer} {s : State} {r : Request}
    (hr : s.requests[i]? = some r) (hphase : r.phase = .transmitting k) (hfailure : a.failure = true)
    (hfinal : a.final r = !r.idempotent) :
    Answered i a s (s.retry i k { r with answers := r.answers ++ [a] }) := by
  unfold State.retry
  cases hidem : r.idempotent with
  | false => simpa [hidem] using Answered.failed r k hr hphase hfailure (by simp [hfinal, hidem])
  | true => simpa [hidem] using Answered.retried r k hr hphase hfailure (by simp [hfinal, hidem])

theorem answer_answered (i : ℕ) (a : Answer) (s : State) : Answered i a s (answer i a s) := by
  unfold answer
  split
  · exact .stay
  next r hr =>
    split
    next k hphase =>
      cases a with
      | response status retryAfter json =>
        simp only [finish]
        split
        next hmany =>
          subst hmany
          cases retryAfter with
          | some delay => exact .repeated r k _ hr hphase rfl
          | none => exact .raised r k hr hphase
        next hmany =>
          split
          next hserver =>
            refine retry_answered hr hphase ?_ ?_
            · simp only [Answer.failure, ne_eq, hmany, not_false_eq_true, decide_true, Bool.true_and,
                decide_eq_true_eq]
              omega
            · have hlow : decide (status < 500) = false := by simpa using hserver
              simp [Answer.final, hlow]
          next hserver =>
            split
            next hclient =>
              refine .failed r k hr hphase ?_ ?_
              · simp [Answer.failure, hmany, hclient]
              · have hlow : decide (status < 500) = true := by simpa using hserver
                simp [Answer.final, hlow]
            next hok =>
              refine .succeeded r k _ hr hphase ?_
              cases json
              · exact Or.inr rfl
              · exact Or.inl rfl
      | httpError => exact retry_answered hr hphase rfl (by simp [Answer.final])
      | error => exact .raised r k hr hphase
    · exact .stay

end KisAutotrader.HttpClient
