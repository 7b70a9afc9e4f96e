import Mathlib.Algebra.Order.Ring.Unbundled.Rat
import Mathlib.Data.List.Chain
import Mathlib.Tactic.Linarith
import Mathlib.Tactic.Ring
import KisAutotrader.Interleaving
import KisAutotrader.TimeWindows

/-!
# The rate limiter of one process

Calls of `RateLimiter.acquire` are interleaved at its awaits. Taking a free lock
is a step of its own, so the runs cover every order in which waiting callers may
be woken; a caller may also be cancelled while it waits.
-/
namespace KisAutotrader.LocalLimiter
open Interleaving TimeWindows History

structure TokenBucket where
  rate : ℕ
  capacity : ℕ
  tokens : ℚ
  lastRefill : ℚ

def TokenBucket.init (rate : ℕ) (capacity : Option ℕ) (now : ℚ) : TokenBucket :=
  { rate, capacity := capacity.getD rate, tokens := capacity.getD rate, lastRefill := now }

def TokenBucket.refill (b : TokenBucket) (now : ℚ) : TokenBucket :=
  let elapsed := now - b.lastRefill
  { b with tokens := min b.capacity (b.tokens + elapsed * b.rate), lastRefill := now }

def TokenBucket.waitTime (b : TokenBucket) : ℚ := (1 - b.tokens) / b.rate

structure RateLimiter where
  dailyLimit : ℕ
  minCallInterval : ℚ
  bucket : TokenBucket
  dailyCount : ℕ := 0
  dailyResetDate : ℕ
  lastCallTime : ℚ := 0
  bucketLock : Bool := false
  intervalLock : Bool := false

def RateLimiter.init (perSecond dailyLimit : ℕ) (now : ℚ) (today : ℕ) : RateLimiter :=
  { dailyLimit, minCallInterval := 1 / perSecond, bucket := .init perSecond none now,
    dailyResetDate := today }

def RateLimiter.checkDailyReset (l : RateLimiter) (today : ℕ) : RateLimiter :=
  if today ≠ l.dailyResetDate then { l with dailyCount := 0, dailyResetDate := today } else l

/-- Where a call of `acquire` stands; a sleeper knows when it may wake. -/
inductive Caller
  | bucketQueue
  | refilling (wake : ℚ)
  | intervalQueue
  | spacing (wake : ℚ)
  | granted
  | refused
  | cancelled
deriving DecidableEq

/-- `taken` and `passed` record when a token was taken and the interval section left. -/
structure State where
  limiter : RateLimiter
  clock : ℚ
  today : ℕ
  callers : List Caller := []
  taken : List ℚ := []
  passed : List ℚ := []

def State.start (perSecond dailyLimit : ℕ) (now : ℚ) (today : ℕ) : State :=
  { limiter := .init perSecond dailyLimit now today, clock := now, today }

/-- A new call runs up to the lock of the bucket. -/
def arrive (s : State) : State :=
  let l := s.limiter.checkDailyReset s.today
  { s with
    limiter := l
    callers := s.callers ++ [if l.dailyCount ≥ l.dailyLimit then .refused else .bucketQueue] }

/-- Sleep in the bucket until the missing part of a token has been refilled. -/
def sleepInBucket (i : ℕ) (b : TokenBucket) (s : State) : State :=
  { s with
    limiter := { s.limiter with bucket := b, bucketLock := true }
    callers := s.callers.set i (.refilling (s.clock + b.waitTime)) }

/-- Take a token, leave the bucket and turn to the interval section. -/
def takeToken (i : ℕ) (b : TokenBucket) (s : State) : State :=
  { s with
    limiter := { s.limiter with bucket := { b with tokens := b.tokens - 1 }, bucketLock := false }
    callers := s.callers.set i .intervalQueue
    taken := s.taken ++ [s.clock] }

/-- The body of `TokenBucket.acquire` from a refill on. -/
def refillAndTake (i : ℕ) (s : State) : State :=
  let b := s.limiter.bucket.refill s.clock
  if b.tokens < 1 then sleepInBucket i b s else takeToken i b s

/-- Sleep in the interval section for what is missing of the minimum interval. -/
def sleepInInterval (i : ℕ) (s : State) : State :=
  let elapsed := s.clock - s.limiter.lastCallTime
  { s with
    limiter := { s.limiter with intervalLock := true }
    callers := s.callers.set i (.spacing (s.clock + (s.limiter.minCallInterval - elapsed))) }

/-- Leave the interval section, count the call and return. -/
def pass (i : ℕ) (s : State) : State :=
  { s with
    limiter := { s.limiter with
      lastCallTime := s.clock, intervalLock := false, dailyCount := s.limiter.dailyCount + 1 }
    callers := s.callers.set i .granted
    passed := s.passed ++ [s.clock] }

def resume (i : ℕ) (s : State) : State :=
  match s.callers[i]? with
  | some .bucketQueue => if s.limiter.bucketLock then s else refillAndTake i s
  | some (.refilling wake) => if s.clock < wake then s else refillAndTake i s
  | some .intervalQueue =>
      if s.limiter.intervalLock then s
      else if s.clock - s.limiter.lastCallTime < s.limiter.minCallInterval then sleepInInterval i s
      else pass i s
  | some (.spacing wake) => if s.clock < wake then s else pass i s
  | _ => s

/-- Cancel a waiting call; a lock it holds is released. -/
def cancel (i : ℕ) (s : State) : State :=
  match s.callers[i]? with
  | some .bucketQueue | some .intervalQueue => { s with callers := s.callers.set i .cancelled }
  | some (.refilling _) =>
      { s with limiter := { s.limiter with bucketLock := false }, callers := s.callers.set i .cancelled }
  | some (.spacing _) =>
      { s with limiter := { s.limiter with intervalLock := false }, callers := s.callers.set i .cancelled }
  | _ => s

inductive Event
  | tick (now : ℚ)
  | midnight
  | arrive
  | resume (i : ℕ)
  | cancel (i : ℕ)
deriving DecidableEq

def step (s : State) : Event → State
  | .tick now => { s with clock := max s.clock now }
  | .midnight => { s with today := s.today + 1 }
  | .arrive => arrive s
  | .resume i => resume i s
  | .cancel i => cancel i s

/-- A call in a bucket phase that may refill now. -/
def MayTake (s : State) (c : Caller) : Prop :=
  c = .bucketQueue ∨ ∃ wake ≤ s.clock, c = .refilling wake

/-- A call that may leave the interval section now. -/
def MayPass (s : State) (c : Caller) : Prop :=
  c = .intervalQueue ∧ s.limiter.intervalLock = false ∧
      s.limiter.lastCallTime + s.limiter.minCallInterval ≤ s.clock ∨
    ∃ wake ≤ s.clock, c = .spacing wake

/-- What the resumption of a call can do. -/
inductive Resumed (i : ℕ) (s : State) : State → Prop
  | stay : Resumed i s s
  | sleepInBucket (c : Caller) (hc : s.callers[i]? = some c) (hmay : MayTake s c) :
      Resumed i s (sleepInBucket i (s.limiter.bucket.refill s.clock) s)
  | takeToken (c : Caller) (hc : s.callers[i]? = some c) (hmay : MayTake s c)
      (htoken : 1 ≤ (s.limiter.bucket.refill s.clock).tokens) :
      Resumed i s (takeToken i (s.limiter.bucket.refill s.clock) s)
  | sleepInInterval (hc : s.callers[i]? = some .intervalQueue)
      (hlock : s.limiter.intervalLock = false) : Resumed i s (sleepInInterval i s)
  | pass (c : Caller) (hc : s.callers[i]? = some c) (hmay : MayPass s c) : Resumed i s (pass i s)

theorem refillAndTake_resumed {i : ℕ} {s : State} {c : Caller} (hc : s.callers[i]? = some c)
    (hmay : MayTake s c) : Resumed i s (refillAndTake i s) := by
  unfold refillAndTake
  by_cases hempty : (s.limiter.bucket.refill s.clock).tokens < 1
  · simpa [hempty] using Resumed.sleepInBucket c hc hmay
  · simpa [hempty] using Resumed.takeToken c hc hmay (not_lt.mp hempty)

theorem resume_resumed (i : ℕ) (s : State) : Resumed i s (resume i s) := by
  unfold resume
  split
  next hc =>
    split
    · exact .stay
    · exact refillAndTake_resumed hc (Or.inl rfl)
  next wake hc =>
    split
    · exact .stay
    next hwake => exact refillAndTake_resumed hc (Or.inr ⟨wake, not_lt.mp hwake, rfl⟩)
  next hc =>
    split
    · exact .stay
    next hlock =>
      rw [Bool.not_eq_true] at hlock
      split
      · exact .sleepInInterval hc hlock
      next helapsed =>
        have hlate : s.limiter.lastCallTime + s.limiter.minCallInterval ≤ s.clock := by linarith
        exact .pass _ hc (Or.inl ⟨rfl, hlock, hlate⟩)
  next wake hc =>
    split
    · exact .stay
    next hwake => exact .pass _ hc (Or.inr ⟨wake, not_lt.mp hwake, rfl⟩)
  · exact .stay

/-- What the cancellation of a call can do. -/
inductive Cancelled (i : ℕ) (s : State) : State → Prop
  | stay : Cancelled i s s
  | queued (c : Caller) (hc : s.callers[i]? = some c) (hqueued : c = .bucketQueue ∨ c = .intervalQueue) :
      Cancelled i s { s with callers := s.callers.set i .cancelled }
  | inBucket (wake : ℚ) (hc : s.callers[i]? = some (.refilling wake)) : Cancelled i s
      { s with limiter := { s.limiter with bucketLock := false }, callers := s.callers.set i .cancelled }
  | inInterval (wake : ℚ) (hc : s.callers[i]? = some (.spacing wake)) : Cancelled i s
      { s with limiter := { s.limiter with intervalLock := false }, callers := s.callers.set i .cancelled }

theorem cancel_cancelled (i : ℕ) (s : State) : Cancelled i s (cancel i s) := by
  unfold cancel
  split
  next hc => exact .queued _ hc (Or.inl rfl)
  next hc => exact .queued _ hc (Or.inr rfl)
  next wake hc => exact .inBucket wake hc
  next wake hc => exact .inInterval wake hc
  · exact .stay

end KisAutotrader.LocalLimiter
