import KisAutotrader.DailyCap
import KisAutotrader.QuotaLimits

/-!
# The rate limiter with a local fallback

`HybridRateLimiter` of one process beside the other users of the store: the first
call that loses the store switches the process to its local limiter for good.
-/
namespace KisAutotrader.HybridLimiter
open Interleaving

/-- The calls of this process are those of process 0 in `redis`, and all in `fallback`. -/
structure State where
  redis : RedisLimiter.State
  fallback : LocalLimiter.State
  usingRedis : Bool
  redisDown : Bool := false

/-- Commands, sleeps and answers of calls in the store, own and foreign (`store`), and of
own calls in the local limiter (`own`); a call that loses the store raises there. -/
inductive Event
  | store (e : RedisLimiter.Event)
  | own (e : LocalLimiter.Event)
  | acquire
  | redisDown
  | lose (i : ℕ)
deriving DecidableEq

def acquire (s : State) : State :=
  if s.usingRedis then { s with redis := RedisLimiter.arrive 0 s.redis }
  else { s with fallback := LocalLimiter.arrive s.fallback }

/-- Suspended at a command to the store. -/
def awaitsStore : RedisLimiter.Phase → Bool
  | .sleeping _ | .granted _ | .refused | .failed => false
  | _ => true

/-- The store raises in a call; a call of this process goes on in the local limiter. -/
def lose (i : ℕ) (s : State) : State :=
  match s.redis.calls[i]? with
  | none => s
  | some c =>
      if s.redisDown = false ∨ awaitsStore c.phase = false then s
      else if c.process = 0 then
        { s with
          redis := RedisLimiter.fail i s.redis
          fallback := LocalLimiter.arrive s.fallback
          usingRedis := false }
      else { s with redis := RedisLimiter.fail i s.redis }

def step (s : State) : Event → State
  | .store (.arrive p) => if p = 0 then s else { s with redis := RedisLimiter.arrive p s.redis }
  | .store (.serve i) => if s.redisDown then s else { s with redis := RedisLimiter.serve i s.redis }
  | .store e => { s with redis := RedisLimiter.step s.redis e }
  | .own .arrive => s
  | .own e => { s with fallback := LocalLimiter.step s.fallback e }
  | .acquire => acquire s
  | .redisDown => { s with redisDown := true }
  | .lose i => lose i s

/-- The property `daily_count`: the store's counter of the day, or else the local one. -/
def State.dailyCount (s : State) : ℕ :=
  if s.usingRedis && !s.redisDown then s.redis.dailyCount (RedisLimiter.date s.redis.clock)
  else s.fallback.limiter.dailyCount

/-- A new process beside a fresh store, with the limit of its settings on both sides. -/
structure Start (s : State) : Prop where
  redis : RedisLimiter.Start s.redis
  idle : s.fallback.callers = []
  uncounted : s.fallback.limiter.dailyCount = 0
  limit : s.fallback.limiter.dailyLimit = s.redis.dailyLimit
  up : s.redisDown = false

/-- The event leaves both clocks on their day. -/
def OneDay (s : State) : Event → Prop
  | .store (.tick now) => RedisLimiter.date (max s.redis.clock now) = RedisLimiter.date s.redis.clock
  | .own e => e ≠ .midnight
  | _ => True

instance (s : State) : (e : Event) → Decidable (OneDay s e)
  | .store (.tick now) =>
      inferInstanceAs (Decidable (RedisLimiter.date (max s.redis.clock now) = _))
  | .own e => inferInstanceAs (Decidable (e ≠ .midnight))
  | .store (.arrive _) | .store (.serve _) | .store (.resume _) | .store (.fail _) | .acquire
  | .redisDown | .lose _ => isTrue trivial

/-- Permits of this process in the store. -/
def permit (c : RedisLimiter.Call) : ℕ :=
  match c.phase with
  | .granted _ => if c.process = 0 then 1 else 0
  | _ => 0

/-- The permits granted to this process on both sides. -/
def permits (s : State) : ℕ := tally permit s.redis.calls + LocalLimiter.DailyCap.permits s.fallback

end KisAutotrader.HybridLimiter
