import Mathlib.Algebra.Order.Floor.Ring
import Mathlib.Data.Rat.Floor
import KisAutotrader.Interleaving

/-!
# The rate limiter shared by the processes

Every await of `RedisRateLimiter.acquire` is a command on its way to the store:
the store serves it at one moment, and the call goes on with the answer at a
later one. A call may fail at any of its awaits.
-/
namespace KisAutotrader.RedisLimiter
open Interleaving

/-- A counter of the store; one without a deadline stays. -/
structure Counter where
  value : ℕ
  expireAt : Option ℚ := none

/-- A counter past its deadline is gone. -/
def live (now : ℚ) (c : Option Counter) : Option Counter :=
  c.filter fun c => c.expireAt.all fun t => decide (now < t)

def incr (now : ℚ) (c : Option Counter) : Counter :=
  match live now c with
  | none => { value := 1 }
  | some c => { c with value := c.value + 1 }

def expire (now d : ℚ) (c : Option Counter) : Option Counter :=
  (live now c).map fun c => { c with expireAt := some (now + d) }

/-- The keys `kis_rate:{second}`, `kis_daily_count:{date}` and `kis_quota:{role}`. -/
structure Redis where
  rate : ℤ → Option Counter := fun _ => none
  daily : ℤ → Option Counter := fun _ => none
  quota : String → Option ℕ := fun _ => none

/-- The limiter of one process; `lastDailyReset` is also the date of its daily key. -/
structure RedisRateLimiter where
  role : String
  lastDailyReset : ℤ

def second (now : ℚ) : ℤ := ⌊now⌋

def date (now : ℚ) : ℤ := ⌊now / 86400⌋

inductive Phase
  | reading (key : ℤ)
  | read (daily : Option ℕ)
  | counting
  | counted
  | expiring
  | expired
  | asking
  | asked (quota : Option ℕ)
  | sleeping (wake : ℚ)
  | recording (key : ℤ)
  | recorded (key : ℤ)
  | granted (time : ℚ)
  | refused
  | failed
deriving DecidableEq

/-- A call of `acquire` with its local variables, zero until they are assigned. -/
structure Call where
  process : ℕ
  role : String
  phase : Phase
  secondKey : ℤ := 0
  count : ℕ := 0

structure State where
  redis : Redis
  perSecond : ℕ
  dailyLimit : ℕ
  processes : ℕ → RedisRateLimiter
  clock : ℚ
  calls : List Call := []

def defaultQuota (role : String) (perSecond : ℕ) : ℕ :=
  if role = "screener" then max 1 (perSecond / 5) else perSecond - max 1 (perSecond / 5)

def State.quotaOf (s : State) (role : String) : ℕ :=
  (s.redis.quota role).getD (defaultQuota role s.perSecond)

def State.put (s : State) (i : ℕ) (c : Call) : State := { s with calls := s.calls.set i c }

def State.setRate (s : State) (key : ℤ) (c : Option Counter) : State :=
  { s with redis := { s.redis with rate := Function.update s.redis.rate key c } }

def State.setDaily (s : State) (key : ℤ) (c : Option Counter) : State :=
  { s with redis := { s.redis with daily := Function.update s.redis.daily key c } }

/-- The pipeline that counts a call on the day of its key, for 25 hours. -/
def State.record (s : State) (key : ℤ) : State :=
  s.setDaily key (expire s.clock (86400 + 3600) (some (incr s.clock (s.redis.daily key))))

@[simp] theorem put_clock (s : State) (i : ℕ) (c : Call) : (s.put i c).clock = s.clock := rfl

@[simp] theorem put_calls (s : State) (i : ℕ) (c : Call) : (s.put i c).calls = s.calls.set i c := rfl

@[simp] theorem setRate_clock (s : State) (key : ℤ) (c : Option Counter) :
    (s.setRate key c).clock = s.clock := rfl

@[simp] theorem setRate_calls (s : State) (key : ℤ) (c : Option Counter) :
    (s.setRate key c).calls = s.calls := rfl

@[simp] theorem setDaily_clock (s : State) (key : ℤ) (c : Option Counter) :
    (s.setDaily key c).clock = s.clock := rfl

@[simp] theorem setDaily_calls (s : State) (key : ℤ) (c : Option Counter) :
    (s.setDaily key c).calls = s.calls := rfl

def RedisRateLimiter.checkDailyKey (l : RedisRateLimiter) (today : ℤ) : RedisRateLimiter :=
  if today ≠ l.lastDailyReset then { l with lastDailyReset := today } else l

/-- A new call of a process asks for the daily count. -/
def arrive (p : ℕ) (s : State) : State :=
  let l := (s.processes p).checkDailyKey (date s.clock)
  { s with
    processes := Function.update s.processes p l
    calls := s.calls ++ [{ process := p, role := l.role, phase := .reading l.lastDailyReset }] }

/-- The store serves the command of the call. -/
def serve (i : ℕ) (s : State) : State :=
  match s.calls[i]? with
  | none => s
  | some c =>
    match c.phase with
    | .reading key =>
        s.put i { c with phase := .read ((live s.clock (s.redis.daily key)).map Counter.value) }
    | .counting =>
        let counter := incr s.clock (s.redis.rate c.secondKey)
        (s.setRate c.secondKey (some counter)).put i
          { c with phase := .counted, count := counter.value }
    | .expiring =>
        (s.setRate c.secondKey (expire s.clock 2 (s.redis.rate c.secondKey))).put i
          { c with phase := .expired }
    | .asking => s.put i { c with phase := .asked (s.redis.quota c.role) }
    | .recording key => (s.record key).put i { c with phase := .recorded key }
    | _ => s

/-- The call goes on with the answer up to its next command. -/
def resume (i : ℕ) (s : State) : State :=
  match s.calls[i]? with
  | none => s
  | some c =>
    let today := (s.processes c.process).lastDailyReset
    match c.phase with
    | .read daily =>
        if daily.any (s.dailyLimit ≤ ·) then s.put i { c with phase := .refused }
        else s.put i { c with phase := .counting, secondKey := second s.clock }
    | .counted => s.put i { c with phase := if c.count = 1 then .expiring else .asking }
    | .expired => s.put i { c with phase := .asking }
    | .asked quota =>
        if c.count > quota.getD (defaultQuota c.role s.perSecond) then
          s.put i { c with phase := .sleeping (s.clock + 1) }
        else s.put i { c with phase := .recording today }
    | .sleeping wake =>
        if s.clock < wake then s else s.put i { c with phase := .recording today }
    | .recorded _ => s.put i { c with phase := .granted s.clock }
    | _ => s

def Phase.ended : Phase → Bool
  | .granted _ | .refused | .failed => true
  | _ => false

/-- The call raises at its await, whether or not its command was served. -/
def fail (i : ℕ) (s : State) : State :=
  match s.calls[i]? with
  | none => s
  | some c => if c.phase.ended then s else s.put i { c with phase := .failed }

inductive Event
  | tick (now : ℚ)
  | arrive (process : ℕ)
  | serve (i : ℕ)
  | resume (i : ℕ)
  | fail (i : ℕ)
deriving DecidableEq

def step (s : State) : Event → State
  | .tick now => { s with clock := max s.clock now }
  | .arrive p => arrive p s
  | .serve i => serve i s
  | .resume i => resume i s
  | .fail i => fail i s

/-- A fresh store, and limiters created at their start. -/
structure Start (s : State) : Prop where
  idle : s.calls = []
  rate : s.redis.rate = fun _ => none
  daily : s.redis.daily = fun _ => none
  created : ∀ p, (s.processes p).lastDailyReset ≤ date s.clock

/-- What the store does for a call, and where the call stands afterwards. -/
inductive Served (i : ℕ) (s : State) : State → Prop
  | stay : Served i s s
  | read (c : Call) (key : ℤ) (hc : s.calls[i]? = some c) (hphase : c.phase = .reading key) :
      Served i s
        (s.put i { c with phase := .read ((live s.clock (s.redis.daily key)).map Counter.value) })
  | counted (c : Call) (hc : s.calls[i]? = some c) (hphase : c.phase = .counting) :
      Served i s
        ((s.setRate c.secondKey (some (incr s.clock (s.redis.rate c.secondKey)))).put i
          { c with phase := .counted, count := (incr s.clock (s.redis.rate c.secondKey)).value })
  | expired (c : Call) (hc : s.calls[i]? = some c) (hphase : c.phase = .expiring) :
      Served i s ((s.setRate c.secondKey (expire s.clock 2 (s.redis.rate c.secondKey))).put i
        { c with phase := .expired })
  | asked (c : Call) (hc : s.calls[i]? = some c) (hphase : c.phase = .asking) :
      Served i s (s.put i { c with phase := .asked (s.redis.quota c.role) })
  | recorded (c : Call) (key : ℤ) (hc : s.calls[i]? = some c) (hphase : c.phase = .recording key) :
      Served i s ((s.record key).put i { c with phase := .recorded key })

theorem serve_served (i : ℕ) (s : State) : Served i s (serve i s) := by
  unfold serve
  split
  · exact .stay
  next c hc =>
    split
    next key hphase => exact .read c key hc hphase
    next hphase => exact .counted c hc hphase
    next hphase => exact .expired c hc hphase
    next hphase => exact .asked c hc hphase
    next key hphase => exact .recorded c key hc hphase
    · exact .stay

/-- How a call goes on with its answer. -/
inductive Resumed (i : ℕ) (s : State) : State → Prop
  | stay : Resumed i s s
  | refused (c : Call) (daily : Option ℕ) (hc : s.calls[i]? = some c)
      (hphase : c.phase = .read daily) : Resumed i s (s.put i { c with phase := .refused })
  | admitted (c : Call) (daily : Option ℕ) (hc : s.calls[i]? = some c)
      (hphase : c.phase = .read daily) (hroom : daily.any (s.dailyLimit ≤ ·) = false) :
      Resumed i s (s.put i { c with phase := .counting, secondKey := second s.clock })
  | counted (c : Call) (hc : s.calls[i]? = some c) (hphase : c.phase = .counted) :
      Resumed i s (s.put i { c with phase := if c.count = 1 then .expiring else .asking })
  | expired (c : Call) (hc : s.calls[i]? = some c) (hphase : c.phase = .expired) :
      Resumed i s (s.put i { c with phase := .asking })
  | slept (c : Call) (quota : Option ℕ) (hc : s.calls[i]? = some c) (hphase : c.phase = .asked quota)
      (hover : c.count > quota.getD (defaultQuota c.role s.perSecond)) :
      Resumed i s (s.put i { c with phase := .sleeping (s.clock + 1) })
  | within (c : Call) (quota : Option ℕ) (hc : s.calls[i]? = some c) (hphase : c.phase = .asked quota)
      (hwithin : c.count ≤ quota.getD (defaultQuota c.role s.perSecond)) :
      Resumed i s (s.put i { c with phase := .recording (s.processes c.process).lastDailyReset })
  | woken (c : Call) (wake : ℚ) (hc : s.calls[i]? = some c) (hphase : c.phase = .sleeping wake) :
      Resumed i s (s.put i { c with phase := .recording (s.processes c.process).lastDailyReset })
  | granted (c : Call) (key : ℤ) (hc : s.calls[i]? = some c) (hphase : c.phase = .recorded key) :
      Resumed i s (s.put i { c with phase := .granted s.clock })

theorem resume_resumed (i : ℕ) (s : State) : Resumed i s (resume i s) := by
  unfold resume
  split
  · exact .stay
  next c hc =>
    simp only
    split
    next daily hphase =>
      split
      · exact .refused c daily hc hphase
      next hroom => exact .admitted c daily hc hphase (Bool.eq_false_iff.mpr hroom)
    next hphase => exact .counted c hc hphase
    next hphase => exact .expired c hc hphase
    next quota hphase =>
      split
      next hover => exact .slept c quota hc hphase hover
      next hwithin => exact .within c quota hc hphase (not_lt.mp hwithin)
    next wake hphase =>
      split
      · exact .stay
      · exact .woken c wake hc hphase
    next key hphase => exact .granted c key hc hphase
    · exact .stay

def State.rateCount (s : State) (key : ℤ) : ℕ :=
  ((live s.clock (s.redis.rate key)).map Counter.value).getD 0

def State.dailyCount (s : State) (key : ℤ) : ℕ :=
  ((live s.clock (s.redis.daily key)).map Counter.value).getD 0

end KisAutotrader.RedisLimiter
