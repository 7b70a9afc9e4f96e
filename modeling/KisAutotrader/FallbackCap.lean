import KisAutotrader.HybridLimiter

/-!
# The daily cap across the fallback

The local limiter knows nothing of the calls counted in the store, so the cap
holds over both only if the store is lost before anything has been counted.
-/
namespace KisAutotrader.HybridLimiter.FallbackCap
open Interleaving RedisLimiter.QuotaLimits
open RedisLimiter (date Phase Call)

/-- Calls of this process counted in the store. -/
def counted (c : Call) : ℕ :=
  match c.phase with
  | .recorded _ | .granted _ => if c.process = 0 then 1 else 0
  | _ => 0

/-- Calls of this process that have passed the daily check in the store. -/
def taking (c : Call) : ℕ :=
  match c.phase with
  | .reading _ | .read _ | .refused | .failed => 0
  | _ => if c.process = 0 then 1 else 0

/-- A call of this process that passes the check in the store leaves room for those that
have passed it. -/
def OwnRoom (s : RedisLimiter.State) (c : Call) : Prop :=
  match c.phase with
  | .read daily => c.process = 0 → daily.any (s.dailyLimit ≤ ·) = false →
      tally taking s.calls < s.dailyLimit
  | _ => True

instance (s : RedisLimiter.State) (c : Call) : Decidable (OwnRoom s c) := by
  unfold OwnRoom
  exact match c.phase with
    | .read _ => inferInstance
    | .reading _ | .counting | .counted | .expiring | .expired | .asking | .asked _ | .sleeping _
    | .recording _ | .recorded _ | .granted _ | .refused | .failed => isTrue trivial

/-- The store is lost only while the count of the day is zero, and a call passes either
check only with room beside those that have passed it. -/
def Safe (s : State) : Event → Prop
  | .store (.resume i) => ∀ c ∈ s.redis.calls[i]?, OwnRoom s.redis c
  | .acquire => s.usingRedis = false → LocalLimiter.DailyCap.Roomy s.fallback .arrive
  | .lose i => ∀ c ∈ s.redis.calls[i]?, c.process = 0 → s.redisDown = true →
      LocalLimiter.DailyCap.Roomy s.fallback .arrive
  | .redisDown => s.usingRedis = true → s.dailyCount = 0
  | _ => True

instance (s : State) : (e : Event) → Decidable (Safe s e)
  | .store (.resume i) => inferInstanceAs (Decidable (∀ c ∈ s.redis.calls[i]?, OwnRoom s.redis c))
  | .acquire => inferInstanceAs (Decidable (_ = false → _))
  | .lose i => inferInstanceAs (Decidable (∀ c ∈ s.redis.calls[i]?, c.process = 0 → _))
  | .redisDown => inferInstanceAs (Decidable (_ = true → _))
  | .store (.tick _) | .store (.arrive _) | .store (.serve _) | .store (.fail _) | .own _ =>
      isTrue trivial

/-- Every key and every return of a call is of the current day. -/
def Today (s : RedisLimiter.State) (c : Call) : Prop :=
  match c.phase with
  | .recording key | .recorded key => key = date s.clock
  | .granted t => date t = date s.clock
  | .refused | .failed => True
  | _ => (s.processes c.process).lastDailyReset = date s.clock

section Store

variable {limit : ℕ} {s : RedisLimiter.State}

/-- The store's side of the cap. -/
structure StoreKept (limit : ℕ) (s : RedisLimiter.State) : Prop where
  dailyLimit : s.dailyLimit = limit
  counter : DayCounted s
  today : ∀ c ∈ s.calls, Today s c
  room : tally taking s.calls ≤ limit

theorem taking_le_one (c : Call) : taking c ≤ 1 := by
  unfold taking
  split <;> first | omega | (split <;> omega)

theorem StoreKept.room_set {i : ℕ} {c d : Call} (h : StoreKept limit s) (hc : s.calls[i]? = some c)
    (hle : taking d ≤ taking c) : tally taking (s.calls.set i d) ≤ limit := by
  have htally := tally_set (w := taking) d hc
  have hroom := h.room
  omega

theorem StoreKept.put {i : ℕ} {c d : Call} (h : StoreKept limit s) (hcounter : DayCounted (s.put i d))
    (hc : s.calls[i]? = some c) (htoday : Today s d) (hle : taking d ≤ taking c) :
    StoreKept limit (s.put i d) :=
  ⟨h.dailyLimit, hcounter, forall_set h.today htoday, h.room_set hc hle⟩

/-- A call that moves on within its day. -/
theorem StoreKept.move {i : ℕ} {c d : Call} (h : StoreKept limit s) (hcounter : DayCounted (s.put i d))
    (hc : s.calls[i]? = some c) (htoday : Today s c → Today s d) (hle : taking d ≤ taking c) :
    StoreKept limit (s.put i d) := by
  have hold := h.today c (List.mem_of_getElem? hc)
  exact h.put hcounter hc (htoday hold) hle

theorem StoreKept.sameDay {i : ℕ} (h : StoreKept limit s) : ∀ c ∈ s.calls[i]?, SameDay s c := by
  intro c hc
  have htoday := h.today c (List.mem_of_getElem? hc)
  unfold SameDay
  split
  next key hphase => simpa only [Today, hphase] using htoday
  next => trivial

theorem StoreKept.tick (h : StoreKept limit s) {now : ℚ}
    (hday : date (max s.clock now) = date s.clock) :
    StoreKept limit { s with clock := max s.clock now } := by
  refine ⟨h.dailyLimit, h.counter.tick now, fun c hc => ?_, h.room⟩
  have htoday := h.today c hc
  unfold Today at htoday ⊢
  simp only [hday]
  exact htoday

theorem StoreKept.arrive (h : StoreKept limit s) (p : ℕ) :
    StoreKept limit (RedisLimiter.arrive p s) := by
  have hkey : ((s.processes p).checkDailyKey (date s.clock)).lastDailyReset = date s.clock := by
    unfold RedisLimiter.RedisRateLimiter.checkDailyKey
    split
    · rfl
    next heq => exact (not_not.mp heq).symm
  have hupdate : ∀ q, (s.processes q).lastDailyReset = date s.clock →
      ((RedisLimiter.arrive p s).processes q).lastDailyReset = date s.clock := by
    intro q hq
    simp only [RedisLimiter.arrive, Function.update_apply]
    split
    · exact hkey
    · exact hq
  refine ⟨h.dailyLimit, h.counter.arrive p, fun c hc => ?_, ?_⟩
  · obtain hc | hc := List.mem_append.mp hc
    · have htoday := h.today c hc
      unfold Today at htoday ⊢
      cases hphase : c.phase <;> simp only [hphase] at htoday ⊢ <;>
        first | exact htoday | exact hupdate _ htoday
    · obtain rfl := List.mem_singleton.mp hc
      simpa [Today, RedisLimiter.arrive] using hkey
  · simpa [RedisLimiter.arrive, taking] using h.room

theorem StoreKept.fail (h : StoreKept limit s) (i : ℕ) : StoreKept limit (RedisLimiter.fail i s) := by
  unfold RedisLimiter.fail
  split
  · exact h
  next c hc =>
    split
    · exact h
    · exact h.put (h.counter.put hc trivial (Nat.zero_le _)) hc trivial (Nat.zero_le _)

theorem StoreKept.serve (h : StoreKept limit s) (i : ℕ) : StoreKept limit (RedisLimiter.serve i s) := by
  have hcounter := dayCounted_serve h.counter i
  have hserved := RedisLimiter.serve_served i s
  generalize RedisLimiter.serve i s = t at hserved hcounter ⊢
  cases hserved with
  | stay => exact h
  | read c key hc hphase => exact h.move hcounter hc (by simp [Today, hphase]) (Nat.zero_le _)
  | counted c hc hphase =>
    have htoday := h.today c (List.mem_of_getElem? hc)
    simp only [Today, hphase] at htoday
    exact ⟨h.dailyLimit, hcounter, forall_set h.today htoday, h.room_set hc (by simp [taking, hphase])⟩
  | expired c hc hphase =>
    have htoday := h.today c (List.mem_of_getElem? hc)
    simp only [Today, hphase] at htoday
    exact ⟨h.dailyLimit, hcounter, forall_set h.today htoday, h.room_set hc (by simp [taking, hphase])⟩
  | asked c hc hphase =>
    exact h.move hcounter hc (by simp [Today, hphase]) (by simp [taking, hphase])
  | recorded c key hc hphase =>
    have htoday := h.today c (List.mem_of_getElem? hc)
    simp only [Today, hphase] at htoday
    exact ⟨h.dailyLimit, hcounter, forall_set h.today htoday, h.room_set hc (by simp [taking, hphase])⟩

theorem StoreKept.resume {i : ℕ} (h : StoreKept limit s) (hroom : ∀ c ∈ s.calls[i]?, OwnRoom s c) :
    StoreKept limit (RedisLimiter.resume i s) := by
  have hcounter := dayCounted_resume h.counter (h.sameDay (i := i))
  have hresumed := RedisLimiter.resume_resumed i s
  generalize RedisLimiter.resume i s = t at hresumed hcounter ⊢
  cases hresumed with
  | stay => exact h
  | refused c daily hc _ => exact h.put hcounter hc trivial (Nat.zero_le _)
  | admitted c daily hc hphase hpassed =>
    have htoday := h.today c (List.mem_of_getElem? hc)
    simp only [Today, hphase] at htoday
    refine ⟨h.dailyLimit, hcounter, forall_set h.today htoday, ?_⟩
    have hown := hroom c hc
    simp only [OwnRoom, hphase] at hown
    by_cases hprocess : c.process = 0
    · have hleft := hown hprocess hpassed
      rw [h.dailyLimit] at hleft
      have htally := tally_set (w := taking)
        { c with phase := .counting, secondKey := RedisLimiter.second s.clock } hc
      have hone := taking_le_one { c with phase := .counting, secondKey := RedisLimiter.second s.clock }
      simp only [RedisLimiter.put_calls]
      omega
    · exact h.room_set hc (by simp [taking, hprocess])
  | counted c hc hphase =>
    by_cases hfirst : c.count = 1
    · rw [if_pos hfirst] at hcounter ⊢
      exact h.move hcounter hc (by simp [Today, hphase]) (by simp [taking, hphase])
    · rw [if_neg hfirst] at hcounter ⊢
      exact h.move hcounter hc (by simp [Today, hphase]) (by simp [taking, hphase])
  | expired c hc hphase =>
    exact h.move hcounter hc (by simp [Today, hphase]) (by simp [taking, hphase])
  | slept c quota hc hphase _ =>
    exact h.move hcounter hc (by simp [Today, hphase]) (by simp [taking, hphase])
  | within c quota hc hphase _ =>
    exact h.move hcounter hc (by simp [Today, hphase]) (by simp [taking, hphase])
  | woken c wake hc hphase =>
    exact h.move hcounter hc (by simp [Today, hphase]) (by simp [taking, hphase])
  | granted c key hc hphase => exact h.put hcounter hc rfl (by simp [taking, hphase])

end Store

section Own

variable {s : RedisLimiter.State} {i : ℕ}

/-- A call that only moves on is not counted. -/
theorem tally_put {c d : Call} (hc : s.calls[i]? = some c) (hle : counted d ≤ counted c) :
    tally counted (s.put i d).calls ≤ tally counted s.calls := by
  have htally := tally_set (w := counted) d hc
  simp only [RedisLimiter.put_calls]
  omega

theorem tally_resume (i : ℕ) (s : RedisLimiter.State) :
    tally counted (RedisLimiter.resume i s).calls ≤ tally counted s.calls := by
  have hresumed := RedisLimiter.resume_resumed i s
  generalize RedisLimiter.resume i s = t at hresumed ⊢
  cases hresumed with
  | stay => exact le_rfl
  | refused c _ hc _ => exact tally_put hc (Nat.zero_le _)
  | admitted c _ hc _ _ => exact tally_put hc (Nat.zero_le _)
  | counted c hc _ =>
    split
    · exact tally_put hc (Nat.zero_le _)
    · exact tally_put hc (Nat.zero_le _)
  | expired c hc _ => exact tally_put hc (Nat.zero_le _)
  | slept c _ hc _ _ => exact tally_put hc (Nat.zero_le _)
  | within c _ hc _ _ => exact tally_put hc (Nat.zero_le _)
  | woken c _ hc _ => exact tally_put hc (Nat.zero_le _)
  | granted c key hc hphase => exact tally_put hc (by simp [counted, hphase])

theorem tally_fail (i : ℕ) (s : RedisLimiter.State) :
    tally counted (RedisLimiter.fail i s).calls ≤ tally counted s.calls := by
  unfold RedisLimiter.fail
  split
  · exact le_rfl
  next c hc =>
    split
    · exact le_rfl
    · exact tally_put hc (Nat.zero_le _)

theorem tally_arrive (p : ℕ) (s : RedisLimiter.State) :
    tally counted (RedisLimiter.arrive p s).calls = tally counted s.calls := by
  simp [RedisLimiter.arrive, counted]

/-- No call of this process is in the store. -/
def Foreign (s : RedisLimiter.State) : Prop := ∀ c ∈ s.calls, c.process ≠ 0

theorem Foreign.counted (h : Foreign s) : tally counted s.calls = 0 := by
  refine tally_eq_zero.mpr fun c hc => ?_
  have hprocess := h c hc
  unfold FallbackCap.counted
  split <;> simp [hprocess]

theorem Foreign.put {c d : Call} (h : Foreign s) (hc : s.calls[i]? = some c)
    (hprocess : d.process = c.process) : Foreign (s.put i d) :=
  forall_set h (by rw [hprocess]; exact h c (List.mem_of_getElem? hc))

theorem Foreign.serve (h : Foreign s) (i : ℕ) : Foreign (RedisLimiter.serve i s) := by
  have hserved := RedisLimiter.serve_served i s
  generalize RedisLimiter.serve i s = t at hserved ⊢
  cases hserved with
  | stay => exact h
  | read c _ hc _ => exact h.put hc rfl
  | counted c hc _ => exact h.put hc rfl
  | expired c hc _ => exact h.put hc rfl
  | asked c hc _ => exact h.put hc rfl
  | recorded c _ hc _ => exact h.put hc rfl

theorem Foreign.resume (h : Foreign s) (i : ℕ) : Foreign (RedisLimiter.resume i s) := by
  have hresumed := RedisLimiter.resume_resumed i s
  generalize RedisLimiter.resume i s = t at hresumed ⊢
  cases hresumed with
  | stay => exact h
  | refused c _ hc _ => exact h.put hc rfl
  | admitted c _ hc _ _ => exact h.put hc rfl
  | counted c hc _ => exact h.put hc rfl
  | expired c hc _ => exact h.put hc rfl
  | slept c _ hc _ _ => exact h.put hc rfl
  | within c _ hc _ _ => exact h.put hc rfl
  | woken c _ hc _ => exact h.put hc rfl
  | granted c _ hc _ => exact h.put hc rfl

theorem Foreign.fail (h : Foreign s) (i : ℕ) : Foreign (RedisLimiter.fail i s) := by
  unfold RedisLimiter.fail
  split
  · exact h
  next c hc =>
    split
    · exact h
    · exact h.put hc rfl

theorem Foreign.arrive (h : Foreign s) {p : ℕ} (hp : p ≠ 0) : Foreign (RedisLimiter.arrive p s) := by
  intro c hc
  obtain hc | hc := List.mem_append.mp hc
  · exact h c hc
  · obtain rfl := List.mem_singleton.mp hc
    exact hp

end Own

/-- The counter of the store, as a call of `daily_count` reads it. -/
def storeCount (s : RedisLimiter.State) : ℕ := s.dailyCount (date s.clock)

theorem storeCount_serve {s : RedisLimiter.State} (h : DayCounted s) (i : ℕ) :
    storeCount s ≤ storeCount (RedisLimiter.serve i s) := by
  have hserved := RedisLimiter.serve_served i s
  generalize RedisLimiter.serve i s = t at hserved ⊢
  cases hserved with
  | stay => exact le_rfl
  | read => exact le_rfl
  | counted => exact le_rfl
  | expired => exact le_rfl
  | asked => exact le_rfl
  | recorded c key hc hphase =>
    have hkey := h.tickets c (List.mem_of_getElem? hc)
    simp only [DayTicket, hphase] at hkey
    have hcount := h.dailyCount_record hkey
    change s.dailyCount (date s.clock) ≤ (s.record key).dailyCount (date s.clock)
    omega

theorem storeCount_resume (i : ℕ) (s : RedisLimiter.State) :
    storeCount (RedisLimiter.resume i s) = storeCount s := by
  have hresumed := RedisLimiter.resume_resumed i s
  generalize RedisLimiter.resume i s = t at hresumed ⊢
  cases hresumed <;> rfl

theorem storeCount_fail (i : ℕ) (s : RedisLimiter.State) :
    storeCount (RedisLimiter.fail i s) = storeCount s := by
  unfold RedisLimiter.fail
  split
  · rfl
  · split <;> rfl

section Fallback

open LocalLimiter (RateLimiter)

/-- The local counter of a day gone by is zero. -/
def Unstale (s : LocalLimiter.State) : Prop :=
  s.limiter.dailyResetDate ≠ s.today → s.limiter.dailyCount = 0

/-- Within a day the local counter only grows. -/
theorem local_count_step {limit : ℕ} {s : LocalLimiter.State} {e : LocalLimiter.Event}
    (hcounted : LocalLimiter.DailyCap.Counted limit s) (h : Unstale s) (hday : e ≠ .midnight) : Unstale (LocalLimiter.step s e) ∧
      s.limiter.dailyCount ≤ (LocalLimiter.step s e).limiter.dailyCount := by
  cases e with
  | tick now => exact ⟨h, le_rfl⟩
  | midnight => exact absurd rfl hday
  | arrive =>
    simp only [LocalLimiter.step, LocalLimiter.arrive, Unstale, RateLimiter.checkDailyReset]
    split
    next hnew => exact ⟨fun hne => absurd rfl hne, (h (Ne.symm hnew)).le⟩
    next => exact ⟨h, le_rfl⟩
  | resume i =>
    have hresumed := LocalLimiter.resume_resumed i s
    simp only [LocalLimiter.step]
    generalize LocalLimiter.resume i s = t at hresumed ⊢
    cases hresumed with
    | stay => exact ⟨h, le_rfl⟩
    | sleepInBucket => exact ⟨h, le_rfl⟩
    | takeToken => exact ⟨h, le_rfl⟩
    | sleepInInterval => exact ⟨h, le_rfl⟩
    | pass c hc hmay =>
      refine ⟨fun hstale => ?_, Nat.le_succ _⟩
      have hnone := (hcounted.fresh hstale).2
      have hone := (LocalLimiter.DailyCap.mayPass_inFlight hmay).1
      have hle := le_tally (w := LocalLimiter.DailyCap.inFlight) (List.mem_of_getElem? hc)
      omega
  | cancel i =>
    have hcancelled := LocalLimiter.cancel_cancelled i s
    simp only [LocalLimiter.step]
    generalize LocalLimiter.cancel i s = t at hcancelled ⊢
    cases hcancelled <;> exact ⟨h, le_rfl⟩

end Fallback

/-- The permits on both sides fit the limit; while both may count, one has nothing. -/
structure Kept (limit : ℕ) (s : State) : Prop where
  store : StoreKept limit s.redis
  fallback : LocalLimiter.DailyCap.Counted limit s.fallback
  unstale : Unstale s.fallback
  shared : s.usingRedis = true → s.redisDown = false →
    s.fallback.callers = [] ∧ s.fallback.limiter.dailyCount = 0
  lost : s.redisDown = true → tally counted s.redis.calls = 0
  alone : s.usingRedis = false → s.redisDown = false → Foreign s.redis

variable {limit : ℕ} {s : State}

/-- Some store step, with nothing counted after the store is lost. -/
theorem Kept.setStore {r : RedisLimiter.State} (h : Kept limit s) (hstore : StoreKept limit r)
    (hlost : s.redisDown = true → tally counted r.calls ≤ tally counted s.redis.calls)
    (halone : Foreign s.redis → s.usingRedis = false → Foreign r) :
    Kept limit { s with redis := r } := by
  refine ⟨hstore, h.fallback, h.unstale, h.shared, fun hdown => ?_, fun husing hup => ?_⟩
  · exact Nat.le_zero.mp ((hlost hdown).trans (h.lost hdown).le)
  · exact halone (h.alone husing hup) husing

theorem Kept.setFallback {l : LocalLimiter.State} (h : Kept limit s) (hnew : LocalLimiter.DailyCap.Counted limit l)
    (hunstale : Unstale l) (hmode : s.usingRedis = true → s.redisDown = false →
      l.callers = [] ∧ l.limiter.dailyCount = 0) : Kept limit { s with fallback := l } :=
  ⟨h.store, hnew, hunstale, hmode, h.lost, h.alone⟩

theorem dailyCount_store {r : RedisLimiter.State} (hle : storeCount s.redis ≤ storeCount r) :
    s.dailyCount ≤ State.dailyCount { s with redis := r } := by
  unfold State.dailyCount
  split
  · exact hle
  · exact le_rfl

theorem dailyCount_fallback {l : LocalLimiter.State}
    (hle : s.fallback.limiter.dailyCount ≤ l.limiter.dailyCount) :
    s.dailyCount ≤ State.dailyCount { s with fallback := l } := by
  unfold State.dailyCount
  split
  · exact le_rfl
  · exact hle

/-- Calls counted in the store are in its counter. -/
theorem Kept.counted_le (h : Kept limit s) : tally counted s.redis.calls ≤ storeCount s.redis := by
  refine le_trans (tally_le_tally fun c hc => ?_) h.store.counter.recorded
  have htoday := h.store.today c hc
  unfold counted recordedOn
  split
  next key hphase =>
    simp only [Today, hphase] at htoday
    simp only [hphase, htoday, if_true]
    split <;> omega
  next t hphase =>
    simp only [Today, hphase] at htoday
    simp only [hphase, htoday, if_true]
    split <;> omega
  next => exact Nat.zero_le _

theorem Kept.store_step {e : RedisLimiter.Event} (h : Kept limit s) (hday : OneDay s (.store e))
    (hsafe : Safe s (.store e)) : Kept limit (step s (.store e)) ∧
      s.dailyCount ≤ (step s (.store e)).dailyCount := by
  cases e with
  | tick now =>
    refine ⟨h.setStore (h.store.tick hday) (fun _ => le_rfl) fun hforeign _ => hforeign,
      dailyCount_store ?_⟩
    have hcount := h.store.counter.dailyCount_tick now
    rw [if_pos (show date (max s.redis.clock now) = date s.redis.clock from hday)] at hcount
    exact hcount.ge
  | arrive p =>
    simp only [step]
    split
    · exact ⟨h, le_rfl⟩
    next hp =>
      exact ⟨h.setStore (h.store.arrive p) (fun _ => (tally_arrive p s.redis).le)
        fun hforeign _ => hforeign.arrive hp, dailyCount_store le_rfl⟩
  | serve i =>
    simp only [step]
    split
    · exact ⟨h, le_rfl⟩
    next hup =>
      exact ⟨h.setStore (h.store.serve i) (fun hdown => absurd hdown hup)
        fun hforeign _ => hforeign.serve i, dailyCount_store (storeCount_serve h.store.counter i)⟩
  | resume i =>
    exact ⟨h.setStore (h.store.resume hsafe) (fun _ => tally_resume i s.redis)
      fun hforeign _ => hforeign.resume i, dailyCount_store (storeCount_resume i s.redis).ge⟩
  | fail i =>
    exact ⟨h.setStore (h.store.fail i) (fun _ => tally_fail i s.redis)
      fun hforeign _ => hforeign.fail i, dailyCount_store (storeCount_fail i s.redis).ge⟩

/-- Without callers the local limiter only watches the time. -/
theorem own_step_idle {l : LocalLimiter.State} {e : LocalLimiter.Event} (hidle : l.callers = [])
    (hday : e ≠ .midnight) (hcall : e ≠ .arrive) : (LocalLimiter.step l e).callers = [] ∧
      (LocalLimiter.step l e).limiter.dailyCount = l.limiter.dailyCount := by
  cases e with
  | tick now => exact ⟨hidle, rfl⟩
  | midnight => exact absurd rfl hday
  | arrive => exact absurd rfl hcall
  | resume i => simp [LocalLimiter.step, LocalLimiter.resume, hidle]
  | cancel i => simp [LocalLimiter.step, LocalLimiter.cancel, hidle]

theorem Kept.own_step {e : LocalLimiter.Event} (h : Kept limit s) (hday : e ≠ .midnight) :
    Kept limit (step s (.own e)) ∧ s.dailyCount ≤ (step s (.own e)).dailyCount := by
  by_cases hcall : e = .arrive
  · subst hcall
    exact ⟨h, le_rfl⟩
  have hstep : step s (.own e) = { s with fallback := LocalLimiter.step s.fallback e } := by
    cases e with
    | arrive => exact absurd rfl hcall
    | _ => rfl
  have hroomy : LocalLimiter.DailyCap.Roomy s.fallback e := by
    cases e with
    | arrive => exact absurd rfl hcall
    | _ => trivial
  obtain ⟨hunstale, hcount⟩ := local_count_step h.fallback h.unstale hday
  rw [hstep]
  refine ⟨h.setFallback (LocalLimiter.DailyCap.counted_step h.fallback ⟨hroomy, hday⟩) hunstale
    fun husing hup => ?_, dailyCount_fallback hcount⟩
  obtain ⟨hidle, hzero⟩ := h.shared husing hup
  obtain ⟨hstill, hsame⟩ := own_step_idle hidle hday hcall
  exact ⟨hstill, hsame.trans hzero⟩

theorem Kept.acquire_step (h : Kept limit s) (hsafe : Safe s .acquire) :
    Kept limit (step s .acquire) ∧ s.dailyCount ≤ (step s .acquire).dailyCount := by
  simp only [step, acquire]
  split
  next husing =>
    exact ⟨h.setStore (h.store.arrive 0) (fun _ => (tally_arrive 0 s.redis).le)
      fun _ hlocal => absurd husing (by simp [hlocal]), dailyCount_store le_rfl⟩
  next hlocal =>
    rw [Bool.not_eq_true] at hlocal
    obtain ⟨hunstale, hcount⟩ := local_count_step h.fallback h.unstale (e := .arrive) (by simp)
    exact ⟨h.setFallback (LocalLimiter.DailyCap.counted_step h.fallback ⟨hsafe hlocal, by simp⟩) hunstale
      fun husing _ => absurd husing (by simp [hlocal]), dailyCount_fallback hcount⟩

theorem Kept.down_step (h : Kept limit s) (hsafe : Safe s .redisDown) :
    Kept limit (step s .redisDown) ∧ s.dailyCount ≤ (step s .redisDown).dailyCount := by
  by_cases hdown : s.redisDown = true
  · have hsame : step s .redisDown = s := by
      obtain ⟨r, l, u, d⟩ := s
      simp only at hdown
      simp [step, hdown]
    rw [hsame]
    exact ⟨h, le_rfl⟩
  rw [Bool.not_eq_true] at hdown
  by_cases husing : s.usingRedis = true
  · have hzero : s.dailyCount = 0 := hsafe husing
    have hstore : storeCount s.redis = 0 := by
      simpa [State.dailyCount, husing, hdown, storeCount] using hzero
    have hcounted := h.counted_le
    refine ⟨⟨h.store, h.fallback, h.unstale, fun _ hup => ?_, fun _ => ?_, fun _ hup => ?_⟩, ?_⟩
    · simp [step] at hup
    · change tally counted s.redis.calls = 0
      omega
    · simp [step] at hup
    · omega
  · rw [Bool.not_eq_true] at husing
    refine ⟨⟨h.store, h.fallback, h.unstale, fun _ hup => ?_, fun _ => ?_, fun _ hup => ?_⟩, ?_⟩
    · simp [step] at hup
    · exact (h.alone husing hdown).counted
    · simp [step] at hup
    · simp [step, State.dailyCount, husing]

theorem Kept.lose_step {i : ℕ} (h : Kept limit s) (hsafe : Safe s (.lose i)) :
    Kept limit (step s (.lose i)) ∧ s.dailyCount ≤ (step s (.lose i)).dailyCount := by
  simp only [step, lose]
  split
  · exact ⟨h, le_rfl⟩
  next c hc =>
    split
    · exact ⟨h, le_rfl⟩
    next hlost =>
      have hdown : s.redisDown = true := by
        simp only [not_or, Bool.not_eq_false] at hlost
        exact hlost.1
      have hfail := h.setStore (h.store.fail i) (fun _ => tally_fail i s.redis)
        fun hforeign _ => hforeign.fail i
      split
      next hown =>
        have hroomy := hsafe c hc hown hdown
        obtain ⟨hunstale, hcount⟩ := local_count_step h.fallback h.unstale (e := .arrive) (by simp)
        have hnew := LocalLimiter.DailyCap.counted_step h.fallback ⟨hroomy, by simp⟩
        refine ⟨⟨hfail.store, hnew, hunstale, fun husing => ?_, hfail.lost, fun _ hup => ?_⟩, ?_⟩
        · simp at husing
        · simp [hdown] at hup
        · simpa [State.dailyCount, hdown, LocalLimiter.step] using hcount
      next => exact ⟨hfail, dailyCount_store (storeCount_fail i s.redis).ge⟩

theorem kept_step {e : Event} (h : Kept limit s) (hcond : OneDay s e ∧ Safe s e) :
    Kept limit (step s e) ∧ s.dailyCount ≤ (step s e).dailyCount := by
  cases e with
  | store e => exact h.store_step hcond.1 hcond.2
  | own e => exact h.own_step hcond.1
  | acquire => exact h.acquire_step hcond.2
  | redisDown => exact h.down_step hcond.2
  | lose i => exact h.lose_step hcond.2

theorem start_kept (h : Start s) : Kept s.redis.dailyLimit s := by
  have hcounter : DayCounted s.redis := by
    refine ⟨h.redis.created, ?_, ?_, ?_, ?_⟩ <;> simp [h.redis.idle, h.redis.daily]
  have hstore : StoreKept s.redis.dailyLimit s.redis := by
    refine ⟨rfl, hcounter, ?_, ?_⟩ <;> simp [h.redis.idle]
  have hfallback : LocalLimiter.DailyCap.Counted s.redis.dailyLimit s.fallback := by
    refine ⟨h.limit, ?_, ?_⟩ <;> simp [LocalLimiter.DailyCap.permits, h.idle, h.uncounted]
  refine ⟨hstore, hfallback, fun _ => h.uncounted, fun _ _ => ⟨h.idle, h.uncounted⟩, ?_, ?_⟩ <;>
    simp [h.redis.idle, Foreign]

/-- One side has granted nothing, and the other one keeps the limit. -/
theorem Kept.permits_le (h : Kept limit s) : permits s ≤ limit := by
  have hle : tally permit s.redis.calls ≤ tally counted s.redis.calls := by
    refine tally_le_tally fun c _ => ?_
    unfold permit counted
    cases c.phase <;> simp
  have htaking : tally counted s.redis.calls ≤ tally taking s.redis.calls := by
    refine tally_le_tally fun c _ => ?_
    unfold taking counted
    cases c.phase <;> simp
  have hroom := h.store.room
  have hlocal : LocalLimiter.DailyCap.permits s.fallback ≤ limit := by
    by_cases hdate : s.fallback.limiter.dailyResetDate = s.fallback.today
    · have hday := (h.fallback.room hdate).2
      omega
    · have hnone := (h.fallback.fresh hdate).1
      omega
  unfold permits
  by_cases hdown : s.redisDown = true
  · have hzero := h.lost hdown
    omega
  rw [Bool.not_eq_true] at hdown
  by_cases husing : s.usingRedis = true
  · have hidle : LocalLimiter.DailyCap.permits s.fallback = 0 := by
      simp [LocalLimiter.DailyCap.permits, (h.shared husing hdown).1]
    omega
  · rw [Bool.not_eq_true] at husing
    have hzero := (h.alone husing hdown).counted
    omega

/-- Within a day on which the store is lost before anything is counted, and calls pass
the checks only with room, the permits keep the limit and `daily_count` never falls. -/
theorem fallback_cap (s : State) (es fs : List Event) (hstart : Start s)
    (hday : Meets step OneDay s (es ++ fs)) (hsafe : Meets step Safe s (es ++ fs)) :
    permits (run step s es) ≤ s.redis.dailyLimit ∧
      (run step s es).dailyCount ≤ (run step s (es ++ fs)).dailyCount := by
  obtain ⟨hes, hfs⟩ := meets_append.mp (hday.and hsafe)
  have hstep : ∀ t e, Kept s.redis.dailyLimit t → OneDay t e ∧ Safe t e →
      Kept s.redis.dailyLimit (step t e) := fun t e h hc => (kept_step h hc).1
  have hkept := invariant hstep (start_kept hstart) hes
  have hgrown : ∀ t e, Kept s.redis.dailyLimit t ∧ (run step s es).dailyCount ≤ t.dailyCount →
      OneDay t e ∧ Safe t e →
      Kept s.redis.dailyLimit (step t e) ∧ (run step s es).dailyCount ≤ (step t e).dailyCount := by
    intro t e h hc
    obtain ⟨hkept, hle⟩ := kept_step h.1 hc
    exact ⟨hkept, h.2.trans hle⟩
  refine ⟨hkept.permits_le, ?_⟩
  rw [run_append]
  exact (invariant hgrown ⟨hkept, le_rfl⟩ hfs).2

/-- A process with a limit of one call a day. -/
def oneCallADay : State :=
  { redis := { redis := {}, perSecond := 20, dailyLimit := 1, processes := fun _ => ⟨"main", 0⟩, clock := 100 },
    fallback := .start 20 1 100 0, usingRedis := true }

/-- The store is lost at once, and the call is granted by the local limiter. -/
def lostAtOnce : List Event :=
  [.acquire, .redisDown, .lose 0, .own (.resume 0), .own (.resume 0)]

theorem fallback_cap_lostAtOnce : permits (run step oneCallADay lostAtOnce) ≤ 1 ∧
    (run step oneCallADay lostAtOnce).dailyCount ≤
      (run step oneCallADay (lostAtOnce ++ [.own (.tick 200)])).dailyCount :=
  fallback_cap oneCallADay lostAtOnce [.own (.tick 200)]
    ⟨⟨rfl, rfl, rfl, fun _ => (by decide +kernel : (0 : ℤ) ≤ date 100)⟩, rfl, rfl, rfl, rfl⟩
    (by decide +kernel) (by decide +kernel)

/-- The store grants a call and is lost; the local limiter grants another one. -/
def lostAfterwards : List Event :=
  [.acquire, .store (.serve 0), .store (.resume 0), .store (.serve 0), .store (.resume 0),
    .store (.serve 0), .store (.resume 0), .store (.serve 0), .store (.resume 0),
    .store (.serve 0), .store (.resume 0), .redisDown, .acquire, .lose 1, .own (.resume 0),
    .own (.resume 0)]

theorem lostAfterwards_exceeds : ¬ ∀ (s : State) (es fs : List Event), Start s →
    Meets step OneDay s (es ++ fs) → permits (run step s es) ≤ s.redis.dailyLimit ∧
      (run step s es).dailyCount ≤ (run step s (es ++ fs)).dailyCount := by
  intro h
  have hboth := (h oneCallADay lostAfterwards []
    ⟨⟨rfl, rfl, rfl, fun _ => (by decide +kernel : (0 : ℤ) ≤ date 100)⟩, rfl, rfl, rfl, rfl⟩
    (by decide +kernel)).1
  revert hboth
  decide +kernel

end KisAutotrader.HybridLimiter.FallbackCap
