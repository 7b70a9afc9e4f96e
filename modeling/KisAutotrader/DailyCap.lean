import KisAutotrader.LocalLimiter

/-!
# The daily cap of one process

The daily limit is checked when a call arrives and counted when it returns; the
calls in between are covered by neither.
-/
namespace KisAutotrader.LocalLimiter.DailyCap
open Interleaving

def permit : Caller → ℕ
  | .granted => 1
  | _ => 0

/-- Past the daily check and not counted yet. -/
def inFlight : Caller → ℕ
  | .bucketQueue | .refilling _ | .intervalQueue | .spacing _ => 1
  | _ => 0

def permits (s : State) : ℕ := tally permit s.callers

/-- No call is under way and none has been counted on the current day. -/
structure DayStart (s : State) : Prop where
  idle : s.callers = []
  uncounted : s.limiter.dailyResetDate = s.today → s.limiter.dailyCount = 0

/-- A call that passes the daily check leaves room for the calls in flight. -/
def Roomy (s : State) : Event → Prop
  | .arrive =>
      let l := s.limiter.checkDailyReset s.today
      l.dailyCount < l.dailyLimit → l.dailyCount + tally inFlight s.callers < l.dailyLimit
  | _ => True

instance (s : State) (e : Event) : Decidable (Roomy s e) := by
  cases e <;> unfold Roomy <;> infer_instance

/-- The counter covers the permits of the day, and the limit also the calls in flight. -/
structure Counted (limit : ℕ) (s : State) : Prop where
  dailyLimit : s.limiter.dailyLimit = limit
  room : s.limiter.dailyResetDate = s.today →
    s.limiter.dailyCount = permits s ∧ permits s + tally inFlight s.callers ≤ limit
  fresh : s.limiter.dailyResetDate ≠ s.today → permits s = 0 ∧ tally inFlight s.callers = 0

theorem mayTake_inFlight {s : State} {c : Caller} (h : MayTake s c) :
    inFlight c = 1 ∧ permit c = 0 := by
  obtain rfl | ⟨wake, -, rfl⟩ := h <;> exact ⟨rfl, rfl⟩

theorem mayPass_inFlight {s : State} {c : Caller} (h : MayPass s c) :
    inFlight c = 1 ∧ permit c = 0 := by
  obtain ⟨rfl, -⟩ | ⟨wake, -, rfl⟩ := h <;> exact ⟨rfl, rfl⟩

/-- A call that moves on within its flight changes nothing that is counted. -/
theorem Counted.move {limit i : ℕ} {s t : State} {c d : Caller} (h : Counted limit s)
    (hcallers : t.callers = s.callers.set i d) (hc : s.callers[i]? = some c)
    (hpermit : permit d = permit c) (hflight : inFlight d ≤ inFlight c)
    (hlimit : t.limiter.dailyLimit = s.limiter.dailyLimit)
    (hcount : t.limiter.dailyCount = s.limiter.dailyCount)
    (hreset : t.limiter.dailyResetDate = s.limiter.dailyResetDate) (htoday : t.today = s.today) :
    Counted limit t := by
  have hpermits := tally_set (w := permit) d hc
  have hflights := tally_set (w := inFlight) d hc
  have hp : permits t = permits s := by
    simp only [permits, hcallers]
    omega
  have hf : tally inFlight t.callers ≤ tally inFlight s.callers := by
    rw [hcallers]
    omega
  refine ⟨hlimit.trans h.dailyLimit, fun hdate => ?_, fun hdate => ?_⟩
  · obtain ⟨hc, hroom⟩ := h.room (by rw [← hreset, ← htoday, hdate])
    exact ⟨by rw [hcount, hp, hc], by omega⟩
  · obtain ⟨hnone, hidle⟩ := h.fresh (by rwa [hreset, htoday] at hdate)
    exact ⟨by rw [hp, hnone], by omega⟩

/-- A call that returns moves from the calls in flight to the counted ones. -/
theorem Counted.pass {limit i : ℕ} {s : State} {c : Caller} (h : Counted limit s)
    (hc : s.callers[i]? = some c) (hmay : MayPass s c) : Counted limit (pass i s) := by
  obtain ⟨hflight, hpermit⟩ := mayPass_inFlight hmay
  have hmem : inFlight c ≤ tally inFlight s.callers := le_tally (List.mem_of_getElem? hc)
  have hp : permits (LocalLimiter.pass i s) = permits s + 1 := by
    have hpermits := tally_set (w := permit) .granted hc
    rwa [hpermit] at hpermits
  have hf : tally inFlight (LocalLimiter.pass i s).callers + 1 = tally inFlight s.callers := by
    have hflights := tally_set (w := inFlight) .granted hc
    rwa [hflight] at hflights
  refine ⟨h.dailyLimit, fun hdate => ?_, fun hdate => ?_⟩
  · obtain ⟨hcount, hroom⟩ := h.room hdate
    refine ⟨?_, by omega⟩
    rw [hp, ← hcount]
    rfl
  · have hidle := (h.fresh hdate).2
    omega

theorem Counted.arrive {limit : ℕ} {s : State} (h : Counted limit s) (hroomy : Roomy s .arrive) :
    Counted limit (arrive s) := by
  have hlimit : (s.limiter.checkDailyReset s.today).dailyLimit = limit := by
    unfold RateLimiter.checkDailyReset
    split <;> exact h.dailyLimit
  have hdate : (s.limiter.checkDailyReset s.today).dailyResetDate = s.today := by
    unfold RateLimiter.checkDailyReset
    split
    · rfl
    next heq => exact (not_not.mp heq).symm
  have hcount : (s.limiter.checkDailyReset s.today).dailyCount = permits s := by
    unfold RateLimiter.checkDailyReset
    split
    next hne => exact ((h.fresh (Ne.symm hne)).1).symm
    next heq => exact (h.room (not_not.mp heq).symm).1
  have hroom : permits s + tally inFlight s.callers ≤ limit := by
    by_cases hd : s.limiter.dailyResetDate = s.today
    · exact (h.room hd).2
    · obtain ⟨hnone, hidle⟩ := h.fresh hd
      omega
  refine ⟨hlimit, fun _ => ?_, fun hne => absurd hdate hne⟩
  rw [show (LocalLimiter.arrive s).limiter.dailyCount = permits s from hcount]
  by_cases hfull : (s.limiter.checkDailyReset s.today).dailyCount ≥
      (s.limiter.checkDailyReset s.today).dailyLimit
  · have hcallers : (LocalLimiter.arrive s).callers = s.callers ++ [.refused] := by
      simp [LocalLimiter.arrive, hfull]
    simpa [permits, hcallers, permit, inFlight] using hroom
  · have hcallers : (LocalLimiter.arrive s).callers = s.callers ++ [.bucketQueue] := by
      simp only [LocalLimiter.arrive, if_neg hfull]
    have hleft := hroomy (not_le.mp hfull)
    rw [hcount, hlimit] at hleft
    simp only [permits, hcallers, tally_snoc, permit, inFlight]
    simp only [permits] at hleft
    omega

theorem counted_step {limit : ℕ} {s : State} {e : Event} (h : Counted limit s)
    (hcond : Roomy s e ∧ e ≠ .midnight) : Counted limit (step s e) := by
  cases e with
  | tick now => exact ⟨h.dailyLimit, h.room, h.fresh⟩
  | midnight => exact absurd rfl hcond.2
  | arrive => exact h.arrive hcond.1
  | resume i =>
    have hres := resume_resumed i s
    simp only [step]
    generalize resume i s = t at hres ⊢
    cases hres with
    | stay => exact h
    | sleepInBucket c hc hmay =>
      obtain ⟨hflight, hpermit⟩ := mayTake_inFlight hmay
      exact h.move rfl hc hpermit.symm hflight.ge rfl rfl rfl rfl
    | takeToken c hc hmay _ =>
      obtain ⟨hflight, hpermit⟩ := mayTake_inFlight hmay
      exact h.move rfl hc hpermit.symm hflight.ge rfl rfl rfl rfl
    | sleepInInterval hc _ => exact h.move rfl hc rfl le_rfl rfl rfl rfl rfl
    | pass c hc hmay => exact h.pass hc hmay
  | cancel i =>
    have hcan := cancel_cancelled i s
    simp only [step]
    generalize cancel i s = t at hcan ⊢
    cases hcan with
    | stay => exact h
    | queued c hc hqueued =>
      refine h.move rfl hc ?_ (by simp [inFlight]) rfl rfl rfl rfl
      obtain rfl | rfl := hqueued <;> rfl
    | inBucket wake hc => exact h.move rfl hc rfl (by simp [inFlight]) rfl rfl rfl rfl
    | inInterval wake hc => exact h.move rfl hc rfl (by simp [inFlight]) rfl rfl rfl rfl

/-- Within a day on which every call that passes the check leaves room for the calls in
flight, at most the daily limit of calls return. -/
theorem daily_cap (s : State) (events : List Event) (hstart : DayStart s)
    (hday : Event.midnight ∉ events) (hroomy : Meets step Roomy s events) :
    permits (run step s events) ≤ s.limiter.dailyLimit := by
  have hcounted : Counted s.limiter.dailyLimit s := by
    refine ⟨rfl, fun hdate => ?_, fun _ => ?_⟩
    · simp [permits, hstart.idle, hstart.uncounted hdate]
    · simp [permits, hstart.idle]
  have hsame : Meets step (fun _ e => e ≠ .midnight) s events :=
    meets_of_forall fun _ e he heq => hday (heq ▸ he)
  have hfinal := invariant (fun _ _ => counted_step) hcounted (hroomy.and hsame)
  by_cases hdate : (run step s events).limiter.dailyResetDate = (run step s events).today
  · have hroom := (hfinal.room hdate).2
    omega
  · have hnone := (hfinal.fresh hdate).1
    omega

def twoCallsADay : State := .start 20 2 100 0

/-- Two calls, one after the other. -/
def oneByOne : List Event := [.arrive, .resume 0, .resume 0, .tick 101, .arrive, .resume 1, .resume 1]

theorem daily_cap_oneByOne : permits (run step twoCallsADay oneByOne) ≤ 2 :=
  daily_cap twoCallsADay oneByOne ⟨rfl, fun _ => rfl⟩ (by decide) (by decide +kernel)

/-- After a first call, a second one sleeps in the interval section while a third arrives. -/
def threeAtOnce : List Event := [.arrive, .resume 0, .resume 0, .arrive, .resume 1, .resume 1,
  .arrive, .resume 2, .tick (100 + 1/20), .resume 1, .resume 2, .tick (100 + 1/10), .resume 2]

theorem threeAtOnce_exceeds : ¬ ∀ (s : State) (events : List Event), DayStart s →
    Event.midnight ∉ events → permits (run step s events) ≤ s.limiter.dailyLimit := by
  intro h
  have hthree := h twoCallsADay threeAtOnce ⟨rfl, fun _ => rfl⟩ (by decide)
  revert hthree
  decide +kernel

end KisAutotrader.LocalLimiter.DailyCap
