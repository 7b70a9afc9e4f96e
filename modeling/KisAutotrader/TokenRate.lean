import Mathlib.Tactic.FieldSimp
import Mathlib.Tactic.Positivity
import KisAutotrader.LocalLimiter

/-!
# The call rate of one process

The tokens left, and the budget of the time since any earlier moment, pay for
every token taken; the interval section keeps two permits apart.
-/
namespace KisAutotrader.LocalLimiter.TokenRate
open Interleaving TimeWindows History

/-- What a bucket may give out in a time of length `d`. -/
def allowance (b : TokenBucket) (d : ℚ) : ℚ := b.capacity + b.rate * d

theorem allowance_mono (b : TokenBucket) : Monotone (allowance b) := by
  intro d d' h
  unfold allowance
  gcongr

theorem allowance_nonneg (b : TokenBucket) (d : ℚ) (hd : 0 ≤ d) : 0 ≤ allowance b d := by
  unfold allowance
  positivity

/-- The tokens of a bucket against the record of those taken from it. -/
structure Paid (b : TokenBucket) (taken : List ℚ) : Prop where
  nonneg : 0 ≤ b.tokens
  capped : b.tokens ≤ b.capacity
  before : ∀ t ∈ taken, t ≤ b.lastRefill
  budget : ∀ a ≤ b.lastRefill, countFrom a taken + b.tokens ≤ allowance b (b.lastRefill - a)
  metered : Metered (allowance b) taken

theorem paid_init (rate : ℕ) (capacity : Option ℕ) (now : ℚ) :
    Paid (TokenBucket.init rate capacity now) [] := by
  refine ⟨by simp [TokenBucket.init], le_rfl, by simp, fun a ha => ?_, eachAfter_nil _⟩
  have hpassed : 0 ≤ (rate : ℚ) * (now - a) := mul_nonneg (by positivity) (sub_nonneg.mpr ha)
  simp only [TokenBucket.init, allowance, countFrom, List.countP_nil, Nat.cast_zero]
  linarith

theorem Paid.refill {b : TokenBucket} {taken : List ℚ} {now : ℚ} (h : Paid b taken)
    (hnow : b.lastRefill ≤ now) : Paid (b.refill now) taken := by
  have hgain : 0 ≤ (now - b.lastRefill) * b.rate := mul_nonneg (sub_nonneg.mpr hnow) (by positivity)
  refine ⟨le_min (by positivity) (add_nonneg h.nonneg hgain), min_le_left _ _,
    fun t ht => (h.before t ht).trans hnow, fun a ha => ?_, h.metered⟩
  simp only [allowance, TokenBucket.refill]
  by_cases hold : a ≤ b.lastRefill
  · have hbudget := h.budget a hold
    have hmin : min (b.capacity : ℚ) (b.tokens + (now - b.lastRefill) * b.rate) ≤
        b.tokens + (now - b.lastRefill) * b.rate := min_le_right _ _
    unfold allowance at hbudget
    calc (countFrom a taken : ℚ) + min (b.capacity : ℚ) (b.tokens + (now - b.lastRefill) * b.rate)
        ≤ (countFrom a taken + b.tokens) + (now - b.lastRefill) * b.rate := by linarith
      _ ≤ (b.capacity + b.rate * (b.lastRefill - a)) + (now - b.lastRefill) * b.rate := by gcongr
      _ = b.capacity + b.rate * (now - a) := by ring
  · have hnone : countFrom a taken = 0 :=
      countFrom_eq_zero fun t ht => (h.before t ht).trans_lt (not_le.mp hold)
    have hmin : min (b.capacity : ℚ) (b.tokens + (now - b.lastRefill) * b.rate) ≤ b.capacity :=
      min_le_left _ _
    have hrest : 0 ≤ (b.rate : ℚ) * (now - a) := mul_nonneg (by positivity) (sub_nonneg.mpr ha)
    rw [hnone]
    push_cast
    linarith

theorem Paid.take {b : TokenBucket} {taken : List ℚ} (h : Paid b taken) (htoken : 1 ≤ b.tokens) :
    Paid { b with tokens := b.tokens - 1 } (taken ++ [b.lastRefill]) := by
  refine ⟨sub_nonneg.mpr htoken, ?_, fun t ht => ?_, fun a ha => ?_, EachAfter.snoc h.metered ?_⟩
  · have hcapped := h.capped
    simp only
    linarith
  · obtain ht | rfl := List.mem_append.mp ht |>.imp_right List.mem_singleton.mp
    · exact h.before t ht
    · exact le_rfl
  · have hbudget := h.budget a ha
    rw [countFrom_snoc, if_pos ha]
    push_cast
    simp only [allowance] at hbudget ⊢
    linarith
  · intro a ha
    have hbudget := h.budget a ha
    simp only [allowance] at hbudget ⊢
    linarith

/-- The bucket keeps its parameters, and its record is paid for. -/
structure BucketKept (rate capacity : ℕ) (s : State) : Prop where
  rate : s.limiter.bucket.rate = rate
  capacity : s.limiter.bucket.capacity = capacity
  clock : s.limiter.bucket.lastRefill ≤ s.clock
  paid : Paid s.limiter.bucket s.taken

theorem bucketKept_step {rate capacity : ℕ} (s : State) (e : Event) (h : BucketKept rate capacity s) :
    BucketKept rate capacity (step s e) := by
  cases e with
  | tick now => exact ⟨h.rate, h.capacity, h.clock.trans (le_max_left _ _), h.paid⟩
  | midnight => exact ⟨h.rate, h.capacity, h.clock, h.paid⟩
  | arrive =>
    have hbucket : (s.limiter.checkDailyReset s.today).bucket = s.limiter.bucket := by
      unfold RateLimiter.checkDailyReset
      split <;> rfl
    simp only [step, arrive]
    exact ⟨by rw [hbucket, h.rate], by rw [hbucket, h.capacity], by rw [hbucket]; exact h.clock,
      by rw [hbucket]; exact h.paid⟩
  | resume i =>
    have hres := resume_resumed i s
    have hrefill := h.paid.refill h.clock
    simp only [step]
    generalize resume i s = t at hres ⊢
    cases hres with
    | stay => exact h
    | sleepInBucket => exact ⟨h.rate, h.capacity, le_rfl, hrefill⟩
    | takeToken _ _ _ htoken => exact ⟨h.rate, h.capacity, le_rfl, hrefill.take htoken⟩
    | sleepInInterval => exact ⟨h.rate, h.capacity, h.clock, h.paid⟩
    | pass => exact ⟨h.rate, h.capacity, h.clock, h.paid⟩
  | cancel i =>
    have hcan := cancel_cancelled i s
    simp only [step]
    generalize cancel i s = t at hcan ⊢
    cases hcan with
    | stay => exact h
    | queued => exact ⟨h.rate, h.capacity, h.clock, h.paid⟩
    | inBucket => exact ⟨h.rate, h.capacity, h.clock, h.paid⟩
    | inInterval => exact ⟨h.rate, h.capacity, h.clock, h.paid⟩

/-- Sleeping inside the interval section. -/
def spaces : Caller → ℕ
  | .spacing _ => 1
  | _ => 0

/-- Consecutive times lie at least `d` apart. -/
def Spaced (d : ℚ) (times : List ℚ) : Prop := times.IsChain fun t u => t + d ≤ u

/-- Only the holder of the interval lock sleeps in its section, until the interval is over. -/
structure IntervalKept (d : ℚ) (s : State) : Prop where
  interval : s.limiter.minCallInterval = d
  spaced : Spaced d s.passed
  last : ∀ t ∈ s.passed.getLast?, t = s.limiter.lastCallTime
  lock : tally spaces s.callers = s.limiter.intervalLock.toNat
  wakes : ∀ wake, .spacing wake ∈ s.callers → s.limiter.lastCallTime + d ≤ wake

/-- A step outside the interval section leaves it as it is. -/
theorem IntervalKept.outside {d : ℚ} {s t : State} {i : ℕ} {c e : Caller} (h : IntervalKept d s)
    (hcallers : t.callers = s.callers.set i e) (hc : s.callers[i]? = some c) (hout : spaces c = 0)
    (hin : spaces e = 0) (hinterval : t.limiter.minCallInterval = s.limiter.minCallInterval)
    (hlast : t.limiter.lastCallTime = s.limiter.lastCallTime)
    (hlock : t.limiter.intervalLock = s.limiter.intervalLock) (hpassed : t.passed = s.passed) :
    IntervalKept d t := by
  have htally := tally_set (w := spaces) e hc
  refine ⟨by rw [hinterval, h.interval], by rw [hpassed]; exact h.spaced,
    by rw [hpassed, hlast]; exact h.last, ?_, fun wake hwake => ?_⟩
  · rw [hcallers, hlock, ← h.lock]
    omega
  · rw [hcallers] at hwake
    rw [hlast]
    obtain hwake | rfl := List.mem_or_eq_of_mem_set hwake
    · exact h.wakes wake hwake
    · simp [spaces] at hin

/-- Who sleeps in the interval section holds its lock. -/
theorem IntervalKept.holder {d wake : ℚ} {s : State} {i : ℕ} (h : IntervalKept d s)
    (hc : s.callers[i]? = some (.spacing wake)) :
    spaces (.spacing wake) = s.limiter.intervalLock.toNat := by
  have hone : 1 ≤ s.limiter.intervalLock.toNat := by
    rw [← h.lock]
    exact le_tally (w := spaces) (List.mem_of_getElem? hc)
  have htwo := s.limiter.intervalLock.toNat_le
  simp only [spaces]
  omega

/-- The holder of the interval lock leaves its section. -/
theorem IntervalKept.release {d : ℚ} {s t : State} {i : ℕ} {c e : Caller} (h : IntervalKept d s)
    (hcallers : t.callers = s.callers.set i e) (hc : s.callers[i]? = some c)
    (hheld : spaces c = s.limiter.intervalLock.toNat)
    (hin : spaces e = 0) (hinterval : t.limiter.minCallInterval = s.limiter.minCallInterval)
    (hlock : t.limiter.intervalLock = false) (hspaced : Spaced d t.passed)
    (hlast : ∀ u ∈ t.passed.getLast?, u = t.limiter.lastCallTime) : IntervalKept d t := by
  have htally := tally_set (w := spaces) e hc
  have hnone : tally spaces t.callers = 0 := by
    rw [h.lock, hin, hheld] at htally
    rw [hcallers]
    omega
  refine ⟨by rw [hinterval, h.interval], hspaced, hlast, by rw [hnone, hlock]; rfl,
    fun wake hwake => ?_⟩
  have hzero := tally_eq_zero.mp hnone _ hwake
  simp [spaces] at hzero

theorem IntervalKept.pass {d : ℚ} {s : State} {i : ℕ} {c : Caller} (h : IntervalKept d s)
    (hc : s.callers[i]? = some c) (hmay : MayPass s c) : IntervalKept d (pass i s) := by
  have hheld : spaces c = s.limiter.intervalLock.toNat := by
    obtain ⟨rfl, hlock, -⟩ | ⟨wake, -, rfl⟩ := hmay
    · rw [hlock]
      rfl
    · exact h.holder hc
  have hlate : s.limiter.lastCallTime + d ≤ s.clock := by
    obtain ⟨-, -, hlate⟩ | ⟨wake, hwake, rfl⟩ := hmay
    · rwa [h.interval] at hlate
    · exact (h.wakes wake (List.mem_of_getElem? hc)).trans hwake
  refine h.release rfl hc hheld rfl rfl rfl ?_ (by simp [LocalLimiter.pass])
  refine h.spaced.append (List.isChain_singleton _) fun t ht u hu => ?_
  obtain rfl : s.clock = u := by simpa using hu
  rw [h.last t ht]
  exact hlate

theorem intervalKept_step {d : ℚ} (s : State) (e : Event) (h : IntervalKept d s) :
    IntervalKept d (step s e) := by
  cases e with
  | tick now => exact ⟨h.interval, h.spaced, h.last, h.lock, h.wakes⟩
  | midnight => exact ⟨h.interval, h.spaced, h.last, h.lock, h.wakes⟩
  | arrive =>
    have hreset : (s.limiter.checkDailyReset s.today).minCallInterval = s.limiter.minCallInterval ∧
        (s.limiter.checkDailyReset s.today).lastCallTime = s.limiter.lastCallTime ∧
        (s.limiter.checkDailyReset s.today).intervalLock = s.limiter.intervalLock := by
      unfold RateLimiter.checkDailyReset
      split <;> exact ⟨rfl, rfl, rfl⟩
    obtain ⟨hinterval, hlast, hlock⟩ := hreset
    simp only [step, arrive]
    refine ⟨by rw [hinterval, h.interval], h.spaced, by rw [hlast]; exact h.last, ?_,
      fun wake hwake => ?_⟩
    · rw [tally_snoc, hlock, h.lock]
      split <;> rfl
    · rw [hlast]
      refine h.wakes wake ?_
      obtain hwake | hwake := List.mem_append.mp hwake
      · exact hwake
      · rw [List.mem_singleton] at hwake
        split at hwake <;> cases hwake
  | resume i =>
    have hres := resume_resumed i s
    simp only [step]
    generalize resume i s = t at hres ⊢
    cases hres with
    | stay => exact h
    | sleepInBucket c hc hmay =>
      refine h.outside rfl hc ?_ rfl rfl rfl rfl rfl
      obtain rfl | ⟨wake, -, rfl⟩ := hmay <;> rfl
    | takeToken c hc hmay _ =>
      refine h.outside rfl hc ?_ rfl rfl rfl rfl rfl
      obtain rfl | ⟨wake, -, rfl⟩ := hmay <;> rfl
    | sleepInInterval hc hlock =>
      have htally := tally_set (w := spaces)
        (.spacing (s.clock + (s.limiter.minCallInterval - (s.clock - s.limiter.lastCallTime)))) hc
      refine ⟨h.interval, h.spaced, h.last, ?_, fun wake hwake => ?_⟩
      · have hfree := h.lock
        rw [hlock] at hfree
        simp only [LocalLimiter.sleepInInterval]
        simp only [spaces, Bool.toNat_false, Bool.toNat_true] at htally hfree ⊢
        omega
      · simp only [LocalLimiter.sleepInInterval] at hwake ⊢
        obtain hwake | hwake := List.mem_or_eq_of_mem_set hwake
        · exact h.wakes wake hwake
        · obtain rfl := Caller.spacing.inj hwake
          rw [h.interval]
          linarith
    | pass c hc hmay => exact h.pass hc hmay
  | cancel i =>
    have hcan := cancel_cancelled i s
    simp only [step]
    generalize cancel i s = t at hcan ⊢
    cases hcan with
    | stay => exact h
    | queued c hc hqueued =>
      refine h.outside rfl hc ?_ rfl rfl rfl rfl rfl
      obtain rfl | rfl := hqueued <;> rfl
    | inBucket wake hc => exact h.outside rfl hc rfl rfl rfl rfl rfl rfl
    | inInterval wake hc =>
      exact h.release rfl hc (h.holder hc) rfl rfl rfl h.spaced h.last

end KisAutotrader.LocalLimiter.TokenRate
