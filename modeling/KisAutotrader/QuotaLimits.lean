import Mathlib.Algebra.Order.Floor.Ring
import Mathlib.Tactic.Linarith
import Mathlib.Tactic.NormNum
import KisAutotrader.RedisLimiter

/-!
# The quotas shared by the processes

A second gives out its quota as long as every call that is let through returns in
the second it was counted in; a day keeps its limit as long as the calls past the
daily check fit into it.
-/
namespace KisAutotrader.RedisLimiter.QuotaLimits
open Interleaving

/-- Let through in the given second, for the given role. -/
def letThroughIn (role : String) (k : ℤ) (c : Call) : ℕ :=
  match c.phase with
  | .granted t => if c.role = role ∧ second t = k then 1 else 0
  | _ => 0

/-- Let through on the given day. -/
def letThroughOn (d : ℤ) (c : Call) : ℕ :=
  match c.phase with
  | .granted t => if date t = d then 1 else 0
  | _ => 0

/-- Past the daily check, with the daily increment not served yet. -/
def uncounted (c : Call) : ℕ :=
  match c.phase with
  | .counting | .counted | .expiring | .expired | .asking | .asked _ | .sleeping _ | .recording _ => 1
  | _ => 0

/-- A call does not exceed its quota, and returns in the second it is counted in. -/
def SecondRoom (s : State) (c : Call) : Prop :=
  match c.phase with
  | .asked quota => c.count ≤ quota.getD (defaultQuota c.role s.perSecond)
  | .recorded _ => c.secondKey = second s.clock
  | _ => True

/-- A call that passes the daily check leaves room for the calls that have passed it. -/
def DayRoom (s : State) (c : Call) : Prop :=
  match c.phase with
  | .read daily => daily.any (s.dailyLimit ≤ ·) = false →
      s.dailyCount (date s.clock) + tally uncounted s.calls < s.dailyLimit
  | _ => True

/-- A call returns on the day it is counted on. -/
def SameDay (s : State) (c : Call) : Prop :=
  match c.phase with
  | .recorded key => key = date s.clock
  | _ => True

instance (s : State) (c : Call) : Decidable (SecondRoom s c) := by
  unfold SecondRoom
  cases c.phase <;> infer_instance

instance (s : State) (c : Call) : Decidable (DayRoom s c) := by
  unfold DayRoom
  cases c.phase <;> infer_instance

instance (s : State) (c : Call) : Decidable (SameDay s c) := by
  unfold SameDay
  cases c.phase <;> infer_instance

/-- Calls go on only within their quotas. -/
def WithinQuotas (s : State) : Event → Prop
  | .resume i => ∀ c ∈ s.calls[i]?, SecondRoom s c ∧ DayRoom s c ∧ SameDay s c
  | _ => True

instance (s : State) (e : Event) : Decidable (WithinQuotas s e) := by
  cases e <;> unfold WithinQuotas <;> infer_instance

/-- Counted in the given second, within the quota. -/
def countedIn (role : String) (k : ℤ) (quota : ℕ) (c : Call) : ℕ :=
  if c.role = role ∧ c.secondKey = k ∧ 1 ≤ c.count ∧ c.count ≤ quota then 1 else 0

theorem second_mono {a b : ℚ} (h : a ≤ b) : second a ≤ second b := Int.floor_le_floor h

theorem date_mono {a b : ℚ} (h : a ≤ b) : date a ≤ date b := by
  apply Int.floor_le_floor
  gcongr

/-- A counter whose deadline lies ahead is live. -/
theorem live_eq {now : ℚ} {c : Option Counter} (h : ∀ d ∈ c, ∀ t ∈ d.expireAt, now < t) :
    live now c = c := by
  cases c with
  | none => rfl
  | some d =>
    have hahead : d.expireAt.all (now < ·) = true := by
      rw [Option.all_eq_true]
      intro t ht
      exact decide_eq_true (h d rfl t ht)
    simp [live, hahead]

/-- Deadlines that grow with their keys, after one key has been set. -/
theorem update_deadline {table : ℤ → Option Counter} {deadline : ℤ → ℚ} {k : ℤ}
    {counter : Option Counter} (h : ∀ k c, table k = some c → ∀ t ∈ c.expireAt, deadline k ≤ t)
    (hdead : ∀ c ∈ counter, ∀ t ∈ c.expireAt, deadline k ≤ t) (l : ℤ) (c : Counter)
    (hc : Function.update table k counter l = some c) : ∀ t ∈ c.expireAt, deadline l ≤ t := by
  rw [Function.update_apply] at hc
  split at hc
  next hl =>
    subst hl
    exact hdead c hc
  next => exact h l c hc

section Seconds

/-- What is known of the second key and the number of a call at each of its awaits. -/
def Ticket (perSecond : ℕ) (q : String → ℕ) (now : ℚ) (c : Call) : Prop :=
  match c.phase with
  | .reading _ | .read _ | .refused => c.count = 0
  | .counting => c.count = 0 ∧ c.secondKey ≤ second now
  | .counted | .expiring | .expired | .asking => 1 ≤ c.count ∧ c.secondKey ≤ second now
  | .asked quota => 1 ≤ c.count ∧ c.secondKey ≤ second now ∧
      quota.getD (defaultQuota c.role perSecond) = q c.role
  | .sleeping _ => False
  | .recording _ | .recorded _ => 1 ≤ c.count ∧ c.secondKey ≤ second now ∧ c.count ≤ q c.role
  | .granted t => 1 ≤ c.count ∧ c.secondKey ≤ second now ∧ c.count ≤ q c.role ∧
      c.secondKey = second t
  | .failed => 1 ≤ c.count → c.secondKey ≤ second now

variable {q : String → ℕ}

theorem Ticket.stamped {perSecond : ℕ} {now : ℚ} {c : Call} (h : Ticket perSecond q now c)
    (hcount : 1 ≤ c.count) : c.secondKey ≤ second now := by
  unfold Ticket at h
  split at h
  · omega
  · omega
  · omega
  · exact h.2
  · exact h.2
  · exact h.2
  · exact h.2
  · exact h.2
  · exact h.2.1
  · exact h.elim
  · exact h.2.1
  · exact h.2.1
  · exact h.2.1
  · exact h hcount

theorem Ticket.later {perSecond : ℕ} {now later : ℚ} {c : Call} (h : Ticket perSecond q now c)
    (hle : now ≤ later) : Ticket perSecond q later c := by
  have hmono := second_mono hle
  unfold Ticket at h ⊢
  split at h
  · exact h
  · exact h
  · exact h
  · exact ⟨h.1, h.2.trans hmono⟩
  · exact ⟨h.1, h.2.trans hmono⟩
  · exact ⟨h.1, h.2.trans hmono⟩
  · exact ⟨h.1, h.2.trans hmono⟩
  · exact ⟨h.1, h.2.trans hmono⟩
  · exact ⟨h.1, h.2.1.trans hmono, h.2.2⟩
  · exact h
  · exact ⟨h.1, h.2.1.trans hmono, h.2.2⟩
  · exact ⟨h.1, h.2.1.trans hmono, h.2.2⟩
  · exact ⟨h.1, h.2.1.trans hmono, h.2.2⟩
  · exact fun hcount => (h hcount).trans hmono

/-- The numbers given out in the current second cover the calls let through in it. -/
structure SecondKept (q : String → ℕ) (s : State) : Prop where
  quota : ∀ role, s.quotaOf role = q role
  tickets : ∀ c ∈ s.calls, Ticket s.perSecond q s.clock c
  deadline : ∀ k c, s.redis.rate k = some c → ∀ t ∈ c.expireAt, (k : ℚ) + 2 ≤ t
  numbered : ∀ role, tally (countedIn role (second s.clock) (q role)) s.calls ≤ q role
  given : ∀ role, tally (countedIn role (second s.clock) (q role)) s.calls ≤
    s.rateCount (second s.clock)
  granted : ∀ role k, tally (letThroughIn role k) s.calls ≤ q role

/-- A key of the current second is not past its deadline. -/
theorem live_rate {rate : ℤ → Option Counter}
    (h : ∀ k c, rate k = some c → ∀ t ∈ c.expireAt, (k : ℚ) + 2 ≤ t) {now : ℚ} {k : ℤ}
    (hk : second now ≤ k) : live now (rate k) = rate k := by
  refine live_eq fun c hc t ht => ?_
  have hdead := h k c hc t ht
  have hfloor := Int.lt_floor_add_one now
  have hcast : ((second now : ℤ) : ℚ) ≤ k := Int.cast_le.mpr hk
  unfold second at hcast
  linarith

/-- A step of one call that counts nothing. -/
theorem SecondKept.put {s : State} {i : ℕ} {c d : Call} (h : SecondKept q s)
    (hc : s.calls[i]? = some c) (hticket : Ticket s.perSecond q s.clock d)
    (hcounted : ∀ role k, countedIn role k (q role) d ≤ countedIn role k (q role) c)
    (hthrough : ∀ role k, letThroughIn role k d ≤ letThroughIn role k c) :
    SecondKept q (s.put i d) := by
  have hnumber : ∀ role k, tally (countedIn role k (q role)) (s.put i d).calls ≤
      tally (countedIn role k (q role)) s.calls := by
    intro role k
    have htally := tally_set (w := countedIn role k (q role)) d hc
    have hle := hcounted role k
    simp only [State.put]
    omega
  refine ⟨h.quota, forall_set h.tickets hticket, h.deadline,
    fun role => (hnumber role _).trans (h.numbered role),
    fun role => (hnumber role _).trans (h.given role), fun role k => ?_⟩
  have htally := tally_set (w := letThroughIn role k) d hc
  have hle := hthrough role k
  have hold := h.granted role k
  simp only [State.put]
  omega

/-- A call that keeps its number and is not let through moves on. -/
theorem SecondKept.move {s : State} {i : ℕ} {c : Call} {phase : Phase} (h : SecondKept q s)
    (hc : s.calls[i]? = some c)
    (hticket : Ticket s.perSecond q s.clock c → Ticket s.perSecond q s.clock { c with phase })
    (hwaits : ∀ t, phase ≠ .granted t) : SecondKept q (s.put i { c with phase }) := by
  have hold := h.tickets c (List.mem_of_getElem? hc)
  refine h.put hc (hticket hold) (fun role k => le_rfl) fun role k => ?_
  unfold letThroughIn
  split
  next t hgranted => exact absurd hgranted (hwaits t)
  next => exact Nat.zero_le _

theorem setRate_deadline {s : State} {k : ℤ} {counter : Option Counter}
    (h : ∀ k c, s.redis.rate k = some c → ∀ t ∈ c.expireAt, (k : ℚ) + 2 ≤ t)
    (hdead : ∀ c ∈ counter, ∀ t ∈ c.expireAt, (k : ℚ) + 2 ≤ t) :
    ∀ l c, (s.setRate k counter).redis.rate l = some c → ∀ t ∈ c.expireAt, (l : ℚ) + 2 ≤ t :=
  update_deadline h hdead

/-- The value of a second key after it has been set. -/
theorem rateCount_setRate {s : State} {k : ℤ} {counter : Option Counter}
    (h : ∀ k c, s.redis.rate k = some c → ∀ t ∈ c.expireAt, (k : ℚ) + 2 ≤ t)
    (hdead : ∀ c ∈ counter, ∀ t ∈ c.expireAt, (k : ℚ) + 2 ≤ t) :
    (s.setRate k counter).rateCount (second s.clock) =
      if second s.clock = k then (counter.map Counter.value).getD 0
      else s.rateCount (second s.clock) := by
  simp only [State.rateCount, setRate_clock]
  rw [live_rate h le_rfl, live_rate (setRate_deadline h hdead) (le_refl (second s.clock))]
  simp only [State.setRate, Function.update_apply]
  split <;> rfl

theorem Ticket.key {perSecond : ℕ} {now : ℚ} {c : Call} (h : Ticket perSecond q now c)
    (hphase : c.phase = .counting ∨ c.phase = .expiring) : c.secondKey ≤ second now := by
  obtain hphase | hphase := hphase <;> simp only [Ticket, hphase] at h <;> exact h.2

theorem countedIn_later {s : State} (h : ∀ c ∈ s.calls, Ticket s.perSecond q s.clock c) {k : ℤ}
    (hk : second s.clock < k) (role : String) (quota : ℕ) :
    tally (countedIn role k quota) s.calls = 0 := by
  refine tally_eq_zero.mpr fun c hc => ?_
  unfold countedIn
  rw [if_neg]
  intro hcounted
  have hstamped := (h c hc).stamped hcounted.2.2.1
  omega

theorem SecondKept.tick {s : State} (h : SecondKept q s) (now : ℚ) :
    SecondKept q { s with clock := max s.clock now } := by
  have hlater : s.clock ≤ max s.clock now := le_max_left _ _
  have htickets : ∀ c ∈ s.calls, Ticket s.perSecond q (max s.clock now) c :=
    fun c hc => (h.tickets c hc).later hlater
  obtain hsame | hnext := (second_mono hlater).eq_or_lt
  · refine ⟨h.quota, htickets, h.deadline, fun role => ?_, fun role => ?_, h.granted⟩
    · rw [← hsame]
      exact h.numbered role
    · have hcount := h.given role
      simp only [State.rateCount] at hcount ⊢
      rw [← hsame]
      rw [live_rate h.deadline le_rfl] at hcount
      rwa [live_rate h.deadline hsame.ge]
  · refine ⟨h.quota, htickets, h.deadline, fun role => ?_, fun role => ?_, h.granted⟩
    · rw [countedIn_later h.tickets hnext]
      exact Nat.zero_le _
    · rw [countedIn_later h.tickets hnext]
      exact Nat.zero_le _

theorem incr_value (now : ℚ) (c : Option Counter) :
    (incr now c).value = ((live now c).map Counter.value).getD 0 + 1 := by
  unfold incr
  cases live now c <;> simp

theorem live_incr (now : ℚ) (c : Option Counter) : live now (some (incr now c)) = some (incr now c) := by
  unfold incr
  cases hlive : live now c with
  | none => rfl
  | some d =>
    have halive := (Option.filter_eq_some_iff.mp hlive).2
    simpa [live] using halive

theorem incr_expireAt {now t : ℚ} {c : Option Counter} (h : t ∈ (incr now c).expireAt) :
    ∃ d ∈ c, t ∈ d.expireAt := by
  unfold incr at h
  cases hlive : live now c with
  | none => simp [hlive] at h
  | some d =>
    rw [hlive] at h
    exact ⟨d, (Option.filter_eq_some_iff.mp hlive).1, h⟩

/-- The store gives a call the next number of its second. -/
theorem SecondKept.count {s : State} {i : ℕ} {c : Call} (h : SecondKept q s)
    (hc : s.calls[i]? = some c) (hphase : c.phase = .counting) :
    SecondKept q ((s.setRate c.secondKey (some (incr s.clock (s.redis.rate c.secondKey)))).put i
      { c with phase := .counted, count := (incr s.clock (s.redis.rate c.secondKey)).value }) := by
  have hticket := h.tickets c (List.mem_of_getElem? hc)
  have hkey : c.secondKey ≤ second s.clock := by
    simp only [Ticket, hphase] at hticket
    exact hticket.2
  have hdead : ∀ d ∈ some (incr s.clock (s.redis.rate c.secondKey)), ∀ t ∈ d.expireAt,
      (c.secondKey : ℚ) + 2 ≤ t := by
    intro d hd t ht
    obtain rfl := Option.some.inj hd
    obtain ⟨old, hold, hmem⟩ := incr_expireAt ht
    exact h.deadline _ old hold t hmem
  have hrate := rateCount_setRate h.deadline hdead
  have hvalue := incr_value s.clock (s.redis.rate c.secondKey)
  generalize hnew : (incr s.clock (s.redis.rate c.secondKey)).value = n at hvalue hrate
  have hnumber : ∀ role, tally (countedIn role (second s.clock) (q role))
      (s.calls.set i { c with phase := .counted, count := n }) ≤
      tally (countedIn role (second s.clock) (q role)) s.calls +
        if second s.clock = c.secondKey ∧ n ≤ q role then 1 else 0 := by
    intro role
    have htally := tally_set (w := countedIn role (second s.clock) (q role))
      { c with phase := .counted, count := n } hc
    have hweight : countedIn role (second s.clock) (q role)
        { c with phase := .counted, count := n } ≤
        if second s.clock = c.secondKey ∧ n ≤ q role then 1 else 0 := by
      unfold countedIn
      split
      next hin => rw [if_pos ⟨hin.2.1.symm, hin.2.2.2⟩]
      next => exact Nat.zero_le _
    omega
  have hcurrent : second s.clock = c.secondKey → n = s.rateCount (second s.clock) + 1 := by
    intro hsecond
    rw [hvalue, hsecond]
    rfl
  refine ⟨h.quota, forall_set h.tickets ?_, setRate_deadline h.deadline hdead, fun role => ?_,
    fun role => ?_, fun role k => ?_⟩
  · simp only [Ticket]
    exact ⟨by omega, hkey⟩
  · have hle := hnumber role
    have hold := h.numbered role
    have hgiven := h.given role
    simp only [put_calls, setRate_calls, put_clock, setRate_clock]
    split at hle
    next hin =>
      have hn := hcurrent hin.1
      omega
    next => omega
  · have hle := hnumber role
    have hgiven := h.given role
    have hcount : ((s.setRate c.secondKey (some (incr s.clock (s.redis.rate c.secondKey)))).put i
        { c with phase := .counted, count := n }).rateCount (second s.clock) =
        if second s.clock = c.secondKey then n else s.rateCount (second s.clock) := by
      simp only [Option.map_some, Option.getD_some, hnew] at hrate
      exact hrate
    simp only [put_calls, setRate_calls, put_clock, setRate_clock]
    rw [hcount]
    by_cases hsecond : second s.clock = c.secondKey
    · have hn := hcurrent hsecond
      rw [if_pos hsecond]
      split at hle <;> omega
    · rw [if_neg hsecond]
      simp only [hsecond, false_and, if_false] at hle
      omega
  · have htally := tally_set (w := letThroughIn role k) { c with phase := .counted, count := n } hc
    have hold := h.granted role k
    simp only [put_calls, setRate_calls]
    simp only [letThroughIn] at htally hold ⊢
    omega

/-- The store sets the deadline of a second key. -/
theorem SecondKept.expire {s : State} {k : ℤ} (h : SecondKept q s) (hkey : k ≤ second s.clock) :
    SecondKept q (s.setRate k (expire s.clock 2 (s.redis.rate k))) := by
  have hdead : ∀ c ∈ RedisLimiter.expire s.clock 2 (s.redis.rate k), ∀ t ∈ c.expireAt,
      (k : ℚ) + 2 ≤ t := by
    intro c hc t ht
    simp only [RedisLimiter.expire, Option.mem_map] at hc
    obtain ⟨old, -, rfl⟩ := hc
    obtain rfl := Option.some.inj ht
    have hfloor : (k : ℚ) ≤ s.clock := Int.le_floor.mp hkey
    linarith
  refine ⟨h.quota, h.tickets, setRate_deadline h.deadline hdead, h.numbered,
    fun role => (h.given role).trans ?_, h.granted⟩
  simp only [setRate_clock]
  rw [rateCount_setRate h.deadline hdead]
  split
  next hk =>
    subst hk
    simp [State.rateCount, RedisLimiter.expire, Function.comp_def]
  next => exact le_rfl

/-- A call that returns in the second it was counted in is covered by its number. -/
theorem SecondKept.grant {s : State} {i : ℕ} {c : Call} {key : ℤ} (h : SecondKept q s)
    (hc : s.calls[i]? = some c) (hphase : c.phase = .recorded key)
    (hsecond : c.secondKey = second s.clock) :
    SecondKept q (s.put i { c with phase := .granted s.clock }) := by
  have hticket := h.tickets c (List.mem_of_getElem? hc)
  simp only [Ticket, hphase] at hticket
  have hnumber : ∀ role, tally (countedIn role (second s.clock) (q role))
      (s.calls.set i { c with phase := .granted s.clock }) =
      tally (countedIn role (second s.clock) (q role)) s.calls := by
    intro role
    have htally := tally_set (w := countedIn role (second s.clock) (q role))
      { c with phase := .granted s.clock } hc
    exact Nat.add_right_cancel htally
  have htickets : ∀ d ∈ s.calls.set i { c with phase := .granted s.clock },
      Ticket s.perSecond q s.clock d := by
    refine forall_set h.tickets ?_
    simp only [Ticket]
    exact ⟨hticket.1, hticket.2.1, hticket.2.2, hsecond⟩
  refine ⟨h.quota, htickets, h.deadline, fun role => ?_, fun role => ?_, fun role k => ?_⟩
  · exact (hnumber role).trans_le (h.numbered role)
  · exact (hnumber role).trans_le (h.given role)
  · by_cases hk : k = second s.clock
    · subst hk
      refine le_trans (tally_le_tally fun d hd => ?_) ((hnumber role).trans_le (h.numbered role))
      have hdticket := htickets d hd
      unfold letThroughIn countedIn
      split
      next t hgranted =>
        simp only [Ticket, hgranted] at hdticket
        split
        next hin =>
          obtain ⟨hrole, ht⟩ := hin
          subst hrole
          rw [if_pos ⟨rfl, hdticket.2.2.2.trans ht, hdticket.1, hdticket.2.2.1⟩]
        next => exact Nat.zero_le _
      next => exact Nat.zero_le _
    · have htally := tally_set (w := letThroughIn role k) { c with phase := .granted s.clock } hc
      have hold := h.granted role k
      have hzero : letThroughIn role k { c with phase := .granted s.clock } = 0 := by
        simp [letThroughIn, Ne.symm hk]
      simp only [put_calls]
      omega

theorem SecondKept.arrive {s : State} (h : SecondKept q s) (p : ℕ) : SecondKept q (arrive p s) := by
  refine ⟨h.quota, ?_, h.deadline, fun role => ?_, fun role => ?_, fun role k => ?_⟩
  · intro c hc
    obtain hc | hc := List.mem_append.mp hc
    · exact h.tickets c hc
    · obtain rfl := List.mem_singleton.mp hc
      simp [Ticket]
  · simpa [RedisLimiter.arrive, countedIn] using h.numbered role
  · simpa [RedisLimiter.arrive, countedIn, State.rateCount] using h.given role
  · simpa [RedisLimiter.arrive, letThroughIn] using h.granted role k

theorem SecondKept.serve {s : State} (h : SecondKept q s) (i : ℕ) : SecondKept q (serve i s) := by
  have hserved := serve_served i s
  generalize RedisLimiter.serve i s = t at hserved ⊢
  cases hserved with
  | stay => exact h
  | read c key hc hphase => exact h.move hc (by simp [Ticket, hphase]) (by simp)
  | counted c hc hphase => exact h.count hc hphase
  | expired c hc hphase =>
    have hticket := h.tickets c (List.mem_of_getElem? hc)
    exact (h.expire (hticket.key (Or.inr hphase))).move hc (by simp [Ticket, hphase]) (by simp)
  | asked c hc hphase =>
    have hquota := h.quota c.role
    refine h.move hc (fun hticket => ?_) (by simp)
    simp only [Ticket, hphase] at hticket
    exact ⟨hticket.1, hticket.2, hquota⟩
  | recorded c key hc hphase =>
    have hset : SecondKept q (s.record key) :=
      ⟨h.quota, h.tickets, h.deadline, h.numbered, h.given, h.granted⟩
    exact hset.move hc (by simp [Ticket, hphase]) (by simp)

theorem SecondKept.resume {s : State} {i : ℕ} (h : SecondKept q s)
    (hcond : ∀ c ∈ s.calls[i]?, SecondRoom s c) : SecondKept q (resume i s) := by
  have hresumed := resume_resumed i s
  generalize RedisLimiter.resume i s = t at hresumed ⊢
  cases hresumed with
  | stay => exact h
  | refused c daily hc hphase => exact h.move hc (by simp [Ticket, hphase]) (by simp)
  | admitted c daily hc hphase _ =>
    have hticket := h.tickets c (List.mem_of_getElem? hc)
    simp only [Ticket, hphase] at hticket
    refine h.put hc ⟨hticket, le_rfl⟩ (fun _ _ => ?_) fun _ _ => Nat.zero_le _
    simp [countedIn, hticket]
  | counted c hc hphase =>
    by_cases hone : c.count = 1
    · rw [if_pos hone]
      exact h.move hc (by simp [Ticket, hphase]) (by simp)
    · rw [if_neg hone]
      exact h.move hc (by simp [Ticket, hphase]) (by simp)
  | expired c hc hphase => exact h.move hc (by simp [Ticket, hphase]) (by simp)
  | slept c quota hc hphase hover =>
    have hwithin := hcond c hc
    simp only [SecondRoom, hphase] at hwithin
    omega
  | within c quota hc hphase hwithin =>
    refine h.move hc (fun hticket => ?_) (by simp)
    simp only [Ticket, hphase] at hticket
    exact ⟨hticket.1, hticket.2.1, hwithin.trans hticket.2.2.le⟩
  | woken c wake hc hphase =>
    have hticket := h.tickets c (List.mem_of_getElem? hc)
    simp only [Ticket, hphase] at hticket
  | granted c key hc hphase =>
    have hreturn := hcond c hc
    simp only [SecondRoom, hphase] at hreturn
    exact h.grant hc hphase hreturn

theorem secondKept_step {s : State} {e : Event} (h : SecondKept q s) (hcond : WithinQuotas s e) :
    SecondKept q (step s e) := by
  cases e with
  | tick now => exact h.tick now
  | arrive p => exact h.arrive p
  | serve i => exact h.serve i
  | resume i => exact h.resume fun c hc => (hcond c hc).1
  | fail i =>
    simp only [step, fail]
    split
    · exact h
    next c hc =>
      split
      · exact h
      · exact h.move hc (fun hticket => hticket.stamped) (by simp)

end Seconds

section Days

/-- Counted on the given day. -/
def recordedOn (d : ℤ) (c : Call) : ℕ :=
  match c.phase with
  | .recorded key => if key = d then 1 else 0
  | .granted t => if date t = d then 1 else 0
  | _ => 0

theorem letThroughOn_le_recordedOn (d : ℤ) (c : Call) : letThroughOn d c ≤ recordedOn d c := by
  unfold letThroughOn recordedOn
  cases c.phase <;> simp

/-- No call uses the key of a day to come. -/
def DayTicket (today : ℤ) (c : Call) : Prop :=
  match c.phase with
  | .recording key | .recorded key => key ≤ today
  | .granted t => date t ≤ today
  | _ => True

theorem DayTicket.later {today later : ℤ} {c : Call} (h : DayTicket today c) (hle : today ≤ later) :
    DayTicket later c := by
  unfold DayTicket at h ⊢
  split at h
  · exact h.trans hle
  · exact h.trans hle
  · exact h.trans hle
  · trivial

/-- The counter of the day covers the calls counted on it. -/
structure DayCounted (s : State) : Prop where
  created : ∀ p, (s.processes p).lastDailyReset ≤ date s.clock
  tickets : ∀ c ∈ s.calls, DayTicket (date s.clock) c
  deadline : ∀ d c, s.redis.daily d = some c → ∀ t ∈ c.expireAt, ((d : ℚ) + 1) * 86400 ≤ t
  future : ∀ d, date s.clock < d → s.redis.daily d = none
  recorded : tally (recordedOn (date s.clock)) s.calls ≤ s.dailyCount (date s.clock)

/-- A key of the current day is not past its deadline. -/
theorem live_daily {daily : ℤ → Option Counter}
    (h : ∀ d c, daily d = some c → ∀ t ∈ c.expireAt, ((d : ℚ) + 1) * 86400 ≤ t) {now : ℚ} {d : ℤ}
    (hd : date now ≤ d) : live now (daily d) = daily d := by
  refine live_eq fun c hc t ht => ?_
  have hdead := h d c hc t ht
  have hfloor := Int.lt_floor_add_one (now / 86400)
  have hcast : ((date now : ℤ) : ℚ) ≤ d := Int.cast_le.mpr hd
  unfold date at hcast
  linarith

/-- A step of one call that counts nothing. -/
theorem DayCounted.put {s : State} {i : ℕ} {c d : Call} (h : DayCounted s)
    (hc : s.calls[i]? = some c) (hticket : DayTicket (date s.clock) d)
    (hrecorded : recordedOn (date s.clock) d ≤ recordedOn (date s.clock) c) :
    DayCounted (s.put i d) := by
  have hrecords := tally_set (w := recordedOn (date s.clock)) d hc
  have hold := h.recorded
  refine ⟨h.created, forall_set h.tickets hticket, h.deadline, h.future, ?_⟩
  change tally (recordedOn (date s.clock)) (s.calls.set i d) ≤ s.dailyCount (date s.clock)
  omega

theorem recordedOn_later {s : State} (h : ∀ c ∈ s.calls, DayTicket (date s.clock) c) {d : ℤ}
    (hd : date s.clock < d) : tally (recordedOn d) s.calls = 0 := by
  refine tally_eq_zero.mpr fun c hc => ?_
  have hticket := h c hc
  unfold DayTicket at hticket
  unfold recordedOn
  split
  next key hphase =>
    simp only [hphase] at hticket
    rw [if_neg (by omega)]
  next t hphase =>
    simp only [hphase] at hticket
    rw [if_neg (by omega)]
  next => rfl

/-- The counter of a day stands as long as the day, and starts at zero. -/
theorem DayCounted.dailyCount_tick {s : State} (h : DayCounted s) (now : ℚ) :
    State.dailyCount { s with clock := max s.clock now } (date (max s.clock now)) =
      if date (max s.clock now) = date s.clock then s.dailyCount (date s.clock) else 0 := by
  have hlater : date s.clock ≤ date (max s.clock now) := date_mono (le_max_left _ _)
  simp only [State.dailyCount]
  rw [live_daily h.deadline le_rfl, live_daily h.deadline le_rfl]
  split
  next hsame => rw [hsame]
  next hnext => rw [h.future _ (lt_of_le_of_ne hlater (Ne.symm hnext))]; rfl

theorem DayCounted.tick {s : State} (h : DayCounted s) (now : ℚ) :
    DayCounted { s with clock := max s.clock now } := by
  have hlater : date s.clock ≤ date (max s.clock now) := date_mono (le_max_left _ _)
  refine ⟨fun p => (h.created p).trans hlater, fun c hc => (h.tickets c hc).later hlater, h.deadline,
    fun d hd => h.future d (hlater.trans_lt hd), ?_⟩
  rw [h.dailyCount_tick now]
  split
  next hsame =>
    rw [hsame]
    exact h.recorded
  next hnext =>
    rw [recordedOn_later h.tickets (lt_of_le_of_ne hlater (Ne.symm hnext))]

theorem setDaily_deadline {s : State} {d : ℤ} {counter : Option Counter}
    (h : ∀ d c, s.redis.daily d = some c → ∀ t ∈ c.expireAt, ((d : ℚ) + 1) * 86400 ≤ t)
    (hdead : ∀ c ∈ counter, ∀ t ∈ c.expireAt, ((d : ℚ) + 1) * 86400 ≤ t) :
    ∀ e c, (s.setDaily d counter).redis.daily e = some c →
      ∀ t ∈ c.expireAt, ((e : ℚ) + 1) * 86400 ≤ t :=
  update_deadline h hdead

theorem record_deadline {s : State} {key : ℤ} (h : DayCounted s) (hkey : key ≤ date s.clock) :
    ∀ e c, (s.record key).redis.daily e = some c → ∀ t ∈ c.expireAt, ((e : ℚ) + 1) * 86400 ≤ t := by
  refine setDaily_deadline h.deadline fun d hd t ht => ?_
  simp only [expire, Option.mem_map] at hd
  obtain ⟨old, -, rfl⟩ := hd
  obtain rfl := Option.some.inj ht
  have hfloor : (key : ℚ) ≤ s.clock / 86400 := Int.le_floor.mp hkey
  linarith

theorem DayCounted.dailyCount_record {s : State} {key : ℤ} (h : DayCounted s)
    (hkey : key ≤ date s.clock) : (s.record key).dailyCount (date s.clock) =
      s.dailyCount (date s.clock) + if key = date s.clock then 1 else 0 := by
  change ((live s.clock ((s.record key).redis.daily (date s.clock))).map Counter.value).getD 0 = _
  rw [live_daily (record_deadline h hkey) le_rfl]
  simp only [State.record, State.setDaily, Function.update_apply]
  by_cases hd : key = date s.clock
  · subst hd
    simp [expire, live_incr, incr_value, State.dailyCount]
  · rw [if_neg (Ne.symm hd), if_neg hd, State.dailyCount, live_daily h.deadline le_rfl]
    rfl

theorem DayCounted.record {s : State} {i : ℕ} {c : Call} {key : ℤ} (h : DayCounted s)
    (hc : s.calls[i]? = some c) (hphase : c.phase = .recording key) :
    DayCounted ((s.record key).put i { c with phase := .recorded key }) := by
  have hkey : key ≤ date s.clock := by
    have hticket := h.tickets c (List.mem_of_getElem? hc)
    simpa only [DayTicket, hphase] using hticket
  have hcount := h.dailyCount_record hkey
  have hrecords := tally_set (w := recordedOn (date s.clock)) { c with phase := .recorded key } hc
  rw [show recordedOn (date s.clock) c = 0 by simp [recordedOn, hphase],
    show recordedOn (date s.clock) { c with phase := .recorded key } =
      if key = date s.clock then 1 else 0 from rfl] at hrecords
  have hold := h.recorded
  refine ⟨h.created, forall_set h.tickets hkey, record_deadline h hkey, fun d hd => ?_, ?_⟩
  · have hne : d ≠ key := by
      intro heq
      subst heq
      exact absurd hd (not_lt.mpr hkey)
    simp only [State.put, State.record, State.setDaily, Function.update_of_ne hne] at hd ⊢
    exact h.future d hd
  · refine le_trans ?_ hcount.ge
    change tally (recordedOn (date s.clock)) (s.calls.set i { c with phase := .recorded key }) ≤ _
    omega

theorem DayCounted.grant {s : State} {i : ℕ} {c : Call} {key : ℤ} (h : DayCounted s)
    (hc : s.calls[i]? = some c) (hphase : c.phase = .recorded key) (hkey : key = date s.clock) :
    DayCounted (s.put i { c with phase := .granted s.clock }) := by
  refine h.put hc (le_refl (date s.clock)) ?_
  subst hkey
  simp [recordedOn, hphase]

theorem DayCounted.arrive {s : State} (h : DayCounted s) (p : ℕ) : DayCounted (arrive p s) := by
  refine ⟨fun r => ?_, fun c hc => ?_, h.deadline, h.future, ?_⟩
  · simp only [RedisLimiter.arrive, Function.update_apply]
    split
    · unfold RedisRateLimiter.checkDailyKey
      split
      · exact le_rfl
      · exact h.created p
    · exact h.created r
  · obtain hc | hc := List.mem_append.mp hc
    · exact h.tickets c hc
    · obtain rfl := List.mem_singleton.mp hc
      trivial
  · simpa [RedisLimiter.arrive, recordedOn, State.dailyCount] using h.recorded

theorem dayCounted_serve {s : State} (h : DayCounted s) (i : ℕ) : DayCounted (serve i s) := by
  have hserved := serve_served i s
  generalize serve i s = t at hserved ⊢
  cases hserved with
  | stay => exact h
  | read c key hc _ => exact h.put hc trivial (Nat.zero_le _)
  | counted c hc _ =>
    have hset : DayCounted (s.setRate c.secondKey (some (incr s.clock (s.redis.rate c.secondKey)))) :=
      ⟨h.created, h.tickets, h.deadline, h.future, h.recorded⟩
    exact hset.put hc trivial (Nat.zero_le _)
  | expired c hc _ =>
    have hset : DayCounted (s.setRate c.secondKey (expire s.clock 2 (s.redis.rate c.secondKey))) :=
      ⟨h.created, h.tickets, h.deadline, h.future, h.recorded⟩
    exact hset.put hc trivial (Nat.zero_le _)
  | asked c hc _ => exact h.put hc trivial (Nat.zero_le _)
  | recorded c key hc hphase => exact h.record hc hphase

theorem dayCounted_resume {s : State} {i : ℕ} (h : DayCounted s)
    (hcond : ∀ c ∈ s.calls[i]?, SameDay s c) : DayCounted (resume i s) := by
  have hresumed := resume_resumed i s
  generalize resume i s = t at hresumed ⊢
  cases hresumed with
  | stay => exact h
  | refused c daily hc _ => exact h.put hc trivial (Nat.zero_le _)
  | admitted c daily hc _ _ => exact h.put hc trivial (Nat.zero_le _)
  | counted c hc _ =>
    split
    · exact h.put hc trivial (Nat.zero_le _)
    · exact h.put hc trivial (Nat.zero_le _)
  | expired c hc _ => exact h.put hc trivial (Nat.zero_le _)
  | slept c quota hc _ _ => exact h.put hc trivial (Nat.zero_le _)
  | within c quota hc _ _ => exact h.put hc (h.created c.process) (Nat.zero_le _)
  | woken c wake hc _ => exact h.put hc (h.created c.process) (Nat.zero_le _)
  | granted c key hc hphase =>
    have hreturn := hcond c hc
    simp only [SameDay, hphase] at hreturn
    exact h.grant hc hphase hreturn

/-- The limit covers the counter of the day and the calls past the check. -/
structure DayKept (limit : ℕ) (s : State) : Prop where
  counted : DayCounted s
  dailyLimit : s.dailyLimit = limit
  room : s.dailyCount (date s.clock) + tally uncounted s.calls ≤ limit
  granted : ∀ d, tally (letThroughOn d) s.calls ≤ limit

variable {limit : ℕ}

theorem DayKept.room_set {s : State} {i : ℕ} {c d : Call} (h : DayKept limit s)
    (hc : s.calls[i]? = some c) (hle : uncounted d ≤ uncounted c) :
    s.dailyCount (date s.clock) + tally uncounted (s.calls.set i d) ≤ limit := by
  have hflights := tally_set (w := uncounted) d hc
  have hroom := h.room
  omega

theorem DayKept.granted_set {s : State} {i : ℕ} {c d : Call} (h : DayKept limit s)
    (hc : s.calls[i]? = some c) (hzero : ∀ e, letThroughOn e d = 0) (e : ℤ) :
    tally (letThroughOn e) (s.calls.set i d) ≤ limit := by
  have hthroughs := tally_set (w := letThroughOn e) d hc
  have hgranted := h.granted e
  have hd := hzero e
  omega

/-- A step of one call that gives out nothing. -/
theorem DayKept.put {s : State} {i : ℕ} {c d : Call} (h : DayKept limit s)
    (hcounted : DayCounted (s.put i d)) (hc : s.calls[i]? = some c)
    (hflight : uncounted d ≤ uncounted c) (hzero : ∀ e, letThroughOn e d = 0) :
    DayKept limit (s.put i d) :=
  ⟨hcounted, h.dailyLimit, h.room_set hc hflight, h.granted_set hc hzero⟩

theorem DayKept.tick {s : State} (h : DayKept limit s) (now : ℚ) :
    DayKept limit { s with clock := max s.clock now } := by
  refine ⟨h.counted.tick now, h.dailyLimit, ?_, h.granted⟩
  have hroom := h.room
  rw [h.counted.dailyCount_tick now]
  split <;> simp only <;> omega

/-- A call that is counted frees the room it took. -/
theorem DayKept.record {s : State} {i : ℕ} {c : Call} {key : ℤ} (h : DayKept limit s)
    (hc : s.calls[i]? = some c) (hphase : c.phase = .recording key) :
    DayKept limit ((s.record key).put i { c with phase := .recorded key }) := by
  have hkey : key ≤ date s.clock := by
    have hticket := h.counted.tickets c (List.mem_of_getElem? hc)
    simpa only [DayTicket, hphase] using hticket
  have hcount := h.counted.dailyCount_record hkey
  have hflights := tally_set (w := uncounted) { c with phase := .recorded key } hc
  rw [show uncounted c = 1 by simp [uncounted, hphase],
    show uncounted { c with phase := .recorded key } = 0 from rfl] at hflights
  have hroom := h.room
  refine ⟨h.counted.record hc hphase, h.dailyLimit, ?_, h.granted_set hc fun _ => rfl⟩
  refine le_trans (Nat.add_le_add_right hcount.le _) ?_
  have hle : (if key = date s.clock then 1 else 0) ≤ 1 := by split <;> omega
  change _ + tally uncounted (s.calls.set i { c with phase := .recorded key }) ≤ limit
  omega

/-- A call that passes the daily check takes up room. -/
theorem DayKept.admit {s : State} {i : ℕ} {c : Call} (h : DayKept limit s)
    (hc : s.calls[i]? = some c)
    (hroom : s.dailyCount (date s.clock) + tally uncounted s.calls < s.dailyLimit) :
    DayKept limit (s.put i { c with phase := .counting, secondKey := second s.clock }) := by
  generalize hd : ({ c with phase := .counting, secondKey := second s.clock } : Call) = d
  have hcounting : d.phase = .counting := by rw [← hd]
  have hflights := tally_set (w := uncounted) d hc
  rw [show uncounted d = 1 by simp [uncounted, hcounting]] at hflights
  rw [h.dailyLimit] at hroom
  refine ⟨h.counted.put hc ?_ ?_, h.dailyLimit, ?_, h.granted_set hc fun e => ?_⟩
  · simp [DayTicket, hcounting]
  · simp [recordedOn, hcounting]
  · change s.dailyCount (date s.clock) + tally uncounted (s.calls.set i d) ≤ limit
    omega
  · simp [letThroughOn, hcounting]

/-- A call that returns on the day of its key is covered by the counter of the day. -/
theorem DayKept.grant {s : State} {i : ℕ} {c : Call} {key : ℤ} (h : DayKept limit s)
    (hc : s.calls[i]? = some c) (hphase : c.phase = .recorded key) (hkey : key = date s.clock) :
    DayKept limit (s.put i { c with phase := .granted s.clock }) := by
  have hcounted := h.counted.grant hc hphase hkey
  refine ⟨hcounted, h.dailyLimit, h.room_set hc (Nat.zero_le _), fun e => ?_⟩
  by_cases he : date s.clock = e
  · subst he
    have hroom := h.room
    have hrecorded := hcounted.recorded
    have hle := tally_le_tally fun d (_ : d ∈ (s.put i { c with phase := .granted s.clock }).calls) =>
      letThroughOn_le_recordedOn (date s.clock) d
    change _ ≤ s.dailyCount (date s.clock) at hrecorded
    simp only [put_clock] at hrecorded
    omega
  · have hthroughs := tally_set (w := letThroughOn e) { c with phase := .granted s.clock } hc
    have hgranted := h.granted e
    rw [show letThroughOn e { c with phase := .granted s.clock } = if date s.clock = e then 1 else 0
      from rfl, if_neg he] at hthroughs
    simp only [put_calls]
    omega

theorem DayKept.arrive {s : State} (h : DayKept limit s) (p : ℕ) : DayKept limit (arrive p s) := by
  refine ⟨h.counted.arrive p, h.dailyLimit, ?_, fun e => ?_⟩
  · simpa [RedisLimiter.arrive, uncounted, State.dailyCount] using h.room
  · simpa [RedisLimiter.arrive, letThroughOn] using h.granted e

theorem DayKept.serve {s : State} (h : DayKept limit s) (i : ℕ) : DayKept limit (serve i s) := by
  have hcounted := dayCounted_serve h.counted i
  have hserved := serve_served i s
  generalize RedisLimiter.serve i s = t at hserved hcounted ⊢
  cases hserved with
  | stay => exact h
  | read c key hc _ => exact h.put hcounted hc (Nat.zero_le _) fun _ => rfl
  | counted c hc hphase =>
    have hone : uncounted c = 1 := by simp [uncounted, hphase]
    exact ⟨hcounted, h.dailyLimit, h.room_set hc hone.ge, h.granted_set hc fun _ => rfl⟩
  | expired c hc hphase =>
    have hone : uncounted c = 1 := by simp [uncounted, hphase]
    exact ⟨hcounted, h.dailyLimit, h.room_set hc hone.ge, h.granted_set hc fun _ => rfl⟩
  | asked c hc hphase =>
    have hone : uncounted c = 1 := by simp [uncounted, hphase]
    exact h.put hcounted hc hone.ge fun _ => rfl
  | recorded c key hc hphase => exact h.record hc hphase

theorem DayKept.resume {s : State} {i : ℕ} (h : DayKept limit s)
    (hcond : ∀ c ∈ s.calls[i]?, DayRoom s c ∧ SameDay s c) : DayKept limit (resume i s) := by
  have hcounted := dayCounted_resume h.counted fun c hc => (hcond c hc).2
  have hresumed := resume_resumed i s
  generalize RedisLimiter.resume i s = t at hresumed hcounted ⊢
  cases hresumed with
  | stay => exact h
  | refused c daily hc _ => exact h.put hcounted hc (Nat.zero_le _) fun _ => rfl
  | admitted c daily hc hphase hpassed =>
    have hroom := (hcond c hc).1
    simp only [DayRoom, hphase] at hroom
    exact h.admit hc (hroom hpassed)
  | counted c hc hphase =>
    have hone : uncounted c = 1 := by simp [uncounted, hphase]
    by_cases hfirst : c.count = 1
    · rw [if_pos hfirst] at hcounted ⊢
      exact h.put hcounted hc hone.ge fun _ => rfl
    · rw [if_neg hfirst] at hcounted ⊢
      exact h.put hcounted hc hone.ge fun _ => rfl
  | expired c hc hphase =>
    have hone : uncounted c = 1 := by simp [uncounted, hphase]
    exact h.put hcounted hc hone.ge fun _ => rfl
  | slept c quota hc hphase _ =>
    have hone : uncounted c = 1 := by simp [uncounted, hphase]
    exact h.put hcounted hc hone.ge fun _ => rfl
  | within c quota hc hphase _ =>
    have hone : uncounted c = 1 := by simp [uncounted, hphase]
    exact h.put hcounted hc hone.ge fun _ => rfl
  | woken c wake hc hphase =>
    have hone : uncounted c = 1 := by simp [uncounted, hphase]
    exact h.put hcounted hc hone.ge fun _ => rfl
  | granted c key hc hphase =>
    have hreturn := (hcond c hc).2
    simp only [SameDay, hphase] at hreturn
    exact h.grant hc hphase hreturn

theorem dayKept_step {s : State} {e : Event} (h : DayKept limit s) (hcond : WithinQuotas s e) :
    DayKept limit (step s e) := by
  cases e with
  | tick now => exact h.tick now
  | arrive p => exact h.arrive p
  | serve i => exact h.serve i
  | resume i => exact h.resume fun c hc => (hcond c hc).2
  | fail i =>
    simp only [step, fail]
    split
    · exact h
    next c hc =>
      split
      · exact h
      · exact h.put (h.counted.put hc trivial (Nat.zero_le _)) hc (Nat.zero_le _) fun _ => rfl

end Days

/-- One screening process with a quota of one call per second. -/
def screeningOnly : State :=
  { redis := {}, perSecond := 5, dailyLimit := 10, processes := fun _ => ⟨"screener", 0⟩, clock := 100 }

/-- The steps of a call from its arrival to its daily increment. -/
def throughQuota (i : ℕ) : List Event := [.arrive 0, .serve i, .resume i, .serve i, .resume i]

def oneCall : List Event := throughQuota 0 ++
  [.serve 0, .resume 0, .serve 0, .resume 0, .serve 0, .resume 0]

/-- A second call exceeds the quota, sleeps a second, and returns beside a third one. -/
def sleeperRun : List Event := oneCall ++ throughQuota 1 ++
  [.serve 1, .resume 1, .tick 101] ++ throughQuota 2 ++
  [.serve 2, .resume 2, .serve 2, .resume 2, .serve 2, .resume 2, .resume 1, .serve 1, .resume 1]

end KisAutotrader.RedisLimiter.QuotaLimits
