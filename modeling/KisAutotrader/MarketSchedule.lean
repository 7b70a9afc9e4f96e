import KisAutotrader.LocalDay

/-!
# The days on which the jobs run

The scheduler fires in the market's zone, on weekdays. The registration of the trading cycles
looks up the holidays of the market's date; the other jobs look up those of the server's date.
-/
namespace KisAutotrader.MarketSchedule
open LocalDay TimeZone

/-- Hour and minute. -/
abbrev Clock := ℤ × ℤ

structure MarketHours where
  preMarket : Clock
  register : Clock
  marketOpen : Clock
  marketClose : Clock
  postMarket : Clock
  summary : Clock

def krxTradingHours : MarketHours where
  preMarket := (8, 30)
  register := (8, 55)
  marketOpen := (9, 0)
  marketClose := (15, 20)
  postMarket := (15, 40)
  summary := (16, 0)

def usTradingHours : MarketHours where
  preMarket := (9, 0)
  register := (9, 25)
  marketOpen := (9, 30)
  marketClose := (15, 50)
  postMarket := (16, 10)
  summary := (16, 30)

inductive Job where
  | preMarketJob
  | startTradingJob
  | postMarketJob
  | summarizeDailyJob

/-- The scheduler of one market on one server. -/
structure TradingScheduler where
  /-- the zone of `date.today()` -/
  server : TimeZone
  /-- the zone of the market and of the scheduler -/
  tz : TimeZone
  hours : MarketHours
  holidays : ℤ → Bool

def isMarketClosed (holidays : ℤ → Bool) (d : ℤ) : Bool := 4 < weekday d || holidays d

def sinceMidnight (c : Clock) : ℤ := c.1 * hour + c.2 * 60000000

namespace TradingScheduler

def clockOf (s : TradingScheduler) : Job → Clock
  | .preMarketJob => s.hours.preMarket
  | .startTradingJob => s.hours.register
  | .postMarketJob => s.hours.postMarket
  | .summarizeDailyJob => s.hours.summary

/-- `datetime.combine`, read in the scheduler's zone. -/
def combine (s : TradingScheduler) (d : ℤ) (c : Clock) : ℤ := s.tz.instant (d * dayLength + sinceMidnight c)

/-- The `mon-fri` trigger of a job. -/
def firing (s : TradingScheduler) (job : Job) (d : ℤ) : Option ℤ :=
  if weekday d ≤ 4 then some (s.combine d (s.clockOf job)) else none

/-- The date whose holidays a job looks up. -/
def checkedDate (s : TradingScheduler) (job : Job) (now : ℤ) : ℤ :=
  match job with
  | .startTradingJob => s.tz.date now
  | _ => s.server.date now

/-- A job of a day does its work: it is fired and finds the market open. -/
def works (s : TradingScheduler) (job : Job) (d : ℤ) : Bool :=
  (s.firing job d).any fun now => !isMarketClosed s.holidays (s.checkedDate job now)

/-- The firings of the interval trigger that a registration at `now` leaves. -/
def cycles (s : TradingScheduler) (interval : ℕ) (now : ℤ) : List ℤ :=
  ((List.range (((s.combine (s.tz.date now) s.hours.marketClose -
      s.combine (s.tz.date now) s.hours.marketOpen) / interval).toNat + 1)).map fun k =>
    s.combine (s.tz.date now) s.hours.marketOpen + (k : ℕ) * (interval : ℤ)).filter fun t =>
      now ≤ t && t ≤ s.combine (s.tz.date now) s.hours.marketClose

/-- `_start_trading_job`. -/
def startTradingJob (s : TradingScheduler) (interval : ℕ) (now : ℤ) : List ℤ :=
  if isMarketClosed s.holidays (s.tz.date now) then [] else s.cycles interval now

/-- What `_register_jobs` registers at once. -/
def registerJobs (s : TradingScheduler) (interval : ℕ) (now : ℤ) : List ℤ :=
  if isMarketClosed s.holidays (s.tz.date now) = false ∧
      now < s.combine (s.tz.date now) s.hours.marketClose then
    s.startTradingJob interval now
  else []

/-- A trading cycle is due in a process that starts at `start`. -/
def Due (s : TradingScheduler) (interval : ℕ) (start t : ℤ) : Prop :=
  t ∈ s.registerJobs interval start ∨
    ∃ d now, s.firing .startTradingJob d = some now ∧ start ≤ now ∧ t ∈ s.startTradingJob interval now

end TradingScheduler

/-! ### Zones -/

/-- From three o'clock on a day has no shift of the clock. -/
structure Daytime (tz : TimeZone) : Prop where
  regular : tz.Regular
  sameDay : ∀ d c, 3 * hour ≤ c → c < dayLength → tz.date (tz.instant (d * dayLength + c)) = d
  steady : ∀ d c c', 3 * hour ≤ c → c ≤ c' → c' < dayLength →
    tz.instant (d * dayLength + c') = tz.instant (d * dayLength + c) + (c' - c)

/-- Four or five hours behind UTC. -/
structure Eastern (tz : TimeZone) : Prop extends Daytime tz where
  offset : ∀ w, tz.instant w = w + 4 * hour ∨ tz.instant w = w + 5 * hour

theorem seoul_daytime : Daytime seoul := by
  refine ⟨fixed_regular _, ?_, ?_⟩
  · intro d c hlow hhigh
    simp only [seoul, TimeZone.date, fixed, dayLength, hour] at *
    omega
  · intro d c c' hlow hle hhigh
    simp only [seoul, fixed, dayLength, hour] at *
    omega

theorem newYork_eastern : Eastern newYork := by
  refine ⟨⟨newYork_regular, ?_, ?_⟩, ?_⟩
  · intro d c hlow hhigh
    simp only [newYork, TimeZone.date, summerTime, dayLength, hour] at *
    split_ifs <;> omega
  · intro d c c' hlow hle hhigh
    simp only [newYork, summerTime, dayLength, hour] at *
    split_ifs <;> omega
  · intro w
    simp only [newYork, summerTime, dayLength, hour]
    split_ifs <;> omega

/-! ### The trading cycles -/

/-- The registration comes before the session, both in the daytime. -/
structure MarketHours.InOrder (hours : MarketHours) : Prop where
  early : 3 * hour ≤ sinceMidnight hours.register
  opens : sinceMidnight hours.register ≤ sinceMidnight hours.marketOpen
  closes : sinceMidnight hours.marketOpen < sinceMidnight hours.marketClose
  late : sinceMidnight hours.marketClose < dayLength

namespace TradingScheduler
variable {s : TradingScheduler} {interval : ℕ} {d t start : ℤ}

/-- The market is open on a day. -/
def Open (s : TradingScheduler) (d : ℤ) : Prop := isMarketClosed s.holidays d = false

theorem Open.weekday (h : s.Open d) : weekday d ≤ 4 := by
  simp only [Open, isMarketClosed, Bool.or_eq_false_iff, decide_eq_false_iff_not] at h
  omega

theorem mem_cycles (hpos : 0 < interval) {now : ℤ} :
    t ∈ s.cycles interval now ↔ now ≤ t ∧ t ≤ s.combine (s.tz.date now) s.hours.marketClose ∧
      ∃ k : ℕ, t = s.combine (s.tz.date now) s.hours.marketOpen + k * interval := by
  simp only [cycles, List.mem_filter, List.mem_map, List.mem_range, Bool.and_eq_true, decide_eq_true_eq]
  constructor
  · rintro ⟨⟨k, -, rfl⟩, hnow, hclose⟩
    exact ⟨hnow, hclose, k, rfl⟩
  · rintro ⟨hnow, hclose, k, rfl⟩
    refine ⟨⟨k, ?_, rfl⟩, hnow, hclose⟩
    have hk : (k : ℤ) ≤ (s.combine (s.tz.date now) s.hours.marketClose -
        s.combine (s.tz.date now) s.hours.marketOpen) / interval := by
      apply (Int.le_ediv_iff_mul_le (by exact_mod_cast hpos)).mpr
      omega
    omega

section Session
variable (h : Daytime s.tz) (horder : s.hours.InOrder)
include h horder

theorem date_register : s.tz.date (s.combine d s.hours.register) = d := by
  have hopens := horder.opens
  have hcloses := horder.closes
  have hlate := horder.late
  exact h.sameDay d _ horder.early (by omega)

theorem register_lt_close : s.combine d s.hours.register < s.combine d s.hours.marketClose := by
  have hopens := horder.opens
  have hcloses := horder.closes
  have hsteady := h.steady d _ (sinceMidnight s.hours.marketClose) horder.early (by omega) horder.late
  unfold combine
  omega

theorem register_le_open : s.combine d s.hours.register ≤ s.combine d s.hours.marketOpen := by
  have hopens := horder.opens
  have hcloses := horder.closes
  have hlate := horder.late
  have hsteady := h.steady d _ _ horder.early hopens (by omega)
  unfold combine
  omega

/-- An instant between the registration and the close lies on the day. -/
theorem date_between (hreg : s.combine d s.hours.register ≤ t) (hclose : t ≤ s.combine d s.hours.marketClose) :
    s.tz.date t = d := by
  have hfirst := (h.regular.date_iff d _).mp (date_register h horder)
  have hearly := horder.early
  have hopens := horder.opens
  have hcloses := horder.closes
  have hlast := (h.regular.date_iff d _).mp
    (h.sameDay d (sinceMidnight s.hours.marketClose) (by omega) horder.late)
  exact (h.regular.date_iff d t).mpr ⟨hfirst.1.trans hreg, hclose.trans_lt hlast.2⟩

/-- A point of an open day's session that ends after the start. -/
def Session (s : TradingScheduler) (interval : ℕ) (start t : ℤ) : Prop :=
  ∃ d, s.Open d ∧ start < s.combine d s.hours.marketClose ∧ t ≤ s.combine d s.hours.marketClose ∧
    ∃ k : ℕ, t = s.combine d s.hours.marketOpen + k * interval

/-- The cycles that are due are the points of the open days' sessions from the start on: a
restart neither moves nor adds nor drops one, save the last of a session at its very end. -/
theorem due_iff (hpos : 0 < interval) :
    s.Due interval start t ↔ start ≤ t ∧ s.Session interval start t := by
  constructor
  · rintro (hnow | ⟨d, now, hfire, hstart, hlater⟩)
    · rw [registerJobs] at hnow
      split_ifs at hnow with hopen
      · rw [startTradingJob, if_neg (by simp [hopen.1]), mem_cycles hpos] at hnow
        exact ⟨hnow.1, _, hopen.1, hopen.2, hnow.2⟩
      · cases hnow
    · rw [firing] at hfire
      split_ifs at hfire with hweek
      obtain rfl : s.combine d s.hours.register = now := Option.some.inj hfire
      rw [startTradingJob, date_register h horder] at hlater
      split_ifs at hlater with hclosed
      · cases hlater
      · rw [mem_cycles hpos, date_register h horder] at hlater
        have hopen : s.Open d := by simpa [Open] using hclosed
        exact ⟨hstart.trans hlater.1, d, hopen, hstart.trans_lt (register_lt_close h horder), hlater.2⟩
  · rintro ⟨hstart, d, hopen, hbefore, hclose, k, rfl⟩
    have hclosed : isMarketClosed s.holidays d = false := hopen
    by_cases hreg : start ≤ s.combine d s.hours.register
    · -- the day's own registration is still to come
      refine .inr ⟨d, s.combine d s.hours.register, if_pos hopen.weekday, hreg, ?_⟩
      rw [startTradingJob, date_register h horder, if_neg (by simp [hclosed]), mem_cycles hpos,
        date_register h horder]
      have hfirst := register_le_open h horder (d := d)
      have hlater := Int.mul_nonneg (Int.natCast_nonneg k) (Int.natCast_nonneg interval)
      exact ⟨by omega, hclose, k, rfl⟩
    · have hdate : s.tz.date start = d := date_between h horder (by omega) (by omega)
      refine .inl ?_
      rw [registerJobs, hdate, if_pos ⟨hclosed, hbefore⟩, startTradingJob, hdate, if_neg (by simp [hclosed]),
        mem_cycles hpos, hdate]
      exact ⟨hstart, hclose, k, rfl⟩

end Session
end TradingScheduler

/-! ### The two markets on a server in Seoul -/

def krx (holidays : ℤ → Bool) : TradingScheduler where
  server := seoul
  tz := seoul
  hours := krxTradingHours
  holidays := holidays

def us (tz : TimeZone) (holidays : ℤ → Bool) : TradingScheduler where
  server := seoul
  tz := tz
  hours := usTradingHours
  holidays := holidays

variable {holidays : ℤ → Bool} {tz : TimeZone} {d : ℤ}

theorem krxTradingHours_inOrder : krxTradingHours.InOrder := by
  constructor <;> decide

theorem usTradingHours_inOrder : usTradingHours.InOrder := by
  constructor <;> decide

theorem works_iff {s : TradingScheduler} {job : Job} {checked : ℤ}
    (hchecked : s.checkedDate job (s.combine d (s.clockOf job)) = checked) :
    s.works job d = true ↔ weekday d ≤ 4 ∧ s.Open checked := by
  rw [TradingScheduler.works, TradingScheduler.firing]
  split_ifs with hweek
  · simp [hchecked, hweek, TradingScheduler.Open]
  · simp [hweek]

theorem works_krx (job : Job) : (krx holidays).works job d = true ↔ (krx holidays).Open d := by
  have hdate : ∀ c, 3 * hour ≤ sinceMidnight c → sinceMidnight c < dayLength →
      seoul.date ((krx holidays).combine d c) = d := fun c => seoul_daytime.sameDay d _
  have hchecked : (krx holidays).checkedDate job ((krx holidays).combine d ((krx holidays).clockOf job)) = d := by
    cases job with
    | preMarketJob => exact hdate krxTradingHours.preMarket (by decide) (by decide)
    | startTradingJob => exact hdate krxTradingHours.register (by decide) (by decide)
    | postMarketJob => exact hdate krxTradingHours.postMarket (by decide) (by decide)
    | summarizeDailyJob => exact hdate krxTradingHours.summary (by decide) (by decide)
  rw [works_iff hchecked, and_iff_right_iff_imp]
  exact TradingScheduler.Open.weekday

/-- The date in Seoul at a wall time in the east of America. -/
theorem seoul_date (h : Eastern tz) {c shift : ℤ} (hearly : shift * dayLength ≤ c + 13 * hour)
    (hlate : c + 14 * hour < (shift + 1) * dayLength) :
    seoul.date (tz.instant (d * dayLength + c)) = d + shift := by
  have hoffset := h.offset (d * dayLength + c)
  simp only [seoul, fixed, TimeZone.date, dayLength, hour] at *
  omega

/-- The days whose holidays the jobs of the American market look up. -/
def dayAhead : Job → ℤ
  | .preMarketJob | .startTradingJob => 0
  | .postMarketJob | .summarizeDailyJob => 1

theorem checkedDate_us (h : Eastern tz) (job : Job) :
    (us tz holidays).checkedDate job ((us tz holidays).combine d ((us tz holidays).clockOf job)) =
      d + dayAhead job := by
  cases job with
  | preMarketJob => exact seoul_date h (c := sinceMidnight usTradingHours.preMarket) (by decide) (by decide)
  | startTradingJob =>
    rw [dayAhead, add_zero]
    exact h.sameDay d (sinceMidnight usTradingHours.register) (by decide) (by decide)
  | postMarketJob => exact seoul_date h (c := sinceMidnight usTradingHours.postMarket) (by decide) (by decide)
  | summarizeDailyJob => exact seoul_date h (c := sinceMidnight usTradingHours.summary) (by decide) (by decide)

/-- January 1, 2026, a Thursday. -/
def newYearsDay (d : ℤ) : Bool := d = 20454

end KisAutotrader.MarketSchedule
