import Mathlib.Data.Int.Basic
import Mathlib.Tactic.Ring

/-!
# Calendar days of a time zone

A zone reads an instant as wall time and a wall time as an instant. Both are integers; a day
has the same number of wall-time units everywhere, and its number is what division leaves.
-/
namespace KisAutotrader.LocalDay

/-- Units of wall time in a day (microseconds). -/
def dayLength : ℤ := 86400000000

def hour : ℤ := 3600000000

/-- `date.weekday`: Monday is 0, and day 0 is a Thursday. -/
def weekday (d : ℤ) : ℤ := (d + 3) % 7

structure TimeZone where
  wall : ℤ → ℤ
  instant : ℤ → ℤ

namespace TimeZone

def date (zone : TimeZone) (t : ℤ) : ℤ := zone.wall t / dayLength

/-- The instant of the first wall time of day `d`. -/
def midnight (zone : TimeZone) (d : ℤ) : ℤ := zone.instant (d * dayLength)

/-- Every day is what lies between its midnight and the next one. The shifts of the clock
take place within a day or at its midnight, forward. -/
structure Regular (zone : TimeZone) : Prop where
  date_iff : ∀ d t, zone.date t = d ↔ zone.midnight d ≤ t ∧ t < zone.midnight (d + 1)
  advances : ∀ d, zone.midnight d < zone.midnight (d + 1)

/-- A zone without shifts. -/
def fixed (offset : ℤ) : TimeZone where
  wall t := t + offset
  instant w := w - offset

theorem fixed_regular (offset : ℤ) : (fixed offset).Regular := by
  constructor
  · intro d t
    simp only [date, midnight, fixed, dayLength]
    omega
  · intro d
    simp only [midnight, fixed, dayLength]
    omega

/-- One hour is skipped at the instant `spring` and repeated at `autumn`. A repeated wall time
means its first reading, a skipped one is read with the offset before the shift. -/
def summerTime (offset spring autumn : ℤ) : TimeZone where
  wall t := if spring ≤ t ∧ t < autumn then t + offset + hour else t + offset
  instant w :=
    if spring + offset + hour ≤ w ∧ w < autumn + offset + hour then w - offset - hour else w - offset

end TimeZone

/-- Two intervals with the same points are the same, if one has points. -/
theorem interval_unique {a b c d : ℤ} (hlt : a < b)
    (h : ∀ t, c ≤ t ∧ t < d ↔ a ≤ t ∧ t < b) : c = a ∧ d = b := by
  have hfirst := (h a).mpr ⟨le_rfl, hlt⟩
  have hlast := (h (b - 1)).mpr ⟨by omega, by omega⟩
  have hbefore := h (a - 1)
  have hafter := h b
  omega

section Days
variable {zone session : TimeZone} {d t : ℤ}

/-- The session's midnights delimit the zone's day exactly if they are the zone's midnights. -/
theorem same_day_iff (h : zone.Regular) :
    (∀ t, session.midnight d ≤ t ∧ t < session.midnight (d + 1) ↔ zone.date t = d) ↔
      session.midnight d = zone.midnight d ∧ session.midnight (d + 1) = zone.midnight (d + 1) := by
  constructor
  · intro hsame
    exact interval_unique (h.advances d) fun t => (hsame t).trans (h.date_iff d t)
  · rintro ⟨hstart, hend⟩ t
    rw [hstart, hend]
    exact (h.date_iff d t).symm

end Days

/-! ### Two zones of markets -/

def seoul : TimeZone := .fixed (9 * hour)

/-- New York in the year 2026: summer time from March 8, 07:00 UTC, to November 1, 06:00 UTC. -/
def newYork : TimeZone :=
  .summerTime (-5 * hour) (20520 * dayLength + 7 * hour) (20758 * dayLength + 6 * hour)

theorem newYork_regular : newYork.Regular := by
  constructor
  · intro d t
    simp only [newYork, TimeZone.date, TimeZone.midnight, TimeZone.summerTime, dayLength, hour]
    split_ifs <;> omega
  · intro d
    simp only [newYork, TimeZone.midnight, TimeZone.summerTime, dayLength, hour]
    split_ifs <;> omega

end KisAutotrader.LocalDay
