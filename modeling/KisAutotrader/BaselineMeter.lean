import Mathlib

/-!
# Booking changes of an observed level against a saved baseline

The level moves on its own and is only seen through readings. A window saves
the level as a baseline and watches one direction. Booking the difference
between a fresh reading and the baseline closes the window. The books agree with
the level whenever no window is open, provided that the level moves only inside
a window and in its direction, and that a window is abandoned only unmoved.
-/
namespace KisAutotrader.BaselineMeter

inductive Direction where
  | up
  | down
  deriving DecidableEq, Repr

def Direction.sign : Direction → ℤ
  | .up => 1
  | .down => -1

structure Meter where
  level : ℤ
  booked : ℤ
  reading : Option ℤ
  window : Option (Direction × ℤ)

namespace Meter

/-- Books, baseline and readings are consistent with the level. -/
def Valid (m : Meter) : Prop :=
  match m.window with
  | none => m.booked = m.level ∧ ∀ r ∈ m.reading, r = m.level
  | some (d, base) => m.booked = base ∧ 0 ≤ d.sign * (m.level - base) ∧
      ∀ r ∈ m.reading, 0 ≤ d.sign * (r - base) ∧ d.sign * (r - base) ≤ d.sign * (m.level - base)

/-- The amount a reading shows in the watched direction. -/
def moved (d : Direction) (base reading : ℤ) : ℤ := d.sign * (reading - base)

def drift (m : Meter) (change : ℤ) : Meter := { m with level := m.level + change }
def observe (m : Meter) : Meter := { m with reading := some m.level }
def forget (m : Meter) : Meter := { m with reading := none }
def openWindow (m : Meter) (d : Direction) (base : ℤ) : Meter := { m with window := some (d, base) }
def book (m : Meter) (change : ℤ) : Meter := { m with booked := m.booked + change, window := none }
def abandon (m : Meter) : Meter := { m with window := none }

theorem Valid.booked_eq {m : Meter} (h : m.Valid) (hw : m.window = none) :
    m.booked = m.level := by
  simp only [Valid, hw] at h
  exact h.1

theorem Valid.reading_eq {m : Meter} (h : m.Valid) (hw : m.window = none) {r : ℤ}
    (hr : m.reading = some r) : r = m.level := by
  simp only [Valid, hw] at h
  exact h.2 r hr

theorem Valid.drift {m : Meter} (h : m.Valid) {d : Direction} {base change : ℤ}
    (hw : m.window = some (d, base)) (hc : 0 ≤ d.sign * change) : (m.drift change).Valid := by
  simp only [Valid, hw, Meter.drift] at h ⊢
  obtain ⟨hb, hl, hr⟩ := h
  refine ⟨hb, by linarith, fun r hmem => ?_⟩
  obtain ⟨h0, h1⟩ := hr r hmem
  exact ⟨h0, by linarith⟩

theorem Valid.observe {m : Meter} (h : m.Valid) : m.observe.Valid := by
  unfold Valid Meter.observe at *
  cases hw : m.window with
  | none =>
    simp only [hw] at h ⊢
    exact ⟨h.1, by simp⟩
  | some w =>
    simp only [hw] at h ⊢
    exact ⟨h.1, h.2.1, by simpa using h.2.1⟩

theorem Valid.forget {m : Meter} (h : m.Valid) : m.forget.Valid := by
  unfold Valid Meter.forget at *
  cases hw : m.window with
  | none =>
    simp only [hw] at h ⊢
    exact ⟨h.1, by simp⟩
  | some w =>
    simp only [hw] at h ⊢
    exact ⟨h.1, h.2.1, by simp⟩

/-- A window may be opened on a baseline that is the level itself. -/
theorem Valid.openWindow {m : Meter} (h : m.Valid) (hw : m.window = none) (d : Direction)
    {base : ℤ} (hb : base = m.level) : (m.openWindow d base).Valid := by
  simp only [Valid, hw] at h
  simp only [Valid, Meter.openWindow, hb]
  refine ⟨h.1, by simp, fun r hr => ?_⟩
  rw [h.2 r hr]
  simp

/-- Booking the difference that a fresh reading shows closes the window in balance. -/
theorem Valid.book {m : Meter} (h : m.Valid) {d : Direction} {base : ℤ}
    (hw : m.window = some (d, base)) (hr : m.reading = some m.level) :
    (m.book (m.level - base)).Valid := by
  simp only [Valid, hw] at h
  simp only [Valid, Meter.book, h.1, hr]
  exact ⟨by ring, by simp⟩

/-- An unmoved window may be given up. -/
theorem Valid.abandon {m : Meter} (h : m.Valid) {d : Direction} {base : ℤ}
    (hw : m.window = some (d, base)) (hl : m.level = base) : m.abandon.Valid := by
  simp only [Valid, hw, hl] at h
  simp only [Valid, Meter.abandon, hl]
  refine ⟨h.1, fun r hr => ?_⟩
  obtain ⟨h0, h1⟩ := h.2.2 r hr
  cases d <;> simp [Direction.sign] at h0 h1 <;> omega

end Meter

end KisAutotrader.BaselineMeter
