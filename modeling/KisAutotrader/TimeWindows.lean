import Mathlib.Algebra.Order.Field.Basic
import Mathlib.Data.List.Induction
import KisAutotrader.History

/-!
# Metered events

A record of times is metered when, at each entry, the entries since any earlier
moment fit the budget of the time passed since then. Every window then fits the
budget of its length.
-/
namespace KisAutotrader.TimeWindows
open History

section Counting

variable {K : Type} [LinearOrder K]

/-- The entries from `a` on. -/
def countFrom (a : K) (times : List K) : ℕ := times.countP (a ≤ ·)

/-- The entries from `a` up to `b`. -/
def countWithin (a b : K) (times : List K) : ℕ := times.countP fun t => a ≤ t ∧ t ≤ b

theorem countFrom_snoc (a t : K) (times : List K) :
    countFrom a (times ++ [t]) = countFrom a times + if a ≤ t then 1 else 0 := by
  simp [countFrom]

theorem countWithin_snoc (a b t : K) (times : List K) :
    countWithin a b (times ++ [t]) = countWithin a b times + if a ≤ t ∧ t ≤ b then 1 else 0 := by
  simp [countWithin]

theorem countFrom_eq_zero {a : K} {times : List K} (h : ∀ t ∈ times, t < a) :
    countFrom a times = 0 := by
  simpa [countFrom, List.countP_eq_zero] using h

theorem countWithin_le_countFrom (a b : K) (times : List K) :
    countWithin a b times ≤ countFrom a times := by
  apply List.countP_mono_left
  intro t _ ht
  have hwithin : a ≤ t ∧ t ≤ b := by simpa using ht
  simpa using hwithin.1

end Counting

variable {K : Type} [Field K] [LinearOrder K] [IsStrictOrderedRing K]

def Metered (budget : K → K) (times : List K) : Prop :=
  EachAfter (fun before t => ∀ a ≤ t, (countFrom a before : K) + 1 ≤ budget (t - a)) times

/-- Every window of a metered record fits the budget of its length. -/
theorem Metered.countWithin_le {budget : K → K} {times : List K} (h : Metered budget times)
    (hmono : Monotone budget) (hpos : ∀ d, 0 ≤ d → 0 ≤ budget d) {a b : K} (hab : a ≤ b) :
    (countWithin a b times : K) ≤ budget (b - a) := by
  induction times using List.reverseRecOn with
  | nil => simpa [countWithin] using hpos (b - a) (sub_nonneg.mpr hab)
  | append_singleton times t ih =>
    have hrest : (countWithin a b times : K) ≤ budget (b - a) := ih (EachAfter.of_snoc h)
    rw [countWithin_snoc]
    split
    next hwithin =>
      have hlast := h times t [] (by simp) a hwithin.1
      have hcount : (countWithin a b times : K) ≤ countFrom a times :=
        Nat.cast_le.mpr (countWithin_le_countFrom a b times)
      push_cast
      calc (countWithin a b times : K) + 1 ≤ countFrom a times + 1 := by gcongr
        _ ≤ budget (t - a) := hlast
        _ ≤ budget (b - a) := hmono (by gcongr; exact hwithin.2)
    next => simpa using hrest

end KisAutotrader.TimeWindows
