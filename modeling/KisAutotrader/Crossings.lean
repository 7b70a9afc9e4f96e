import Mathlib.Algebra.Order.Ring.Defs
import Mathlib.Order.Basic

/-!
# Crossings of zero

A sequence that may be missing at some places rises where it becomes positive after a value that
was not, and falls where it becomes negative after a value that was not. Whoever notes
every rise and every fall knows the last sign.
-/
namespace KisAutotrader.Crossings

/-- `u` is the last place up to `t` at which `P` holds. -/
def MostRecent (P : ℕ → Prop) (t u : ℕ) : Prop := u ≤ t ∧ P u ∧ ∀ v, u < v → v ≤ t → ¬P v

variable {K : Type*} [LinearOrder K] [Zero K]

def Positive (d : ℕ → Option K) (t : ℕ) : Prop := ∃ x, d t = some x ∧ 0 < x
def Negative (d : ℕ → Option K) (t : ℕ) : Prop := ∃ x, d t = some x ∧ x < 0
def Nonzero (d : ℕ → Option K) (t : ℕ) : Prop := ∃ x, d t = some x ∧ x ≠ 0

def Rises (d : ℕ → Option K) (t : ℕ) : Prop := 0 < t ∧ (∃ p, d (t - 1) = some p ∧ p ≤ 0) ∧ Positive d t
def Falls (d : ℕ → Option K) (t : ℕ) : Prop := 0 < t ∧ (∃ p, d (t - 1) = some p ∧ 0 ≤ p) ∧ Negative d t

/-- Notes of rises and falls at the places below `n`: none is false and, from the first one
on, the sequence is there and none is missing. -/
structure Detects (d : ℕ → Option K) (n : ℕ) (up down : ℕ → Prop) : Prop where
  up_rises : ∀ t < n, up t → Rises d t
  down_falls : ∀ t < n, down t → Falls d t
  present : ∀ u t, u ≤ t → t < n → up u ∨ down u → ∃ x, d t = some x
  up_complete : ∀ u t, u < t → t < n → up u ∨ down u → Rises d t → up t
  down_complete : ∀ u t, u < t → t < n → up u ∨ down u → Falls d t → down t

variable {d : ℕ → Option K} {n : ℕ} {up down : ℕ → Prop}

/-- Without a later note, the sequence does not become negative after a rise. -/
lemma Detects.nonneg_after (h : Detects d n up down) {t u : ℕ} (ht : t < n) (hu : up u)
    (hlast : ∀ v, u < v → v ≤ t → ¬(up v ∨ down v)) :
    ∀ w, u ≤ w → w ≤ t → ∃ x, d w = some x ∧ 0 ≤ x := by
  intro w huw
  induction w, huw using Nat.le_induction with
  | base =>
      intro hle
      obtain ⟨-, -, x, hx, hpos⟩ := h.up_rises u (by omega) hu
      exact ⟨x, hx, hpos.le⟩
  | succ w huw ih =>
      intro hle
      obtain ⟨p, hp, hnonneg⟩ := ih (by omega)
      obtain ⟨x, hx⟩ := h.present u (w + 1) (by omega) (by omega) (Or.inl hu)
      refine ⟨x, hx, le_of_not_gt fun hneg => ?_⟩
      have hfalls : Falls d (w + 1) := ⟨by omega, ⟨p, hp, hnonneg⟩, x, hx, hneg⟩
      exact hlast (w + 1) (by omega) hle
        (Or.inr (h.down_complete u (w + 1) (by omega) (by omega) (Or.inl hu) hfalls))

lemma Detects.nonpos_after (h : Detects d n up down) {t u : ℕ} (ht : t < n) (hu : down u)
    (hlast : ∀ v, u < v → v ≤ t → ¬(up v ∨ down v)) :
    ∀ w, u ≤ w → w ≤ t → ∃ x, d w = some x ∧ x ≤ 0 := by
  intro w huw
  induction w, huw using Nat.le_induction with
  | base =>
      intro hle
      obtain ⟨-, -, x, hx, hneg⟩ := h.down_falls u (by omega) hu
      exact ⟨x, hx, hneg.le⟩
  | succ w huw ih =>
      intro hle
      obtain ⟨p, hp, hnonpos⟩ := ih (by omega)
      obtain ⟨x, hx⟩ := h.present u (w + 1) (by omega) (by omega) (Or.inr hu)
      refine ⟨x, hx, le_of_not_gt fun hpos => ?_⟩
      have hrises : Rises d (w + 1) := ⟨by omega, ⟨p, hp, hnonpos⟩, x, hx, hpos⟩
      exact hlast (w + 1) (by omega) hle
        (Or.inl (h.up_complete u (w + 1) (by omega) (by omega) (Or.inr hu) hrises))

/-- The most recent note names the sign of the most recent value that is not zero. -/
theorem Detects.follows (h : Detects d n up down) {t u v : ℕ} (ht : t < n)
    (hu : MostRecent (fun i => up i ∨ down i) t u) (hv : MostRecent (Nonzero d) t v) :
    (up u ∧ Positive d v) ∨ (down u ∧ Negative d v) := by
  obtain ⟨hut, hnote, hlast⟩ := hu
  obtain ⟨hvt, ⟨x, hx, hne⟩, hzero⟩ := hv
  have huv : Nonzero d u → u ≤ v := fun hnonzero => le_of_not_gt fun hvu => hzero u hvu hut hnonzero
  rcases hnote with hup | hdown
  · obtain ⟨-, -, y, hy, hpos⟩ := h.up_rises u (by omega) hup
    obtain ⟨z, hz, hnonneg⟩ := h.nonneg_after ht hup hlast v (huv ⟨y, hy, hpos.ne'⟩) hvt
    obtain rfl : x = z := Option.some.inj (hx.symm.trans hz)
    exact Or.inl ⟨hup, x, hx, lt_of_le_of_ne hnonneg hne.symm⟩
  · obtain ⟨-, -, y, hy, hneg⟩ := h.down_falls u (by omega) hdown
    obtain ⟨z, hz, hnonpos⟩ := h.nonpos_after ht hdown hlast v (huv ⟨y, hy, hneg.ne⟩) hvt
    obtain rfl : x = z := Option.some.inj (hx.symm.trans hz)
    exact Or.inr ⟨hdown, x, hx, lt_of_le_of_ne hnonpos hne⟩

end KisAutotrader.Crossings
