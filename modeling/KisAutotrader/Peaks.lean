import Mathlib.Order.Bounds.Basic
import Mathlib.Order.MinMax

/-!
# Peaks and falls of a sequence

The highest value of a sequence so far, and the largest measure of a fall between any two places.
One pass that keeps the peak finds both, as long as the measure grows with the value it
falls from.
-/
namespace KisAutotrader.Peaks

variable {α β : Type*}

/-- The values up to place `n`. -/
def upTo (c : ℕ → α) (n : ℕ) : Set α := {x | ∃ i ≤ n, c i = x}

/-- The measures of the falls up to place `n`. -/
def falls (f : α → α → β) (c : ℕ → α) (n : ℕ) : Set β := {x | ∃ i j, i ≤ j ∧ j ≤ n ∧ f (c i) (c j) = x}

lemma upTo_succ (c : ℕ → α) (n : ℕ) : upTo c (n + 1) = insert (c (n + 1)) (upTo c n) := by
  ext x
  constructor
  · rintro ⟨i, hi, rfl⟩
    rcases Nat.le_succ_iff.mp hi with h | rfl
    · exact Or.inr ⟨i, h, rfl⟩
    · exact Or.inl rfl
  · rintro (rfl | ⟨i, hi, rfl⟩)
    · exact ⟨n + 1, le_rfl, rfl⟩
    · exact ⟨i, hi.trans n.le_succ, rfl⟩

section Peak
variable [LinearOrder α] {c : ℕ → α} {n : ℕ} {p : α}

lemma peak_zero (c : ℕ → α) : IsGreatest (upTo c 0) (c 0) := by
  refine ⟨⟨0, le_rfl, rfl⟩, ?_⟩
  rintro x ⟨i, hi, rfl⟩
  rw [Nat.le_zero.mp hi]

lemma peak_succ (h : IsGreatest (upTo c n) p) : IsGreatest (upTo c (n + 1)) (max (c (n + 1)) p) := by
  rw [upTo_succ]
  exact h.insert _

end Peak

section Fall
variable [LinearOrder β] {f : α → α → β} {c : ℕ → α} {n : ℕ}

lemma fall_zero (f : α → α → β) (c : ℕ → α) : IsGreatest (falls f c 0) (f (c 0) (c 0)) := by
  refine ⟨⟨0, 0, le_rfl, le_rfl, rfl⟩, ?_⟩
  rintro x ⟨i, j, hij, hj, rfl⟩
  obtain rfl := Nat.le_zero.mp hj
  rw [Nat.le_zero.mp hij]

/-- The deepest fall to the next place is the one from the peak. -/
lemma fall_succ [LinearOrder α] {p : α} {d : β} (hfall : IsGreatest (falls f c n) d)
    (hpeak : IsGreatest (upTo c (n + 1)) p)
    (hmono : ∀ x ∈ upTo c (n + 1), f x (c (n + 1)) ≤ f p (c (n + 1))) :
    IsGreatest (falls f c (n + 1)) (max d (f p (c (n + 1)))) := by
  obtain ⟨⟨i₀, j₀, hij, hj, hd⟩, hbound⟩ := hfall
  constructor
  · rcases max_choice d (f p (c (n + 1))) with hmax | hmax
    · exact ⟨i₀, j₀, hij, hj.trans n.le_succ, hd.trans hmax.symm⟩
    · obtain ⟨i, hi, rfl⟩ := hpeak.1
      exact ⟨i, n + 1, hi, le_rfl, hmax.symm⟩
  · rintro x ⟨i, j, hij, hj, rfl⟩
    rcases Nat.le_succ_iff.mp hj with hold | rfl
    · exact (hbound ⟨i, j, hij, hold, rfl⟩).trans (le_max_left _ _)
    · exact (hmono _ ⟨i, hij, rfl⟩).trans (le_max_right _ _)

end Fall

end KisAutotrader.Peaks
