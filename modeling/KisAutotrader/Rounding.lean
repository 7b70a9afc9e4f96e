import Mathlib.Algebra.Order.Round
import Mathlib.Tactic.Linarith
import Mathlib.Tactic.Positivity

/-!
# Rounding to the nearest integer, ties to even

`roundHalfEven` is Python's `round` of one number, `roundTo` its `round` to decimals, both
on an exact ordered field.
-/
namespace KisAutotrader.Rounding

-- One proof for a literal of the field, wherever a strategy writes it.
theorem atLeastTwo_two : Nat.AtLeastTwo 2 := inferInstance

theorem atLeastTwo_ten : Nat.AtLeastTwo 10 := inferInstance

theorem atLeastTwo_hundred : Nat.AtLeastTwo 100 := inferInstance

variable {K : Type*} [Field K] [LinearOrder K] [FloorRing K]

def roundHalfEven (x : K) : ℤ :=
  if Int.fract x < 1 / 2 then ⌊x⌋
  else if 1 / 2 < Int.fract x then ⌊x⌋ + 1
  else if Even ⌊x⌋ then ⌊x⌋
  else ⌊x⌋ + 1

def roundTo (decimals : ℕ) (x : K) : K := (roundHalfEven (x * 10^decimals) : K) / 10^decimals

lemma roundHalfEven_eq_floor_or (x : K) :
    (roundHalfEven x = ⌊x⌋ ∧ Int.fract x ≤ 1 / 2) ∨
      (roundHalfEven x = ⌊x⌋ + 1 ∧ 1 / 2 ≤ Int.fract x) := by
  unfold roundHalfEven
  split_ifs with hlow hhigh heven
  · exact Or.inl ⟨rfl, hlow.le⟩
  · exact Or.inr ⟨rfl, hhigh.le⟩
  · exact Or.inl ⟨rfl, not_lt.1 hhigh⟩
  · exact Or.inr ⟨rfl, not_lt.1 hlow⟩

lemma le_roundHalfEven {z : ℤ} {x : K} (h : (z : K) ≤ x) : z ≤ roundHalfEven x := by
  have hfloor : z ≤ ⌊x⌋ := Int.le_floor.mpr h
  rcases roundHalfEven_eq_floor_or x with ⟨hr, -⟩ | ⟨hr, -⟩ <;> omega

variable [IsStrictOrderedRing K]

lemma roundHalfEven_le {z : ℤ} {x : K} (h : x ≤ z) : roundHalfEven x ≤ z := by
  have hfloor : ⌊x⌋ ≤ z := Int.floor_le_iff.mpr (by linarith)
  rcases roundHalfEven_eq_floor_or x with ⟨hr, -⟩ | ⟨hr, hfract⟩
  · omega
  · have hlt : ⌊x⌋ < z := by
      apply lt_of_le_of_ne hfloor
      intro heq
      have hsum := Int.floor_add_fract x
      rw [heq] at hsum
      linarith
    omega

lemma roundHalfEven_mono {x y : K} (h : x ≤ y) : roundHalfEven x ≤ roundHalfEven y := by
  rcases lt_or_eq_of_le (Int.floor_le_floor h) with hlt | heq
  · rcases roundHalfEven_eq_floor_or x with ⟨hx, -⟩ | ⟨hx, -⟩ <;>
      rcases roundHalfEven_eq_floor_or y with ⟨hy, -⟩ | ⟨hy, -⟩ <;> omega
  · have hfract : Int.fract x ≤ Int.fract y := by
      have hx := Int.floor_add_fract x
      have hy := Int.floor_add_fract y
      rw [heq] at hx
      linarith
    unfold roundHalfEven
    rw [heq]
    split_ifs <;> first | omega | linarith

lemma roundTo_mono {x y : K} (decimals : ℕ) (h : x ≤ y) : roundTo decimals x ≤ roundTo decimals y := by
  have hscale : (0 : K) < 10 ^ decimals := by positivity
  unfold roundTo
  rw [div_le_div_iff_of_pos_right hscale]
  exact_mod_cast roundHalfEven_mono (mul_le_mul_of_nonneg_right h hscale.le)

/-- A number with few enough decimals stays. -/
lemma roundTo_div (decimals : ℕ) (n : ℤ) : roundTo decimals ((n : K) / 10 ^ decimals) = n / 10 ^ decimals := by
  have hscale : (10 : K) ^ decimals ≠ 0 := by positivity
  have hcancel : (n : K) / 10 ^ decimals * 10 ^ decimals = n := div_mul_cancel₀ _ hscale
  have hround : roundHalfEven ((n : K) / 10 ^ decimals * 10 ^ decimals) = n :=
    le_antisymm (roundHalfEven_le hcancel.le) (le_roundHalfEven hcancel.ge)
  rw [roundTo, hround]

/-- Whole bounds survive rounding to decimals. -/
lemma roundTo_mem {a b : ℤ} {x : K} (decimals : ℕ) (ha : (a : K) ≤ x) (hb : x ≤ b) :
    (a : K) ≤ roundTo decimals x ∧ roundTo decimals x ≤ b := by
  have hscale : (0 : K) < 10 ^ decimals := by positivity
  have hlow : a * 10 ^ decimals ≤ roundHalfEven (x * 10 ^ decimals) := by
    apply le_roundHalfEven
    push_cast
    exact mul_le_mul_of_nonneg_right ha hscale.le
  have hhigh : roundHalfEven (x * 10 ^ decimals) ≤ b * 10 ^ decimals := by
    apply roundHalfEven_le
    push_cast
    exact mul_le_mul_of_nonneg_right hb hscale.le
  unfold roundTo
  rw [le_div_iff₀ hscale, div_le_iff₀ hscale]
  exact ⟨by exact_mod_cast hlow, by exact_mod_cast hhigh⟩

end KisAutotrader.Rounding
