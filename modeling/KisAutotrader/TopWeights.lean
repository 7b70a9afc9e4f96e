import Mathlib.Algebra.Order.BigOperators.Group.Finset
import Mathlib.Order.Preorder.Finite

/-!
# The weight of the top elements

Of a finite set only the elements below no other count. More elements never weigh less if each
element weighs no less than all those below it together.
-/
namespace KisAutotrader.TopWeights

variable {α M : Type} [PartialOrder α] [DecidableLT α] [AddCommMonoid M]

/-- The elements below no other. -/
def tops (s : Finset α) : Finset α := s.filter fun x => ∀ y ∈ s, ¬x < y

def weight (w : α → M) (s : Finset α) : M := ∑ x ∈ tops s, w x

theorem mem_tops {s : Finset α} {x : α} : x ∈ tops s ↔ x ∈ s ∧ ∀ y ∈ s, ¬x < y := Finset.mem_filter

theorem exists_top {s : Finset α} {x : α} (hx : x ∈ s) : ∃ y ∈ tops s, x ≤ y := by
  obtain ⟨y, hle, hmax⟩ := s.exists_le_maximal hx
  exact ⟨y, mem_tops.mpr ⟨hmax.prop, fun z hz => hmax.not_gt hz⟩, hle⟩

theorem weight_mono [DecidableEq α] [PartialOrder M] [IsOrderedAddMonoid M] {w : α → M} {s t : Finset α}
    (hst : s ⊆ t) (hpos : ∀ x ∈ t, 0 ≤ w x) (hbelow : ∀ y ∈ t, ∑ x ∈ s with x < y, w x ≤ w y) :
    weight w s ≤ weight w t := by
  have hcover : ∀ x, ∃ y, x ∈ tops s → y ∈ tops t ∧ x ≤ y := by
    intro x
    by_cases hx : x ∈ tops s
    · obtain ⟨y, hy, hle⟩ := exists_top (hst (mem_tops.mp hx).1)
      exact ⟨y, fun _ => ⟨hy, hle⟩⟩
    · exact ⟨x, fun h => absurd h hx⟩
  choose above habove using hcover
  rw [weight, ← Finset.sum_fiberwise_of_maps_to fun x hx => (habove x hx).1]
  apply Finset.sum_le_sum
  intro y hy
  have hyt := (mem_tops.mp hy).1
  by_cases hys : y ∈ s
  · -- a top of the smaller set has none of its tops below it
    have hfiber : (tops s).filter (fun x => above x = y) ⊆ {y} := by
      intro x hx
      obtain ⟨htop, hy⟩ := Finset.mem_filter.mp hx
      have hle := (habove x htop).2
      rw [hy] at hle
      exact Finset.mem_singleton.mpr (hle.eq_of_not_lt ((mem_tops.mp htop).2 y hys))
    calc ∑ x ∈ tops s with above x = y, w x ≤ ∑ x ∈ {y}, w x := by
          apply Finset.sum_le_sum_of_subset_of_nonneg hfiber
          intro x hx _
          rw [Finset.mem_singleton.mp hx]
          exact hpos y hyt
      _ = w y := Finset.sum_singleton w y
  · have hfiber : (tops s).filter (fun x => above x = y) ⊆ s.filter (· < y) := by
      intro x hx
      obtain ⟨htop, hy⟩ := Finset.mem_filter.mp hx
      have hxs := (mem_tops.mp htop).1
      have hle := (habove x htop).2
      rw [hy] at hle
      refine Finset.mem_filter.mpr ⟨hxs, lt_of_le_of_ne hle ?_⟩
      rintro rfl
      exact hys hxs
    calc ∑ x ∈ tops s with above x = y, w x ≤ ∑ x ∈ s with x < y, w x := by
          apply Finset.sum_le_sum_of_subset_of_nonneg hfiber
          intro x hx _
          exact hpos x (hst (Finset.mem_filter.mp hx).1)
      _ ≤ w y := hbelow y hyt

end KisAutotrader.TopWeights
