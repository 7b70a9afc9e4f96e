import Mathlib.Data.List.DropRight
import Mathlib.Data.List.Infix

/-!
# Stretches of a list

The longest stretch of one kind at the end of a list, and the stretches of the kind anywhere in it:
a measure that grows with the stretch reaches a value at the end of some part exactly where a
stretch of the list reaches it.
-/
namespace KisAutotrader.Stretches

variable {α β : Type*} {f : α → Bool} {l s : List α}

lemma prefix_takeWhile (h : s <+: l) (hf : ∀ x ∈ s, f x = true) : s <+: l.takeWhile f := by
  induction s generalizing l with
  | nil => exact List.nil_prefix
  | cons x s ih =>
      obtain ⟨t, rfl⟩ := h
      rw [List.cons_append, List.takeWhile_cons_of_pos (hf x List.mem_cons_self),
        List.prefix_cons_inj]
      exact ih (List.prefix_append s t) fun y hy => hf y (List.mem_cons_of_mem x hy)

/-- A stretch at the end is within the longest one. -/
lemma suffix_rtakeWhile (h : s <:+ l) (hf : ∀ x ∈ s, f x = true) : s <:+ l.rtakeWhile f := by
  have hreverse : s.reverse <+: l.reverse.takeWhile f :=
    prefix_takeWhile (List.reverse_prefix.mpr h) fun x hx => hf x (List.mem_reverse.mp hx)
  rw [List.rtakeWhile, ← List.reverse_prefix, List.reverse_reverse]
  exact hreverse

section Measure
variable [Preorder β] {g : List α → β} {n : β}

lemma le_rtakeWhile_iff (hg : ∀ s t, s <:+ t → g s ≤ g t) :
    n ≤ g (l.rtakeWhile f) ↔ ∃ s, s <:+ l ∧ (∀ x ∈ s, f x = true) ∧ n ≤ g s := by
  constructor
  · intro hn
    exact ⟨_, List.rtakeWhile_suffix f l, fun x hx => List.mem_rtakeWhile_imp hx, hn⟩
  · rintro ⟨s, hs, hf, hn⟩
    exact hn.trans (hg _ _ (suffix_rtakeWhile hs hf))

/-- At the end of some first part, or anywhere. -/
lemma exists_prefix_iff (hg : ∀ s t, s <:+ t → g s ≤ g t) :
    (∃ p, p <+: l ∧ n ≤ g (p.rtakeWhile f)) ↔ ∃ s, s <:+: l ∧ (∀ x ∈ s, f x = true) ∧ n ≤ g s := by
  constructor
  · rintro ⟨p, hp, hn⟩
    obtain ⟨s, hs, hf, hn⟩ := (le_rtakeWhile_iff hg).mp hn
    exact ⟨s, hs.isInfix.trans hp.isInfix, hf, hn⟩
  · rintro ⟨s, ⟨before, behind, rfl⟩, hf, hn⟩
    refine ⟨before ++ s, List.prefix_append _ behind, ?_⟩
    exact (le_rtakeWhile_iff hg).mpr ⟨s, List.suffix_append before s, hf, hn⟩

end Measure

end KisAutotrader.Stretches
