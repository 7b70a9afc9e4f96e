import Mathlib.Data.List.Basic
import Mathlib.Order.Basic
import Mathlib.Data.Set.Basic

/-!
# Leftmost matches

Intervals taken from left to right, each that begins behind the last one taken; and when the
longest word at a place of a text is as long as every word that begins within it.
-/
namespace KisAutotrader.LeftmostLongest

section Select
variable {β τ : Type} [LinearOrder τ] (start last : β → τ)

/-- The intervals that begin behind the bound, or the end of the one taken before. -/
def select (bound : τ) : List β → List β
  | [] => []
  | x::xs => if start x ≤ bound then select bound xs else x::select (last x) xs

variable {start last} {bound : τ} {xs : List β} {a r : β}

theorem select_sublist (bound : τ) (xs : List β) : (select start last bound xs).Sublist xs := by
  induction xs generalizing bound with
  | nil => exact .slnil
  | cons x xs ih =>
      unfold select
      split_ifs
      · exact (ih bound).cons x
      · exact (ih (last x)).cons_cons x

theorem bound_lt_start (hproper : ∀ x ∈ xs, start x ≤ last x) (ha : a ∈ select start last bound xs) :
    bound < start a := by
  induction xs generalizing bound with
  | nil => cases ha
  | cons x xs ih =>
      obtain ⟨hx, hxs⟩ := List.forall_mem_cons.mp hproper
      unfold select at ha
      split_ifs at ha with hbound
      · exact ih hxs ha
      · rcases List.mem_cons.mp ha with rfl | hrest
        · exact not_le.mp hbound
        · exact ((not_le.mp hbound).trans_le hx).trans (ih hxs hrest)

/-- What is taken is disjoint, from left to right. -/
theorem select_pairwise (bound : τ) (hproper : ∀ x ∈ xs, start x ≤ last x) :
    (select start last bound xs).Pairwise fun a b => last a < start b := by
  induction xs generalizing bound with
  | nil => exact .nil
  | cons x xs ih =>
      obtain ⟨-, hxs⟩ := List.forall_mem_cons.mp hproper
      unfold select
      split_ifs
      · exact ih bound hxs
      · exact List.pairwise_cons.mpr ⟨fun b hb => bound_lt_start hxs hb, ih (last x) hxs⟩

/-- What is left out begins within the bound or an interval that is taken. -/
theorem covered_of_not_mem_select (hsorted : xs.Pairwise fun a b => start a ≤ start b) (hr : r ∈ xs)
    (hout : r ∉ select start last bound xs) :
    start r ≤ bound ∨ ∃ a ∈ select start last bound xs, start a ≤ start r ∧ start r ≤ last a := by
  induction xs generalizing bound with
  | nil => cases hr
  | cons x xs ih =>
      obtain ⟨hx, hxs⟩ := List.pairwise_cons.mp hsorted
      unfold select at hout ⊢
      split_ifs at hout ⊢ with hbound
      · rcases List.mem_cons.mp hr with rfl | hrest
        · exact .inl hbound
        · exact ih hxs hrest hout
      · obtain ⟨hne, hout⟩ := not_or.mp (List.mem_cons.not.mp hout)
        have hrest := (List.mem_cons.mp hr).resolve_left hne
        right
        rcases ih hxs hrest hout with hwithin | ⟨a, ha, hcover⟩
        · exact ⟨x, List.mem_cons_self, hx r hrest, hwithin⟩
        · exact ⟨a, List.mem_cons_of_mem x ha, hcover⟩

/-- Of the intervals with one start the first is taken, if any. -/
theorem last_le_of_mem_select (hproper : ∀ x ∈ xs, start x ≤ last x)
    (hsorted : xs.Pairwise fun a b => start a = start b → last b ≤ last a)
    (ha : a ∈ select start last bound xs) (hr : r ∈ xs) (hstart : start r = start a) :
    last r ≤ last a := by
  induction xs generalizing bound with
  | nil => cases ha
  | cons x xs ih =>
      obtain ⟨hx, hxs⟩ := List.pairwise_cons.mp hsorted
      obtain ⟨hpx, hpxs⟩ := List.forall_mem_cons.mp hproper
      have hselected := ha
      unfold select at ha
      split_ifs at ha with hbound
      · rcases List.mem_cons.mp hr with rfl | hrest
        · have hbehind := bound_lt_start hproper hselected
          exact absurd (hstart ▸ hbound) (not_le.mpr hbehind)
        · exact ih hpxs hxs ha hrest
      · rcases List.mem_cons.mp ha with rfl | harest
        · rcases List.mem_cons.mp hr with rfl | hrest
          · exact le_rfl
          · exact hx r hrest hstart.symm
        · rcases List.mem_cons.mp hr with rfl | hrest
          · have hbehind := bound_lt_start hpxs harest
            exact absurd (hpx.trans_lt hbehind) (hstart ▸ lt_irrefl _)
          · exact ih hpxs hxs harest hrest

end Select

section Words
variable {α : Type} {W : Set (List α)} {A B t : List α} {p q d : ℕ}

def Occurs (w t : List α) (p : ℕ) : Prop := w <+: t.drop p

/-- A word that ends at a place of the text begins as many places before it. -/
theorem suffix_take_iff {w t : List α} {e : ℕ} (hw : w ≠ []) :
    (e < t.length ∧ w <:+ t.take (e + 1)) ↔ ∃ p, Occurs w t p ∧ p + w.length = e + 1 := by
  have hpos : 0 < w.length := List.length_pos_of_ne_nil hw
  constructor
  · rintro ⟨he, before, hbefore⟩
    have hlength : before.length + w.length = e + 1 := by
      rw [← List.length_append, hbefore, List.length_take]
      omega
    refine ⟨before.length, ⟨t.drop (e + 1), ?_⟩, hlength⟩
    have hsplit : t = before ++ (w ++ t.drop (e + 1)) := by
      rw [← List.append_assoc, hbefore, List.take_append_drop]
    nth_rewrite 2 [hsplit]
    rw [List.drop_left]
  · rintro ⟨p, ⟨rest, hrest⟩, hlength⟩
    have hsplit : t = (t.take p ++ w) ++ rest := by
      rw [List.append_assoc, hrest, List.take_append_drop]
    have hp : (t.take p).length = p := by
      have htotal := congrArg List.length hrest
      rw [List.length_append, List.length_drop] at htotal
      rw [List.length_take]
      omega
    have hend : (t.take p ++ w).length = e + 1 := by rw [List.length_append, hp, hlength]
    refine ⟨?_, t.take p, ?_⟩
    · rw [hsplit, List.length_append, hend]
      omega
    · nth_rewrite 2 [hsplit]
      rw [← hend, List.take_left]

/-- Where a word begins within a shorter one, a word at least as long as it begins with the
shorter one. -/
def Absorbing (W : Set (List α)) : Prop :=
  ∀ A ∈ W, ∀ B ∈ W, A.length < B.length → ∀ d, 0 < d → d < A.length → A.drop d <+: B →
    ∃ C ∈ W, C <+: A.take d ++ B ∧ B.length ≤ C.length

theorem occurs_left (h : A.drop d <+: B) : Occurs A (A.take d ++ B) 0 := by
  unfold Occurs
  nth_rewrite 1 [← List.take_append_drop d A]
  exact (List.prefix_append_right_inj _).mpr h

theorem occurs_right (h : d < A.length) : Occurs B (A.take d ++ B) d := by
  unfold Occurs
  rw [List.drop_append_of_le_length (by simp; omega), List.drop_take]
  simp

/-- A word that begins within the longest one at a place is not longer. -/
theorem Absorbing.length_le (h : Absorbing W) (hA : A ∈ W) (hB : B ∈ W) (hAt : Occurs A t p)
    (hlongest : ∀ C ∈ W, Occurs C t p → C.length ≤ A.length) (hBt : Occurs B t q) (hpq : p ≤ q)
    (hq : q < p + A.length) : B.length ≤ A.length := by
  by_contra hlonger
  rw [not_le] at hlonger
  obtain ⟨d, rfl⟩ := Nat.exists_eq_add_of_le hpq
  unfold Occurs at hAt hBt hlongest
  rcases Nat.eq_zero_or_pos d with rfl | hd
  · exact hlonger.not_ge (hlongest B hB hBt)
  · have hdA : d < A.length := by omega
    have hsplit : t.drop p = A.take d ++ t.drop (p + d) := by
      rw [← List.drop_drop, List.prefix_iff_eq_take.mp hAt, List.take_take, Nat.min_eq_left hdA.le,
        List.take_append_drop]
    have hrest : A.drop d <+: t.drop (p + d) := by
      apply (List.prefix_append_right_inj (A.take d)).mp
      rwa [List.take_append_drop, ← hsplit]
    have hoverlap : A.drop d <+: B := by
      refine List.prefix_of_prefix_length_le hrest hBt ?_
      rw [List.length_drop]
      omega
    obtain ⟨C, hC, hshared, hlong⟩ := h A hA B hB hlonger d hd hdA hoverlap
    have hCt : C <+: t.drop p := by
      rw [hsplit]
      exact hshared.trans ((List.prefix_append_right_inj _).mpr hBt)
    exact (hlonger.trans_le hlong).not_ge (hlongest C hC hCt)

end Words

end KisAutotrader.LeftmostLongest
