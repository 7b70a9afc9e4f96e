import Mathlib.Data.List.Basic

/-!
# Records that grow at their end

A property of a record may relate each entry to the entries before it; it is
checked once, when the entry is added.
-/
namespace KisAutotrader.History

variable {ε : Type}

/-- Every entry stands in the relation `P` to the entries before it. -/
def EachAfter (P : List ε → ε → Prop) (es : List ε) : Prop :=
  ∀ before x after, es = before ++ x::after → P before x

theorem eachAfter_nil (P : List ε → ε → Prop) : EachAfter P [] := by
  intro before x after h
  simp at h

theorem EachAfter.snoc {P : List ε → ε → Prop} {es : List ε} {x : ε} (h : EachAfter P es)
    (hx : P es x) : EachAfter P (es ++ [x]) := by
  intro before y after heq
  rcases List.eq_nil_or_concat' after with rfl | ⟨after, z, rfl⟩
  · obtain ⟨rfl, hy⟩ := List.append_inj' heq rfl
    obtain rfl := (List.cons.inj hy).1
    exact hx
  · have hsplit : es ++ [x] = (before ++ y::after) ++ [z] := by simpa using heq
    exact h before y after (List.append_inj' hsplit rfl).1

theorem EachAfter.of_snoc {P : List ε → ε → Prop} {es : List ε} {x : ε}
    (h : EachAfter P (es ++ [x])) : EachAfter P es := by
  intro before y after heq
  exact h before y (after ++ [x]) (by simp [heq])

/-- The entries added since the record had `n` of them. -/
def since (n : ℕ) (es : List ε) : List ε := es.drop n

@[simp] theorem since_length (es : List ε) : since es.length es = [] := by simp [since]

theorem since_snoc {n : ℕ} {es : List ε} (h : n ≤ es.length) (x : ε) :
    since n (es ++ [x]) = since n es ++ [x] := List.drop_append_of_le_length h

end KisAutotrader.History
