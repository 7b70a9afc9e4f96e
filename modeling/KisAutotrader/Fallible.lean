import Mathlib.Tactic.Cases

/-!
# Computations that can raise

How an outcome of a sequence comes from the outcomes of its parts, and when a sequence
goes through.
-/
namespace KisAutotrader.Fallible

variable {ε α β : Type} {x : Except ε α} {f : α → Except ε β}

@[simp] lemma ok_bind (a : α) (f : α → Except ε β) : (Except.ok a >>= f) = f a := rfl

@[simp] lemma error_bind (e : ε) (f : α → Except ε β) : (Except.error e >>= f) = .error e := rfl

lemma bind_eq_ok {b : β} : x >>= f = .ok b ↔ ∃ a, x = .ok a ∧ f a = .ok b := by
  cases x with
  | error e => simp
  | ok a => simp

lemma bind_eq_error {e : ε} :
    x >>= f = .error e ↔ x = .error e ∨ ∃ a, x = .ok a ∧ f a = .error e := by
  cases x with
  | error e' => simp
  | ok a => simp

lemma map_eq_ok {g : α → β} {b : β} : x.map g = .ok b ↔ ∃ a, x = .ok a ∧ g a = b := by
  cases x with
  | error e => simp [Except.map]
  | ok a => simp [Except.map]

lemma exists_of_isOk (h : x.isOk = true) : ∃ a, x = .ok a := by
  cases x with
  | error e => cases h
  | ok a => exact ⟨a, rfl⟩

/-- A sequence goes through where its second part does after every value the first can end with. -/
lemma bind_total {P : α → Prop} {Q : β → Prop} (hx : ∃ a, x = .ok a ∧ P a)
    (hf : ∀ a, P a → ∃ b, f a = .ok b ∧ Q b) : ∃ b, x >>= f = .ok b ∧ Q b := by
  obtain ⟨a, rfl, ha⟩ := hx
  exact hf a ha

end KisAutotrader.Fallible
