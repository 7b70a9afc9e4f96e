import Mathlib.Algebra.GroupWithZero.Nat
import KisAutotrader.Coroutine

/-!
# How many calls a procedure makes

A bound on the weight of the calls of a procedure, whatever state it starts from and however its
calls are answered.
-/
namespace KisAutotrader.Coroutine

variable {σ ρ Reply : Type} {Ans : ρ → Type} {α β : Type}

/-- The calls of an execution, in their order. -/
def calls (serve : (r : ρ) → Reply → σ → Ans r × σ) :
    Proc σ ρ Ans α → (ℕ → Reply) → σ → List ρ
  | .ret _, _, _ => []
  | .act f k, t, s => calls serve (k s) t (f s)
  | .call r k, t, s =>
      r :: calls serve (k (serve r (t 0) s).1) (fun n => t (n+1)) (serve r (t 0) s).2

/-- The calls of the procedure weigh at most `n` together. -/
def CallBound (w : ρ → ℕ) : Proc σ ρ Ans α → ℕ → Prop
  | .ret _, _ => True
  | .act _ k, n => ∀ s, CallBound w (k s) n
  | .call r k, n => w r ≤ n ∧ ∀ a, CallBound w (k a) (n - w r)

variable {w : ρ → ℕ} {p : Proc σ ρ Ans α} {g : α → Proc σ ρ Ans β} {m n : ℕ}

theorem callBound_pure (a : α) (n : ℕ) : CallBound w (pure a : Proc σ ρ Ans α) n := trivial

theorem callBound_get (n : ℕ) : CallBound w (get : Proc σ ρ Ans σ) n := fun _ => trivial

theorem callBound_modify (f : σ → σ) (n : ℕ) :
    CallBound w (modify f : Proc σ ρ Ans Unit) n := fun _ => trivial

theorem callBound_ask {r : ρ} (h : w r ≤ n) :
    CallBound w (ask r : Proc σ ρ Ans (Ans r)) n := ⟨h, fun _ => trivial⟩

theorem CallBound.mono (h : CallBound w p m) (hle : m ≤ n) : CallBound w p n := by
  induction p generalizing m n with
  | ret a => trivial
  | act f k ih => exact fun s => ih s (h s) hle
  | call r k ih => exact ⟨Nat.le_trans h.1 hle, fun a => ih a (h.2 a) (Nat.sub_le_sub_right hle _)⟩

/-- The weights of two procedures in a row add up. -/
theorem CallBound.bind (hp : CallBound w p m) (hg : ∀ a, CallBound w (g a) n) :
    CallBound w (p >>= g) (m + n) := by
  induction p generalizing m with
  | ret a => exact (hg a).mono (Nat.le_add_left n m)
  | act f k ih => exact fun s => ih s (hp s)
  | call r k ih =>
    have hle : w r ≤ m := hp.1
    refine ⟨by omega, fun a => ?_⟩
    rw [show m + n - w r = m - w r + n by omega]
    exact ih a (hp.2 a)

/-- A procedure in front that makes no such call. -/
theorem CallBound.after (hp : CallBound w p 0) (hg : ∀ a, CallBound w (g a) n) :
    CallBound w (p >>= g) n := by
  simpa using hp.bind hg

/-- The bound holds of the calls of every execution. -/
theorem CallBound.calls_le (h : CallBound w p n) (serve : (r : ρ) → Reply → σ → Ans r × σ)
    (t : ℕ → Reply) (s : σ) : ((calls serve p t s).map w).sum ≤ n := by
  induction p generalizing n t s with
  | ret a => exact Nat.zero_le n
  | act f k ih => exact ih s (h s) t (f s)
  | call r k ih =>
    have hrest := ih (serve r (t 0) s).1 (h.2 _) (fun n => t (n+1)) (serve r (t 0) s).2
    have hfirst : w r ≤ n := h.1
    simp only [calls, List.map_cons, List.sum_cons]
    omega

end KisAutotrader.Coroutine
