import Mathlib.Logic.Basic
import Mathlib.Data.List.Basic

/-!
# Procedures that suspend at calls to their environment

A `Proc` runs atomically over a shared state between two calls. What happens
while it waits, and what it is answered, is one `Reply` of the environment. The
calculus below proves a postcondition of every execution whose replies meet a
rely condition, and a guarantee at every call the execution makes.
-/
namespace KisAutotrader.Coroutine

/-- A procedure over the state `σ`, with calls `r : ρ` answered in `Ans r`. -/
inductive Proc (σ ρ : Type) (Ans : ρ → Type) (α : Type) where
  | ret (a : α)
  | act (f : σ → σ) (k : σ → Proc σ ρ Ans α)
  | call (r : ρ) (k : Ans r → Proc σ ρ Ans α)

variable {σ ρ Reply : Type} {Ans : ρ → Type} {α β : Type}

def Proc.bind : Proc σ ρ Ans α → (α → Proc σ ρ Ans β) → Proc σ ρ Ans β
  | .ret a, g => g a
  | .act f k, g => .act f fun s => (k s).bind g
  | .call r k, g => .call r fun a => (k a).bind g

instance : Monad (Proc σ ρ Ans) where
  pure := .ret
  bind := Proc.bind

/-- Read the shared state. -/
def get : Proc σ ρ Ans σ := .act id .ret

/-- Update the shared state. -/
def modify (f : σ → σ) : Proc σ ρ Ans Unit := .act f fun _ => .ret ()

/-- Suspend until the environment has answered `r`. -/
def ask (r : ρ) : Proc σ ρ Ans (Ans r) := .call r .ret

/-- Run a body for each element of a list, in its order. -/
def each {ι : Type} (body : ι → Proc σ ρ Ans Unit) : List ι → Proc σ ρ Ans Unit
  | [] => pure ()
  | x::xs => do body x; each body xs

/-- The procedure up to its first `n` calls: a crash at any of its suspensions. -/
def cut : ℕ → Proc σ ρ Ans α → Proc σ ρ Ans Unit
  | _, .ret _ => pure ()
  | n, .act f k => .act f fun s => cut n (k s)
  | 0, .call _ _ => pure ()
  | n+1, .call r k => .call r fun a => cut n (k a)

section Execution
variable (serve : (r : ρ) → Reply → σ → Ans r × σ)

/-- Execution against a tape of replies, one for each call. -/
def exec : Proc σ ρ Ans α → (ℕ → Reply) → σ → α × σ
  | .ret a, _, s => (a, s)
  | .act f k, t, s => exec (k s) t (f s)
  | .call r k, t, s =>
      exec (k (serve r (t 0) s).1) (fun n => t (n+1)) (serve r (t 0) s).2

/-- Every reply the execution consumes meets the rely condition. -/
def Meets (rely : ρ → Reply → σ → Prop) : Proc σ ρ Ans α → (ℕ → Reply) → σ → Prop
  | .ret _, _, _ => True
  | .act f k, t, s => Meets rely (k s) t (f s)
  | .call r k, t, s => rely r (t 0) s ∧
      Meets rely (k (serve r (t 0) s).1) (fun n => t (n+1)) (serve r (t 0) s).2

/-- Every call the execution makes is made in a state with the guarantee. -/
def Along (site : ρ → σ → Prop) : Proc σ ρ Ans α → (ℕ → Reply) → σ → Prop
  | .ret _, _, _ => True
  | .act f k, t, s => Along site (k s) t (f s)
  | .call r k, t, s => site r s ∧
      Along site (k (serve r (t 0) s).1) (fun n => t (n+1)) (serve r (t 0) s).2

/-- Weakest precondition under a rely condition, with a guarantee at each call. -/
def wp (rely : ρ → Reply → σ → Prop) (site : ρ → σ → Prop) :
    Proc σ ρ Ans α → (α → σ → Prop) → σ → Prop
  | .ret a, Q, s => Q a s
  | .act f k, Q, s => wp rely site (k s) Q (f s)
  | .call r k, Q, s => site r s ∧
      ∀ reply, rely r reply s → wp rely site (k (serve r reply s).1) Q (serve r reply s).2

variable {serve} {rely : ρ → Reply → σ → Prop} {site : ρ → σ → Prop}

/-- A call answers with the head of the tape and leaves its tail. -/
theorem exec_ask_bind (r : ρ) (g : Ans r → Proc σ ρ Ans β) (t : ℕ → Reply) (s : σ) :
    exec serve (ask r >>= g) t s =
      exec serve (g (serve r (t 0) s).1) (fun n => t (n+1)) (serve r (t 0) s).2 := rfl

/-- What no continuation changes is settled by the first procedure. -/
theorem exec_bind_observe {γ : Type} (observe : σ → γ) {g : α → Proc σ ρ Ans β}
    (hg : ∀ a t s, observe (exec serve (g a) t s).2 = observe s) (p : Proc σ ρ Ans α)
    (t : ℕ → Reply) (s : σ) :
    observe (exec serve (p >>= g) t s).2 = observe (exec serve p t s).2 := by
  induction p generalizing t s with
  | ret a => exact hg a t s
  | act f k ih => exact ih s t (f s)
  | call r k ih => exact ih _ (fun n => t (n+1)) _

instance Meets.decidable [∀ r a s, Decidable (rely r a s)] (p : Proc σ ρ Ans α)
    (t : ℕ → Reply) (s : σ) : Decidable (Meets serve rely p t s) :=
  match p with
  | .ret _ => isTrue trivial
  | .act f k => Meets.decidable (k s) t (f s)
  | .call r k =>
      @instDecidableAnd _ _ inferInstance
        (Meets.decidable (k (serve r (t 0) s).1) (fun n => t (n+1)) (serve r (t 0) s).2)

@[simp] theorem wp_pure (a : α) (Q : α → σ → Prop) (s : σ) :
    wp serve rely site (pure a) Q s ↔ Q a s := Iff.rfl

@[simp] theorem wp_get (Q : σ → σ → Prop) (s : σ) :
    wp serve rely site get Q s ↔ Q s s := Iff.rfl

@[simp] theorem wp_modify (f : σ → σ) (Q : Unit → σ → Prop) (s : σ) :
    wp serve rely site (modify f) Q s ↔ Q () (f s) := Iff.rfl

@[simp] theorem wp_ask (r : ρ) (Q : Ans r → σ → Prop) (s : σ) :
    wp serve rely site (ask r) Q s ↔ site r s ∧
      ∀ reply, rely r reply s → Q (serve r reply s).1 (serve r reply s).2 := Iff.rfl

@[simp] theorem wp_bind (p : Proc σ ρ Ans α) (g : α → Proc σ ρ Ans β)
    (Q : β → σ → Prop) (s : σ) :
    wp serve rely site (p >>= g) Q s ↔
      wp serve rely site p (fun a => wp serve rely site (g a) Q) s := by
  induction p generalizing s with
  | ret a => exact Iff.rfl
  | act f k ih => exact ih s (f s)
  | call r k ih =>
    exact and_congr_right fun _ => forall_congr' fun reply =>
      imp_congr_right fun _ => ih _ _

/-- The rule of consequence. -/
theorem wp_mono {p : Proc σ ρ Ans α} {Q R : α → σ → Prop} {s : σ}
    (h : wp serve rely site p Q s) (hQ : ∀ a s, Q a s → R a s) :
    wp serve rely site p R s := by
  induction p generalizing s with
  | ret a => exact hQ a s h
  | act f k ih => exact ih s h
  | call r k ih => exact ⟨h.1, fun reply hr => ih _ (h.2 reply hr)⟩

/-- A frame proved without a guarantee joins a postcondition proved with one. -/
theorem wp_and {p : Proc σ ρ Ans α} {Q R : α → σ → Prop} {s : σ}
    (hQ : wp serve rely site p Q s) (hR : wp serve rely (fun _ _ => True) p R s) :
    wp serve rely site p (fun a s => Q a s ∧ R a s) s := by
  induction p generalizing s with
  | ret a => exact ⟨hQ, hR⟩
  | act f k ih => exact ih s hQ hR
  | call r k ih => exact ⟨hQ.1, fun reply hr => ih _ (hQ.2 reply hr) (hR.2 reply hr)⟩

/-- The loop rule: the invariant speaks of the elements still to come. -/
theorem wp_each {ι : Type} {body : ι → Proc σ ρ Ans Unit} {I : List ι → σ → Prop}
    (hbody : ∀ x xs s, I (x::xs) s → wp serve rely site (body x) (fun _ => I xs) s)
    {xs : List ι} {s : σ} (hs : I xs s) :
    wp serve rely site (each body xs) (fun _ => I []) s := by
  induction xs generalizing s with
  | nil => exact hs
  | cons x xs ih =>
    simp only [each, wp_bind]
    exact wp_mono (hbody x xs s hs) fun _ t ht => ih ht

/-- What holds at the end and wherever a call may be made holds after a crash. -/
theorem wp_cut {p : Proc σ ρ Ans α} {R : σ → Prop} {s : σ} (n : ℕ)
    (h : wp serve rely site p (fun _ => R) s) (hsite : ∀ r s, site r s → R s) :
    wp serve rely site (cut n p) (fun _ => R) s := by
  induction p generalizing s n with
  | ret a =>
    rw [cut.eq_1]
    exact h
  | act f k ih =>
    rw [cut.eq_2]
    exact ih s n h
  | call r k ih =>
    cases n with
    | zero => exact hsite r s h.1
    | succ n => exact ⟨h.1, fun reply hr => ih _ n (h.2 reply hr)⟩

/-- An execution whose replies meet the rely condition reaches the postcondition,
and makes each of its calls where the guarantee holds. -/
theorem wp_sound {p : Proc σ ρ Ans α} {Q : α → σ → Prop} {s : σ} {t : ℕ → Reply}
    (h : wp serve rely site p Q s) (ht : Meets serve rely p t s) :
    Along serve site p t s ∧ Q (exec serve p t s).1 (exec serve p t s).2 := by
  induction p generalizing s t with
  | ret a => exact ⟨trivial, h⟩
  | act f k ih => exact ih s h ht
  | call r k ih =>
    obtain ⟨halong, hpost⟩ := ih _ (h.2 (t 0) ht.1) ht.2
    exact ⟨⟨h.1, halong⟩, hpost⟩

theorem meets_true (p : Proc σ ρ Ans α) (t : ℕ → Reply) (s : σ) :
    Meets serve (fun _ _ _ => True) p t s := by
  induction p generalizing s t with
  | ret a => exact trivial
  | act f k ih => exact ih s t (f s)
  | call r k ih => exact ⟨trivial, ih _ _ _⟩

end Execution

section Runs
variable {ι : Type} (serve : (r : ρ) → Reply → σ → Ans r × σ)
  (code : ι → Proc σ ρ Ans Unit)

/-- A run performs named procedures one after the other, each against its own tape. -/
def run : List (ι × (ℕ → Reply)) → σ → σ
  | [], s => s
  | (i, t)::jobs, s => run jobs (exec serve (code i) t s).2

def RunMeets (rely : ρ → Reply → σ → Prop) : List (ι × (ℕ → Reply)) → σ → Prop
  | [], _ => True
  | (i, t)::jobs, s => Meets serve rely (code i) t s ∧
      RunMeets rely jobs (exec serve (code i) t s).2

def RunAlong (site : ρ → σ → Prop) : List (ι × (ℕ → Reply)) → σ → Prop
  | [], _ => True
  | (i, t)::jobs, s => Along serve site (code i) t s ∧
      RunAlong site jobs (exec serve (code i) t s).2

variable {serve code} {rely : ρ → Reply → σ → Prop} {site : ρ → σ → Prop} {I : σ → Prop}

instance RunMeets.decidable [∀ r a s, Decidable (rely r a s)] :
    (jobs : List (ι × (ℕ → Reply))) → (s : σ) → Decidable (RunMeets serve code rely jobs s)
  | [], _ => isTrue trivial
  | (i, t)::jobs, s =>
      @instDecidableAnd _ _ (Meets.decidable (code i) t s)
        (RunMeets.decidable jobs (exec serve (code i) t s).2)

/-- An invariant of every single procedure holds after every run. -/
theorem run_invariant
    (hstep : ∀ i s, I s → wp serve rely site (code i) (fun _ => I) s)
    {jobs : List (ι × (ℕ → Reply))} {s : σ} (hs : I s)
    (hjobs : RunMeets serve code rely jobs s) :
    RunAlong serve code site jobs s ∧ I (run serve code jobs s) := by
  induction jobs generalizing s with
  | nil => exact ⟨trivial, hs⟩
  | cons job jobs ih =>
    obtain ⟨halong, hmid⟩ := wp_sound (hstep job.1 s hs) hjobs.1
    obtain ⟨hrest, hend⟩ := ih hmid hjobs.2
    exact ⟨⟨halong, hrest⟩, hend⟩

/-- Without a rely condition every run will do. -/
theorem runMeets_true (jobs : List (ι × (ℕ → Reply))) (s : σ) :
    RunMeets serve code (fun _ _ _ => True) jobs s := by
  induction jobs generalizing s with
  | nil => exact trivial
  | cons job jobs ih => exact ⟨meets_true _ _ _, ih _⟩

end Runs

end KisAutotrader.Coroutine
