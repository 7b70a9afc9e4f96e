import KisAutotrader.Coroutine

/-!
# Procedures beside an auxiliary state

The auxiliary state notes the calls of an execution. The procedure never reads it, so
that what is proved with it is a fact about the procedure itself.
-/
namespace KisAutotrader.Coroutine

variable {σ γ ρ Reply ι : Type} {Ans : ρ → Type} {α β : Type}

/-- The procedure beside a state of type `γ` that it does not see. -/
def instrument (γ : Type) : Proc σ ρ Ans α → Proc (σ × γ) ρ Ans α
  | .ret a => .ret a
  | .act f k => .act (fun x => (f x.1, x.2)) fun x => instrument γ (k x.1)
  | .call r k => .call r fun a => instrument γ (k a)

/-- A call is answered as before and noted. -/
def serveNoted (serve : (r : ρ) → Reply → σ → Ans r × σ) (note : ρ → Reply → σ × γ → γ)
    (r : ρ) (reply : Reply) (x : σ × γ) : Ans r × (σ × γ) :=
  ((serve r reply x.1).1, ((serve r reply x.1).2, note r reply x))

theorem instrument_bind (p : Proc σ ρ Ans α) (g : α → Proc σ ρ Ans β) :
    instrument γ (p >>= g) = instrument γ p >>= fun a => instrument γ (g a) := by
  induction p with
  | ret a => rfl
  | act f k ih => exact congrArg (Proc.act _) (funext fun x : σ × γ => ih x.1)
  | call r k ih => exact congrArg (Proc.call r) (funext fun a => ih a)

theorem instrument_each (body : ι → Proc σ ρ Ans Unit) (xs : List ι) :
    instrument γ (each body xs) = each (fun i => instrument γ (body i)) xs := by
  induction xs with
  | nil => rfl
  | cons i xs ih =>
    rw [each, instrument_bind, ih]
    rfl

theorem instrument_cut (n : ℕ) (p : Proc σ ρ Ans α) : instrument γ (cut n p) = cut n (instrument γ p) := by
  induction p generalizing n with
  | ret a => rfl
  | act f k ih => exact congrArg (Proc.act _) (funext fun x : σ × γ => ih x.1 n)
  | call r k ih =>
    cases n with
    | zero => rfl
    | succ n => exact congrArg (Proc.call r) (funext fun a => ih a n)

section Execution
variable {serve : (r : ρ) → Reply → σ → Ans r × σ} {note : ρ → Reply → σ × γ → γ}
  {rely : ρ → Reply → σ → Prop} {site : ρ → σ × γ → Prop}

/-- The instrumented procedure runs as the procedure does. -/
theorem exec_instrument (p : Proc σ ρ Ans α) (t : ℕ → Reply) (x : σ × γ) :
    (exec (serveNoted serve note) (instrument γ p) t x).1 = (exec serve p t x.1).1 ∧
      (exec (serveNoted serve note) (instrument γ p) t x).2.1 = (exec serve p t x.1).2 := by
  induction p generalizing t x with
  | ret a => exact ⟨rfl, rfl⟩
  | act f k ih => exact ih x.1 t (f x.1, x.2)
  | call r k ih => exact ih _ _ _

theorem meets_instrument {p : Proc σ ρ Ans α} {t : ℕ → Reply} {x : σ × γ}
    (h : Meets serve rely p t x.1) :
    Meets (serveNoted serve note) (fun r reply y => rely r reply y.1) (instrument γ p) t x := by
  induction p generalizing t x with
  | ret a => exact trivial
  | act f k ih => exact ih x.1 h
  | call r k ih => exact ⟨h.1, ih _ h.2⟩

variable {relyNoted : ρ → Reply → σ × γ → Prop}

@[simp] theorem wp_instrument_pure (a : α) (Q : α → σ × γ → Prop) (x : σ × γ) :
    wp (serveNoted serve note) relyNoted site (instrument γ (pure a)) Q x ↔ Q a x := Iff.rfl

@[simp] theorem wp_instrument_get (Q : σ → σ × γ → Prop) (x : σ × γ) :
    wp (serveNoted serve note) relyNoted site (instrument γ get) Q x ↔ Q x.1 x := Iff.rfl

@[simp] theorem wp_instrument_modify (f : σ → σ) (Q : Unit → σ × γ → Prop) (x : σ × γ) :
    wp (serveNoted serve note) relyNoted site (instrument γ (modify f)) Q x ↔
      Q () (f x.1, x.2) := Iff.rfl

@[simp] theorem wp_instrument_ask (r : ρ) (Q : Ans r → σ × γ → Prop) (x : σ × γ) :
    wp (serveNoted serve note) relyNoted site (instrument γ (ask r)) Q x ↔ site r x ∧
      ∀ reply, relyNoted r reply x →
        Q (serve r reply x.1).1 ((serve r reply x.1).2, note r reply x) := Iff.rfl

@[simp] theorem wp_instrument_bind (p : Proc σ ρ Ans α) (g : α → Proc σ ρ Ans β)
    (Q : β → σ × γ → Prop) (x : σ × γ) :
    wp (serveNoted serve note) relyNoted site (instrument γ (p >>= g)) Q x ↔
      wp (serveNoted serve note) relyNoted site (instrument γ p)
        (fun a => wp (serveNoted serve note) relyNoted site (instrument γ (g a)) Q) x := by
  rw [instrument_bind, wp_bind]

end Execution

/-! ### Invariants of a procedure -/

section Kept
variable (serve : (r : ρ) → Reply → σ → Ans r × σ) (note : ρ → Reply → σ × γ → γ)
  (rely : ρ → Reply → σ × γ → Prop) (site : ρ → σ × γ → Prop) (I : σ × γ → Prop)

/-- The procedure keeps `I`, wherever it starts. -/
def Kept (p : Proc σ ρ Ans α) : Prop :=
  ∀ x, I x → wp (serveNoted serve note) rely site (instrument γ p) (fun _ => I) x

variable {serve note rely site I}

theorem kept_pure (a : α) : Kept serve note rely site I (pure a : Proc σ ρ Ans α) := fun _ hx => hx

theorem kept_get : Kept serve note rely site I (get : Proc σ ρ Ans σ) := fun _ hx => hx

theorem kept_modify {f : σ → σ} (h : ∀ x, I x → I (f x.1, x.2)) :
    Kept serve note rely site I (modify f : Proc σ ρ Ans Unit) := h

theorem Kept.bind {p : Proc σ ρ Ans α} {g : α → Proc σ ρ Ans β}
    (hp : Kept serve note rely site I p) (hg : ∀ a, Kept serve note rely site I (g a)) :
    Kept serve note rely site I (p >>= g) := by
  intro x hx
  rw [wp_instrument_bind]
  exact wp_mono (hp x hx) fun a y hy => hg a y hy

variable (serve note rely site) in
/-- The procedure leads from `I` to `J`. -/
def Leads (I J : σ × γ → Prop) (p : Proc σ ρ Ans α) : Prop :=
  ∀ x, I x → wp (serveNoted serve note) rely site (instrument γ p) (fun _ => J) x

variable {J : σ × γ → Prop}

theorem leads_pure (h : ∀ x, I x → J x) (a : α) :
    Leads serve note rely site I J (pure a : Proc σ ρ Ans α) := fun x hx => h x hx

theorem Kept.leads {p : Proc σ ρ Ans α} {g : α → Proc σ ρ Ans β} (hp : Kept serve note rely site I p)
    (hg : ∀ a, Leads serve note rely site I J (g a)) : Leads serve note rely site I J (p >>= g) := by
  intro x hx
  rw [wp_instrument_bind]
  exact wp_mono (hp x hx) fun a y hy => hg a y hy

theorem Leads.keep {p : Proc σ ρ Ans α} {g : α → Proc σ ρ Ans β} (hp : Leads serve note rely site I J p)
    (hg : ∀ a, Kept serve note rely site J (g a)) : Leads serve note rely site I J (p >>= g) := by
  intro x hx
  rw [wp_instrument_bind]
  exact wp_mono (hp x hx) fun a y hy => hg a y hy

theorem kept_each {body : ι → Proc σ ρ Ans Unit} (h : ∀ i, Kept serve note rely site I (body i))
    (xs : List ι) : Kept serve note rely site I (each body xs) := by
  intro x hx
  rw [instrument_each]
  exact wp_each (I := fun _ => I) (fun i _ y hy => h i y hy) hx

end Kept

end KisAutotrader.Coroutine
