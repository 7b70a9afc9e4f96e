import Mathlib.Algebra.BigOperators.Group.List.Basic
import Mathlib.Algebra.GroupWithZero.Nat

/-!
# Interleaved steps

A system whose callers suspend and resume in any order is a total step function
over events: an event that is not enabled changes nothing. A property of every
run is an invariant of the single step.
-/
namespace KisAutotrader.Interleaving

section Run

variable {σ ε : Type} (step : σ → ε → σ)

/-- The state after the events, taken one after the other. -/
def run (s : σ) (events : List ε) : σ := events.foldl step s

/-- Each event of the run meets the condition in the state it finds. -/
def Meets (cond : σ → ε → Prop) : σ → List ε → Prop
  | _, [] => True
  | s, e::es => cond s e ∧ Meets cond (step s e) es

instance Meets.decidable (cond : σ → ε → Prop) [∀ s e, Decidable (cond s e)] (s : σ) (es : List ε) :
    Decidable (Meets step cond s es) :=
  match es with
  | [] => isTrue trivial
  | e::es => @instDecidableAnd _ _ inferInstance (Meets.decidable cond (step s e) es)

variable {step} {cond : σ → ε → Prop} {Inv : σ → Prop}

@[simp] theorem run_nil (s : σ) : run step s [] = s := rfl

@[simp] theorem run_cons (s : σ) (e : ε) (es : List ε) :
    run step s (e::es) = run step (step s e) es := rfl

theorem run_append (s : σ) (es fs : List ε) :
    run step s (es ++ fs) = run step (run step s es) fs := List.foldl_append

/-- What each step that meets the condition keeps holds after every run that meets it. -/
theorem invariant (hstep : ∀ s e, Inv s → cond s e → Inv (step s e)) {s : σ} {es : List ε}
    (hs : Inv s) (hmeets : Meets step cond s es) : Inv (run step s es) := by
  induction es generalizing s with
  | nil => exact hs
  | cons e es ih => exact ih (hstep s e hs hmeets.1) hmeets.2

theorem meets_of_forall {s : σ} {es : List ε} (h : ∀ s, ∀ e ∈ es, cond s e) :
    Meets step cond s es := by
  induction es generalizing s with
  | nil => trivial
  | cons e es ih => exact ⟨h s e (by simp), ih fun s f hf => h s f (by simp [hf])⟩

theorem meets_append {s : σ} {es fs : List ε} :
    Meets step cond s (es ++ fs) ↔ Meets step cond s es ∧ Meets step cond (run step s es) fs := by
  induction es generalizing s with
  | nil => simp [Meets]
  | cons e es ih => simp [Meets, ih, and_assoc]

theorem Meets.and {c d : σ → ε → Prop} {s : σ} {es : List ε} (hc : Meets step c s es)
    (hd : Meets step d s es) : Meets step (fun s e => c s e ∧ d s e) s es := by
  induction es generalizing s with
  | nil => trivial
  | cons e es ih => exact ⟨⟨hc.1, hd.1⟩, ih hc.2 hd.2⟩

/-- What the condition gives in every state with the invariant is met at each event. -/
theorem Meets.of_invariant {d : σ → ε → Prop} (hstep : ∀ s e, Inv s → cond s e → Inv (step s e))
    (hgives : ∀ s e, Inv s → cond s e → d s e) {s : σ} {es : List ε} (hs : Inv s)
    (hmeets : Meets step cond s es) : Meets step d s es := by
  induction es generalizing s with
  | nil => trivial
  | cons e es ih => exact ⟨hgives s e hs hmeets.1, ih (hstep s e hs hmeets.1) hmeets.2⟩

theorem Meets.of_prefix {s : σ} {es fs : List ε} (hmeets : Meets step cond s fs)
    (hbefore : es <+: fs) : Meets step cond s es := by
  obtain ⟨rest, rfl⟩ := hbefore
  exact (meets_append.mp hmeets).1

/-- What every step keeps holds after every run. -/
theorem invariant_always (hstep : ∀ s e, Inv s → Inv (step s e)) {s : σ} (es : List ε) (hs : Inv s) :
    Inv (run step s es) := by
  have hmeets : Meets step (fun _ _ => True) s es := meets_of_forall fun _ _ _ => trivial
  exact invariant (fun s e h _ => hstep s e h) hs hmeets

end Run

section Tally

variable {κ : Type} (w : κ → ℕ)

/-- The weight of all callers together. -/
def tally (callers : List κ) : ℕ := (callers.map w).sum

@[simp] theorem tally_nil : tally w [] = 0 := rfl

@[simp] theorem tally_cons (c : κ) (cs : List κ) : tally w (c::cs) = w c + tally w cs := by
  simp [tally]

@[simp] theorem tally_snoc (cs : List κ) (c : κ) : tally w (cs ++ [c]) = tally w cs + w c := by
  simp [tally]

variable {w}

/-- A caller that moves on takes its weight along. -/
theorem tally_set {cs : List κ} {i : ℕ} {c : κ} (d : κ) (h : cs[i]? = some c) :
    tally w (cs.set i d) + w c = tally w cs + w d := by
  induction cs generalizing i with
  | nil => simp at h
  | cons x xs ih =>
    cases i with
    | zero =>
      obtain rfl : x = c := by simpa using h
      simp only [List.set_cons_zero, tally_cons]
      omega
    | succ i =>
      have hrest := ih (i := i) (by simpa using h)
      simp only [List.set_cons_succ, tally_cons]
      omega

theorem tally_eq_zero {cs : List κ} : tally w cs = 0 ↔ ∀ c ∈ cs, w c = 0 := by
  induction cs with
  | nil => simp
  | cons x xs ih => simp [ih]

theorem tally_le_tally {v : κ → ℕ} {cs : List κ} (h : ∀ c ∈ cs, w c ≤ v c) :
    tally w cs ≤ tally v cs := by
  induction cs with
  | nil => simp
  | cons x xs ih =>
    have hx := h x (by simp)
    have hrest := ih fun c hc => h c (by simp [hc])
    simp only [tally_cons]
    omega

theorem le_tally {cs : List κ} {c : κ} (h : c ∈ cs) : w c ≤ tally w cs := by
  induction cs with
  | nil => simp at h
  | cons x xs ih =>
    rw [tally_cons]
    obtain rfl | h := List.mem_cons.mp h
    · omega
    · have hrest := ih h
      omega

theorem forall_set {P : κ → Prop} {cs : List κ} {i : ℕ} {d : κ} (h : ∀ c ∈ cs, P c) (hd : P d) :
    ∀ c ∈ cs.set i d, P c := by
  intro c hc
  obtain hc | rfl := List.mem_or_eq_of_mem_set hc
  · exact h c hc
  · exact hd

/-- Another caller than the one that moves on stays. -/
theorem eq_or_mem_set {cs : List κ} {i : ℕ} {c x : κ} (d : κ) (h : cs[i]? = some c) (hx : x ∈ cs) :
    x = c ∨ x ∈ cs.set i d := by
  induction cs generalizing i with
  | nil => simp at hx
  | cons y ys ih =>
    cases i with
    | zero =>
      obtain rfl : y = c := by simpa using h
      rcases List.mem_cons.mp hx with rfl | hx
      · exact Or.inl rfl
      · exact Or.inr (List.mem_cons_of_mem d hx)
    | succ i =>
      rcases List.mem_cons.mp hx with rfl | hx
      · exact Or.inr List.mem_cons_self
      · rcases ih (i := i) (by simpa using h) hx with rfl | hx
        · exact Or.inl rfl
        · exact Or.inr (List.mem_cons_of_mem y hx)

theorem mem_set_self {cs : List κ} {i : ℕ} {c : κ} (d : κ) (h : cs[i]? = some c) : d ∈ cs.set i d :=
  List.mem_set (List.getElem?_eq_some_iff.mp h).1 d

end Tally

end KisAutotrader.Interleaving
