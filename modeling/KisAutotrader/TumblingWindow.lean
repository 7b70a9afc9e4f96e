import Mathlib.Data.List.Basic
import Mathlib.Data.Int.Order.Basic

/-!
# Alarms counted in windows that start anew

A counter keeps the time of its first event and starts again with the first event that
lies more than a width after it. It raises an alarm from a number of events on; whoever
hears the alarm may clear the counter.
-/
namespace KisAutotrader.TumblingWindow

/-- The time of the first event counted, and their number. -/
structure Window where
  first : ℤ
  count : ℕ
  deriving DecidableEq, Repr

section Count
variable (width : ℤ) (least : ℕ)

/-- One more event. -/
def tick (now : ℤ) : Option Window → Window
  | none => ⟨now, 1⟩
  | some w => if now - w.first > width then ⟨now, 1⟩ else ⟨w.first, w.count + 1⟩

/-- The alarm at an event. -/
def alarm (now : ℤ) (s : Option Window) : Bool := decide (least ≤ (tick width now s).count)

/-- The counter after an event; an alarm may clear it. -/
def after (now : ℤ) (cleared : Bool) (s : Option Window) : Option Window :=
  if alarm width least now s && cleared then none else some (tick width now s)

/-- The events that raise an alarm. -/
def alarms : Option Window → List (ℤ × Bool) → List Bool
  | _, [] => []
  | s, e::es => alarm width least e.1 s :: alarms (after width least e.1 e.2 s) es

/-- The events of the past, the latest first, of which the counted ones lie in its window. -/
structure Counts (s : Option Window) (past : List ℤ) : Prop where
  enough : ∀ w ∈ s, 1 ≤ w.count ∧ w.count ≤ past.length
  within : ∀ w ∈ s, ∀ t ∈ past.take w.count, w.first ≤ t ∧ t ≤ w.first + width

variable {width least}

theorem counts_none (past : List ℤ) : Counts width none past where
  enough := by simp
  within := by simp

/-- An event is counted with those of its window. -/
theorem Counts.tick {s : Option Window} {past : List ℤ} (h : Counts width s past) (hwidth : 0 ≤ width)
    {now : ℤ} (hlater : ∀ t ∈ past, t ≤ now) :
    Counts width (some (tick width now s)) (now::past) := by
  have hnew : Counts width (some ⟨now, 1⟩) (now::past) := by
    constructor
    · simp
    · intro w hw t ht
      obtain rfl := Option.some.inj hw
      obtain rfl : t = now := by simpa using ht
      constructor
      · exact le_refl t
      · show t ≤ t + width
        omega
  cases s with
  | none => exact hnew
  | some v =>
    obtain ⟨hpos, hlength⟩ := h.enough v rfl
    have hv := h.within v rfl
    have hfirst : v.first ≤ now := by
      cases past with
      | nil => simp at hlength; omega
      | cons t ts =>
        have ht : t ∈ (t::ts).take v.count := by
          obtain ⟨n, hn⟩ := Nat.exists_eq_add_of_le' hpos
          simp [hn]
        have hle := hlater t List.mem_cons_self
        have hge := (hv t ht).1
        omega
    by_cases hold : now - v.first > width
    · simpa [TumblingWindow.tick, hold] using hnew
    · rw [TumblingWindow.tick, if_neg hold]
      constructor
      · intro w hw
        obtain rfl := Option.some.inj hw
        simp only [List.length_cons]
        omega
      · intro w hw t ht
        obtain rfl := Option.some.inj hw
        obtain rfl | ht := List.mem_cons.mp (List.take_succ_cons ▸ ht)
        · simp only
          omega
        · exact hv t ht

theorem Counts.after {s : Option Window} {past : List ℤ} (h : Counts width s past) (hwidth : 0 ≤ width)
    {now : ℤ} (hlater : ∀ t ∈ past, t ≤ now) (cleared : Bool) :
    Counts width (after width least now cleared s) (now::past) := by
  unfold TumblingWindow.after
  split_ifs
  · exact counts_none _
  · exact h.tick hwidth hlater

/-- An alarm has its number of events behind it, all within the width. -/
theorem Counts.alarm {s : Option Window} {past : List ℤ} (h : Counts width s past) (hwidth : 0 ≤ width)
    {now : ℤ} (hlater : ∀ t ∈ past, t ≤ now) (halarm : alarm width least now s = true) :
    least ≤ (now::past).length ∧ ∀ t ∈ (now::past).take least, now - t ≤ width := by
  have htick := h.tick hwidth hlater
  have hmany : least ≤ (TumblingWindow.tick width now s).count := of_decide_eq_true halarm
  obtain ⟨-, hlength⟩ := htick.enough _ rfl
  have hwithin := htick.within _ rfl
  refine ⟨Nat.le_trans hmany hlength, fun t ht => ?_⟩
  obtain ⟨hge, -⟩ := hwithin t ((List.take_prefix_take_left hmany).subset ht)
  have hnow : now ∈ (now::past).take (TumblingWindow.tick width now s).count := by
    obtain ⟨n, hn⟩ := Nat.exists_eq_add_of_le' (htick.enough _ rfl).1
    simp [hn]
  have hle := (hwithin now hnow).2
  omega

/-- What an event without alarm leaves behind. -/
theorem alarms_cons {e : ℤ × Bool} {es : List (ℤ × Bool)} {s : Option Window}
    (hquiet : ∀ a ∈ alarms width least s (e::es), a = false) :
    (tick width e.1 s).count < least ∧
      ∀ a ∈ alarms width least (some (tick width e.1 s)) es, a = false := by
  have hsilent : TumblingWindow.alarm width least e.1 s = false := hquiet _ List.mem_cons_self
  refine ⟨Nat.lt_of_not_le (of_decide_eq_false hsilent), fun a ha => ?_⟩
  apply hquiet a
  rw [alarms, TumblingWindow.after, hsilent, Bool.false_and]
  exact List.mem_cons_of_mem _ ha

/-- In a window that takes all of them, the events stay below the alarm. -/
theorem length_lt_of_same_window {es : List (ℤ × Bool)} {w : Window}
    (hwithin : ∀ e ∈ es, e.1 ≤ w.first + width) (hcount : w.count < least)
    (hquiet : ∀ a ∈ alarms width least (some w) es, a = false) : w.count + es.length < least := by
  induction es generalizing w with
  | nil => exact hcount
  | cons e es ih =>
    have hnow := hwithin e List.mem_cons_self
    have htick : tick width e.1 (some w) = ⟨w.first, w.count + 1⟩ := by
      simp only [tick]
      rw [if_neg (by omega)]
    obtain ⟨hbelow, hrest⟩ := alarms_cons hquiet
    rw [htick] at hbelow hrest
    have hlength := ih (w := ⟨w.first, w.count + 1⟩) (fun f hf => hwithin f (List.mem_cons_of_mem e hf))
      hbelow hrest
    simp only [List.length_cons] at hlength ⊢
    omega

/-- Without an alarm fewer events than twice its number, less one, lie within the width. -/
theorem length_lt_of_quiet {es : List (ℤ × Bool)} {s : Option Window} {low : ℤ}
    (hwithin : ∀ e ∈ es, low ≤ e.1 ∧ e.1 ≤ low + width) (hcount : s.elim 0 Window.count < least)
    (hquiet : ∀ a ∈ alarms width least s es, a = false) :
    s.elim 0 Window.count + es.length < 2 * least - 1 := by
  induction es generalizing s with
  | nil =>
    simp only [List.length_nil]
    omega
  | cons e es ih =>
    obtain ⟨hbelow, hrest⟩ := alarms_cons hquiet
    have hlater : ∀ f ∈ es, low ≤ f.1 ∧ f.1 ≤ low + width :=
      fun f hf => hwithin f (List.mem_cons_of_mem e hf)
    have hlow := (hwithin e List.mem_cons_self).1
    -- a window that starts here takes all that is left
    have hanew : tick width e.1 s = ⟨e.1, 1⟩ → 1 + es.length < least := by
      intro hnew
      rw [hnew] at hbelow hrest
      refine length_lt_of_same_window (fun f hf => ?_) hbelow hrest
      have hf := (hlater f hf).2
      show f.1 ≤ e.1 + width
      omega
    simp only [List.length_cons]
    cases s with
    | none =>
      have hlength := hanew rfl
      simp only [Option.elim_none]
      omega
    | some w =>
      simp only [Option.elim_some] at hcount ⊢
      by_cases hold : e.1 - w.first > width
      · have hlength := hanew (by simp [tick, hold])
        omega
      · have htick : tick width e.1 (some w) = ⟨w.first, w.count + 1⟩ := by simp [tick, hold]
        rw [htick] at hbelow hrest
        have hlength := ih (s := some ⟨w.first, w.count + 1⟩) hlater hbelow hrest
        simp only [Option.elim_some] at hlength
        omega

theorem tick_pos (now : ℤ) (s : Option Window) : 1 ≤ (tick width now s).count := by
  unfold tick
  split
  · exact Nat.le_refl 1
  · split_ifs
    · exact Nat.le_refl 1
    · exact Nat.le_add_left 1 _

/-- Of so many events within the width one raises the alarm. -/
theorem exists_alarm {es : List (ℤ × Bool)} (s : Option Window) {low : ℤ} (hpos : 0 < least)
    (hwithin : ∀ e ∈ es, low ≤ e.1 ∧ e.1 ≤ low + width) (hmany : 2 * least - 1 ≤ es.length) :
    true ∈ alarms width least s es := by
  by_contra hnone
  have hquiet : ∀ a ∈ alarms width least s es, a = false := by
    intro a ha
    cases a with
    | false => rfl
    | true => exact absurd ha hnone
  cases es with
  | nil =>
    simp only [List.length_nil] at hmany
    omega
  | cons e es =>
    obtain ⟨hbelow, hrest⟩ := alarms_cons hquiet
    have hlength := length_lt_of_quiet (s := some (tick width e.1 s))
      (fun f hf => hwithin f (List.mem_cons_of_mem e hf)) hbelow hrest
    have hone := @tick_pos width e.1 s
    simp only [List.length_cons] at hmany
    simp only [Option.elim_some] at hlength
    omega

end Count

end KisAutotrader.TumblingWindow
