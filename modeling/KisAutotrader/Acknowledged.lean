import Mathlib.Data.List.Basic
import Mathlib.Data.Nat.Basic

/-!
# A log read by its keys

The entries of a log have growing keys. A reader asks for what lies from its offset on,
receives at most a number of entries, and moves its offset past each entry it takes.
-/
namespace KisAutotrader.Acknowledged

variable {α : Type} (key : α → ℕ)

/-- The keys grow along the log. -/
def Ascending (log : List α) : Prop := log.Pairwise fun x y => key x < key y

/-- The entries before the offset. -/
def before (offset : ℕ) (log : List α) : List α := log.filter fun x => key x < offset

/-- The entries from the offset on. -/
def since (offset : ℕ) (log : List α) : List α := log.filter fun x => offset ≤ key x

variable {key}

@[simp] theorem mem_before {offset : ℕ} {log : List α} {x : α} :
    x ∈ before key offset log ↔ x ∈ log ∧ key x < offset := by
  simp [before]

@[simp] theorem mem_since {offset : ℕ} {log : List α} {x : α} :
    x ∈ since key offset log ↔ x ∈ log ∧ offset ≤ key x := by
  simp [since]

theorem Ascending.since {offset : ℕ} {log : List α} (h : Ascending key log) :
    Ascending key (since key offset log) :=
  List.Pairwise.filter _ h

theorem Ascending.sublist {log rest : List α} (h : Ascending key log) (hsub : rest.Sublist log) :
    Ascending key rest :=
  List.Pairwise.sublist hsub h

theorem Ascending.snoc {log : List α} {x : α} (h : Ascending key log) (hx : ∀ y ∈ log, key y < key x) :
    Ascending key (log ++ [x]) := by
  apply List.pairwise_append.mpr
  exact ⟨h, List.pairwise_singleton _ _, fun y hy z hz => by
    obtain rfl := List.mem_singleton.mp hz
    exact hx y hy⟩

theorem before_eq_nil {offset : ℕ} {log : List α} (h : ∀ x ∈ log, offset ≤ key x) :
    before key offset log = [] := by
  apply List.filter_eq_nil_iff.mpr
  intro x hx
  have hle := h x hx
  simpa using hle

theorem since_eq_self {offset : ℕ} {log : List α} (h : ∀ x ∈ log, offset ≤ key x) :
    since key offset log = log := by
  apply List.filter_eq_self.mpr
  intro x hx
  simpa using h x hx

theorem before_append (offset : ℕ) (log rest : List α) :
    before key offset (log ++ rest) = before key offset log ++ before key offset rest :=
  List.filter_append ..

theorem since_append (offset : ℕ) (log rest : List α) :
    since key offset (log ++ rest) = since key offset log ++ since key offset rest :=
  List.filter_append ..

theorem since_since {a b : ℕ} (h : a ≤ b) (log : List α) :
    since key b (since key a log) = since key b log := by
  rw [since, since, since, List.filter_filter]
  apply List.filter_congr
  intro x _
  simp only [← Bool.decide_and, decide_eq_decide]
  omega

/-- A log of growing keys is what lies before the offset and then what lies from it on. -/
theorem before_append_since {log : List α} (h : Ascending key log) (offset : ℕ) :
    before key offset log ++ since key offset log = log := by
  induction log with
  | nil => rfl
  | cons x xs ih =>
    have hrest := List.pairwise_cons.mp h
    by_cases hx : key x < offset
    · have hb : before key offset (x::xs) = x::before key offset xs := by simp [before, hx]
      have hs : since key offset (x::xs) = since key offset xs := by simp [since, hx]
      rw [hb, hs, List.cons_append, ih hrest.2]
    · have hlater : ∀ y ∈ x::xs, offset ≤ key y := by
        intro y hy
        obtain rfl | hy := List.mem_cons.mp hy
        · omega
        · have hlt := hrest.1 y hy
          omega
      rw [before_eq_nil hlater, since_eq_self hlater, List.nil_append]

/-- Where few entries lie before the offset, a batch from the front has them all. -/
theorem mem_take_of_lt {log : List α} {offset n : ℕ} (h : Ascending key log)
    (hfew : (before key offset log).length ≤ n) {x : α} (hx : x ∈ log) (hlt : key x < offset) :
    x ∈ log.take n := by
  rw [← before_append_since h offset, List.take_append, List.take_of_length_le hfew]
  exact List.mem_append_left _ (mem_before.mpr ⟨hx, hlt⟩)

/-- Up to an entry of a batch there are no more entries than the batch may have. -/
theorem before_length_le {log : List α} {n : ℕ} (h : Ascending key log) {x : α}
    (hx : x ∈ log.take n) : (before key (key x + 1) log).length ≤ n := by
  have hsplit := List.take_append_drop n log
  have hord := List.pairwise_append.mp (hsplit.symm ▸ h)
  have hlater : before key (key x + 1) (log.drop n) = [] := by
    apply before_eq_nil
    intro y hy
    exact hord.2.2 x hx y hy
  calc (before key (key x + 1) log).length
      = (before key (key x + 1) (log.take n)).length := by
        conv_lhs => rw [← hsplit, before_append, hlater, List.append_nil]
    _ ≤ (log.take n).length := List.length_filter_le _ _
    _ ≤ n := List.length_take_le _ _

/-- Taking the first entry from the offset on moves it to what lies before. -/
theorem take_first {log rest : List α} {offset : ℕ} {x : α} (h : Ascending key log)
    (hfirst : since key offset log = x::rest) :
    before key (key x + 1) log = before key offset log ++ [x] ∧
      since key (key x + 1) log = rest := by
  have hmem : x ∈ since key offset log := by simp [hfirst]
  have hx := mem_since.mp hmem
  have hord : Ascending key (x::rest) := hfirst ▸ h.since
  have hrest : ∀ y ∈ rest, key x + 1 ≤ key y := (List.pairwise_cons.mp hord).1
  have hlog : log = before key offset log ++ x::rest := by
    rw [← hfirst, before_append_since h]
  have hold : ∀ y ∈ before key offset log, key y < key x + 1 := by
    intro y hy
    have hlt := (mem_before.mp hy).2
    omega
  constructor
  · have hkept : before key (key x + 1) (before key offset log) = before key offset log :=
      List.filter_eq_self.mpr fun y hy => decide_eq_true (hold y hy)
    have hone : before key (key x + 1) (x::rest) = [x] := by
      have hnil := before_eq_nil hrest
      simpa [before] using hnil
    conv_lhs => rw [hlog, before_append, hkept, hone]
  · have hgone : since key (key x + 1) (before key offset log) = [] := by
      apply List.filter_eq_nil_iff.mpr
      intro y hy
      have hlt := hold y hy
      simpa using hlt
    have hone : since key (key x + 1) (x::rest) = rest := by
      have hself := since_eq_self hrest
      simpa [since] using hself
    conv_lhs => rw [hlog, since_append, hgone, hone, List.nil_append]

end KisAutotrader.Acknowledged
