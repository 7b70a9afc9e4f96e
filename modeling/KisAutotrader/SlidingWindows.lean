import Mathlib.Data.List.Basic
import Mathlib.Data.Nat.Basic

/-!
# Sliding windows

A list cut into windows of one size, each a step after the one before. When the step is at most the
size the windows cover the list, and without what each repeats of its predecessor they are the list.
-/
namespace KisAutotrader.SlidingWindows

variable {α : Type}

def window (size step : ℕ) (xs : List α) (m : ℕ) : List α := (xs.drop (m * step)).take size

/-- The windows that begin within the list. -/
def windows (size step : ℕ) (xs : List α) : List (List α) :=
  (List.range ((xs.length + step - 1) / step)).map (window size step xs)

/-- The first piece and what each later one adds. -/
def rejoin (overlap : ℕ) : List (List α) → List α
  | [] => []
  | x::xs => x ++ (xs.map (List.drop overlap)).flatten

section Pieces
variable {size step : ℕ} {xs : List α}

theorem lt_count_iff (hstep : 0 < step) (length m : ℕ) :
    m < (length + step - 1) / step ↔ m * step < length := by
  rw [Nat.lt_div_iff_mul_lt hstep]
  omega

theorem length_window (size step : ℕ) (xs : List α) (m : ℕ) :
    (window size step xs m).length = min size (xs.length - m * step) := by
  simp [window]

theorem getElem?_window {m i : ℕ} (h : i < size) :
    (window size step xs m)[i]? = xs[m * step + i]? := by
  simp [window, h]

theorem getElem?_windows (hstep : 0 < step) {m : ℕ} (h : m * step < xs.length) :
    (windows size step xs)[m]? = some (window size step xs m) := by
  simp [windows, (lt_count_iff hstep xs.length m).mpr h]

theorem exists_of_mem_windows (hstep : 0 < step) {piece : List α} (h : piece ∈ windows size step xs) :
    ∃ m, m * step < xs.length ∧ piece = window size step xs m := by
  obtain ⟨m, hm, rfl⟩ := List.mem_map.mp h
  exact ⟨m, (lt_count_iff hstep xs.length m).mp (List.mem_range.mp hm), rfl⟩

/-- Each place of the list is in the window whose step it belongs to. -/
theorem windows_cover (hstep : 0 < step) (hsize : step ≤ size) {p : ℕ} (hp : p < xs.length) :
    ∃ m piece, (windows size step xs)[m]? = some piece ∧ m * step ≤ p ∧
      p < m * step + piece.length ∧ piece[p - m * step]? = xs[p]? := by
  have hstart : p / step * step ≤ p := Nat.div_mul_le_self p step
  have hend : p < p / step * step + step := Nat.lt_div_mul_add hstep
  refine ⟨p / step, window size step xs (p / step), getElem?_windows hstep (Nat.lt_of_le_of_lt hstart hp),
    hstart, ?_, ?_⟩
  · rw [length_window]
    omega
  · rw [getElem?_window (by omega), Nat.add_sub_cancel' hstart]

theorem rejoin_concat (overlap : ℕ) {pieces : List (List α)} (hne : pieces ≠ []) (piece : List α) :
    rejoin overlap (pieces ++ [piece]) = rejoin overlap pieces ++ piece.drop overlap := by
  obtain ⟨x, xs, rfl⟩ := List.exists_cons_of_ne_nil hne
  simp [rejoin]

/-- The first windows together are a beginning of the list. -/
theorem rejoin_first_windows (hsize : step ≤ size) (xs : List α) (n : ℕ) :
    rejoin (size - step) ((List.range (n + 1)).map (window size step xs)) =
      xs.take (n * step + size) := by
  induction n with
  | zero => simp [rejoin, window]
  | succ n ih =>
      have hnew : (window size step xs (n + 1)).drop (size - step) =
          (xs.drop (n * step + size)).take step := by
        rw [window, List.drop_take, List.drop_drop]
        congr 2
        · omega
        · rw [Nat.succ_mul]
          omega
      rw [List.range_succ, List.map_append, List.map_singleton, rejoin_concat _ (by simp), ih, hnew,
        ← List.take_add, Nat.succ_mul]
      congr 1
      omega

theorem rejoin_windows (hstep : 0 < step) (hsize : step ≤ size) (xs : List α) :
    rejoin (size - step) (windows size step xs) = xs := by
  rcases List.eq_nil_or_concat xs with rfl | hne
  · have hnone : (step - 1) / step = 0 := Nat.div_eq_of_lt (by omega)
    simp [windows, hnone, rejoin]
  · have hpos : 0 < xs.length := by
      obtain ⟨ys, y, rfl⟩ := hne
      simp
    obtain ⟨n, hn⟩ : ∃ n, (xs.length + step - 1) / step = n + 1 :=
      Nat.exists_eq_succ_of_ne_zero (Nat.ne_of_gt (Nat.div_pos (by omega) hstep))
    have hlast : xs.length ≤ n * step + size := by
      have hbeyond := (lt_count_iff hstep xs.length (n + 1)).not.mp (by omega)
      rw [Nat.succ_mul] at hbeyond
      omega
    rw [windows, hn, rejoin_first_windows hsize, List.take_of_length_le hlast]

end Pieces

end KisAutotrader.SlidingWindows
