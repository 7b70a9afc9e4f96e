import Mathlib.Algebra.BigOperators.Ring.List
import Mathlib.Algebra.Order.BigOperators.Group.List
import Mathlib.Algebra.Order.Field.Basic
import Mathlib.Tactic.FieldSimp
import Mathlib.Tactic.Linarith
import Mathlib.Tactic.Ring

/-!
# Columns of numbers

A column is a list in which `none` stands for a missing value. A causal filter gives every
place a value that depends on the column up to that place only, so a prefix of the
column is filtered to a prefix of the result.
-/
namespace KisAutotrader.Series

/-! ### Causal filters -/

section Causal
variable {α β γ δ : Type*}

/-- The value of `f` on each non-empty prefix. -/
def causal (f : List α → β) (xs : List α) : List β :=
  (List.range xs.length).map fun t => f (xs.take (t + 1))

@[simp] lemma length_causal (f : List α → β) (xs : List α) : (causal f xs).length = xs.length := by
  simp [causal]

lemma causal_getElem? (f : List α → β) {xs : List α} {t : ℕ} (ht : t < xs.length) :
    (causal f xs)[t]? = some (f (xs.take (t + 1))) := by
  simp [causal, ht]

lemma causal_take (f : List α → β) (xs : List α) (k : ℕ) :
    causal f (xs.take k) = (causal f xs).take k := by
  apply List.ext_getElem?
  intro t
  by_cases ht : t < (xs.take k).length
  · have hk : t < k ∧ t < xs.length := by simpa [List.length_take] using ht
    rw [causal_getElem? f ht, List.getElem?_take_of_lt hk.1, causal_getElem? f hk.2, List.take_take,
      min_eq_left (by omega)]
  · have hlen : ((causal f xs).take k).length ≤ t := by simpa using Nat.le_of_not_lt ht
    have hlen' : (causal f (xs.take k)).length ≤ t := by simpa using Nat.le_of_not_lt ht
    rw [List.getElem?_eq_none hlen', List.getElem?_eq_none hlen]

lemma causal_map {f : List α → β} {f' : List γ → δ} {g : γ → α} {h : δ → β}
    (hf : ∀ xs, f (xs.map g) = h (f' xs)) (xs : List γ) :
    causal f (xs.map g) = (causal f' xs).map h := by
  simp [causal, ← List.map_take, hf, Function.comp_def]

/-- The value at a place; callers make sure that the place exists. -/
def cell (t : ℕ) (xs : List (Option α)) : Option α := (xs[t]?).join

/-- The value at the `k`-th place from the end. -/
def iloc (k : ℕ) (xs : List (Option α)) : Option α := cell (xs.length - k) xs

lemma cell_map (t : ℕ) (g : α → β) (xs : List (Option α)) :
    cell t (xs.map (Option.map g)) = (cell t xs).map g := by
  simp only [cell, List.getElem?_map]
  cases xs[t]? <;> simp

lemma cell_causal (f : List α → Option β) {xs : List α} {t : ℕ} (ht : t < xs.length) :
    cell t (causal f xs) = f (xs.take (t + 1)) := by
  simp [cell, causal_getElem? f ht]

lemma iloc_causal (f : List α → Option β) {xs : List α} {k : ℕ} (hk : 0 < k) (hle : k ≤ xs.length) :
    iloc k (causal f xs) = f (xs.take (xs.length - k + 1)) := by
  rw [iloc, length_causal, cell_causal f (by omega)]

lemma iloc_one_causal (f : List α → Option β) {xs : List α} (h : xs ≠ []) :
    iloc 1 (causal f xs) = f xs := by
  have hpos : 0 < xs.length := List.length_pos_iff.2 h
  have hlast : xs.length - 1 + 1 = xs.length := by omega
  rw [iloc_causal f one_pos hpos, hlast, List.take_length]

/-- Read at the end of a prefix, a filter gives what it gives at that place of the column. -/
lemma iloc_take (xs : List (Option α)) {t k : ℕ} (hk : 0 < k) (hkt : k ≤ t) (ht : t ≤ xs.length) :
    iloc k (xs.take t) = cell (t - k) xs := by
  rw [iloc, cell, List.length_take, min_eq_left ht, List.getElem?_take_of_lt (by omega), cell]

/-- Place by place, missing where either value is missing. -/
def zipWith (op : α → β → γ) (xs : List (Option α)) (ys : List (Option β)) : List (Option γ) :=
  List.zipWith (fun x y => x.bind fun a => y.map (op a)) xs ys

lemma zipWith_take (op : α → β → γ) (xs : List (Option α)) (ys : List (Option β)) (k : ℕ) :
    zipWith op (xs.take k) (ys.take k) = (zipWith op xs ys).take k := by
  simp [zipWith, List.take_zipWith]

lemma zipWith_map {op : α → α → α} {g : α → α} (h : ∀ x y, op (g x) (g y) = g (op x y))
    (xs ys : List (Option α)) :
    zipWith op (xs.map (Option.map g)) (ys.map (Option.map g)) = (zipWith op xs ys).map (Option.map g) := by
  simp only [zipWith, List.zipWith_map, List.map_zipWith]
  congr 1
  funext x y
  cases x <;> cases y <;> simp [h]

lemma cell_zipWith (op : α → β → γ) (xs : List (Option α)) (ys : List (Option β)) (t : ℕ) :
    cell t (zipWith op xs ys) = (cell t xs).bind fun a => (cell t ys).map (op a) := by
  simp only [cell, zipWith, List.getElem?_zipWith]
  rcases xs[t]? with _ | (_ | x)
  · rfl
  · cases ys[t]? <;> rfl
  · rcases ys[t]? with _ | (_ | y) <;> rfl

lemma iloc_zipWith (op : α → β → γ) {xs : List (Option α)} {ys : List (Option β)}
    (hlen : xs.length = ys.length) (k : ℕ) :
    iloc k (zipWith op xs ys) = (iloc k xs).bind fun a => (iloc k ys).map (op a) := by
  have hlength : (zipWith op xs ys).length = xs.length := by simp [zipWith, hlen]
  rw [iloc, hlength, cell_zipWith, iloc, iloc, hlen]

lemma iloc_one_some (xs : List α) : iloc 1 (xs.map some) = xs.getLast? := by
  rw [iloc, cell, List.length_map, List.getElem?_map, List.getLast?_eq_getElem?]
  cases xs[xs.length - 1]? <;> rfl

lemma iloc_map_join (k : ℕ) (xs : List (Option (Option α))) :
    iloc k (xs.map Option.join) = (iloc k xs).join := by
  simp only [iloc, cell, List.length_map, List.getElem?_map]
  cases xs[xs.length - k]? <;> rfl

/-- No value of the column is missing. -/
def Complete (xs : List (Option α)) : Prop := ∀ x ∈ xs, x.isSome

lemma complete_some (xs : List α) : Complete (xs.map some) := by simp [Complete]

lemma Complete.cell {xs : List (Option α)} (h : Complete xs) {t : ℕ} (ht : t < xs.length) :
    ∃ x, Series.cell t xs = some x := by
  obtain ⟨x, hx⟩ := Option.isSome_iff_exists.1 (h xs[t] (List.getElem_mem ht))
  exact ⟨x, by simp [Series.cell, List.getElem?_eq_getElem ht, hx]⟩

lemma Complete.zipWith {xs : List (Option α)} {ys : List (Option β)} (hx : Complete xs) (hy : Complete ys)
    (op : α → β → γ) : Complete (zipWith op xs ys) := by
  intro z hz
  obtain ⟨t, ht, rfl⟩ := List.mem_iff_getElem.1 hz
  have hlen : t < xs.length ∧ t < ys.length := by simpa [Series.zipWith] using ht
  obtain ⟨x, hx⟩ := Option.isSome_iff_exists.1 (hx _ (List.getElem_mem hlen.1))
  obtain ⟨y, hy⟩ := Option.isSome_iff_exists.1 (hy _ (List.getElem_mem hlen.2))
  simp [Series.zipWith, hx, hy]

/-- The values of a column without a missing one. -/
def present : List (Option α) → Option (List α)
  | [] => some []
  | none::_ => none
  | some x::xs => (present xs).map (x::·)

@[simp] lemma present_some (xs : List α) : present (xs.map some) = some xs := by
  induction xs with
  | nil => rfl
  | cons x xs ih => simp [present, ih]

/-- A statistic of the last `n` values, missing while there are fewer or one of them is missing. -/
def rollingAt (n : ℕ) (f : List α → Option β) (xs : List (Option α)) : Option β :=
  if xs.length < n then none else (present (xs.drop (xs.length - n))).bind f

def rolling (n : ℕ) (f : List α → Option β) : List (Option α) → List (Option β) :=
  causal (rollingAt n f)

lemma rollingAt_some (n : ℕ) (f : List α → Option β) {xs : List α} (hn : n ≤ xs.length) :
    rollingAt n f (xs.map some) = f (xs.drop (xs.length - n)) := by
  simp [rollingAt, ← List.map_drop, Nat.not_lt.2 hn]

end Causal

/-! ### Statistics of a window -/

section Statistics
variable {K : Type*} [Field K]

def mean (xs : List K) : K := xs.sum / xs.length

/-- The squared deviations from the mean over one less than their number. -/
def sampleVariance (xs : List K) : K :=
  (xs.map fun x => (x - mean xs)^2).sum / ((xs.length : K) - 1)

/-- The sample deviation, missing for fewer than two values. -/
def sampleDeviation (sqrt : K → K) (xs : List K) : Option K :=
  if xs.length < 2 then none else some (sqrt (sampleVariance xs))

lemma mean_map_mul (c : K) (xs : List K) : mean (xs.map (c * ·)) = c * mean xs := by
  have hsum : (xs.map (c * ·)).sum = c * xs.sum := by simpa using List.sum_map_mul_left xs id c
  rw [mean, hsum, List.length_map, mean, mul_div_assoc]

lemma sum_map_const_sub (c : K) (xs : List K) : (xs.map (c - ·)).sum = xs.length * c - xs.sum := by
  induction xs with
  | nil => simp
  | cons x xs ih =>
      rw [List.map_cons, List.sum_cons, ih, List.sum_cons, List.length_cons, Nat.cast_succ]
      ring

lemma mean_map_const_sub [CharZero K] (c : K) {xs : List K} (h : xs ≠ []) :
    mean (xs.map (c - ·)) = c - mean xs := by
  have hlen : (xs.length : K) ≠ 0 := by simpa using h
  rw [mean, sum_map_const_sub, List.length_map, mean]
  field_simp

lemma sampleVariance_map_const_sub [CharZero K] (c : K) {xs : List K} (h : xs ≠ []) :
    sampleVariance (xs.map (c - ·)) = sampleVariance xs := by
  rw [sampleVariance, mean_map_const_sub c h, List.length_map, List.map_map, sampleVariance]
  congr 3
  funext x
  simp only [Function.comp_apply]
  ring

variable [LinearOrder K] [IsStrictOrderedRing K]

lemma mean_pos {xs : List K} (h : xs ≠ []) (hpos : ∀ x ∈ xs, 0 < x) : 0 < mean xs := by
  have hlen : (0 : K) < xs.length := by simpa using List.length_pos_iff.2 h
  exact div_pos (List.sum_pos xs hpos h) hlen

end Statistics

/-! ### Exponentially weighted means -/

section Weighted
variable {K : Type*} [Field K]

/-- What the recurrence carries: the mean so far and the weight it has fallen to since the
last value. -/
structure Smoothed (K : Type*) where
  weighted : Option K
  oldWeight : K

/-- A missing value leaves the mean and lowers its weight; the first value is the mean. -/
def Smoothed.next (α : K) (s : Smoothed K) : Option K → Smoothed K
  | none => if s.weighted.isSome then { s with oldWeight := s.oldWeight * (1 - α) } else s
  | some x =>
      match s.weighted with
      | none => { s with weighted := some x }
      | some w =>
          let old := s.oldWeight * (1 - α)
          ⟨some ((old * w + α * x) / (old + α)), 1⟩

def smooth (α : K) (xs : List (Option K)) : Smoothed K := xs.foldl (Smoothed.next α) ⟨none, 1⟩

/-- The recursive mean `y = (1 - α) y' + α x`. -/
def ewm (α : K) : List (Option K) → List (Option K) := causal fun xs => (smooth α xs).weighted

/-- The mean with weights `r ^ k`, `k` counted from the last value. -/
def weightedMean (r : K) (xs : List K) : K :=
  xs.foldl (fun s x => s * r + x) 0 / xs.foldl (fun s _ => s * r + 1) 0

/-- The weighted mean up to each place, missing for fewer than `n` values. -/
def ewmAdjusted (α : K) (n : ℕ) : List K → List (Option K) :=
  causal fun xs => if xs.length < max n 1 then none else some (weightedMean (1 - α) xs)

def Smoothed.scale (c : K) (s : Smoothed K) : Smoothed K := { s with weighted := s.weighted.map (c * ·) }

lemma Smoothed.next_scale (α c : K) (s : Smoothed K) (x : Option K) :
    (s.scale c).next α (x.map (c * ·)) = (s.next α x).scale c := by
  obtain ⟨w, old⟩ := s
  cases x with
  | none => cases w <;> rfl
  | some x =>
      cases w with
      | none => rfl
      | some w =>
          simp only [Smoothed.scale, Smoothed.next, Option.map_some, Smoothed.mk.injEq, and_true,
            Option.some.injEq]
          ring

lemma smooth_scale (α c : K) (xs : List (Option K)) :
    smooth α (xs.map (Option.map (c * ·))) = (smooth α xs).scale c := by
  have hfold : ∀ (s : Smoothed K), (xs.map (Option.map (c * ·))).foldl (Smoothed.next α) (s.scale c) =
      (xs.foldl (Smoothed.next α) s).scale c := by
    induction xs with
    | nil => intro s; rfl
    | cons x xs ih =>
        intro s
        rw [List.map_cons, List.foldl_cons, Smoothed.next_scale, ih, List.foldl_cons]
  exact hfold ⟨none, 1⟩

lemma ewm_scale (α c : K) (xs : List (Option K)) :
    ewm α (xs.map (Option.map (c * ·))) = (ewm α xs).map (Option.map (c * ·)) :=
  causal_map (fun xs => by rw [smooth_scale]; rfl) xs

lemma ewm_take (α : K) (xs : List (Option K)) (k : ℕ) : ewm α (xs.take k) = (ewm α xs).take k :=
  causal_take _ xs k

lemma Smoothed.next_isSome (α : K) (s : Smoothed K) {x : Option K} (hx : x.isSome) :
    (s.next α x).weighted.isSome := by
  obtain ⟨w, old⟩ := s
  obtain ⟨x, rfl⟩ := Option.isSome_iff_exists.1 hx
  cases w <;> rfl

lemma Complete.ewm {xs : List (Option K)} (h : Complete xs) (α : K) : Complete (ewm α xs) := by
  intro y hy
  obtain ⟨t, ht, rfl⟩ := List.mem_map.1 hy
  have hlt : t < xs.length := List.mem_range.1 ht
  change (smooth α (xs.take (t + 1))).weighted.isSome
  rw [smooth, List.take_add_one, List.getElem?_eq_getElem hlt, Option.toList_some, List.foldl_concat]
  exact Smoothed.next_isSome α _ (h _ (List.getElem_mem hlt))

lemma iloc_one_ewmAdjusted (α : K) {n : ℕ} {xs : List K} (hn : n ≤ xs.length) (h : xs ≠ []) :
    iloc 1 (ewmAdjusted α n xs) = some (weightedMean (1 - α) xs) := by
  have hpos : 0 < xs.length := List.length_pos_iff.2 h
  rw [ewmAdjusted, iloc_one_causal _ h, if_neg (by omega)]

lemma foldl_horner_scale (r c : K) (xs : List K) :
    (xs.map (c * ·)).foldl (fun s x => s * r + x) 0 = c * xs.foldl (fun s x => s * r + x) 0 := by
  have hfold : ∀ s : K, (xs.map (c * ·)).foldl (fun s x => s * r + x) (c * s) =
      c * xs.foldl (fun s x => s * r + x) s := by
    induction xs with
    | nil => intro s; rfl
    | cons x xs ih =>
        intro s
        rw [List.map_cons, List.foldl_cons, List.foldl_cons, ← ih]
        congr 1
        ring
  simpa using hfold 0

lemma weightedMean_scale (r c : K) (xs : List K) :
    weightedMean r (xs.map (c * ·)) = c * weightedMean r xs := by
  rw [weightedMean, foldl_horner_scale, weightedMean, List.foldl_map, mul_div_assoc]

variable [LinearOrder K] [IsStrictOrderedRing K]

lemma foldl_horner_nonneg {r : K} (hr : 0 ≤ r) {xs : List K} (h : ∀ x ∈ xs, 0 ≤ x) {s : K} (hs : 0 ≤ s) :
    0 ≤ xs.foldl (fun s x => s * r + x) s := by
  induction xs generalizing s with
  | nil => exact hs
  | cons x xs ih =>
      have hx : 0 ≤ x := h x (by simp)
      exact ih (fun y hy => h y (by simp [hy])) (add_nonneg (mul_nonneg hs hr) hx)

lemma weightedMean_nonneg {r : K} (hr : 0 ≤ r) {xs : List K} (h : ∀ x ∈ xs, 0 ≤ x) :
    0 ≤ weightedMean r xs := by
  have hweights : 0 ≤ (xs.map fun _ => (1 : K)).foldl (fun s x => s * r + x) 0 :=
    foldl_horner_nonneg hr (by simp) le_rfl
  rw [List.foldl_map] at hweights
  exact div_nonneg (foldl_horner_nonneg hr h le_rfl) hweights

end Weighted

end KisAutotrader.Series
