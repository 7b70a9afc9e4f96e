import KisAutotrader.BacktestReport
import KisAutotrader.Peaks

/-!
# The drawdown of a backtest

The largest fall between two values of an equity curve, in percent of the earlier one, found in
one pass that keeps the peak.
-/
namespace KisAutotrader.Backtest.Drawdown
open BacktestReport

/-- A fall in percent of the value it falls from. -/
def fall (x y : ℚ) : ℚ := (x - y) / x * 100

/-- The falls between two values of a curve, of which the second is not the earlier. -/
def falls (curve : List ℚ) : Set ℚ :=
  {x | ∃ (i j : ℕ) (e e' : ℚ), i ≤ j ∧ curve[i]? = some e ∧ curve[j]? = some e' ∧ fall e e' = x}

/-- What the drawdown of a curve of positive values obeys. -/
structure Laws (curve : List ℚ) (maxDd : ℚ) : Prop where
  deepest : curve ≠ [] → IsGreatest (falls curve) maxDd
  nonneg : 0 ≤ maxDd
  below : maxDd < 100
  scaled : ∀ k > 0, maxDrawdown (curve.map (k * ·)) = .ok maxDd
  extended : ∀ more, ∃ dd, maxDrawdown (curve ++ more) = .ok dd ∧ maxDd ≤ dd
  zero_iff : maxDd = 0 ↔ curve.Pairwise (· ≤ ·)

section Fall
variable {x y p : ℚ}

theorem fall_eq (hx : 0 < x) : fall x y = (1 - y / x) * 100 := by
  rw [fall, sub_div, div_self hx.ne']

theorem fall_mono (hx : 0 < x) (hxp : x ≤ p) (hy : 0 < y) : fall x y ≤ fall p y := by
  have hratio : y / p ≤ y / x := div_le_div_of_nonneg_left hy.le hx hxp
  rw [fall_eq hx, fall_eq (hx.trans_le hxp)]
  linarith

theorem fall_lt (hx : 0 < x) (hy : 0 < y) : fall x y < 100 := by
  have hratio : 0 < y / x := div_pos hy hx
  rw [fall_eq hx]
  linarith

theorem fall_nonpos_iff (hx : 0 < x) : fall x y ≤ 0 ↔ x ≤ y := by
  rw [fall_eq hx]
  constructor
  · intro h
    exact (one_le_div hx).mp (by linarith)
  · intro h
    have hratio := (one_le_div hx).mpr h
    linarith

theorem fall_self (x : ℚ) : fall x x = 0 := by simp [fall]

theorem fall_scaled {k : ℚ} (hk : 0 < k) : fall (k * x) (k * y) = fall x y := by
  rw [fall, ← mul_sub, mul_div_mul_left _ _ hk.ne', fall]

end Fall

/-! ### The pass -/

section Pass
variable {peak maxDd : ℚ} {rest : List ℚ}

theorem drawdownFrom_cons {equity : ℚ} (hpeak : 0 < peak) :
    drawdownFrom peak maxDd (equity::rest) =
      drawdownFrom (max peak equity) (max maxDd (fall (max peak equity) equity)) rest :=
  if_pos (hpeak.trans_le (le_max_left peak equity))

/-- The pass goes on from the peak and the deepest fall of the values before. -/
theorem drawdownFrom_isGreatest {c : ℕ → ℚ} {n : ℕ} (hc : ∀ i, 0 < c i)
    (hpeak : IsGreatest (Peaks.upTo c n) peak) (hdeep : IsGreatest (Peaks.falls fall c n) maxDd)
    (hrest : ∀ i e, rest[i]? = some e → c (n + 1 + i) = e) :
    IsGreatest (Peaks.falls fall c (n + rest.length)) (drawdownFrom peak maxDd rest) := by
  induction rest generalizing peak maxDd n with
  | nil => exact hdeep
  | cons equity rest ih =>
    have hvalues : ∀ x ∈ Peaks.upTo c n, 0 < x := by
      rintro x ⟨i, -, rfl⟩
      exact hc i
    have hnext : c (n + 1) = equity := hrest 0 equity rfl
    have hpeak' := Peaks.peak_succ hpeak
    rw [hnext, max_comm] at hpeak'
    have hdeep' := Peaks.fall_succ hdeep hpeak' fun x hx => by
      obtain ⟨i, -, rfl⟩ := id hx
      exact fall_mono (hc i) (hpeak'.2 hx) (hc (n + 1))
    rw [hnext] at hdeep'
    have hlength : n + (equity::rest).length = n + 1 + rest.length := by
      rw [List.length_cons]
      omega
    rw [drawdownFrom_cons (hvalues _ hpeak.1), hlength]
    apply ih hpeak' hdeep'
    intro i e he
    rw [← hrest (i + 1) e he]
    congr 1
    omega

/-- More values leave what has been found, and go on from some peak. -/
theorem drawdownFrom_append (peak maxDd : ℚ) (xs ys : List ℚ) :
    ∃ peak', drawdownFrom peak maxDd (xs ++ ys) = drawdownFrom peak' (drawdownFrom peak maxDd xs) ys := by
  induction xs generalizing peak maxDd with
  | nil => exact ⟨peak, rfl⟩
  | cons equity xs ih =>
    simp only [List.cons_append, drawdownFrom]
    split_ifs with hpos
    · exact ih _ _
    · exact ih _ _

theorem le_drawdownFrom (peak maxDd : ℚ) (xs : List ℚ) : maxDd ≤ drawdownFrom peak maxDd xs := by
  induction xs generalizing peak maxDd with
  | nil => exact le_rfl
  | cons equity xs ih =>
    simp only [drawdownFrom]
    split_ifs with hpos
    · exact (le_max_left _ _).trans (ih _ _)
    · exact ih _ _

end Pass

section Curve
variable {curve : List ℚ}

/-- The sequence of the values, continued by a positive one. -/
def continued (curve : List ℚ) (i : ℕ) : ℚ := (curve[i]?).getD 1

theorem continued_eq {i : ℕ} {e : ℚ} (h : curve[i]? = some e) : continued curve i = e := by
  rw [continued, h, Option.getD_some]

theorem continued_pos (hpos : ∀ e ∈ curve, 0 < e) (i : ℕ) : 0 < continued curve i := by
  cases hi : curve[i]? with
  | none => simp [continued, hi]
  | some e =>
    rw [continued_eq hi]
    exact hpos e (List.mem_of_getElem? hi)

theorem falls_eq (first : ℚ) (rest : List ℚ) :
    falls (first::rest) = Peaks.falls fall (continued (first::rest)) rest.length := by
  have hvalue : ∀ k ≤ rest.length, (first::rest)[k]? = some (continued (first::rest) k) := by
    intro k hk
    have hlt : k < (first::rest).length := by
      rw [List.length_cons]
      omega
    rw [List.getElem?_eq_getElem hlt, continued_eq (List.getElem?_eq_getElem hlt)]
  ext x
  constructor
  · rintro ⟨i, j, e, e', hij, hi, hj, rfl⟩
    have hjlt := (List.getElem?_eq_some_iff.mp hj).1
    rw [List.length_cons] at hjlt
    exact ⟨i, j, hij, by omega, by rw [continued_eq hi, continued_eq hj]⟩
  · rintro ⟨i, j, hij, hj, rfl⟩
    exact ⟨i, j, _, _, hij, hvalue i (by omega), hvalue j (by omega), rfl⟩

theorem falls_isGreatest (hpos : ∀ e ∈ curve, 0 < e) (hne : curve ≠ []) :
    IsGreatest (falls curve) (calculateMaxDrawdown curve) := by
  obtain ⟨first, rest, rfl⟩ := List.exists_cons_of_ne_nil hne
  have hpeak : IsGreatest (Peaks.upTo (continued (first::rest)) 0) first := Peaks.peak_zero _
  have hdeep : IsGreatest (Peaks.falls fall (continued (first::rest)) 0) 0 := by
    rw [← fall_self first]
    exact Peaks.fall_zero fall _
  have hvalues : ∀ i e, rest[i]? = some e → continued (first::rest) (0 + 1 + i) = e := by
    intro i e hi
    rw [zero_add, add_comm]
    exact continued_eq hi
  have hrun := drawdownFrom_isGreatest (continued_pos hpos) hpeak hdeep hvalues
  have hstart : calculateMaxDrawdown (first::rest) = drawdownFrom first 0 rest := by
    rw [calculateMaxDrawdown, drawdownFrom_cons (hpos first List.mem_cons_self), max_self, fall_self,
      max_self]
  rw [hstart, falls_eq]
  rwa [zero_add] at hrun

theorem falls_scaled {k : ℚ} (hk : 0 < k) (curve : List ℚ) : falls (curve.map (k * ·)) = falls curve := by
  ext x
  constructor
  · rintro ⟨i, j, e, e', hij, hi, hj, rfl⟩
    rw [List.getElem?_map, Option.map_eq_some_iff] at hi hj
    obtain ⟨a, ha, rfl⟩ := hi
    obtain ⟨b, hb, rfl⟩ := hj
    exact ⟨i, j, a, b, hij, ha, hb, (fall_scaled hk).symm⟩
  · rintro ⟨i, j, e, e', hij, hi, hj, rfl⟩
    exact ⟨i, j, k * e, k * e', hij, by simp [hi], by simp [hj], fall_scaled hk⟩

theorem drawdown_scaled (hpos : ∀ e ∈ curve, 0 < e) {k : ℚ} (hk : 0 < k) :
    calculateMaxDrawdown (curve.map (k * ·)) = calculateMaxDrawdown curve := by
  by_cases hne : curve = []
  · rw [hne]
    rfl
  · have hscaled : ∀ e ∈ curve.map (k * ·), 0 < e := by
      intro e he
      obtain ⟨a, ha, rfl⟩ := List.mem_map.mp he
      exact mul_pos hk (hpos a ha)
    have hgreatest := falls_isGreatest hscaled (by simpa using hne)
    rw [falls_scaled hk] at hgreatest
    exact hgreatest.unique (falls_isGreatest hpos hne)

theorem drawdown_extended (curve more : List ℚ) :
    calculateMaxDrawdown curve ≤ calculateMaxDrawdown (curve ++ more) := by
  cases curve with
  | nil =>
    cases more with
    | nil => exact le_rfl
    | cons first rest => exact le_drawdownFrom first 0 (first::rest)
  | cons first rest =>
    obtain ⟨peak, hrun⟩ := drawdownFrom_append first 0 (first::rest) more
    calc calculateMaxDrawdown (first::rest)
        ≤ drawdownFrom peak (drawdownFrom first 0 (first::rest)) more := le_drawdownFrom _ _ _
      _ = calculateMaxDrawdown (first::rest ++ more) := hrun.symm

/-- No value falls exactly if the curve never does. -/
theorem falls_nonpos_iff (hpos : ∀ e ∈ curve, 0 < e) :
    (∀ x ∈ falls curve, x ≤ 0) ↔ curve.Pairwise (· ≤ ·) := by
  rw [List.pairwise_iff_getElem]
  constructor
  · intro h i j hi hj hij
    have hfall := h _ ⟨i, j, curve[i], curve[j], hij.le, List.getElem?_eq_getElem hi,
      List.getElem?_eq_getElem hj, rfl⟩
    exact (fall_nonpos_iff (hpos _ (List.getElem_mem hi))).mp hfall
  · rintro h x ⟨i, j, e, e', hij, hi, hj, rfl⟩
    apply (fall_nonpos_iff (hpos e (List.mem_of_getElem? hi))).mpr
    rcases hij.lt_or_eq with hlt | rfl
    · obtain ⟨hilt, rfl⟩ := List.getElem?_eq_some_iff.mp hi
      obtain ⟨hjlt, rfl⟩ := List.getElem?_eq_some_iff.mp hj
      exact h i j hilt hjlt hlt
    · exact (Option.some.inj (hi.symm.trans hj)).le

end Curve

end KisAutotrader.Backtest.Drawdown
