import KisAutotrader.Disclosures

/-!
# Dates of eight digits

A date of year, month and day names one day, and a day has one date of eight digits.
-/
namespace KisAutotrader.Calendar
open Disclosures

/-! ### Day numbers -/

/-- Days before March 1 of the year, from March 1 of the year 0. -/
def yearStart (y : ℤ) : ℤ := 365 * y + y / 4 - y / 100 + y / 400

/-- Days before the month, from March 1; March is month 0. -/
def monthStart (m : ℤ) : ℤ := (153 * m + 2) / 5

def marchYear (y m : ℤ) : ℤ := if m ≤ 2 then y - 1 else y

def marchMonth (m : ℤ) : ℤ := if m ≤ 2 then m + 9 else m - 3

structure ValidDate (y m d : ℤ) : Prop where
  month : 1 ≤ m ∧ m ≤ 12
  day : 1 ≤ d ∧ d ≤ daysInMonth y m

theorem dayNumber_eq (y m d : ℤ) :
    dayNumber y m d = yearStart (marchYear y m) + monthStart (marchMonth m) + d - 719469 := by
  simp only [dayNumber, yearStart, monthStart, marchYear, marchMonth]
  omega

theorem isLeap_iff (y : ℤ) : isLeap y = true ↔ y % 4 = 0 ∧ (y % 100 ≠ 0 ∨ y % 400 = 0) := by
  simp [isLeap]

/-- A year is as long as its last month allows. -/
theorem yearStart_succ (y : ℤ) :
    yearStart (y + 1) = yearStart y + 365 + if isLeap (y + 1) then 1 else 0 := by
  have hleap := isLeap_iff (y + 1)
  simp only [yearStart]
  split_ifs with h
  · have := hleap.mp h
    omega
  · have := mt hleap.mpr h
    omega

theorem yearStart_mono {y z : ℤ} (h : y ≤ z) : yearStart y ≤ yearStart z := by
  simp only [yearStart]
  omega

/-- The days of a month end before the next month. -/
theorem day_lt_next {y m d : ℤ} (h : ValidDate y m d) (hm : marchMonth m < 11) :
    monthStart (marchMonth m) + d ≤ monthStart (marchMonth m + 1) := by
  obtain ⟨⟨hlow, hhigh⟩, -, hd⟩ := h
  interval_cases m <;> simp_all [monthStart, marchMonth, daysInMonth] <;> omega

/-- The days of a date end before the next year. -/
theorem day_lt_year {y m d : ℤ} (h : ValidDate y m d) :
    monthStart (marchMonth m) + d ≤
      365 + if isLeap (marchYear y m + 1) then 1 else 0 := by
  obtain ⟨⟨hlow, hhigh⟩, -, hd⟩ := h
  interval_cases m <;> simp_all [monthStart, marchMonth, marchYear, daysInMonth] <;> split_ifs at * <;> omega

theorem month_day_inj {y z m n d e : ℤ} (h : ValidDate y m d) (h' : ValidDate z n e)
    (hsame : monthStart (marchMonth m) + d = monthStart (marchMonth n) + e) :
    marchMonth m = marchMonth n := by
  have hmono {a b : ℤ} (hab : a + 1 ≤ b) : monthStart (a + 1) ≤ monthStart b := by
    simp only [monthStart]
    omega
  have hbound {k : ℤ} (hk : 1 ≤ k ∧ k ≤ 12) : marchMonth k ≤ 11 := by
    unfold marchMonth
    split_ifs <;> omega
  have hm := hbound h.month
  have hn := hbound h'.month
  have hd := h.day.1
  have he := h'.day.1
  rcases lt_trichotomy (marchMonth m) (marchMonth n) with hlt | heq | hgt
  · have := day_lt_next h (by omega)
    have := hmono hlt
    omega
  · exact heq
  · have := day_lt_next h' (by omega)
    have := hmono hgt
    omega

/-- The dates of one day agree. -/
theorem dayNumber_inj {y z m n d e : ℤ} (h : ValidDate y m d) (h' : ValidDate z n e)
    (hsame : dayNumber y m d = dayNumber z n e) : y = z ∧ m = n ∧ d = e := by
  rw [dayNumber_eq, dayNumber_eq] at hsame
  have hstart {k : ℤ} (hk : 1 ≤ k) : 0 ≤ monthStart (marchMonth k) := by
    simp only [monthStart, marchMonth]
    split_ifs <;> omega
  have hyear : marchYear y m = marchYear z n := by
    have hm := hstart h.month.1
    have hn := hstart h'.month.1
    have hd := h.day.1
    have he := h'.day.1
    rcases lt_trichotomy (marchYear y m) (marchYear z n) with hlt | heq | hgt
    · have := day_lt_year h
      have := yearStart_succ (marchYear y m)
      have := yearStart_mono (show marchYear y m + 1 ≤ marchYear z n from hlt)
      omega
    · exact heq
    · have := day_lt_year h'
      have := yearStart_succ (marchYear z n)
      have := yearStart_mono (show marchYear z n + 1 ≤ marchYear y m from hgt)
      omega
  rw [hyear] at hsame
  have hmonth := month_day_inj h h' (by omega)
  rw [hmonth] at hsame
  obtain ⟨⟨hlow, hhigh⟩, -⟩ := h
  obtain ⟨⟨hlow', hhigh'⟩, -⟩ := h'
  have hmn : m = n := by
    unfold marchMonth at hmonth
    split_ifs at hmonth <;> omega
  subst hmn
  refine ⟨?_, rfl, by omega⟩
  unfold marchYear at hyear
  split_ifs at hyear <;> omega

/-! ### Texts -/

/-- Year, month and day with leading zeros. -/
def EightDigits (s : String) : Prop := s.toList.length = 8 ∧ ∀ c ∈ s.toList, c.isDigit = true

instance (s : String) : Decidable (EightDigits s) :=
  decidable_of_iff (s.toList.length = 8 ∧ s.toList.all Char.isDigit = true) (by simp [EightDigits])

theorem digitOf_inj {a b : Char} {n : ℤ} (ha : digitOf a = some n) (hb : digitOf b = some n) :
    a = b := by
  unfold digitOf at ha hb
  split_ifs at ha hb
  have hnat : a.toNat = b.toNat := by
    have := (Option.some.inj ha).trans (Option.some.inj hb).symm
    omega
  exact Char.ext (UInt32.toNat_inj.mp hnat)

theorem digitOf_bounds {a : Char} {n : ℤ} (h : digitOf a = some n) : 0 ≤ n ∧ n ≤ 9 := by
  unfold digitOf at h
  split_ifs at h with hdigit
  obtain rfl := Option.some.inj h
  simp only [Char.isDigit, Bool.and_eq_true, decide_eq_true_eq, ge_iff_le,
    UInt32.le_iff_toNat_le] at hdigit
  have hlow : 48 ≤ a.toNat := hdigit.1
  have hhigh : a.toNat ≤ 57 := hdigit.2
  omega

/-- Two digits are the number. -/
def Reads (a b : Char) (n : ℤ) : Prop := ∃ x y, digitOf a = some x ∧ digitOf b = some y ∧ n = 10 * x + y

theorem Reads.inj {a b a' b' : Char} {n : ℤ} (h : Reads a b n) (h' : Reads a' b' n) :
    a = a' ∧ b = b' := by
  obtain ⟨x, y, ha, hb, rfl⟩ := h
  obtain ⟨x', y', ha', hb', hsame⟩ := h'
  have := digitOf_bounds ha
  have := digitOf_bounds hb
  have := digitOf_bounds ha'
  have := digitOf_bounds hb'
  obtain rfl : x = x' := by omega
  obtain rfl : y = y' := by omega
  exact ⟨digitOf_inj ha ha', digitOf_inj hb hb'⟩

theorem yearOf_inj {a b c d a' b' c' d' : Char} {y : ℤ} (h : yearOf a b c d = some y)
    (h' : yearOf a' b' c' d' = some y) : a = a' ∧ b = b' ∧ c = c' ∧ d = d' := by
  simp only [yearOf, Option.bind_eq_bind, Option.bind_eq_some_iff, Option.pure_def,
    Option.some.injEq] at h h'
  obtain ⟨i, ha, j, hb, k, hc, l, hd, rfl⟩ := h
  obtain ⟨i', ha', j', hb', k', hc', l', hd', hsame⟩ := h'
  have := digitOf_bounds ha
  have := digitOf_bounds hb
  have := digitOf_bounds hc
  have := digitOf_bounds hd
  have := digitOf_bounds ha'
  have := digitOf_bounds hb'
  have := digitOf_bounds hc'
  have := digitOf_bounds hd'
  obtain rfl : i = i' := by omega
  obtain rfl : j = j' := by omega
  obtain rfl : k = k' := by omega
  obtain rfl : l = l' := by omega
  exact ⟨digitOf_inj ha ha', digitOf_inj hb hb', digitOf_inj hc hc', digitOf_inj hd hd'⟩

theorem mem_twoDigits {low high n : ℤ} {cs rest : List Char} (h : (n, rest) ∈ twoDigits low high cs) :
    ∃ a b, cs = a::b::rest ∧ Reads a b n ∧ low ≤ n ∧ n ≤ high := by
  rcases cs with _ | ⟨a, _ | ⟨b, cs⟩⟩
  · simp [twoDigits] at h
  · simp [twoDigits] at h
  · cases ha : digitOf a <;> cases hb : digitOf b <;> simp only [twoDigits, ha, hb] at h
    · simp at h
    · simp at h
    · simp at h
    · split_ifs at h with hrange
      · obtain ⟨rfl, rfl⟩ := Prod.mk.inj (List.mem_singleton.mp h)
        exact ⟨a, b, rfl, ⟨_, _, ha, hb, rfl⟩, hrange⟩
      · simp at h

theorem mem_oneDigit {n : ℤ} {cs rest : List Char} (h : (n, rest) ∈ oneDigit cs) :
    ∃ a, cs = a::rest := by
  rcases cs with _ | ⟨a, cs⟩
  · simp [oneDigit] at h
  · cases ha : digitOf a <;> simp only [oneDigit, ha] at h
    · simp at h
    · split_ifs at h
      · simp at h
      · obtain ⟨-, rfl⟩ := Prod.mk.inj (List.mem_singleton.mp h)
        exact ⟨a, rfl⟩

theorem mem_months {m : ℤ} {cs rest : List Char} (h : (m, rest) ∈ months cs) :
    (∃ a b, cs = a::b::rest ∧ Reads a b m ∧ 1 ≤ m ∧ m ≤ 12) ∨ ∃ a, cs = a::rest := by
  rcases List.mem_append.mp h with h | h
  · exact Or.inl (mem_twoDigits h)
  · exact Or.inr (mem_oneDigit h)

/-- What is read to the end as a day of the month has at most two characters. -/
theorem mem_days {d : ℤ} {cs : List Char} (h : (d, []) ∈ days cs) :
    (∃ a b, cs = [a, b] ∧ Reads a b d ∧ 1 ≤ d) ∨ (∃ a, cs = [a]) ∨ ∃ a, cs = [' ', a] := by
  rcases List.mem_append.mp h with h | h
  · rcases List.mem_append.mp h with h | h
    · obtain ⟨a, b, hcs, hread, hlow, -⟩ := mem_twoDigits h
      exact Or.inl ⟨a, b, hcs, hread, hlow⟩
    · exact Or.inr (Or.inl (mem_oneDigit h))
  · split_ifs at h with hblank
    · obtain ⟨a, htail⟩ := mem_oneDigit h
      rcases cs with _ | ⟨c, cs⟩
      · simp at htail
      · obtain rfl : c = ' ' := by simpa using hblank
        exact Or.inr (Or.inr ⟨a, by simpa using htail⟩)
    · simp at h

/-- Eight digits are read as four, two and two. -/
theorem strptime_eightDigits {s : String} {n : ℤ} (h : EightDigits s) (hs : strptime s = some n) :
    ∃ a b c d e f g k y m i, s.toList = [a, b, c, d, e, f, g, k] ∧ yearOf a b c d = some y ∧
      Reads e f m ∧ Reads g k i ∧ ValidDate y m i ∧ n = dayNumber y m i := by
  obtain ⟨hlength, hdigits⟩ := h
  obtain ⟨a, b, c, d, e, f, g, k, hlist⟩ :
      ∃ a b c d e f g k, s.toList = [a, b, c, d, e, f, g, k] := by
    generalize s.toList = cs at hlength
    match cs, hlength with
    | [a, b, c, d, e, f, g, k], _ => exact ⟨a, b, c, d, e, f, g, k, rfl⟩
  rw [hlist] at hdigits
  simp only [strptime, hlist, Option.bind_eq_bind, Option.bind_eq_some_iff] at hs
  obtain ⟨y, hy, ⟨m, i, rest⟩, hread, hs⟩ := hs
  dsimp only at hs
  split_ifs at hs with hvalid
  obtain ⟨rfl, -, hday⟩ := hvalid
  obtain ⟨⟨m', tail⟩, hm, hmem⟩ := List.mem_flatMap.mp (List.mem_of_head? hread)
  obtain ⟨⟨i', rest'⟩, hi, heq⟩ := List.mem_map.mp hmem
  obtain ⟨rfl, rfl, rfl⟩ : m' = m ∧ i' = i ∧ rest' = [] := by simpa using heq
  have htwo : ∃ a b, tail = [a, b] := by
    rcases mem_months hm with ⟨_, _, hcs, -⟩ | ⟨_, hcs⟩
    · exact ⟨g, k, by simpa using (List.cons.inj (List.cons.inj hcs).2).2.symm⟩
    · obtain rfl : [f, g, k] = tail := (List.cons.inj hcs).2
      rcases mem_days hi with ⟨_, _, hcs, -⟩ | ⟨_, hcs⟩ | ⟨_, hcs⟩ <;> simp at hcs
  obtain ⟨u, v, rfl⟩ := htwo
  rcases mem_months hm with ⟨_, _, hcs, hmonth, hrange⟩ | ⟨_, hcs⟩
  · obtain ⟨rfl, rfl, rfl, rfl, -⟩ := by simpa using hcs
    rcases mem_days hi with ⟨_, _, hcs, hdays, hlow⟩ | ⟨_, hcs⟩ | ⟨_, hcs⟩
    · obtain ⟨rfl, rfl⟩ := by simpa using hcs
      exact ⟨a, b, c, d, e, f, g, k, y, m', i', hlist, hy, hmonth, hdays, ⟨hrange, hlow, hday⟩,
        (Option.some.inj hs).symm⟩
    · simp at hcs
    · obtain ⟨rfl, rfl⟩ := by simpa using hcs
      exact absurd (hdigits ' ' (by simp)) (by decide)
  · simp at hcs

/-- A day has one text of eight digits. -/
theorem strptime_inj {s t : String} {n : ℤ} (hs : EightDigits s) (ht : EightDigits t)
    (hn : strptime s = some n) (hn' : strptime t = some n) : s = t := by
  obtain ⟨a, b, c, d, e, f, g, k, y, m, i, hlist, hy, hm, hi, hvalid, rfl⟩ :=
    strptime_eightDigits hs hn
  obtain ⟨a', b', c', d', e', f', g', k', y', m', i', hlist', hy', hm', hi', hvalid', hsame⟩ :=
    strptime_eightDigits ht hn'
  obtain ⟨rfl, rfl, rfl⟩ := dayNumber_inj hvalid hvalid' hsame
  obtain ⟨rfl, rfl, rfl, rfl⟩ := yearOf_inj hy hy'
  obtain ⟨rfl, rfl⟩ := hm.inj hm'
  obtain ⟨rfl, rfl⟩ := hi.inj hi'
  exact String.toList_injective (hlist.trans hlist'.symm)

end KisAutotrader.Calendar
