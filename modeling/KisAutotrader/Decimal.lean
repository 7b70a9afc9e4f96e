import Mathlib.Tactic.Cases
import KisAutotrader.Text

/-!
# Decimal numerals

The texts of integers: `int` reads back what `str` and the format with thousands separators write,
as long as the number of digits is within the limit of both.
-/
namespace KisAutotrader.Decimal
open Text

/-- `str` of a natural number. -/
def digitsOf (n : ℕ) : List Char := Nat.toDigits 10 n

/-- A comma after every third of the digits, which come last first. -/
def groupRev : List Char → List Char
  | a::b::c::d::cs => a::b::c:: ','::groupRev (d::cs)
  | cs => cs

def grouped (cs : List Char) : List Char := (groupRev cs.reverse).reverse

/-- The format `","` of an integer; too many digits are a `ValueError`. -/
def formatComma (i : ℤ) : Option (List Char) :=
  if maxDigits < (digitsOf i.natAbs).length then none
  else some ((if i < 0 then ['-'] else []) ++ grouped (digitsOf i.natAbs))

/-! ### Digits -/

theorem digitVal_digitChar : ∀ d < 10, digitVal d.digitChar = some d := by decide +kernel

theorem digitChar_plain : ∀ d < 10, isSpace d.digitChar = false ∧ d.digitChar ≠ '_' ∧
    d.digitChar ≠ ',' := by decide

theorem digitsOf_induct {P : List Char → ℕ → Prop} (hlast : ∀ d < 10, P [d.digitChar] d)
    (hmore : ∀ cs n, ∀ d < 10, P cs n → P (cs ++ [d.digitChar]) (10 * n + d)) (n : ℕ) :
    P (digitsOf n) n := by
  induction n using Nat.strong_induction_on with
  | _ n ih =>
      by_cases hsmall : n < 10
      · rw [digitsOf, Nat.toDigits_of_lt_base hsmall]
        exact hlast n hsmall
      · have hsplit : 10 * (n / 10) + n % 10 = n := Nat.div_add_mod n 10
        rw [digitsOf, Nat.toDigits_of_base_le (by decide) (not_lt.mp hsmall)]
        conv => arg 2; rw [← hsplit]
        exact hmore _ _ _ (Nat.mod_lt n (by decide)) (ih (n / 10) (by omega))

theorem exists_digit {n : ℕ} : ∀ c ∈ digitsOf n, ∃ d < 10, c = d.digitChar := by
  refine digitsOf_induct (P := fun cs _ => ∀ c ∈ cs, ∃ d < 10, c = d.digitChar) ?_ ?_ n
  · intro d hd c hc
    exact ⟨d, hd, List.mem_singleton.mp hc⟩
  · intro cs n d hd ih c hc
    rcases List.mem_append.mp hc with hold | hnew
    · exact ih c hold
    · exact ⟨d, hd, List.mem_singleton.mp hnew⟩

theorem isDecimal_of_mem {n : ℕ} {c : Char} (h : c ∈ digitsOf n) : isDecimal c = true := by
  obtain ⟨d, hd, rfl⟩ := exists_digit c h
  rw [isDecimal, digitVal_digitChar d hd]
  rfl

theorem plain_of_mem {n : ℕ} {c : Char} (h : c ∈ digitsOf n) :
    isSpace c = false ∧ c ≠ '_' ∧ c ≠ ',' := by
  obtain ⟨d, hd, rfl⟩ := exists_digit c h
  exact digitChar_plain d hd

theorem digitsOf_ne_nil (n : ℕ) : digitsOf n ≠ [] :=
  List.ne_nil_of_length_pos Nat.length_toDigits_pos

/-! ### Reading -/

theorem parseDigits_cons {c : Char} (h : c ≠ '_') (acc : ℕ) (cs : List Char) :
    parseDigits acc (c::cs) = (digitVal c).bind fun d => parseDigits (10 * acc + d) cs := by
  cases cs with
  | nil => rw [parseDigits]
           simp [h]
  | cons => rw [parseDigits]
            simp [h]

theorem parseDigits_concat {cs : List Char} (hcs : '_' ∉ cs) {c : Char} (hc : c ≠ '_') (acc : ℕ) :
    parseDigits acc (cs ++ [c]) =
      (parseDigits acc cs).bind fun v => (digitVal c).map fun d => 10 * v + d := by
  induction cs generalizing acc with
  | nil =>
      rw [List.nil_append, parseDigits_cons hc, parseDigits]
      cases digitVal c <;> simp [parseDigits]
  | cons b cs ih =>
      obtain ⟨hb, hcs⟩ := not_or.mp (List.mem_cons.not.mp hcs)
      rw [List.cons_append, parseDigits_cons (Ne.symm hb), parseDigits_cons (Ne.symm hb),
        Option.bind_assoc]
      congr 1
      funext d
      exact ih hcs _

theorem parseDigits_digitsOf (n : ℕ) : parseDigits 0 (digitsOf n) = some n := by
  have hboth : parseDigits 0 (digitsOf n) = some n ∧ '_' ∉ digitsOf n := by
    refine digitsOf_induct (P := fun cs n => parseDigits 0 cs = some n ∧ '_' ∉ cs) ?_ ?_ n
    · intro d hd
      obtain ⟨-, hne, -⟩ := digitChar_plain d hd
      refine ⟨?_, by simp [hne.symm]⟩
      rw [parseDigits_cons hne, digitVal_digitChar d hd]
      simp [parseDigits]
    · rintro cs n d hd ⟨hread, hcs⟩
      obtain ⟨-, hne, -⟩ := digitChar_plain d hd
      refine ⟨?_, by simp [hcs, hne.symm]⟩
      rw [parseDigits_concat hcs hne, hread, digitVal_digitChar d hd]
      rfl
  exact hboth.1

theorem parseNat_digitsOf {n : ℕ} (h : (digitsOf n).length ≤ maxDigits) :
    parseNat (digitsOf n) = some n := by
  have hcount : (digitsOf n).countP isDecimal = (digitsOf n).length :=
    List.countP_eq_length.mpr fun c hc => isDecimal_of_mem hc
  unfold parseNat
  rw [hcount, if_neg (not_lt.mpr h)]
  obtain ⟨c, cs, hcs⟩ := List.exists_cons_of_ne_nil (digitsOf_ne_nil n)
  have hne : c ≠ '_' := (plain_of_mem (hcs ▸ List.mem_cons_self)).2.1
  have hread := parseDigits_digitsOf n
  rw [hcs, parseDigits_cons hne] at hread
  rw [hcs]
  simpa using hread

theorem stripChars_eq {cs : List Char} (h : ∀ c ∈ cs, isSpace c = false) : stripChars cs = cs := by
  have hkeep : ∀ {ds : List Char}, (∀ c ∈ ds, isSpace c = false) → ds.dropWhile isSpace = ds := by
    intro ds hds
    cases ds with
    | nil => rfl
    | cons d ds => simp [hds d List.mem_cons_self]
  rw [stripChars, hkeep h, hkeep (fun c hc => h c (List.mem_reverse.mp hc)), List.reverse_reverse]

/-- `int` of a numeral with its sign, which may be left out before a number that is not negative. -/
theorem parseInt_signed {i : ℤ} (h : (digitsOf i.natAbs).length ≤ maxDigits) :
    parseInt ((if i < 0 then '-' else '+')::digitsOf i.natAbs) = some i := by
  have hstrip : stripChars ((if i < 0 then '-' else '+')::digitsOf i.natAbs) =
      (if i < 0 then '-' else '+')::digitsOf i.natAbs := by
    apply stripChars_eq
    intro c hc
    rcases List.mem_cons.mp hc with rfl | hc
    · split_ifs <;> decide
    · exact (plain_of_mem hc).1
  unfold parseInt
  rw [hstrip]
  by_cases hneg : i < 0
  · simp only [if_pos hneg, parseNat_digitsOf h]
    exact congrArg some (by omega : -(i.natAbs : ℤ) = i)
  · simp only [if_neg hneg, parseNat_digitsOf h]
    exact congrArg some (by omega : (i.natAbs : ℤ) = i)

theorem parseInt_digitsOf {n : ℕ} (h : (digitsOf n).length ≤ maxDigits) : parseInt (digitsOf n) = some (n : ℤ) := by
  have hstrip : stripChars (digitsOf n) = digitsOf n := stripChars_eq fun c hc => (plain_of_mem hc).1
  have hread := parseNat_digitsOf h
  obtain ⟨c, cs, hcs⟩ := List.exists_cons_of_ne_nil (digitsOf_ne_nil n)
  obtain ⟨d, hd, hdigit⟩ := exists_digit c (hcs ▸ List.mem_cons_self)
  have hsign : ∀ d < 10, d.digitChar ≠ '-' ∧ d.digitChar ≠ '+' := by decide
  unfold parseInt
  rw [hstrip]
  rw [hcs] at hread ⊢
  split
  next heq => exact absurd (hdigit ▸ (List.cons.inj heq).1) (hsign d hd).1
  next heq => exact absurd (hdigit ▸ (List.cons.inj heq).1) (hsign d hd).2
  next => rw [hread]; rfl

/-! ### Thousands separators -/

theorem filter_groupRev {cs : List Char} (h : ',' ∉ cs) : (groupRev cs).filter (· ≠ ',') = cs := by
  induction cs using groupRev.induct with
  | case1 a b c d cs ih =>
      simp only [List.mem_cons, not_or] at h
      obtain ⟨ha, hb, hc, hd, hcs⟩ := h
      have hrest := ih (by simp [hd, hcs])
      rw [groupRev, List.filter_cons_of_pos (by simpa using Ne.symm ha),
        List.filter_cons_of_pos (by simpa using Ne.symm hb),
        List.filter_cons_of_pos (by simpa using Ne.symm hc), List.filter_cons_of_neg (by simp), hrest]
  | case2 cs hshort =>
      rw [groupRev.eq_2 _ hshort, List.filter_eq_self]
      intro c hc
      exact decide_eq_true fun hcomma => h (hcomma ▸ hc)

theorem mem_groupRev {cs : List Char} {c : Char} (h : c ∈ groupRev cs) : c = ',' ∨ c ∈ cs := by
  induction cs using groupRev.induct with
  | case1 a b c' d cs ih =>
      rw [groupRev] at h
      simp only [List.mem_cons] at h ih ⊢
      rcases h with h | h | h | h | h
      · exact .inr (.inl h)
      · exact .inr (.inr (.inl h))
      · exact .inr (.inr (.inr (.inl h)))
      · exact .inl h
      · exact (ih h).imp_right fun h => .inr (.inr (.inr h))
  | case2 cs hshort =>
      rw [groupRev.eq_2 _ hshort] at h
      exact .inr h

theorem filter_grouped {cs : List Char} (h : ',' ∉ cs) : (grouped cs).filter (· ≠ ',') = cs := by
  rw [grouped, List.filter_reverse, filter_groupRev (by simpa using h), List.reverse_reverse]

theorem mem_grouped {cs : List Char} {c : Char} (h : c ∈ grouped cs) : c = ',' ∨ c ∈ cs := by
  rcases mem_groupRev (List.mem_reverse.mp h) with hcomma | hmem
  · exact .inl hcomma
  · exact .inr (List.mem_reverse.mp hmem)

example : formatComma (-1234567) = some "-1,234,567".toList := by decide +kernel

end KisAutotrader.Decimal
