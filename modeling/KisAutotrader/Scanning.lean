import Mathlib.Data.List.TakeWhile

/-!
# Scans of a list

A scan takes what meets a test and stops at the first that does not.
-/
namespace KisAutotrader.Scanning

variable {α : Type}

/-- Where a scan stops: all before meets the test, what comes next does not. -/
theorem scan_iff {p : α → Bool} {l front rest : List α} :
    (l.takeWhile p = front ∧ l.dropWhile p = rest) ↔
      l = front ++ rest ∧ (∀ x ∈ front, p x = true) ∧ ∀ x ∈ rest.head?, p x = false := by
  constructor
  · rintro ⟨rfl, rfl⟩
    refine ⟨List.takeWhile_append_dropWhile.symm, fun x hx => List.mem_takeWhile_imp hx, ?_⟩
    intro x hx
    have hne : l.dropWhile p ≠ [] := by
      rintro hnil
      simp [hnil] at hx
    have hhead := List.head_dropWhile_not p hne
    rw [List.head?_eq_some_head hne] at hx
    obtain rfl := Option.some.inj hx
    exact hhead
  · rintro ⟨rfl, hfront, hrest⟩
    cases rest with
    | nil => simpa [List.takeWhile_eq_self_iff] using hfront
    | cons x xs =>
      have hx : p x = false := hrest x rfl
      rw [List.takeWhile_append_of_pos hfront, List.dropWhile_append_of_pos hfront]
      simp [hx]

theorem exists_scan (p : α → Bool) (l : List α) :
    ∃ front rest, l.takeWhile p = front ∧ l.dropWhile p = rest ∧
      l = front ++ rest ∧ (∀ x ∈ front, p x = true) ∧ ∀ x ∈ rest.head?, p x = false :=
  ⟨_, _, rfl, rfl, scan_iff.mp ⟨rfl, rfl⟩⟩

/-- The first occurrence of an element splits a list in one way. -/
theorem split_unique {x : α} {a b c d : List α} (h : a ++ x :: c = b ++ x :: d) (ha : x ∉ a)
    (hb : x ∉ b) : a = b ∧ c = d := by
  induction a generalizing b with
  | nil =>
    cases b with
    | nil => exact ⟨rfl, (List.cons.inj h).2⟩
    | cons y ys =>
      obtain rfl : x = y := (List.cons.inj h).1
      exact absurd List.mem_cons_self hb
  | cons y ys ih =>
    cases b with
    | nil =>
      obtain rfl : y = x := (List.cons.inj h).1
      exact absurd List.mem_cons_self ha
    | cons z zs =>
      obtain ⟨rfl, htail⟩ := List.cons.inj h
      obtain ⟨rfl, rfl⟩ := ih htail (fun hmem => ha (List.mem_cons_of_mem y hmem))
        fun hmem => hb (List.mem_cons_of_mem y hmem)
      exact ⟨rfl, rfl⟩

/-! ### Words between separators -/

section

variable {p : α → Prop} {w a b : List α}

theorem infix_append_left (hw : w ≠ []) (hword : ∀ x ∈ w, ¬p x) (ha : ∀ x ∈ a, p x) :
    w <:+: a ++ b ↔ w <:+: b := by
  induction a with
  | nil => rfl
  | cons x xs ih =>
    rw [List.cons_append, List.infix_cons_iff, ih fun y hy => ha y (List.mem_cons_of_mem x hy)]
    constructor
    · rintro (hfirst | hin)
      · -- the word starts with no separator
        obtain ⟨y, ys, rfl⟩ := List.exists_cons_of_ne_nil hw
        obtain rfl : y = x := (List.cons_prefix_cons.mp hfirst).1
        exact absurd (ha y List.mem_cons_self) (hword y List.mem_cons_self)
      · exact hin
    · exact Or.inr

theorem infix_append_right (hw : w ≠ []) (hword : ∀ x ∈ w, ¬p x) (hb : ∀ x ∈ b, p x) :
    w <:+: a ++ b ↔ w <:+: a := by
  rw [← List.reverse_infix, List.reverse_append,
    infix_append_left (by simpa using hw) (fun x hx => hword x (List.mem_reverse.mp hx))
      (fun x hx => hb x (List.mem_reverse.mp hx)), List.reverse_infix]

/-- A word without separators lies on one side of each. -/
theorem infix_append_cons {x : α} (hw : w ≠ []) (hword : ∀ y ∈ w, ¬p y) (hx : p x) :
    w <:+: a ++ x :: b ↔ w <:+: a ∨ w <:+: b := by
  have hcons : w <:+: x :: b ↔ w <:+: b := infix_append_left (a := [x]) hw hword (by simpa using hx)
  rw [List.infix_append_iff_ne_nil, hcons]
  constructor
  · rintro (ha | hb | ⟨front, back, -, hback, rfl, -, hfirst⟩)
    · exact Or.inl ha
    · exact Or.inr hb
    · obtain ⟨y, ys, rfl⟩ := List.exists_cons_of_ne_nil hback
      obtain rfl : y = x := (List.cons_prefix_cons.mp hfirst).1
      exact absurd hx (hword y (by simp))
  · rintro (ha | hb)
    · exact Or.inl ha
    · exact Or.inr (Or.inl hb)

end

end KisAutotrader.Scanning
