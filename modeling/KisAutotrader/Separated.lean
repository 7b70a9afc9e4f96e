import Mathlib.Data.List.Basic
import Mathlib.Data.List.Infix
import Mathlib.Data.List.TakeWhile

/-!
# Names joined with a separator

What a joined list of names begins with, and what it ends in, is read off its names as long as no name has the
separator. Names are resolved one by one, one of them being the way up.
-/
namespace KisAutotrader.Separated

section Joined
variable {α : Type} {sep : α} {name other text rest : List α} {names : List (List α)}

/-- The first separator tells the name before it. -/
theorem cons_sep_inj (hname : sep ∉ name) (hother : sep ∉ other) :
    name ++ sep::text = other ++ sep::rest ↔ name = other ∧ text = rest := by
  constructor
  · intro h
    induction name generalizing other with
    | nil =>
      cases other with
      | nil => exact ⟨rfl, List.tail_eq_of_cons_eq h⟩
      | cons b other => exact absurd ((List.cons.inj h).1 ▸ List.mem_cons_self) hother
    | cons a name ih =>
      obtain ⟨ha, hname⟩ := not_or.mp (List.mem_cons.not.mp hname)
      cases other with
      | nil => exact absurd (List.cons.inj h).1.symm ha
      | cons b other =>
        obtain ⟨hab, htail⟩ := List.cons.inj h
        obtain ⟨rfl, rfl⟩ := ih hname (fun hmem => hother (List.mem_cons_of_mem _ hmem)) htail
        exact ⟨by rw [hab], rfl⟩
  · rintro ⟨rfl, rfl⟩
    rfl

/-- A joined list begins with a name and the separator exactly when that is its first name, and not its
last one. -/
theorem name_sep_prefix_iff (hname : sep ∉ name) (hnames : ∀ other ∈ names, sep ∉ other) :
    name ++ sep::text <+: [sep].intercalate names ↔
      ∃ rest, names = name::rest ∧ rest ≠ [] ∧ text <+: [sep].intercalate rest := by
  cases names with
  | nil => simp [List.intercalate]
  | cons first rest =>
    have hfirst := hnames first List.mem_cons_self
    cases rest with
    | nil =>
      refine ⟨fun h => ?_, fun ⟨rest, heq, hne, _⟩ => absurd (List.cons.inj heq).2.symm hne⟩
      rw [List.intercalate_singleton] at h
      exact absurd (h.subset (List.mem_append_right _ List.mem_cons_self)) hfirst
    | cons second rest =>
      rw [List.intercalate_cons_cons, List.append_assoc, List.singleton_append]
      constructor
      · rintro ⟨tail, htail⟩
        rw [List.append_assoc, List.cons_append, cons_sep_inj hname hfirst] at htail
        obtain ⟨rfl, htail⟩ := htail
        exact ⟨second::rest, rfl, List.cons_ne_nil _ _, tail, htail⟩
      · rintro ⟨others, heq, -, tail, htail⟩
        obtain ⟨rfl, rfl⟩ := List.cons.inj heq
        exact ⟨tail, by rw [← htail, List.append_assoc, List.cons_append]⟩

/-- A text without a separator begins a joined list when it begins the first name. -/
theorem prefix_intercalate_iff (htext : sep ∉ text) (hne : text ≠ []) :
    text <+: [sep].intercalate names ↔ ∃ first rest, names = first::rest ∧ text <+: first := by
  cases names with
  | nil => simp [List.intercalate, hne]
  | cons first rest =>
    have hbegin : text <+: [sep].intercalate (first::rest) ↔ text <+: first := by
      cases rest with
      | nil => rw [List.intercalate_singleton]
      | cons second rest =>
        rw [List.intercalate_cons_cons, List.append_assoc, List.singleton_append]
        refine ⟨fun h => ?_, fun h => h.trans (List.prefix_append _ _)⟩
        rcases List.prefix_or_prefix_of_prefix h (List.prefix_append first _) with hle | hge
        · exact hle
        · obtain ⟨more, rfl⟩ := hge
          cases more with
          | nil => rw [List.append_nil]
          | cons a more =>
            have hhead : a = sep := by
              obtain ⟨tail, htail⟩ := h
              rw [List.append_assoc] at htail
              exact (List.cons.inj (List.append_cancel_left htail)).1
            exact absurd (List.mem_append_right _ (hhead ▸ List.mem_cons_self)) htext
    rw [hbegin]
    constructor
    · exact fun h => ⟨first, rest, rfl, h⟩
    · rintro ⟨_, _, heq, h⟩
      obtain ⟨rfl, rfl⟩ := List.cons.inj heq
      exact h

variable [DecidableEq α]

/-- What follows the last separator. -/
def afterLast (sep : α) (text : List α) : List α := (text.reverse.takeWhile (· ≠ sep)).reverse

theorem afterLast_of_notMem (h : sep ∉ text) : afterLast sep text = text := by
  have hall : ∀ a ∈ text.reverse, decide (a ≠ sep) = true := by
    intro a ha
    rw [List.mem_reverse] at ha
    exact decide_eq_true fun heq => h (heq ▸ ha)
  rw [afterLast, List.takeWhile_eq_self_iff.mpr hall, List.reverse_reverse]

theorem afterLast_append_sep (before text : List α) :
    afterLast sep (before ++ sep::text) = afterLast sep text := by
  rw [afterLast, List.reverse_append, List.reverse_cons, List.append_assoc, List.takeWhile_append]
  split_ifs with hall
  · rw [List.singleton_append, List.takeWhile_cons_of_neg (by simp), List.append_nil, afterLast,
      (List.takeWhile_sublist _).eq_of_length hall]
  · rfl

theorem notMem_of_mem_splitOn (h : name ∈ text.splitOn sep) : sep ∉ name := by
  induction text generalizing name with
  | nil =>
    rw [List.splitOn_nil, List.mem_singleton] at h
    exact h ▸ List.not_mem_nil
  | cons c text ih =>
    rw [List.splitOn_cons_eq_if_modifyHead] at h
    split_ifs at h with hc
    · rcases List.mem_cons.mp h with rfl | h
      · exact List.not_mem_nil
      · exact ih h
    · obtain ⟨first, rest, hsplit⟩ := List.exists_cons_of_ne_nil (List.splitOn_ne_nil sep text)
      rw [hsplit, List.modifyHead_cons] at h
      rcases List.mem_cons.mp h with rfl | h
      · intro hmem
        rcases List.mem_cons.mp hmem with rfl | hmem
        · exact hc (beq_self_eq_true _)
        · exact ih (hsplit ▸ List.mem_cons_self) hmem
      · exact ih (hsplit ▸ List.mem_cons_of_mem _ h)

/-- Names that are joined end in the last one. -/
theorem afterLast_intercalate (names : List (List α)) (hname : sep ∉ name) :
    afterLast sep ([sep].intercalate (names ++ [name])) = name := by
  induction names with
  | nil => rw [List.nil_append, List.intercalate_singleton, afterLast_of_notMem hname]
  | cons first rest ih =>
    have hne : rest ++ [name] ≠ [] := List.append_ne_nil_of_right_ne_nil _ (List.cons_ne_nil _ _)
    rw [List.cons_append, List.intercalate_cons_of_ne_nil hne, List.append_assoc, List.singleton_append,
      afterLast_append_sep, ih]

end Joined

section Resolution
variable {β : Type} [DecidableEq β] {up name : β} {base names : List β}

/-- A name goes down, the way up leaves the last name. -/
def climb (up : β) (place : List β) (name : β) : List β :=
  if name = up then place.dropLast else place ++ [name]

def resolve (up : β) (base names : List β) : List β := names.foldl (climb up) base

theorem resolve_of_notMem (h : up ∉ names) : resolve up base names = base ++ names := by
  induction names generalizing base with
  | nil => rw [List.append_nil]; rfl
  | cons name names ih =>
    obtain ⟨hname, hnames⟩ := not_or.mp (List.mem_cons.not.mp h)
    rw [resolve, List.foldl_cons, climb, if_neg (Ne.symm hname), ← resolve, ih hnames, List.append_assoc,
      List.singleton_append]

/-- The place ends in the last name, unless that is the way up. -/
theorem getLast?_resolve (h : name ≠ up) :
    (resolve up base (names ++ [name])).getLast? = some name := by
  rw [resolve, List.foldl_append, List.foldl_cons, List.foldl_nil, climb, if_neg h, List.getLast?_concat]

end Resolution

end KisAutotrader.Separated
