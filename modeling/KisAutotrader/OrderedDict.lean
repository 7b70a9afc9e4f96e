import Mathlib.Data.List.Basic
import Mathlib.Data.List.Nodup

/-!
# Dictionaries in insertion order

Each key occurs once. Writing to a present key keeps its place, a new key goes
last, and iteration follows the order of first insertion.
-/
namespace KisAutotrader.OrderedDict

variable {κ ν : Type} [DecidableEq κ]

def lookup (k : κ) : List (κ × ν) → Option ν
  | [] => none
  | x::xs => if x.1 = k then some x.2 else lookup k xs

def write (k : κ) (v : ν) : List (κ × ν) → List (κ × ν)
  | [] => [(k, v)]
  | x::xs => if x.1 = k then (k, v)::xs else x::write k v xs

def erase (k : κ) : List (κ × ν) → List (κ × ν)
  | [] => []
  | x::xs => if x.1 = k then erase k xs else x::erase k xs

lemma lookup_write_self (k : κ) (v : ν) (xs : List (κ × ν)) :
    lookup k (write k v xs) = some v := by
  induction xs with
  | nil => simp [write, lookup]
  | cons x xs ih => by_cases hx : x.1 = k <;> simp [write, lookup, hx, ih]

lemma lookup_write_ne {k j : κ} (h : j ≠ k) (v : ν) (xs : List (κ × ν)) :
    lookup j (write k v xs) = lookup j xs := by
  induction xs with
  | nil => simp [write, lookup, Ne.symm h]
  | cons x xs ih =>
    by_cases hx : x.1 = k
    · simp [write, lookup, hx, Ne.symm h]
    · simp [write, lookup, hx, ih]

lemma write_of_absent {k : κ} {xs : List (κ × ν)} (h : lookup k xs = none) (v : ν) :
    write k v xs = xs ++ [(k, v)] := by
  induction xs with
  | nil => rfl
  | cons x xs ih =>
    unfold lookup at h
    split_ifs at h with hx
    simp [write, hx, ih h]

lemma lookup_erase_self (k : κ) (xs : List (κ × ν)) : lookup k (erase k xs) = none := by
  induction xs with
  | nil => rfl
  | cons x xs ih => by_cases hx : x.1 = k <;> simp [erase, lookup, hx, ih]

lemma lookup_erase_ne {k j : κ} (h : j ≠ k) (xs : List (κ × ν)) :
    lookup j (erase k xs) = lookup j xs := by
  induction xs with
  | nil => rfl
  | cons x xs ih =>
    by_cases hx : x.1 = k
    · simp [erase, lookup, hx, ih, Ne.symm h]
    · simp [erase, lookup, hx, ih]

lemma erase_sublist (k : κ) (xs : List (κ × ν)) : (erase k xs).Sublist xs := by
  induction xs with
  | nil => exact List.Sublist.refl _
  | cons x xs ih =>
    by_cases hx : x.1 = k
    · simpa [erase, hx] using ih.cons x
    · simpa [erase, hx] using ih.cons_cons x

lemma write_keys (k : κ) (v : ν) (xs : List (κ × ν)) :
    ∀ j ∈ (write k v xs).map Prod.fst, j = k ∨ j ∈ xs.map Prod.fst := by
  induction xs with
  | nil => simp [write]
  | cons x xs ih =>
    intro j hj
    by_cases hx : x.1 = k
    · simp only [write, hx, if_true, List.map_cons, List.mem_cons] at hj ⊢
      tauto
    · simp only [write, hx, if_false, List.map_cons, List.mem_cons] at hj ⊢
      rcases hj with hj | hj
      · exact Or.inr (Or.inl hj)
      · exact (ih j hj).imp id Or.inr

lemma write_nodup (k : κ) (v : ν) {xs : List (κ × ν)} (h : (xs.map Prod.fst).Nodup) :
    ((write k v xs).map Prod.fst).Nodup := by
  induction xs with
  | nil => simp [write]
  | cons x xs ih =>
    simp only [List.map_cons, List.nodup_cons] at h
    by_cases hx : x.1 = k
    · simpa [write, hx] using ⟨by simpa [hx] using h.1, h.2⟩
    · simp only [write, hx, if_false, List.map_cons, List.nodup_cons]
      refine ⟨fun hm => ?_, ih h.2⟩
      rcases write_keys k v xs _ hm with he | hm
      · exact hx he
      · exact h.1 hm

lemma erase_nodup (k : κ) {xs : List (κ × ν)} (h : (xs.map Prod.fst).Nodup) :
    ((erase k xs).map Prod.fst).Nodup :=
  h.sublist ((erase_sublist k xs).map _)

lemma lookup_eq_some {xs : List (κ × ν)} (h : (xs.map Prod.fst).Nodup) {k : κ} {v : ν} :
    lookup k xs = some v ↔ (k, v) ∈ xs := by
  induction xs with
  | nil => simp [lookup]
  | cons x xs ih =>
    simp only [List.map_cons, List.nodup_cons] at h
    obtain ⟨a, b⟩ := x
    by_cases hx : a = k
    · subst a
      have hn : (k, v) ∉ xs := fun hm => h.1 (List.mem_map.mpr ⟨_, hm, rfl⟩)
      simp [lookup, hn, eq_comm]
    · simp [lookup, hx, ih h.2, Ne.symm hx]

/-- A dictionary, with its iteration order. -/
structure Dict (κ ν : Type) [DecidableEq κ] where
  items : List (κ × ν)
  nodup : (items.map Prod.fst).Nodup

namespace Dict

def empty : Dict κ ν := ⟨[], List.nodup_nil⟩

def get? (d : Dict κ ν) (k : κ) : Option ν := lookup k d.items

def set (d : Dict κ ν) (k : κ) (v : ν) : Dict κ ν := ⟨write k v d.items, write_nodup k v d.nodup⟩

def pop (d : Dict κ ν) (k : κ) : Dict κ ν := ⟨erase k d.items, erase_nodup k d.nodup⟩

/-- Write only when the key is absent. -/
def setDefault (d : Dict κ ν) (k : κ) (v : ν) : Dict κ ν :=
  match d.get? k with
  | some _ => d
  | none => d.set k v

@[simp] theorem get?_empty (k : κ) : (empty : Dict κ ν).get? k = none := rfl

@[simp] theorem get?_set_self (d : Dict κ ν) (k : κ) (v : ν) : (d.set k v).get? k = some v :=
  lookup_write_self k v d.items

@[simp] theorem get?_set_ne (d : Dict κ ν) {k j : κ} (h : j ≠ k) (v : ν) :
    (d.set k v).get? j = d.get? j := lookup_write_ne h v d.items

@[simp] theorem get?_pop_self (d : Dict κ ν) (k : κ) : (d.pop k).get? k = none :=
  lookup_erase_self k d.items

@[simp] theorem get?_pop_ne (d : Dict κ ν) {k j : κ} (h : j ≠ k) :
    (d.pop k).get? j = d.get? j := lookup_erase_ne h d.items

theorem get?_set (d : Dict κ ν) (k j : κ) (v : ν) :
    (d.set k v).get? j = if j = k then some v else d.get? j := by
  by_cases h : j = k
  · subst j
    simp
  · simp [h]

theorem get?_pop (d : Dict κ ν) (k j : κ) :
    (d.pop k).get? j = if j = k then none else d.get? j := by
  by_cases h : j = k
  · subst j
    simp
  · simp [h]

theorem get?_setDefault (d : Dict κ ν) (k j : κ) (v : ν) :
    (d.setDefault k v).get? j =
      if j = k then some ((d.get? k).getD v) else d.get? j := by
  unfold setDefault
  cases hk : d.get? k with
  | none => simp [get?_set]
  | some w =>
    by_cases h : j = k
    · subst j
      simp [hk]
    · simp [h]

/-- A new key goes last. -/
theorem items_set_of_absent {d : Dict κ ν} {k : κ} (h : d.get? k = none) (v : ν) :
    (d.set k v).items = d.items ++ [(k, v)] := write_of_absent h v

theorem mem_items {d : Dict κ ν} {k : κ} {v : ν} : (k, v) ∈ d.items ↔ d.get? k = some v :=
  (lookup_eq_some d.nodup).symm

end Dict

end KisAutotrader.OrderedDict
