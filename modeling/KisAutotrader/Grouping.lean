import KisAutotrader.OrderedDict
import Mathlib.Algebra.BigOperators.Group.List.Basic
import Mathlib.Data.List.Dedup
import Mathlib.Data.List.Induction

/-!
# Grouping a list into a dictionary

Every element goes to the entry of its key: the first one starts the entry, each further one is
taken into it. An entry depends on the elements of its key only, and the keys stand
in the order of their first elements.
-/
namespace KisAutotrader.Grouping
open OrderedDict

variable {α κ ν : Type} [DecidableEq κ]

def absorb (key : α → κ) (start : α → ν) (more : ν → α → ν) (d : Dict κ ν) (x : α) : Dict κ ν :=
  match d.get? (key x) with
  | none => d.set (key x) (start x)
  | some v => d.set (key x) (more v x)

/-- The entry after one more element of its key. -/
def taken (start : α → ν) (more : ν → α → ν) (v : Option ν) (x : α) : Option ν :=
  match v with
  | none => some (start x)
  | some v => some (more v x)

def keys (d : Dict κ ν) : List κ := d.items.map Prod.fst

variable {key : α → κ} {start : α → ν} {more : ν → α → ν}

lemma get?_eq_none_iff {d : Dict κ ν} {k : κ} : d.get? k = none ↔ k ∉ keys d := by
  constructor
  · intro hnone hk
    obtain ⟨x, hx, rfl⟩ := List.mem_map.1 hk
    rw [Dict.mem_items.1 hx] at hnone
    cases hnone
  · intro hk
    by_contra hsome
    obtain ⟨v, hv⟩ := Option.ne_none_iff_exists'.1 hsome
    exact hk (List.mem_map.2 ⟨(k, v), Dict.mem_items.2 hv, rfl⟩)

lemma map_fst_write_of_mem {k : κ} {v : ν} {xs : List (κ × ν)} (h : k ∈ xs.map Prod.fst) :
    (write k v xs).map Prod.fst = xs.map Prod.fst := by
  induction xs with
  | nil => simp at h
  | cons x xs ih =>
      by_cases hx : x.1 = k
      · simp [write, hx]
      · have hk : k ∈ xs.map Prod.fst := by simpa [Ne.symm hx] using h
        simp [write, hx, ih hk]

lemma keys_set (d : Dict κ ν) (k : κ) (v : ν) :
    keys (d.set k v) = if k ∈ keys d then keys d else keys d ++ [k] := by
  split_ifs with hk
  · exact map_fst_write_of_mem hk
  · rw [keys, Dict.items_set_of_absent (get?_eq_none_iff.2 hk), List.map_append]
    rfl

lemma keys_absorb (d : Dict κ ν) (x : α) :
    keys (absorb key start more d x) = if key x ∈ keys d then keys d else keys d ++ [key x] := by
  unfold absorb
  cases d.get? (key x) <;> exact keys_set _ _ _

lemma get?_absorb (d : Dict κ ν) (x : α) (k : κ) :
    (absorb key start more d x).get? k = if key x = k then taken start more (d.get? k) x else d.get? k := by
  unfold absorb
  by_cases hk : key x = k
  · subst hk
    cases d.get? (key x) <;> simp [taken]
  · cases d.get? (key x) <;> simp [hk, Dict.get?_set_ne _ (Ne.symm hk)]

/-- The entry of a key after a list. -/
theorem get?_foldl_absorb (xs : List α) (d : Dict κ ν) (k : κ) :
    (xs.foldl (absorb key start more) d).get? k =
      (xs.filter fun x => decide (key x = k)).foldl (taken start more) (d.get? k) := by
  induction xs generalizing d with
  | nil => rfl
  | cons x xs ih =>
      rw [List.foldl_cons, ih, get?_absorb]
      by_cases hk : key x = k <;> simp [hk]

/-- The keys are those of the list, each at its first place. -/
theorem keys_foldl_absorb (xs : List α) :
    keys (xs.foldl (absorb key start more) (Dict.empty : Dict κ ν)) = (xs.map key).reverse.dedup.reverse := by
  induction xs using List.reverseRecOn with
  | nil => rfl
  | append_singleton xs x ih =>
      rw [List.foldl_append, List.foldl_cons, List.foldl_nil, keys_absorb, ih, List.map_append, List.map_singleton,
        List.reverse_append, List.reverse_singleton, List.singleton_append]
      by_cases hx : key x ∈ (xs.map key).reverse
      · rw [List.dedup_cons_of_mem hx, if_pos (List.mem_reverse.2 (List.mem_dedup.2 hx))]
      · have hnot : key x ∉ (xs.map key).reverse.dedup.reverse := by
          simpa [List.mem_dedup] using hx
        rw [List.dedup_cons_of_notMem hx, if_neg hnot, List.reverse_cons]

/-- The sums of the parts add up to the sum. -/
theorem sum_map_parts {M : Type} [AddCommMonoid M] (f : α → M) {ks : List κ} (hks : ks.Nodup) {xs : List α}
    (hkeys : ∀ x ∈ xs, key x ∈ ks) :
    (ks.map fun k => ((xs.filter fun x => decide (key x = k)).map f).sum).sum = (xs.map f).sum := by
  induction xs with
  | nil => simp
  | cons x xs ih =>
      have hsplit : ∀ k, (((x::xs).filter fun y => decide (key y = k)).map f).sum =
          (if k = key x then f x else 0) + ((xs.filter fun y => decide (key y = k)).map f).sum := by
        intro k
        by_cases hk : key x = k
        · simp [hk]
        · simp [hk, Ne.symm hk]
      have hown : (ks.map fun k => if k = key x then f x else 0).sum = f x := by
        rw [List.sum_map_eq_nsmul_single (key x) _ fun k hk _ => if_neg hk,
          List.count_eq_one_of_mem hks (hkeys x List.mem_cons_self), if_pos rfl, one_nsmul]
      simp only [hsplit]
      rw [List.sum_map_add, hown, ih fun y hy => hkeys y (List.mem_cons_of_mem x hy), List.map_cons,
        List.sum_cons]

/-- An entry grows out of the elements of its key, of which there is at least one. -/
theorem entry_induction {P : List α → ν → Prop} (hstart : ∀ x, P [x] (start x))
    (hmore : ∀ xs x v, P xs v → P (xs ++ [x]) (more v x)) {xs : List α} {v : ν}
    (h : xs.foldl (taken start more) none = some v) : P xs v := by
  induction xs using List.reverseRecOn generalizing v with
  | nil => cases h
  | append_singleton xs x ih =>
      rw [List.foldl_append, List.foldl_cons, List.foldl_nil] at h
      cases hxs : xs.foldl (taken start more) none with
      | none =>
          have hnil : xs = [] := by
            rcases List.eq_nil_or_concat' xs with rfl | ⟨ys, y, rfl⟩
            · rfl
            · rw [List.foldl_append, List.foldl_cons, List.foldl_nil] at hxs
              cases hys : ys.foldl (taken start more) none <;> simp [hys, taken] at hxs
          subst hnil
          obtain rfl : start x = v := by simpa [taken] using h
          exact hstart x
      | some w =>
          rw [hxs] at h
          obtain rfl : more w x = v := by simpa [taken] using h
          exact hmore xs x w (ih hxs)

lemma nodup_keys (d : Dict κ ν) : (keys d).Nodup := d.nodup

/-- What the entries hold adds up to what the elements bring. -/
theorem sum_entries {M : Type} [AddCommMonoid M] (f : ν → M) (g : α → M) (hstart : ∀ x, f (start x) = g x)
    (hmore : ∀ v x, f (more v x) = f v + g x) (xs : List α) :
    ((xs.foldl (absorb key start more) (Dict.empty : Dict κ ν)).items.map fun kv => f kv.2).sum = (xs.map g).sum := by
  let d := xs.foldl (absorb key start more) (Dict.empty : Dict κ ν)
  have hentry : ∀ kv ∈ d.items, f kv.2 = ((xs.filter fun x => decide (key x = kv.1)).map g).sum := by
    intro kv hkv
    have hget := (get?_foldl_absorb xs (Dict.empty : Dict κ ν) kv.1).symm.trans (Dict.mem_items.1 hkv)
    refine entry_induction (P := fun ys v => f v = (ys.map g).sum) ?_ ?_ hget
    · intro x
      simp [hstart]
    · intro ys x v ih
      simp [hmore, ih]
  have hkeys : ∀ x ∈ xs, key x ∈ keys d := by
    intro x hx
    rw [keys_foldl_absorb]
    simpa using ⟨x, hx, rfl⟩
  rw [List.map_congr_left hentry, ← sum_map_parts g (nodup_keys d) hkeys, keys, List.map_map]
  rfl

/-- An entry that collects the elements of its key. -/
theorem foldl_taken_append {β : Type} (f : α → β) (xs : List α) :
    xs.foldl (taken (fun x => [f x]) fun v x => v ++ [f x]) none = if xs = [] then none else some (xs.map f) := by
  induction xs using List.reverseRecOn with
  | nil => rfl
  | append_singleton xs x ih =>
      rw [List.foldl_append, List.foldl_cons, List.foldl_nil, ih]
      split_ifs with hxs <;> simp_all [taken]

end KisAutotrader.Grouping
