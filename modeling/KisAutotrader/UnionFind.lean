import Mathlib.Data.List.Basic
import Mathlib.Logic.Function.Basic
import Mathlib.Logic.Relation

/-!
# Union-find with path halving

A parent map is a forest when a measure falls along it. Finding a root shortens paths and changes no
root; a union gives the elements of one root another one. After a list of unions two elements have the same
root exactly when the list connects them.
-/
namespace KisAutotrader.UnionFind

variable {α : Type}

/-- The parents lead to the roots, and the measure falls on the way down to zero. -/
structure Forest (parent root : α → α) (height : α → ℕ) : Prop where
  root_parent : ∀ x, root (parent x) = root x
  root_fixed : ∀ x, parent x = x → root x = x
  parent_root : ∀ x, parent (root x) = root x
  falls : ∀ x, parent x ≠ x → height (parent x) < height x
  height_root : ∀ x, height (root x) = 0

section Heights
variable {parent root : α → α} {height : α → ℕ} {x : α}

theorem forest_id : Forest (id : α → α) id fun _ => 0 where
  root_parent _ := rfl
  root_fixed _ _ := rfl
  parent_root _ := rfl
  falls _ h := absurd rfl h
  height_root _ := rfl

theorem Forest.root_root (h : Forest parent root height) (x : α) : root (root x) = root x :=
  h.root_fixed _ (h.parent_root x)

theorem Forest.parent_eq_iff (h : Forest parent root height) : parent x = x ↔ root x = x := by
  refine ⟨h.root_fixed x, fun hroot => ?_⟩
  have hparent := h.parent_root x
  rwa [hroot] at hparent

end Heights

/-- A map that connects the ends of every step connects the ends of every chain. -/
theorem eqvGen_map {β : Type} {r : α → α → Prop} {s : β → β → Prop} (f : α → β)
    (h : ∀ u v, r u v → Relation.EqvGen s (f u) (f v)) {x y : α} (hpath : Relation.EqvGen r x y) :
    Relation.EqvGen s (f x) (f y) := by
  induction hpath with
  | rel u v hstep => exact h u v hstep
  | refl u => exact Relation.EqvGen.refl _
  | symm u v _ ih => exact Relation.EqvGen.symm _ _ ih
  | trans u v w _ _ ihu ihv => exact Relation.EqvGen.trans _ _ _ ihu ihv

variable [DecidableEq α]

/-- The root above `x`, and the parents after its path has been halved. -/
def find : ℕ → (α → α) → α → Option ((α → α) × α)
  | fuel, parent, x =>
      if parent x = x then some (parent, x)
      else match fuel with
        | 0 => none
        | fuel + 1 =>
            find fuel (Function.update parent x (parent (parent x))) (parent (parent x))

def union (fuel : ℕ) (parent : α → α) (a b : α) : Option (α → α) := do
  let (parent, ra) ← find fuel parent a
  let (parent, rb) ← find fuel parent b
  if ra ≠ rb then some (Function.update parent ra rb) else some parent

def unionAll (fuel : ℕ) (parent : α → α) (pairs : List (α × α)) : Option (α → α) :=
  pairs.foldlM (fun parent pair => union fuel parent pair.1 pair.2) parent

section Roots
variable {parent root : α → α} {height : α → ℕ} {bound fuel : ℕ} {a b x : α}

namespace Forest

/-- Halving a path once. -/
theorem halve (h : Forest parent root height) (hx : parent x ≠ x) :
    Forest (Function.update parent x (parent (parent x))) root height := by
  have hfalls : height (parent (parent x)) < height x := by
    have hstep := h.falls x hx
    by_cases hfixed : parent (parent x) = parent x
    · rwa [hfixed]
    · exact Nat.lt_trans (h.falls _ hfixed) hstep
  refine ⟨fun y => ?_, fun y hy => ?_, fun y => ?_, fun y hy => ?_, h.height_root⟩
  · by_cases hyx : y = x
    · subst hyx
      rw [Function.update_self, h.root_parent, h.root_parent]
    · rw [Function.update_of_ne hyx, h.root_parent]
  · by_cases hyx : y = x
    · subst hyx
      rw [Function.update_self] at hy
      rw [hy] at hfalls
      exact absurd hfalls (Nat.lt_irrefl _)
    · rw [Function.update_of_ne hyx] at hy
      exact h.root_fixed y hy
  · have hne : root y ≠ x := fun hroot => hx (h.parent_eq_iff.mpr (hroot ▸ h.root_root y))
    rw [Function.update_of_ne hne, h.parent_root]
  · by_cases hyx : y = x
    · subst hyx
      rwa [Function.update_self]
    · rw [Function.update_of_ne hyx] at hy ⊢
      exact h.falls y hy

/-- Enough fuel finds the root. -/
theorem find_eq (h : Forest parent root height) (hfuel : height x ≤ fuel) :
    ∃ halved, find fuel parent x = some (halved, root x) ∧ Forest halved root height := by
  induction fuel generalizing parent x with
  | zero =>
    have hfixed : parent x = x := by
      by_contra hx
      have hfalls := h.falls x hx
      omega
    exact ⟨parent, by rw [find, if_pos hfixed, h.root_fixed x hfixed], h⟩
  | succ fuel ih =>
    by_cases hx : parent x = x
    · exact ⟨parent, by rw [find, if_pos hx, h.root_fixed x hx], h⟩
    · have hhalved := h.halve hx
      have hfalls := hhalved.falls x
      rw [Function.update_self] at hfalls
      have hmoved : parent (parent x) ≠ x := by
        intro hback
        have hroot := hhalved.root_fixed x (by rw [Function.update_self, hback])
        exact hx (h.parent_eq_iff.mpr hroot)
      obtain ⟨halved, hfind, hforest⟩ := ih hhalved (x := parent (parent x))
        (by have := hfalls hmoved; omega)
      refine ⟨halved, ?_, hforest⟩
      rw [find, if_neg hx]
      simpa only [h.root_parent] using hfind

end Forest

/-- The roots after a union. -/
def merged (root : α → α) (a b y : α) : α := if root y = root a then root b else root y

/-- The elements that get a new root are one further above it. -/
def raised (root : α → α) (height : α → ℕ) (a b y : α) : ℕ :=
  if root a ≠ root b ∧ root y = root a then height y + 1 else height y

theorem raised_le (hbound : ∀ y, height y ≤ bound) (y : α) : raised root height a b y ≤ bound + 1 := by
  have hy := hbound y
  unfold raised
  split_ifs <;> omega

namespace Forest

theorem link (h : Forest parent root height) (hroots : root a ≠ root b) :
    Forest (Function.update parent (root a) (root b)) (merged root a b) (raised root height a b) := by
  have hroot : merged root a b (root b) = root b := by
    rw [merged, h.root_root, if_neg (Ne.symm hroots)]
  refine ⟨fun y => ?_, fun y hy => ?_, fun y => ?_, fun y hy => ?_, fun y => ?_⟩
  · by_cases hya : y = root a
    · rw [hya, Function.update_self, hroot, merged, h.root_root, if_pos rfl]
    · rw [Function.update_of_ne hya, merged, merged, h.root_parent]
  · by_cases hya : y = root a
    · rw [hya, Function.update_self] at hy
      exact absurd hy.symm hroots
    · rw [Function.update_of_ne hya] at hy
      have hfixed := h.root_fixed y hy
      rw [merged, hfixed, if_neg hya]
  · unfold merged
    split_ifs with hy
    · rw [Function.update_of_ne (Ne.symm hroots), h.parent_root]
    · rw [Function.update_of_ne hy, h.parent_root]
  · by_cases hya : y = root a
    · rw [hya, Function.update_self]
      simp only [raised, h.root_root, h.height_root, Ne.symm hroots, and_false, if_false]
      simp [hroots]
    · rw [Function.update_of_ne hya] at hy ⊢
      have hfalls := h.falls y hy
      simp only [raised, h.root_parent]
      split_ifs <;> omega
  · unfold merged raised
    split_ifs with hy hraised hraised
    · rw [h.root_root] at hraised
      exact absurd hraised.2.symm hroots
    · exact h.height_root b
    · rw [h.root_root] at hraised
      exact absurd hraised.2 hy
    · exact h.height_root y

theorem union_eq (h : Forest parent root height) (hbound : ∀ y, height y ≤ bound) (hfuel : bound ≤ fuel) :
    ∃ joined, union fuel parent a b = some joined ∧
      Forest joined (merged root a b) (raised root height a b) := by
  obtain ⟨first, hfirst, hforest⟩ := h.find_eq (x := a) (Nat.le_trans (hbound a) hfuel)
  obtain ⟨second, hsecond, hforest⟩ := hforest.find_eq (x := b) (Nat.le_trans (hbound b) hfuel)
  by_cases hroots : root a = root b
  · refine ⟨second, by simp [union, hfirst, hsecond, hroots], ?_⟩
    have hmerged : merged root a b = root := by
      funext y
      rw [merged, hroots]
      exact ite_eq_right_iff.mpr Eq.symm
    have hraised : raised root height a b = height := by
      funext y
      exact if_neg fun hy => hy.1 hroots
    rwa [hmerged, hraised]
  · exact ⟨Function.update second (root a) (root b), by simp [union, hfirst, hsecond, hroots],
      hforest.link hroots⟩

end Forest

/-- Two elements have the same root after a union exactly when they had it or the pair connects them. -/
theorem merged_eq_iff {r : α → α → Prop} (h : ∀ x y, root x = root y ↔ Relation.EqvGen r x y) (x y : α) :
    merged root a b x = merged root a b y ↔
      Relation.EqvGen (fun u v => r u v ∨ (u = a ∧ v = b)) x y := by
  have hgrow : ∀ {u v}, root u = root v → Relation.EqvGen (fun u v => r u v ∨ (u = a ∧ v = b)) u v :=
    fun hroot => ((h _ _).mp hroot).mono fun _ _ => Or.inl
  have hpair : Relation.EqvGen (fun u v => r u v ∨ (u = a ∧ v = b)) a b :=
    Relation.EqvGen.rel _ _ (Or.inr ⟨rfl, rfl⟩)
  have htop : ∀ u, Relation.EqvGen (fun u v => r u v ∨ (u = a ∧ v = b)) u
      (if root u = root a then b else u) := by
    intro u
    split_ifs with hu
    · exact (hgrow hu).trans _ _ _ hpair
    · exact Relation.EqvGen.refl u
  constructor
  · intro hmerged
    have hsame : root (if root x = root a then b else x) = root (if root y = root a then b else y) := by
      simpa only [merged, apply_ite root] using hmerged
    exact (htop x).trans _ _ _ ((hgrow hsame).trans _ _ _ (htop y).symm)
  · intro hpath
    induction hpath with
    | rel u v hstep =>
      rcases hstep with hold | ⟨rfl, rfl⟩
      · rw [merged, merged, (h u v).mpr (Relation.EqvGen.rel _ _ hold)]
      · unfold merged
        split_ifs <;> simp_all
    | refl u => rfl
    | symm u v _ ih => exact ih.symm
    | trans u v w _ _ ihu ihv => exact ihu.trans ihv

end Roots

/-- What a list of unions connects, beyond what is connected before. -/
def Connects (r : α → α → Prop) (pairs : List (α × α)) (u v : α) : Prop := r u v ∨ (u, v) ∈ pairs

/-- After a list of unions two elements have the same root exactly when the list connects them. -/
theorem unionAll_eq {parent root : α → α} {height : α → ℕ} {bound fuel : ℕ} {r : α → α → Prop}
    (pairs : List (α × α)) (h : Forest parent root height) (hbound : ∀ y, height y ≤ bound)
    (hfuel : bound + pairs.length ≤ fuel) (hroot : ∀ x y, root x = root y ↔ Relation.EqvGen r x y) :
    ∃ joined top rank, unionAll fuel parent pairs = some joined ∧ Forest joined top rank ∧
      (∀ y, rank y ≤ bound + pairs.length) ∧
      ∀ x y, top x = top y ↔ Relation.EqvGen (Connects r pairs) x y := by
  induction pairs generalizing parent root height bound r with
  | nil =>
    refine ⟨parent, root, height, rfl, h, hbound, fun x y => ?_⟩
    have hsame : Connects r [] = r := by
      funext u v
      simp only [Connects, List.not_mem_nil, or_false]
    rw [hsame, hroot]
  | cons pair pairs ih =>
    rw [List.length_cons] at hfuel ⊢
    obtain ⟨next, hunion, hforest⟩ :=
      h.union_eq (a := pair.1) (b := pair.2) hbound (by omega : bound ≤ fuel)
    obtain ⟨joined, top, rank, hall, hfinal, hrank, htop⟩ :=
      ih hforest (fun y => raised_le hbound y) (by omega) (merged_eq_iff hroot)
    refine ⟨joined, top, rank, ?_, hfinal, fun y => Nat.le_trans (hrank y) (by omega), fun x y => ?_⟩
    · rw [unionAll, List.foldlM_cons, hunion]
      exact hall
    · rw [htop]
      have hsame : Connects (fun u v => r u v ∨ (u = pair.1 ∧ v = pair.2)) pairs =
          Connects r (pair::pairs) := by
        funext u v
        simp only [Connects, List.mem_cons, Prod.ext_iff, or_assoc]
      rw [hsame]

/-- The case of elements that are all apart at first. -/
theorem unionAll_id {fuel : ℕ} (pairs : List (α × α)) (hfuel : pairs.length ≤ fuel) :
    ∃ joined top rank, unionAll fuel id pairs = some joined ∧ Forest joined top rank ∧
      (∀ y, rank y ≤ pairs.length) ∧
      ∀ x y, top x = top y ↔ Relation.EqvGen (fun u v => (u, v) ∈ pairs) x y := by
  have happart : ∀ x y : α, id x = id y ↔ Relation.EqvGen (fun _ _ => False) x y := by
    intro x y
    refine ⟨?_, fun hpath => ?_⟩
    · rintro rfl
      exact Relation.EqvGen.refl _
    induction hpath with
    | rel u v hstep => exact hstep.elim
    | refl u => rfl
    | symm u v _ ih => exact ih.symm
    | trans u v w _ _ ihu ihv => exact ihu.trans ihv
  obtain ⟨joined, top, rank, hall, hforest, hrank, htop⟩ :=
    unionAll_eq pairs forest_id (fun _ => Nat.le_refl 0) (by omega : 0 + pairs.length ≤ fuel) happart
  refine ⟨joined, top, rank, hall, hforest, fun y => Nat.le_trans (hrank y) (by omega), fun x y => ?_⟩
  have hsame : Connects (fun _ _ => False) pairs = fun u v => (u, v) ∈ pairs := by
    funext u v
    simp only [Connects, false_or]
  rw [htop, hsame]

end KisAutotrader.UnionFind
