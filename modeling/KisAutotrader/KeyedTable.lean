import KisAutotrader.OrderedDict

/-!
# Tables with a unique key

Inserting a row whose key is taken fails. Many rows are inserted one by one, skipping those that
fail, or all of them or none.
-/
namespace KisAutotrader.KeyedTable
open OrderedDict

variable {ρ κ : Type}

/-- Rows of which no two have the same key. -/
structure Table (key : ρ → κ) where
  rows : List ρ
  unique : (rows.map key).Nodup

@[ext] theorem Table.ext {key : ρ → κ} {t t' : Table key} (h : t.rows = t'.rows) : t = t' := by
  cases t
  cases t'
  simpa using h

variable [DecidableEq κ] {key : ρ → κ}

namespace Table

def keys (t : Table key) : List κ := t.rows.map key

/-- The row stored under a key. -/
def row? (t : Table key) (k : κ) : Option ρ := t.rows.find? (key · = k)

def insert? (t : Table key) (r : ρ) : Option (Table key) :=
  if h : key r ∈ t.keys then none
  else some ⟨t.rows ++ [r], by
    rw [List.map_append, List.nodup_append]
    refine ⟨t.unique, List.nodup_singleton _, ?_⟩
    intro a ha b hb hab
    rw [List.map_singleton, List.mem_singleton] at hb
    exact h (hb ▸ hab ▸ ha)⟩

/-- All of the rows or none. -/
def insertAll? (t : Table key) : List ρ → Option (Table key)
  | [] => some t
  | r::rs => (t.insert? r).bind fun t => t.insertAll? rs

def insertNew (t : Table key) (r : ρ) : Table key := (t.insert? r).getD t

def insertEach (t : Table key) (rs : List ρ) : Table key := rs.foldl insertNew t

@[simp] theorem insert?_of_mem {t : Table key} {r : ρ} (h : key r ∈ t.keys) : t.insert? r = none :=
  dif_pos h

@[simp] theorem insertNew_of_mem {t : Table key} {r : ρ} (h : key r ∈ t.keys) :
    t.insertNew r = t := by
  simp [insertNew, h]

theorem rows_insertNew_of_not_mem {t : Table key} {r : ρ} (h : key r ∉ t.keys) :
    (t.insertNew r).rows = t.rows ++ [r] := by
  simp [insertNew, insert?, h]

theorem insert?_of_not_mem {t : Table key} {r : ρ} (h : key r ∉ t.keys) :
    t.insert? r = some (t.insertNew r) := by
  simp [insertNew, insert?, h]

@[simp] theorem insertEach_nil (t : Table key) : t.insertEach [] = t := rfl

@[simp] theorem insertEach_cons (t : Table key) (r : ρ) (rs : List ρ) :
    t.insertEach (r::rs) = (t.insertNew r).insertEach rs := rfl

theorem insertEach_append (t : Table key) (rs rs' : List ρ) :
    t.insertEach (rs ++ rs') = (t.insertEach rs).insertEach rs' := List.foldl_append

theorem mem_keys_insertNew {t : Table key} {r : ρ} {k : κ} :
    k ∈ (t.insertNew r).keys ↔ k ∈ t.keys ∨ key r = k := by
  by_cases h : key r ∈ t.keys
  · rw [insertNew_of_mem h]
    constructor
    · exact Or.inl
    · rintro (hk | rfl)
      · exact hk
      · exact h
  · rw [keys, rows_insertNew_of_not_mem h]
    simp [keys, eq_comm]

theorem mem_keys_insertEach {t : Table key} {rs : List ρ} {k : κ} :
    k ∈ (t.insertEach rs).keys ↔ k ∈ t.keys ∨ ∃ r ∈ rs, key r = k := by
  induction rs generalizing t with
  | nil => simp
  | cons r rs ih =>
      rw [insertEach_cons, ih, mem_keys_insertNew]
      simp [or_assoc]

theorem row?_insertNew (t : Table key) (r : ρ) (k : κ) :
    (t.insertNew r).row? k = (t.row? k).or (if key r = k then some r else none) := by
  by_cases h : key r ∈ t.keys
  · rw [insertNew_of_mem h]
    by_cases hk : key r = k
    · -- the key is taken, so that a row is found before this one
      obtain ⟨q, hq, hqk⟩ := List.mem_map.mp h
      have hsome : (t.row? k).isSome := by
        rw [row?, List.find?_isSome]
        exact ⟨q, hq, by simp [hqk, hk]⟩
      rw [Option.or_of_isSome hsome]
    · simp [hk]
  · rw [row?, rows_insertNew_of_not_mem h, List.find?_append]
    by_cases hk : key r = k <;> simp [row?, hk]

/-- The row of a key is the one that was stored, else the first one inserted. -/
theorem row?_insertEach (t : Table key) (rs : List ρ) (k : κ) :
    (t.insertEach rs).row? k = (t.row? k).or (rs.find? (key · = k)) := by
  induction rs generalizing t with
  | nil => simp
  | cons r rs ih =>
      rw [insertEach_cons, ih, row?_insertNew, Option.or_assoc]
      by_cases hk : key r = k <;> simp [hk]

/-- Rows whose keys are taken may be left out. -/
theorem insertEach_filter {t : Table key} {rs : List ρ} {p : ρ → Bool}
    (h : ∀ r ∈ rs, p r = false → key r ∈ t.keys) : t.insertEach (rs.filter p) = t.insertEach rs := by
  induction rs generalizing t with
  | nil => rfl
  | cons r rs ih =>
      have hrest : ∀ q ∈ rs, p q = false → key q ∈ (t.insertNew r).keys := fun q hq hp =>
        mem_keys_insertNew.mpr (.inl (h q (List.mem_cons_of_mem r hq) hp))
      by_cases hp : p r
      · rw [List.filter_cons_of_pos hp, insertEach_cons, insertEach_cons, ih hrest]
      · have hr : key r ∈ t.keys := h r List.mem_cons_self (by simpa using hp)
        rw [insertNew_of_mem hr] at hrest
        rw [List.filter_cons_of_neg hp, insertEach_cons, insertNew_of_mem hr, ih hrest]

theorem insertEach_of_subset {t : Table key} {rs : List ρ} (h : ∀ r ∈ rs, key r ∈ t.keys) :
    t.insertEach rs = t := by
  have hall := insertEach_filter (p := fun _ => false) fun r hr _ => h r hr
  simpa using hall.symm

/-- When all rows go in at once, they go in one by one. -/
theorem insertAll?_eq_some {t t' : Table key} {rs : List ρ} (h : t.insertAll? rs = some t') :
    t' = t.insertEach rs ∧ t'.rows = t.rows ++ rs := by
  induction rs generalizing t with
  | nil =>
      cases Option.some.inj h
      simp
  | cons r rs ih =>
      by_cases hr : key r ∈ t.keys
      · simp [insertAll?, hr] at h
      · rw [insertAll?, insert?_of_not_mem hr] at h
        obtain ⟨heach, hrows⟩ := ih h
        rw [rows_insertNew_of_not_mem hr] at hrows
        exact ⟨heach, by simp [hrows]⟩

theorem insertAll?_of_nodup {t : Table key} {rs : List ρ} (hnew : ∀ r ∈ rs, key r ∉ t.keys)
    (hnodup : (rs.map key).Nodup) : t.insertAll? rs = some (t.insertEach rs) := by
  induction rs generalizing t with
  | nil => rfl
  | cons r rs ih =>
      obtain ⟨hr, hrs⟩ := List.nodup_cons.mp hnodup
      rw [insertAll?, insert?_of_not_mem (hnew r List.mem_cons_self)]
      refine ih (fun q hq hmem => ?_) hrs
      rcases mem_keys_insertNew.mp hmem with hold | hsame
      · exact hnew q (List.mem_cons_of_mem r hq) hold
      · exact hr (hsame ▸ List.mem_map_of_mem hq)

end Table

/-! ### First rows -/

/-- The first row of each key. -/
def firsts (key : ρ → κ) (d : Dict κ ρ) (rs : List ρ) : Dict κ ρ :=
  rs.foldl (fun d r => d.setDefault (key r) r) d

/-- Every entry stands under its own key. -/
def Keyed (key : ρ → κ) (d : Dict κ ρ) : Prop := ∀ e ∈ d.items, key e.2 = e.1

theorem items_setDefault (d : Dict κ ρ) (k : κ) (r : ρ) :
    (d.setDefault k r).items = if (d.get? k).isSome then d.items else d.items ++ [(k, r)] := by
  cases hget : d.get? k with
  | some q => simp [Dict.setDefault, hget]
  | none => simp [Dict.setDefault, hget, Dict.items_set_of_absent hget]

theorem Keyed.setDefault {d : Dict κ ρ} (h : Keyed key d) (r : ρ) :
    Keyed key (d.setDefault (key r) r) := by
  intro e he
  rw [items_setDefault] at he
  split_ifs at he
  · exact h e he
  · rcases List.mem_append.mp he with hold | hnew
    · exact h e hold
    · rw [List.mem_singleton.mp hnew]

theorem Keyed.firsts {d : Dict κ ρ} (h : Keyed key d) (rs : List ρ) : Keyed key (firsts key d rs) := by
  induction rs generalizing d with
  | nil => exact h
  | cons r rs ih => exact ih (h.setDefault r)

/-- The first rows stand for all of them. -/
theorem insertEach_firsts (t : Table key) (rs : List ρ) {d : Dict κ ρ} (h : Keyed key d) :
    t.insertEach ((firsts key d rs).items.map Prod.snd) =
      (t.insertEach (d.items.map Prod.snd)).insertEach rs := by
  induction rs generalizing d with
  | nil => rfl
  | cons r rs ih =>
      have hstep := ih (h.setDefault r)
      rw [items_setDefault] at hstep
      rw [firsts, List.foldl_cons, Table.insertEach_cons]
      refine hstep.trans ?_
      cases hget : d.get? (key r) with
      | some q =>
          have hmem : key r ∈ (t.insertEach (d.items.map Prod.snd)).keys := by
            refine Table.mem_keys_insertEach.mpr (.inr ⟨q, ?_, h _ (Dict.mem_items.mpr hget)⟩)
            exact List.mem_map_of_mem (f := Prod.snd) (Dict.mem_items.mpr hget)
          simp [Table.insertNew_of_mem hmem]
      | none => simp [Table.insertEach_append]

end KisAutotrader.KeyedTable
