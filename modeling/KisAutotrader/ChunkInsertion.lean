import KisAutotrader.Collector
import KisAutotrader.KeyedTable

/-!
# Inserting chunks

A batch of chunks is filtered by a lookup and flushed at once; when another session has meanwhile
stored one of the keys, the rows are tried one by one.
-/
namespace KisAutotrader.ChunkInsertion
open Collector KeyedTable OrderedDict

attribute [local instance] lawful_key

section Batches
variable {H : Type} [DecidableEq H]

abbrev ChunkTable (H : Type) := Table (NewsChunk.key (H := H))

/-- `existing_keys`. -/
def existingKeys (t : ChunkTable H) (keys : List (Code × H)) : List (Code × H) :=
  t.keys.filter (· ∈ keys)

/-- A row in a savepoint of its own, counted when it goes in. -/
def insertRow (s : ℕ × ChunkTable H) (r : NewsChunk H) : ℕ × ChunkTable H :=
  match s.2.insert? r with
  | some t => (s.1 + 1, t)
  | none => s

def insertOneByOne (t : ChunkTable H) (rows : List (NewsChunk H)) : ℕ × ChunkTable H :=
  rows.foldl insertRow (0, t)

/-- `to_insert`: the first chunk of each key that the lookup does not find. -/
def toInsert (t : ChunkTable H) (chunks : List (NewsChunk H)) : List (NewsChunk H) :=
  let unique := firsts NewsChunk.key .empty chunks
  let existing := existingKeys t (unique.items.map Prod.fst)
  (unique.items.filter fun e => e.1 ∉ existing).map Prod.snd

/-- `insert_chunks`, with the chunks that other sessions store between its lookup and its
flush. -/
def insertChunks (t : ChunkTable H) (others chunks : List (NewsChunk H)) : ℕ × ChunkTable H :=
  if chunks = [] then (0, t.insertEach others)
  else if toInsert t chunks = [] then (0, t.insertEach others)
  else
    match (t.insertEach others).insertAll? (toInsert t chunks) with
    | some t' => ((toInsert t chunks).length, t')
    | none => insertOneByOne (t.insertEach others) (toInsert t chunks)

variable {t : ChunkTable H} {others chunks rows : List (NewsChunk H)}

theorem mem_existingKeys {keys : List (Code × H)} {k : Code × H} :
    k ∈ existingKeys t keys ↔ k ∈ t.keys ∧ k ∈ keys := by
  simp [existingKeys]

theorem foldl_insertRow (n : ℕ) (t : ChunkTable H) (rows : List (NewsChunk H)) :
    (rows.foldl insertRow (n, t)).2 = t.insertEach rows ∧
      (rows.foldl insertRow (n, t)).1 + t.rows.length = n + (t.insertEach rows).rows.length := by
  induction rows generalizing n t with
  | nil => simp
  | cons r rows ih =>
      rw [List.foldl_cons, Table.insertEach_cons]
      by_cases hr : r.key ∈ t.keys
      · have hstep : insertRow (n, t) r = (n, t) := by simp [insertRow, hr]
        rw [hstep, Table.insertNew_of_mem hr]
        exact ih n t
      · have hstep : insertRow (n, t) r = (n + 1, t.insertNew r) := by
          simp [insertRow, Table.insert?_of_not_mem hr]
        obtain ⟨htable, hcount⟩ := ih (n + 1) (t.insertNew r)
        rw [Table.rows_insertNew_of_not_mem hr, List.length_append, List.length_singleton] at hcount
        rw [hstep]
        exact ⟨htable, by omega⟩

theorem insertOneByOne_table (t : ChunkTable H) (rows : List (NewsChunk H)) :
    (insertOneByOne t rows).2 = t.insertEach rows := (foldl_insertRow 0 t rows).1

theorem insertOneByOne_count (t : ChunkTable H) (rows : List (NewsChunk H)) :
    (insertOneByOne t rows).1 + t.rows.length = (t.insertEach rows).rows.length := by
  have hcount := (foldl_insertRow 0 t rows).2
  rwa [Nat.zero_add] at hcount

/-- Only the table one by one insertion makes counts. -/
theorem insertOneByOne_congr (h : t.insertEach rows = t.insertEach chunks) :
    insertOneByOne t rows = insertOneByOne t chunks := by
  have hcount := insertOneByOne_count t rows
  rw [h, ← insertOneByOne_count t chunks] at hcount
  apply Prod.ext
  · exact Nat.add_right_cancel hcount
  · rw [insertOneByOne_table, insertOneByOne_table, h]

theorem insertOneByOne_of_insertAll {t' : ChunkTable H} (h : t.insertAll? rows = some t') :
    insertOneByOne t rows = (rows.length, t') := by
  obtain ⟨heach, hrows⟩ := Table.insertAll?_eq_some h
  have hcount := insertOneByOne_count t rows
  rw [← heach, hrows, List.length_append] at hcount
  apply Prod.ext
  · change (insertOneByOne t rows).1 = rows.length
    omega
  · rw [insertOneByOne_table, heach]

/-- Leaving out what the lookup finds changes nothing, whatever is stored after it. -/
theorem insertEach_toInsert (t : ChunkTable H) (others chunks : List (NewsChunk H)) :
    (t.insertEach others).insertEach (toInsert t chunks) =
      (t.insertEach others).insertEach chunks := by
  have hkeyed : Keyed NewsChunk.key (firsts (NewsChunk.key (H := H)) .empty chunks) :=
    Keyed.firsts (by simp [Keyed, Dict.empty]) chunks
  have hfilter : toInsert t chunks =
      ((firsts NewsChunk.key .empty chunks).items.map Prod.snd).filter fun r =>
        r.key ∉ existingKeys t ((firsts NewsChunk.key .empty chunks).items.map Prod.fst) := by
    rw [List.filter_map]
    apply congrArg (List.map Prod.snd)
    apply List.filter_congr
    intro e he
    simp only [Function.comp_apply, hkeyed e he]
  rw [hfilter, Table.insertEach_filter, insertEach_firsts _ _ (by simp [Keyed, Dict.empty])]
  · rfl
  · intro r _ hfound
    have hold : r.key ∈ t.keys := (mem_existingKeys.mp (by simpa using hfound)).1
    exact Table.mem_keys_insertEach.mpr (.inl hold)

/-- The batch inserts what one by one insertion of all its rows would. -/
theorem insertChunks_eq (t : ChunkTable H) (others chunks : List (NewsChunk H)) :
    insertChunks t others chunks = insertOneByOne (t.insertEach others) chunks := by
  rw [← insertOneByOne_congr (insertEach_toInsert t others chunks)]
  unfold insertChunks
  split_ifs with hnone hknown
  · rw [hnone]
    rfl
  · rw [hknown]
    rfl
  · cases hall : (t.insertEach others).insertAll? (toInsert t chunks) with
    | some t' => exact (insertOneByOne_of_insertAll hall).symm
    | none => rfl

/-- What `insert_chunks` promises of its result. -/
structure Inserted (t : ChunkTable H) (others chunks : List (NewsChunk H))
    (result : ℕ × ChunkTable H) : Prop where
  keys : ∀ k, k ∈ result.2.keys ↔
    k ∈ t.keys ∨ (∃ r ∈ others, r.key = k) ∨ ∃ r ∈ chunks, r.key = k
  once : result.2.keys.Nodup
  row : ∀ k, result.2.row? k =
    ((t.row? k).or (others.find? (·.key = k))).or (chunks.find? (·.key = k))
  count : result.1 = (result.2.keys.toFinset \ (t.insertEach others).keys.toFinset).card
  again : ∀ others', insertChunks result.2 others' chunks = (0, result.2.insertEach others')
  oneByOne : result = insertOneByOne (t.insertEach others) chunks

theorem insertOneByOne_known (h : ∀ r ∈ rows, r.key ∈ t.keys) : insertOneByOne t rows = (0, t) := by
  have hsame : t.insertEach rows = t.insertEach [] := Table.insertEach_of_subset h
  rw [insertOneByOne_congr hsame]
  rfl

theorem card_keys (t : ChunkTable H) : t.keys.toFinset.card = t.rows.length :=
  (List.toFinset_card_of_nodup t.unique).trans (List.length_map _)

/-- The count is the number of keys that were not there before. -/
theorem insertOneByOne_count_keys (t : ChunkTable H) (rows : List (NewsChunk H)) :
    (insertOneByOne t rows).1 =
      ((insertOneByOne t rows).2.keys.toFinset \ t.keys.toFinset).card := by
  rw [insertOneByOne_table]
  have hsub : t.keys.toFinset ⊆ (t.insertEach rows).keys.toFinset := by
    intro k hk
    rw [List.mem_toFinset] at hk ⊢
    exact Table.mem_keys_insertEach.mpr (.inl hk)
  rw [Finset.card_sdiff_of_subset hsub, card_keys, card_keys, ← insertOneByOne_count t rows]
  omega

theorem insertChunks_inserted (t : ChunkTable H) (others chunks : List (NewsChunk H)) :
    Inserted t others chunks (insertChunks t others chunks) := by
  rw [insertChunks_eq]
  have htable := insertOneByOne_table (t.insertEach others) chunks
  constructor
  · intro k
    rw [htable, Table.mem_keys_insertEach, Table.mem_keys_insertEach, or_assoc]
  · exact (insertOneByOne (t.insertEach others) chunks).2.unique
  · intro k
    rw [htable, Table.row?_insertEach, Table.row?_insertEach]
  · exact insertOneByOne_count_keys _ _
  · intro others'
    rw [insertChunks_eq]
    apply insertOneByOne_known
    intro r hr
    rw [htable]
    exact Table.mem_keys_insertEach.mpr (.inl (Table.mem_keys_insertEach.mpr (.inr ⟨r, hr, rfl⟩)))
  · rfl

/-! ### Batches that are filtered before -/

theorem insertEach_dedupe {seen : List (Code × H)} (hseen : ∀ k ∈ seen, k ∈ t.keys) :
    t.insertEach (dedupe seen rows) = t.insertEach rows := by
  induction rows generalizing t seen with
  | nil => rfl
  | cons r rows ih =>
      unfold dedupe
      split_ifs with hr
      · rw [ih hseen, Table.insertEach_cons, Table.insertNew_of_mem (hseen _ hr)]
      · rw [Table.insertEach_cons, Table.insertEach_cons]
        apply ih
        intro k hk
        rcases List.mem_cons.mp hk with rfl | hk
        · exact Table.mem_keys_insertNew.mpr (.inr rfl)
        · exact Table.mem_keys_insertNew.mpr (.inl (hseen k hk))

theorem insertEach_unknown {t' : ChunkTable H} (hmore : ∀ k ∈ t.keys, k ∈ t'.keys)
    (rows : List (NewsChunk H)) :
    t'.insertEach (unknown t.rows (dedupe [] rows)) = t'.insertEach rows := by
  unfold unknown
  rw [Table.insertEach_filter, insertEach_dedupe (by simp)]
  intro r _ hknown
  exact hmore _ (by simpa [Table.keys] using hknown)

/-- Chunks that were stored already when the batch was built need not be in it. -/
theorem insertChunks_buildNewChunks (hash : Content → H) (w : Windows) (t : ChunkTable H)
    (earlier others : List (NewsChunk H)) (docs : List RawDocument) :
    insertChunks (t.insertEach earlier) others (buildNewChunks hash w t.rows docs) =
      insertOneByOne ((t.insertEach earlier).insertEach others) (docs.flatMap (rowsOf hash w)) := by
  rw [insertChunks_eq]
  apply insertOneByOne_congr
  apply insertEach_unknown
  intro k hk
  exact Table.mem_keys_insertEach.mpr (.inl (Table.mem_keys_insertEach.mpr (.inl hk)))

theorem key_not_mem_dedupe {seen : List (Code × H)} {r : NewsChunk H} (h : r ∈ dedupe seen rows) :
    r.key ∉ seen := by
  induction rows generalizing seen with
  | nil => simp [dedupe] at h
  | cons q rows ih =>
      unfold dedupe at h
      split_ifs at h with hq
      · exact ih h
      · rcases List.mem_cons.mp h with rfl | hrest
        · exact hq
        · exact fun hmem => ih hrest (List.mem_cons_of_mem _ hmem)

theorem nodup_dedupe (seen : List (Code × H)) (rows : List (NewsChunk H)) :
    ((dedupe seen rows).map NewsChunk.key).Nodup := by
  induction rows generalizing seen with
  | nil => simp [dedupe]
  | cons q rows ih =>
      unfold dedupe
      split_ifs
      · exact ih seen
      · rw [List.map_cons, List.nodup_cons]
        refine ⟨fun hmem => ?_, ih _⟩
        obtain ⟨r, hr, hkey⟩ := List.mem_map.mp hmem
        exact key_not_mem_dedupe hr (by simp [hkey])

/-- Without other sessions, the rows afterwards are those of the collecting cycle. -/
theorem insertChunks_rows (t : ChunkTable H) (chunks : List (NewsChunk H)) :
    (insertChunks t [] chunks).2.rows = Collector.insertChunks t.rows chunks := by
  rw [insertChunks_eq, insertOneByOne_table, Table.insertEach_nil,
    ← insertEach_unknown (fun _ hk => hk) chunks]
  refine (Table.insertAll?_eq_some (Table.insertAll?_of_nodup ?_ ?_)).2
  · intro r hr
    simpa [Table.keys] using (List.mem_filter.mp hr).2
  · exact (nodup_dedupe [] chunks).sublist (List.filter_sublist.map _)

end Batches

end KisAutotrader.ChunkInsertion
