import Mathlib.Data.Set.Function
import KisAutotrader.LocalDay
import KisAutotrader.Market
import KisAutotrader.Text

/-!
# Collecting news

The part of a cycle that all collectors share: documents are cut into chunks, and the chunks
whose key is new are stored. The hash is a function of what it is computed from.
-/
namespace KisAutotrader.Collector
open Text

inductive NewsSourceType where
  | news
  | disclosure
  | earnings
  | report
  deriving DecidableEq

structure RawDocument where
  ticker : Code
  sourceType : NewsSourceType
  sourceId : String
  title : Option String
  body : String
  eventTime : ℤ
  deriving DecidableEq

structure Chunk where
  text : String
  chunkIndex : ℕ

/-- `chunk_size` and `overlap`; the step between two windows is their difference. -/
structure Windows where
  chunkSize : ℕ := 1500
  overlap : ℕ := 300
  advances : overlap < chunkSize := by decide

/-- What the hash of a chunk is computed from. -/
structure Content where
  ticker : Code
  sourceId : String
  chunkIndex : ℕ
  text : String
  deriving DecidableEq

/-! ### Chunks -/

def splitSliding (w : Windows) (text : String) : List String :=
  if text = "" then []
  else if text.length ≤ w.chunkSize then [text]
  else
    let step := w.chunkSize - w.overlap
    (List.range' 0 ((text.length + step - 1) / step) step).map fun i =>
      String.ofList ((text.toList.drop i).take w.chunkSize)

def numbered (segments : List String) : List Chunk :=
  segments.mapIdx fun i text => { text, chunkIndex := i }

/-- `DisclosureChunker.chunk`. -/
def disclosureChunks (w : Windows) (doc : RawDocument) : List Chunk :=
  let parts := (doc.title.toList ++ [doc.body]).filter (· ≠ "")
  numbered (splitSliding w (strip (joinBlank parts)))

def paragraphsOf (doc : RawDocument) : List String :=
  ((splitBlank doc.body.toList).map fun p => strip (String.ofList p)).filter (· ≠ "")

/-- `NewsChunker.chunk`: the title with the first two paragraphs, then the others. -/
def newsChunks (w : Windows) (doc : RawDocument) : List Chunk :=
  let paragraphs := paragraphsOf doc
  let lead := strip (joinBlank (doc.title.toList.filter (· ≠ "") ++ paragraphs.take 2))
  let body := strip (joinBlank (paragraphs.drop 2))
  numbered (splitSliding w lead ++ splitSliding w body)

/-- `get_chunker(doc.source_type).chunk(doc)`. -/
def chunksOf (w : Windows) (doc : RawDocument) : List Chunk :=
  match doc.sourceType with
  | .news => newsChunks w doc
  | .disclosure | .earnings | .report => disclosureChunks w doc

theorem splitSliding_ne_nil (w : Windows) {text : String} (h : text ≠ "") :
    splitSliding w text ≠ [] := by
  unfold splitSliding
  rw [if_neg h]
  split_ifs with hfits
  · simp
  · have hstep : 0 < w.chunkSize - w.overlap := Nat.sub_pos_of_lt w.advances
    have hcount : 0 < (text.length + (w.chunkSize - w.overlap) - 1) / (w.chunkSize - w.overlap) :=
      Nat.div_pos (by omega) hstep
    simp only [ne_eq, List.map_eq_nil_iff, List.range'_eq_nil_iff]
    omega

theorem numbered_ne_nil {segments : List String} (h : segments ≠ []) : numbered segments ≠ [] := by
  simpa [numbered] using h

/-- A document with a visible title or text has a chunk. -/
theorem chunksOf_ne_nil (w : Windows) {doc : RawDocument}
    (h : (∃ title, doc.title = some title ∧ Visible title) ∨ Visible doc.body) :
    chunksOf w doc ≠ [] := by
  have hnews : newsChunks w doc ≠ [] := by
    apply numbered_ne_nil
    apply List.append_ne_nil_of_left_ne_nil
    apply splitSliding_ne_nil
    apply Visible.ne_empty
    apply Visible.strip
    rcases h with ⟨title, htitle, hvisible⟩ | ⟨c, hmem, hc⟩
    · apply hvisible.join
      simp [htitle, hvisible.ne_empty]
    · obtain ⟨p, hp, hcp⟩ := mem_splitBlank hc hmem
      have hparagraph : Visible (strip (String.ofList p)) := Visible.strip ⟨c, by simpa using hcp, hc⟩
      have hsome : strip (String.ofList p) ∈ paragraphsOf doc :=
        List.mem_filter.mpr ⟨List.mem_map_of_mem hp, by simpa using hparagraph.ne_empty⟩
      obtain ⟨q, qs, hqs⟩ := List.exists_cons_of_ne_nil (List.ne_nil_of_mem hsome)
      have hq : q ∈ paragraphsOf doc := by simp [hqs]
      obtain ⟨hmap, hne⟩ := List.mem_filter.mp hq
      obtain ⟨cs, -, rfl⟩ := List.mem_map.mp hmap
      apply (visible_strip_of_ne (by simpa using hne)).join
      simp [hqs]
  have hdisclosure : disclosureChunks w doc ≠ [] := by
    apply numbered_ne_nil
    apply splitSliding_ne_nil
    apply Visible.ne_empty
    apply Visible.strip
    rcases h with ⟨title, htitle, hvisible⟩ | hvisible
    · apply hvisible.join
      simp [htitle, hvisible.ne_empty]
    · apply hvisible.join
      simp [hvisible.ne_empty]
  unfold chunksOf
  split
  · exact hnews
  · exact hdisclosure
  · exact hdisclosure
  · exact hdisclosure

/-! ### Where a cycle begins -/

def second : ℤ := 1000000

/-- `get_collection_state(...) or now - 24 h`, whole seconds. -/
def sinceOf (lastCollectedAt : Option ℤ) (now : ℤ) : ℤ :=
  lastCollectedAt.getD (now / second * second - 24 * LocalDay.hour)

theorem sinceOf_le {lastCollectedAt : Option ℤ} {now : ℤ} (h : ∀ v ∈ lastCollectedAt, v ≤ now) :
    sinceOf lastCollectedAt now ≤ now := by
  cases lastCollectedAt with
  | none =>
    simp only [sinceOf, Option.getD_none, second, LocalDay.hour]
    omega
  | some v => exact h v rfl

/-! ### Rows of `news_chunks` -/

structure NewsChunk (H : Type) where
  ticker : Code
  sourceType : NewsSourceType
  sourceId : String
  title : Option String
  chunkText : String
  chunkIndex : ℕ
  contentHash : H
  eventTime : ℤ
  deriving DecidableEq

section Storage
variable {H : Type} (hash : Content → H) (w : Windows)

/-- What the unique constraint of the table is about. -/
def NewsChunk.key (r : NewsChunk H) : Code × H := (r.ticker, r.contentHash)

def contentOf (doc : RawDocument) (chunk : Chunk) : Content :=
  ⟨doc.ticker, doc.sourceId, chunk.chunkIndex, chunk.text⟩

def rowOf (doc : RawDocument) (chunk : Chunk) : NewsChunk H :=
  { ticker := doc.ticker, sourceType := doc.sourceType, sourceId := doc.sourceId, title := doc.title,
    chunkText := chunk.text, chunkIndex := chunk.chunkIndex, contentHash := hash (contentOf doc chunk),
    eventTime := doc.eventTime }

def rowsOf (doc : RawDocument) : List (NewsChunk H) := (chunksOf w doc).map (rowOf hash doc)

/-- What the chunks of the documents are hashed from. -/
def contentsOf (docs : Set RawDocument) : Set Content :=
  {c | ∃ doc ∈ docs, c ∈ (chunksOf w doc).map (contentOf doc)}

/-- Documents that the keys of their rows tell apart: no two chunks have the same hash, and no
two documents the same source and ticker. -/
structure Separate (docs : Set RawDocument) : Prop where
  injective : Set.InjOn hash (contentsOf w docs)
  named : ∀ a ∈ docs, ∀ b ∈ docs, a.sourceId = b.sourceId → a.ticker = b.ticker → a = b

/-- Every row is a chunk of one of the documents. -/
def Genuine (docs : Set RawDocument) (table : List (NewsChunk H)) : Prop :=
  ∀ r ∈ table, ∃ doc ∈ docs, r ∈ rowsOf hash w doc

variable {hash w} {known more : Set RawDocument} {table : List (NewsChunk H)} {r r' : NewsChunk H}

theorem Separate.row_unique (h : Separate hash w known) {a b : RawDocument} (ha : a ∈ known) (hr : r ∈ rowsOf hash w a) (hb : b ∈ known)
    (hr' : r' ∈ rowsOf hash w b) (hkey : r'.key = r.key) : r' = r := by
  obtain ⟨chunk, hchunk, rfl⟩ := List.mem_map.mp hr
  obtain ⟨chunk', hchunk', rfl⟩ := List.mem_map.mp hr'
  have hhash : hash (contentOf b chunk') = hash (contentOf a chunk) := congrArg Prod.snd hkey
  have hcontent : contentOf b chunk' = contentOf a chunk :=
    h.injective ⟨b, hb, List.mem_map_of_mem hchunk'⟩ ⟨a, ha, List.mem_map_of_mem hchunk⟩ hhash
  obtain rfl := h.named b hb a ha (congrArg Content.sourceId hcontent)
    (congrArg Content.ticker hcontent)
  have htext : chunk'.text = chunk.text := congrArg Content.text hcontent
  have hindex : chunk'.chunkIndex = chunk.chunkIndex := congrArg Content.chunkIndex hcontent
  rw [rowOf, rowOf, hcontent, htext, hindex]

theorem Genuine.mono (h : Genuine hash w known table)
    (hsub : known ⊆ more) : Genuine hash w more table := by
  intro r hr
  obtain ⟨doc, hdoc, hrow⟩ := h r hr
  exact ⟨doc, hsub hdoc, hrow⟩

variable [DecidableEq H] (hash w)

theorem lawful_key : LawfulBEq (Code × H) := inferInstance

/-- The first row of each key. -/
def dedupe (seen : List (Code × H)) : List (NewsChunk H) → List (NewsChunk H)
  | [] => []
  | r::rs => if r.key ∈ seen then dedupe seen rs else r::dedupe (r.key::seen) rs

def unknown (table rows : List (NewsChunk H)) : List (NewsChunk H) :=
  rows.filter fun r => r.key ∉ table.map NewsChunk.key

/-- `_build_new_chunks`. -/
def buildNewChunks (table : List (NewsChunk H)) (docs : List RawDocument) : List (NewsChunk H) :=
  unknown table (dedupe [] (docs.flatMap (rowsOf hash w)))

def insertChunks (table chunks : List (NewsChunk H)) : List (NewsChunk H) :=
  table ++ unknown table (dedupe [] chunks)

/-- The rows after a cycle has stored its documents. -/
def store (table : List (NewsChunk H)) (docs : List RawDocument) : List (NewsChunk H) :=
  insertChunks table (buildNewChunks hash w table docs)

variable {hash w} {rows : List (NewsChunk H)} {docs : List RawDocument}

theorem mem_dedupe {seen : List (Code × H)} (h : r ∈ dedupe seen rows) : r ∈ rows := by
  induction rows generalizing seen with
  | nil => exact h
  | cons x xs ih =>
    unfold dedupe at h
    split_ifs at h
    · exact List.mem_cons_of_mem x (ih h)
    · rcases List.mem_cons.mp h with rfl | hrest
      · simp
      · exact List.mem_cons_of_mem x (ih hrest)

theorem key_dedupe (seen : List (Code × H)) (h : r ∈ rows) :
    r.key ∈ seen ∨ ∃ r' ∈ dedupe seen rows, r'.key = r.key := by
  induction rows generalizing seen with
  | nil => simp at h
  | cons x xs ih =>
    unfold dedupe
    rcases List.mem_cons.mp h with rfl | hrest
    · split_ifs with hseen
      · exact Or.inl hseen
      · exact Or.inr ⟨r, by simp, rfl⟩
    · split_ifs with hseen
      · exact ih seen hrest
      · rcases ih (x.key::seen) hrest with hkey | ⟨r', hr', hkey⟩
        · rcases List.mem_cons.mp hkey with hx | hold
          · exact Or.inr ⟨x, by simp, hx.symm⟩
          · exact Or.inl hold
        · exact Or.inr ⟨r', List.mem_cons_of_mem x hr', hkey⟩

/-- A key that is wanted is in the table afterwards, once it was there or is inserted. -/
theorem key_unknown (table : List (NewsChunk H)) (h : r ∈ rows) :
    ∃ r' ∈ table ++ unknown table (dedupe [] rows), r'.key = r.key := by
  obtain ⟨r', hr', hkey⟩ := (key_dedupe [] h).resolve_left (by simp)
  by_cases hknown : r'.key ∈ table.map NewsChunk.key
  · obtain ⟨x, hx, hxkey⟩ := List.mem_map.mp hknown
    exact ⟨x, List.mem_append_left _ hx, hxkey.trans hkey⟩
  · have hnew : r' ∈ unknown table (dedupe [] rows) := by
      simpa [unknown, hr'] using hknown
    exact ⟨r', List.mem_append_right _ hnew, hkey⟩

/-- What storing the documents of a cycle does to the table. -/
structure Stored (hash : Content → H) (w : Windows) (table : List (NewsChunk H))
    (docs : List RawDocument) (after : List (NewsChunk H)) : Prop where
  kept : ∀ r ∈ table, r ∈ after
  origin : ∀ r ∈ after, r ∈ table ∨ ∃ doc ∈ docs, r ∈ rowsOf hash w doc
  present : ∀ doc ∈ docs, ∀ r ∈ rowsOf hash w doc, ∃ r' ∈ after, r'.key = r.key

theorem store_stored (hash : Content → H) (w : Windows) (table : List (NewsChunk H))
    (docs : List RawDocument) : Stored hash w table docs (store hash w table docs) := by
  refine ⟨fun r hr => List.mem_append_left _ hr, fun r hr => ?_, fun doc hdoc r hr => ?_⟩
  · rcases List.mem_append.mp hr with hold | hnew
    · exact Or.inl hold
    · have hbuilt := mem_dedupe (List.mem_filter.mp hnew).1
      have hrows := mem_dedupe (List.mem_filter.mp hbuilt).1
      exact Or.inr (List.mem_flatMap.mp hrows)
  · obtain ⟨x, hx, hkey⟩ := key_unknown table (List.mem_flatMap.mpr ⟨doc, hdoc, hr⟩)
    rcases List.mem_append.mp hx with hold | hbuilt
    · exact ⟨x, List.mem_append_left _ hold, hkey⟩
    · obtain ⟨y, hy, hykey⟩ := key_unknown table hbuilt
      exact ⟨y, hy, hykey.trans hkey⟩

theorem Genuine.store (h : Genuine hash w known table)
    (hdocs : ∀ doc ∈ docs, doc ∈ known) : Genuine hash w known (store hash w table docs) := by
  intro r hr
  rcases (store_stored hash w table docs).origin r hr with hold | ⟨doc, hdoc, hrow⟩
  · exact h r hold
  · exact ⟨doc, hdocs doc hdoc, hrow⟩

/-- Every row of the documents of a cycle is in the table after it. -/
theorem Separate.present (hsep : Separate hash w known)
    (h : Genuine hash w known table) (hdocs : ∀ doc ∈ docs, doc ∈ known) {doc : RawDocument}
    (hdoc : doc ∈ docs) (hr : r ∈ rowsOf hash w doc) : r ∈ Collector.store hash w table docs := by
  obtain ⟨r', hr', hkey⟩ := (store_stored hash w table docs).present doc hdoc r hr
  obtain ⟨doc', hdoc', hrow'⟩ := h.store hdocs r' hr'
  rwa [hsep.row_unique (hdocs doc hdoc) hr hdoc' hrow' hkey] at hr'

end Storage

end KisAutotrader.Collector
