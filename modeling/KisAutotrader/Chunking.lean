import KisAutotrader.Collector
import KisAutotrader.Fallible
import KisAutotrader.SlidingWindows

/-!
# Chunking

The chunkers with any sizes that their constructors accept, and when the pieces they cut hold
the whole text.
-/
namespace KisAutotrader.Chunking
open Collector Fallible SlidingWindows Text

/-- The two `ValueError`s: of `int` on a text, and of `range` with the step zero. -/
inductive Error where
  | invalidLiteral (text : String)
  | zeroStep
  deriving DecidableEq

def defaultChunkSize : ℤ := 1500

def defaultOverlap : ℤ := 300

/-- `_resolve`; `raw` is the environment's text under the key. -/
def resolve (value : Option ℤ) (raw : Option String) (default : ℤ) : Except Error ℤ :=
  match value with
  | some v => .ok v
  | none =>
      match given raw with
      | none => .ok default
      | some text =>
          match parseInt text.toList with
          | some v => .ok v
          | none => .error (.invalidLiteral text)

structure Chunker where
  chunkSize : ℤ
  overlap : ℤ

/-- The constructor of both chunkers. -/
def Chunker.init (chunkSize overlap : Option ℤ) (environ : String → Option String) :
    Except Error Chunker := do
  let chunkSize ← resolve chunkSize (environ "NEWS_CHUNK_SIZE") defaultChunkSize
  let overlap ← resolve overlap (environ "NEWS_CHUNK_OVERLAP") defaultOverlap
  return { chunkSize, overlap }

/-- The bound of a slice counts from the end when it is negative. -/
def bound (length : ℕ) (i : ℤ) : ℕ := if i < 0 then (i + length).toNat else i.toNat

def slice (cs : List Char) (i j : ℤ) : List Char :=
  (cs.take (bound cs.length j)).drop (bound cs.length i)

/-- `range(0, stop, step)` for a step other than zero and a `stop` that is not negative. -/
def rangeSteps (stop : ℕ) (step : ℤ) : List ℤ :=
  if 0 < step then (List.range ((stop + step.toNat - 1) / step.toNat)).map fun m : ℕ => m * step
  else []

/-- `_split_sliding`. -/
def splitSliding (c : Chunker) (text : String) : Except Error (List String) :=
  if text = "" then .ok []
  else if text.length ≤ c.chunkSize then .ok [text]
  else if c.chunkSize - c.overlap = 0 then .error .zeroStep
  else
    let starts := (rangeSteps text.length (c.chunkSize - c.overlap)).filter fun i : ℤ => i < text.length
    .ok (starts.map fun i => String.ofList (slice text.toList i (i + c.chunkSize)))

structure Chunk where
  text : String
  chunkIndex : ℕ
  sectionName : String

/-- The segments of a section, numbered after the chunks before them. -/
def appendSegments (sectionName : String) (segments : List String) (chunks : List Chunk) :
    List Chunk :=
  segments.foldl (fun chunks text =>
    chunks ++ [{ text, chunkIndex := chunks.length, sectionName }]) chunks

def leadText (doc : RawDocument) : String :=
  strip (joinBlank (doc.title.toList.filter (· ≠ "") ++ (paragraphsOf doc).take 2))

def bodyText (doc : RawDocument) : String := strip (joinBlank ((paragraphsOf doc).drop 2))

/-- `NewsChunker.chunk`. -/
def newsChunk (c : Chunker) (doc : RawDocument) : Except Error (List Chunk) := do
  let lead ← splitSliding c (leadText doc)
  let chunks := appendSegments "lead" lead []
  let body ← splitSliding c (bodyText doc)
  return appendSegments "body" body chunks

def mergedText (doc : RawDocument) : String :=
  strip (joinBlank ((doc.title.toList ++ [doc.body]).filter (· ≠ "")))

/-- `DisclosureChunker.chunk`. -/
def disclosureChunk (c : Chunker) (doc : RawDocument) : Except Error (List Chunk) :=
  if mergedText doc = "" then .ok []
  else do
    let segments ← splitSliding c (mergedText doc)
    return segments.mapIdx fun i text => { text, chunkIndex := i, sectionName := "disclosure" }

/-! ### Pieces of one text -/

/-- The pieces hold the whole text: none is empty or too long, every character is in one at its
place, and together, without what each repeats, they are the text. -/
structure Whole (c : Chunker) (text : String) (pieces : List String) : Prop where
  sizes : ∀ piece ∈ pieces, 1 ≤ piece.length ∧ (piece.length : ℤ) ≤ c.chunkSize
  covered : ∀ p < text.length, ∃ (m start : ℕ) (piece : String), pieces[m]? = some piece ∧
    (start : ℤ) = m * (c.chunkSize - c.overlap) ∧ start ≤ p ∧ p < start + piece.length ∧
    piece.toList[p - start]? = text.toList[p]?
  rejoined : rejoin c.overlap.toNat (pieces.map String.toList) = text.toList

/-- The text needs no cutting, or the windows advance by at most their size. -/
def Fits (c : Chunker) (text : String) : Prop :=
  text = "" ∨ (text.length : ℤ) ≤ c.chunkSize ∨ (0 ≤ c.overlap ∧ c.overlap < c.chunkSize)

section Text
variable {c : Chunker} {text : String} {pieces : List String}

theorem whole_empty (c : Chunker) : Whole c "" [] where
  sizes := by simp
  covered := by simp
  rejoined := rfl

theorem whole_single (hne : text ≠ "") (hfits : (text.length : ℤ) ≤ c.chunkSize) :
    Whole c text [text] where
  sizes := by
    have hpos : 0 < text.length := by
      rw [← String.length_toList]
      exact List.length_pos_of_ne_nil (by simpa using hne)
    simpa using ⟨hpos, hfits⟩
  covered p hp := ⟨0, 0, text, by simp, by simp, by omega, by omega, by simp⟩
  rejoined := by simp [rejoin]

theorem slice_eq (cs : List Char) (m size step : ℕ) :
    slice cs (m * step : ℤ) (m * step + size : ℤ) = window size step cs m := by
  have hi : bound cs.length (m * step : ℤ) = m * step := by
    unfold bound
    rw [if_neg (not_lt.mpr (by positivity))]
    omega
  have hj : bound cs.length (m * step + size : ℤ) = m * step + size := by
    unfold bound
    rw [if_neg (not_lt.mpr (by positivity))]
    omega
  rw [slice, hi, hj, window, List.drop_take]
  congr 1
  omega

theorem rangeSteps_eq {step : ℕ} (hpos : 0 < step) (stop : ℕ) :
    rangeSteps stop step = (List.range ((stop + step - 1) / step)).map fun m : ℕ => (m * step : ℤ) := by
  unfold rangeSteps
  rw [if_pos (by exact_mod_cast hpos), Int.toNat_natCast]

/-- With windows that advance, the pieces are the windows of the text. -/
theorem splitSliding_windows {size step : ℕ} (hsize : c.chunkSize = size)
    (hstep : c.chunkSize - c.overlap = step) (hpos : 0 < step) (hlong : size < text.length) :
    splitSliding c text = .ok ((windows size step text.toList).map String.ofList) := by
  have hne : text ≠ "" := by
    rintro rfl
    simp at hlong
  have hstarts : ((rangeSteps text.length step).filter fun i : ℤ => i < text.length) =
      (List.range ((text.length + step - 1) / step)).map fun m : ℕ => (m * step : ℤ) := by
    rw [rangeSteps_eq hpos, List.filter_eq_self]
    intro i hi
    obtain ⟨m, hm, rfl⟩ := List.mem_map.mp hi
    have hbegins := (lt_count_iff hpos text.length m).mp (List.mem_range.mp hm)
    exact decide_eq_true (by exact_mod_cast hbegins)
  unfold splitSliding
  rw [if_neg hne, if_neg (by omega), if_neg (by omega)]
  simp only [hstep, hstarts, windows, List.map_map, String.length_toList]
  rw [hsize]
  congr 1
  apply List.map_congr_left
  intro m _
  simp only [Function.comp_apply, slice_eq]

theorem whole_windows {size step : ℕ} (hsize : c.chunkSize = size)
    (hstep : c.chunkSize - c.overlap = step) (hpos : 0 < step) (hle : step ≤ size) (text : String) :
    Whole c text ((windows size step text.toList).map String.ofList) where
  sizes := by
    intro piece hpiece
    obtain ⟨cs, hcs, rfl⟩ := List.mem_map.mp hpiece
    obtain ⟨m, hm, rfl⟩ := exists_of_mem_windows hpos hcs
    rw [String.length_ofList, length_window]
    omega
  covered := by
    intro p hp
    rw [← String.length_toList] at hp
    obtain ⟨m, piece, hpiece, hstart, hend, hchar⟩ := windows_cover hpos hle hp
    refine ⟨m, m * step, String.ofList piece, by simp [hpiece], ?_, hstart, by simpa using hend,
      by simpa using hchar⟩
    rw [hstep]
    exact Nat.cast_mul m step
  rejoined := by
    have hoverlap : c.overlap.toNat = size - step := by omega
    rw [hoverlap, List.map_map]
    have hid : String.toList ∘ String.ofList = id := by
      funext cs
      simp
    rw [hid, List.map_id, rejoin_windows hpos hle]

/-- Pieces that hold a text which needs cutting come from windows that advance, by at most their
size. -/
theorem overlap_of_whole (hne : text ≠ "") (hlong : c.chunkSize < text.length)
    (hsplit : splitSliding c text = .ok pieces) (hwhole : Whole c text pieces) :
    0 ≤ c.overlap ∧ c.overlap < c.chunkSize := by
  have hpos : 0 < text.length := by
    rw [← String.length_toList]
    exact List.length_pos_of_ne_nil (by simpa using hne)
  have hpiece : ∀ piece ∈ pieces, (piece.length : ℤ) ≤ c.chunkSize := fun piece h =>
    (hwhole.sizes piece h).2
  obtain ⟨_, _, first, hfirst, -⟩ := hwhole.covered 0 hpos
  have hsize : 1 ≤ c.chunkSize := by
    have hlength := hwhole.sizes first (List.mem_of_getElem? hfirst)
    omega
  have hadvances : 0 < c.chunkSize - c.overlap := by
    by_contra hback
    unfold splitSliding at hsplit
    rw [if_neg hne, if_neg (by omega)] at hsplit
    split_ifs at hsplit
    have hnone : pieces = [] := by
      rw [← Except.ok.inj hsplit, rangeSteps, if_neg hback]
      rfl
    simp [hnone] at hfirst
  refine ⟨?_, by omega⟩
  by_contra hgap
  -- the character right after the first window is before the second one
  obtain ⟨m, start, piece, hm, hstart, hle, hlt, -⟩ := hwhole.covered c.chunkSize.toNat (by omega)
  have hlength := hpiece piece (List.mem_of_getElem? hm)
  have hlater : m ≠ 0 := by
    rintro rfl
    simp only [Nat.cast_zero, zero_mul] at hstart
    omega
  have hstep : c.chunkSize - c.overlap ≤ m * (c.chunkSize - c.overlap) :=
    le_mul_of_one_le_left hadvances.le (by exact_mod_cast Nat.one_le_iff_ne_zero.mpr hlater)
  omega

/-- A text is cut into pieces that hold it exactly if it fits. -/
theorem splitSliding_whole_iff (c : Chunker) (text : String) :
    (∃ pieces, splitSliding c text = .ok pieces ∧ Whole c text pieces) ↔ Fits c text := by
  constructor
  · rintro ⟨pieces, hsplit, hwhole⟩
    by_contra hfits
    unfold Fits at hfits
    push Not at hfits
    obtain ⟨hne, hlong, hoverlap⟩ := hfits
    obtain ⟨hlow, hhigh⟩ := overlap_of_whole hne hlong hsplit hwhole
    exact absurd hhigh (not_lt.mpr (hoverlap hlow))
  · intro hfits
    by_cases hne : text = ""
    · subst text
      exact ⟨[], rfl, whole_empty c⟩
    by_cases hshort : (text.length : ℤ) ≤ c.chunkSize
    · refine ⟨[text], ?_, whole_single hne hshort⟩
      rw [splitSliding, if_neg hne, if_pos hshort]
    · obtain ⟨hlow, hhigh⟩ := (hfits.resolve_left hne).resolve_left hshort
      have hsize : c.chunkSize = (c.chunkSize.toNat : ℕ) := by omega
      have hstep : c.chunkSize - c.overlap = ((c.chunkSize - c.overlap).toNat : ℕ) := by omega
      exact ⟨_, splitSliding_windows hsize hstep (by omega) (by omega),
        whole_windows hsize hstep (by omega) (by omega) text⟩

end Text

/-! ### Chunks of a document -/

/-- The texts of the chunks of one section. -/
def piecesOf (sectionName : String) (chunks : List Chunk) : List String :=
  (chunks.filter (·.sectionName = sectionName)).map Chunk.text

def tagged (n : ℕ) (sectionName : String) (segments : List String) : List Chunk :=
  segments.mapIdx fun i text => { text, chunkIndex := n + i, sectionName }

/-- The chunks of a document whose sections have these names and texts lose nothing of them. -/
structure Complete (c : Chunker) (sections : List (String × String)) (chunks : List Chunk) :
    Prop where
  numbered : chunks.map Chunk.chunkIndex = List.range chunks.length
  named : ∀ chunk ∈ chunks, chunk.sectionName ∈ sections.map Prod.fst
  whole : ∀ e ∈ sections, Whole c e.2 (piecesOf e.1 chunks)

theorem appendSegments_eq (sectionName : String) (segments : List String) (chunks : List Chunk) :
    appendSegments sectionName segments chunks = chunks ++ tagged chunks.length sectionName segments
    := by
  induction segments generalizing chunks with
  | nil => simp [appendSegments, tagged]
  | cons text segments ih =>
      have hstep : appendSegments sectionName (text::segments) chunks =
          appendSegments sectionName segments
            (chunks ++ [{ text, chunkIndex := chunks.length, sectionName }]) := rfl
      rw [hstep, ih]
      simp [tagged, List.mapIdx_cons, Nat.add_assoc, Nat.add_comm 1]

section Tagged
variable {n : ℕ} {sectionName other : String} {segments : List String}

@[simp] theorem length_tagged : (tagged n sectionName segments).length = segments.length := by
  simp [tagged]

theorem sectionName_of_mem {chunk : Chunk} (h : chunk ∈ tagged n sectionName segments) :
    chunk.sectionName = sectionName := by
  obtain ⟨i, hi, rfl⟩ := List.mem_mapIdx.mp h
  rfl

theorem piecesOf_tagged : piecesOf sectionName (tagged n sectionName segments) = segments := by
  have hall : (tagged n sectionName segments).filter (·.sectionName = sectionName) =
      tagged n sectionName segments := by
    rw [List.filter_eq_self]
    intro chunk h
    simpa using sectionName_of_mem h
  rw [piecesOf, hall]
  apply List.ext_getElem?
  intro i
  cases hi : segments[i]? <;> simp [tagged, hi]

theorem piecesOf_tagged_ne (h : sectionName ≠ other) :
    piecesOf other (tagged n sectionName segments) = [] := by
  rw [piecesOf, List.map_eq_nil_iff, List.filter_eq_nil_iff]
  intro chunk hchunk
  simpa [sectionName_of_mem hchunk] using h

theorem piecesOf_two (h : sectionName ≠ other) (m n : ℕ) (xs ys : List String) :
    piecesOf sectionName (tagged m sectionName xs ++ tagged n other ys) = xs ∧
      piecesOf other (tagged m sectionName xs ++ tagged n other ys) = ys := by
  have happend : ∀ name (xs ys : List Chunk), piecesOf name (xs ++ ys) =
      piecesOf name xs ++ piecesOf name ys := by
    intro name xs ys
    simp [piecesOf]
  rw [happend, happend, piecesOf_tagged, piecesOf_tagged, piecesOf_tagged_ne h,
    piecesOf_tagged_ne h.symm]
  simp

theorem chunkIndex_tagged (n : ℕ) (sectionName : String) (segments : List String) :
    (tagged n sectionName segments).map Chunk.chunkIndex = List.range' n segments.length := by
  apply List.ext_getElem?
  intro i
  by_cases hi : i < segments.length
  · simp [tagged, hi]
  · simp [tagged, hi]

end Tagged

section Documents
variable {c : Chunker} {doc : RawDocument} {chunks : List Chunk}

theorem newsChunk_eq_ok :
    newsChunk c doc = .ok chunks ↔ ∃ lead body, splitSliding c (leadText doc) = .ok lead ∧
      splitSliding c (bodyText doc) = .ok body ∧
        chunks = tagged 0 "lead" lead ++ tagged lead.length "body" body := by
  have happend : ∀ lead body, appendSegments "body" body (appendSegments "lead" lead []) =
      tagged 0 "lead" lead ++ tagged lead.length "body" body := by
    intro lead body
    simp [appendSegments_eq]
  unfold newsChunk
  constructor
  · intro h
    obtain ⟨lead, hlead, h⟩ := bind_eq_ok.mp h
    obtain ⟨body, hbody, h⟩ := bind_eq_ok.mp h
    exact ⟨lead, body, hlead, hbody, (Except.ok.inj h).symm.trans (happend lead body)⟩
  · rintro ⟨lead, body, hlead, hbody, rfl⟩
    rw [hlead, hbody]
    exact congrArg Except.ok (happend lead body)

theorem disclosureChunk_eq_ok :
    disclosureChunk c doc = .ok chunks ↔ ∃ segments,
      splitSliding c (mergedText doc) = .ok segments ∧ chunks = tagged 0 "disclosure" segments := by
  have htag : ∀ segments : List String,
      (segments.mapIdx fun i text => { text, chunkIndex := i, sectionName := "disclosure" } :
        List Chunk) = tagged 0 "disclosure" segments := by
    intro segments
    simp [tagged]
  unfold disclosureChunk
  by_cases hempty : mergedText doc = ""
  · simp [hempty, splitSliding, tagged, eq_comm]
  rw [if_neg hempty]
  constructor
  · intro h
    obtain ⟨segments, hsegments, h⟩ := bind_eq_ok.mp h
    exact ⟨segments, hsegments, (Except.ok.inj h).symm.trans (htag segments)⟩
  · rintro ⟨segments, hsegments, rfl⟩
    rw [hsegments]
    exact congrArg Except.ok (htag segments)

theorem lead_ne_body : "lead" ≠ "body" := by decide

theorem complete_news {lead body : List String} (hlead : Whole c (leadText doc) lead)
    (hbody : Whole c (bodyText doc) body) :
    Complete c [("lead", leadText doc), ("body", bodyText doc)]
      (tagged 0 "lead" lead ++ tagged lead.length "body" body) where
  numbered := by
    rw [List.map_append, chunkIndex_tagged, chunkIndex_tagged, List.length_append, length_tagged,
      length_tagged, List.range_eq_range']
    have happend := @List.range'_append 0 lead.length body.length 1
    rwa [Nat.one_mul, Nat.zero_add] at happend
  named := by
    intro chunk h
    rcases List.mem_append.mp h with h | h
    · simp [sectionName_of_mem h]
    · simp [sectionName_of_mem h]
  whole := by
    obtain ⟨hleads, hbodies⟩ := piecesOf_two lead_ne_body 0 lead.length lead body
    intro e he
    simp only [List.mem_cons, List.not_mem_nil, or_false] at he
    rcases he with rfl | rfl
    · rw [hleads]
      exact hlead
    · rw [hbodies]
      exact hbody

theorem complete_disclosure {segments : List String} (h : Whole c (mergedText doc) segments) :
    Complete c [("disclosure", mergedText doc)] (tagged 0 "disclosure" segments) where
  numbered := by rw [chunkIndex_tagged, length_tagged, List.range_eq_range']
  named := by
    intro chunk hchunk
    simp [sectionName_of_mem hchunk]
  whole := by
    intro e he
    rw [List.mem_singleton.mp he, piecesOf_tagged]
    exact h

theorem newsChunk_complete_iff (c : Chunker) (doc : RawDocument) :
    (∃ chunks, newsChunk c doc = .ok chunks ∧
        Complete c [("lead", leadText doc), ("body", bodyText doc)] chunks) ↔
      Fits c (leadText doc) ∧ Fits c (bodyText doc) := by
  rw [← splitSliding_whole_iff, ← splitSliding_whole_iff]
  constructor
  · rintro ⟨chunks, hchunks, hcomplete⟩
    obtain ⟨lead, body, hlead, hbody, rfl⟩ := newsChunk_eq_ok.mp hchunks
    obtain ⟨hleads, hbodies⟩ := piecesOf_two lead_ne_body 0 lead.length lead body
    have hwhole := hcomplete.whole ("lead", leadText doc) (by simp)
    have hwhole' := hcomplete.whole ("body", bodyText doc) (by simp)
    rw [hleads] at hwhole
    rw [hbodies] at hwhole'
    exact ⟨⟨lead, hlead, hwhole⟩, body, hbody, hwhole'⟩
  · rintro ⟨⟨lead, hlead, hwhole⟩, body, hbody, hwhole'⟩
    exact ⟨_, newsChunk_eq_ok.mpr ⟨lead, body, hlead, hbody, rfl⟩, complete_news hwhole hwhole'⟩

theorem disclosureChunk_complete_iff (c : Chunker) (doc : RawDocument) :
    (∃ chunks, disclosureChunk c doc = .ok chunks ∧
        Complete c [("disclosure", mergedText doc)] chunks) ↔ Fits c (mergedText doc) := by
  rw [← splitSliding_whole_iff]
  constructor
  · rintro ⟨chunks, hchunks, hcomplete⟩
    obtain ⟨segments, hsegments, rfl⟩ := disclosureChunk_eq_ok.mp hchunks
    have hwhole := hcomplete.whole ("disclosure", mergedText doc) (by simp)
    rw [piecesOf_tagged] at hwhole
    exact ⟨segments, hsegments, hwhole⟩
  · rintro ⟨segments, hsegments, hwhole⟩
    exact ⟨_, disclosureChunk_eq_ok.mpr ⟨segments, hsegments, rfl⟩, complete_disclosure hwhole⟩

/-- The chunks of a document lose nothing exactly if each of its texts fits. -/
theorem chunk_complete_iff (c : Chunker) (doc : RawDocument) :
    ((∃ chunks, newsChunk c doc = .ok chunks ∧
        Complete c [("lead", leadText doc), ("body", bodyText doc)] chunks) ↔
      Fits c (leadText doc) ∧ Fits c (bodyText doc)) ∧
    ((∃ chunks, disclosureChunk c doc = .ok chunks ∧
        Complete c [("disclosure", mergedText doc)] chunks) ↔ Fits c (mergedText doc)) :=
  ⟨newsChunk_complete_iff c doc, disclosureChunk_complete_iff c doc⟩

end Documents

/-- A document of two letters. -/
def letters : RawDocument :=
  { ticker := "005930", sourceType := .disclosure, sourceId := "1", title := none, body := "ab"
    eventTime := 0 }

/-- With an overlap larger than the size the document is cut into no chunks. -/
theorem letters_lost : ¬ ∃ chunks, disclosureChunk ⟨1, 2⟩ letters = .ok chunks ∧
    Complete ⟨1, 2⟩ [("disclosure", mergedText letters)] chunks := by
  have hmerged : mergedText letters = "ab" := by decide +kernel
  rw [disclosureChunk_complete_iff, hmerged]
  rintro (hempty | hshort | ⟨-, hoverlap⟩)
  · exact absurd hempty (by decide)
  · exact absurd hshort (by decide)
  · exact absurd hoverlap (by decide)

/-! ### Windows that advance -/

section Advancing
variable (w : Windows)

def Chunker.ofWindows : Chunker := ⟨w.chunkSize, w.overlap⟩

theorem range'_eq_map (n step : ℕ) : List.range' 0 n step = (List.range n).map (· * step) := by
  apply List.ext_getElem (by simp)
  intro i hi hi'
  simp [Nat.mul_comm]

theorem splitSliding_ofWindows (text : String) :
    splitSliding (.ofWindows w) text = .ok (Collector.splitSliding w text) := by
  unfold Collector.splitSliding
  split_ifs with hempty hshort
  · rw [splitSliding, if_pos hempty]
  · rw [splitSliding, if_neg hempty, if_pos]
    exact Int.ofNat_le.mpr hshort
  · have hadvances := w.advances
    have hstep : (Chunker.ofWindows w).chunkSize - (Chunker.ofWindows w).overlap =
        ((w.chunkSize - w.overlap : ℕ) : ℤ) := by
      rw [Nat.cast_sub hadvances.le]
      rfl
    have hsize : (Chunker.ofWindows w).chunkSize = (w.chunkSize : ℤ) := rfl
    rw [splitSliding_windows hsize hstep (by omega) (by omega)]
    simp only [range'_eq_map, windows, List.map_map, String.length_toList]
    rfl

/-- What the collecting cycle keeps of a chunk. -/
def Chunk.plain (chunk : Chunk) : Collector.Chunk := ⟨chunk.text, chunk.chunkIndex⟩

theorem plain_tagged (n : ℕ) (sectionName : String) (segments : List String) :
    (tagged n sectionName segments).map Chunk.plain =
      segments.mapIdx fun i text => ⟨text, n + i⟩ := by
  apply List.ext_getElem?
  intro i
  cases hi : segments[i]? <;> simp [tagged, hi, Chunk.plain]

theorem newsChunk_ofWindows (doc : RawDocument) :
    (newsChunk (.ofWindows w) doc).map (List.map Chunk.plain) = .ok (newsChunks w doc) := by
  rw [map_eq_ok]
  refine ⟨_, newsChunk_eq_ok.mpr ⟨_, _, splitSliding_ofWindows w _, splitSliding_ofWindows w _, rfl⟩,
    ?_⟩
  rw [List.map_append, plain_tagged, plain_tagged, newsChunks, numbered, List.mapIdx_append]
  simp only [Nat.add_comm]
  rfl

theorem disclosureChunk_ofWindows (doc : RawDocument) :
    (disclosureChunk (.ofWindows w) doc).map (List.map Chunk.plain) =
      .ok (disclosureChunks w doc) := by
  rw [map_eq_ok]
  refine ⟨_, disclosureChunk_eq_ok.mpr ⟨_, splitSliding_ofWindows w _, rfl⟩, ?_⟩
  rw [plain_tagged, disclosureChunks, numbered]
  simp only [Nat.zero_add]
  rfl

end Advancing

end KisAutotrader.Chunking
