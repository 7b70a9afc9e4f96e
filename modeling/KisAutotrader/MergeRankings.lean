import KisAutotrader.Grouping
import KisAutotrader.Screener

/-!
# Merged rankings

Each candidate is folded from the items of its code in source order. Ranks, price and market cap
are merged as announced; a volume of zero is never filled in, and of the blank names
only the empty one is.
-/
namespace KisAutotrader.MergeRankings
open OrderedDict Grouping Screener

variable {K : Type}

/-- An item of the volume ranking at its place, which is its rank. -/
def volumeRankItem (v : VolumeRankItem K) (idx : ℕ) : RankItem K where
  stockCode := v.stockCode
  stockName := v.stockName
  currentPrice := v.currentPrice
  changeRate := v.changeRate
  volume := v.volume
  sourceRank := idx
  marketCap := some v.marketCap

/-- The four rankings in their order; one that fails is empty. -/
def fetchRankSources (volume : Option (List (VolumeRankItem K)))
    (changeRate volumePower quoteBalance : Option (List (RankItem K))) : Dict String (List (RankItem K)) :=
  (((Dict.empty.set "volume" ((volume.getD []).zipIdx 1 |>.map fun (v, idx) => volumeRankItem v idx)).set
    "change_rate" (changeRate.getD [])).set "volume_power" (volumePower.getD [])).set "quote_balance"
      (quoteBalance.getD [])

/-- The items of all rankings in their order, each with its source. -/
def entries (sources : Dict String (List (RankItem K))) : List (String × RankItem K) :=
  sources.items.flatMap fun source => source.2.map fun it => (source.1, it)

def codes (sources : Dict String (List (RankItem K))) : List Code :=
  (entries sources).map fun entry => entry.2.stockCode

def occurrences (sources : Dict String (List (RankItem K))) (code : Code) : List (String × RankItem K) :=
  (entries sources).filter fun entry => decide (entry.2.stockCode = code)

/-- What the occurrences of a code make of its candidate. -/
structure MergedFrom (occs : List (String × RankItem K)) (m : MergedCandidate K) : Prop where
  ranks : ∀ source, m.ranks.get? source =
    (occs.filter fun entry => decide (entry.1 = source)).getLast?.map fun entry => entry.2.sourceRank
  name : m.stockName = ((occs.map fun entry => entry.2.stockName).find? (· ≠ "")).getD ""
  price : m.currentPrice = ((occs.map fun entry => entry.2.currentPrice).find? (· ≠ 0)).getD 0
  volume : occs.head?.map (fun entry => entry.2.volume) = some m.volume
  stockCode : occs.head?.map (fun entry => entry.2.stockCode) = some m.stockCode
  marketCap : m.marketCap =
    ((occs.filter fun entry => decide (entry.1 = "volume")).filterMap fun entry => entry.2.marketCap).getLast?

lemma mergedFrom_first (entry : String × RankItem K) : MergedFrom [entry] (.first entry.1 entry.2) := by
  obtain ⟨source, it⟩ := entry
  refine ⟨?_, ?_, ?_, rfl, rfl, ?_⟩
  · intro other
    by_cases h : source = other
    · subst h
      simp [MergedCandidate.first]
    · simp [MergedCandidate.first, h, Dict.get?_set_ne _ (Ne.symm h)]
  · by_cases h : it.stockName = "" <;> simp [MergedCandidate.first, h]
  · by_cases h : it.currentPrice = 0 <;> simp [MergedCandidate.first, h]
  · by_cases h : source = "volume"
    · cases hcap : it.marketCap <;> simp [MergedCandidate.first, h, hcap]
    · simp [MergedCandidate.first, h]

lemma MergedFrom.again {occs : List (String × RankItem K)} {m : MergedCandidate K} (h : MergedFrom occs m)
    (entry : String × RankItem K) : MergedFrom (occs ++ [entry]) (m.again entry.1 entry.2) := by
  obtain ⟨source, it⟩ := entry
  refine ⟨?_, ?_, ?_, ?_, ?_, ?_⟩
  · intro other
    by_cases hs : source = other
    · subst hs
      simp [MergedCandidate.again]
    · simp [MergedCandidate.again, hs, Dict.get?_set_ne _ (Ne.symm hs), h.ranks]
  · have hname := h.name
    simp only [MergedCandidate.again, List.map_append, List.map_singleton, List.find?_append, hname]
    cases hfind : (occs.map fun entry => entry.2.stockName).find? (· ≠ "") with
    | none => by_cases hn : it.stockName = "" <;> simp [hn]
    | some n =>
        have hne : n ≠ "" := by simpa using List.find?_some hfind
        simp [hne]
  · have hprice := h.price
    simp only [MergedCandidate.again, List.map_append, List.map_singleton, List.find?_append, hprice]
    cases hfind : (occs.map fun entry => entry.2.currentPrice).find? (· ≠ 0) with
    | none => by_cases hn : it.currentPrice = 0 <;> simp [hn]
    | some n =>
        have hne : n ≠ 0 := by simpa using List.find?_some hfind
        simp [hne]
  · have hvolume := h.volume
    cases occs with
    | nil => simp at hvolume
    | cons first rest => simpa [MergedCandidate.again] using hvolume
  · have hcode := h.stockCode
    cases occs with
    | nil => simp at hcode
    | cons first rest => simpa [MergedCandidate.again] using hcode
  · have hcap := h.marketCap
    by_cases hs : source = "volume"
    · cases hc : it.marketCap <;> simp [MergedCandidate.again, hs, hc, hcap]
    · cases hc : it.marketCap <;> simp [MergedCandidate.again, hs, hc, hcap]

/-- The entry of a code, from the occurrences of the code on. -/
def absorbEntry : Dict Code (MergedCandidate K) → String × RankItem K → Dict Code (MergedCandidate K) :=
  absorb (fun entry => entry.2.stockCode) (fun entry => .first entry.1 entry.2)
    fun existing entry => existing.again entry.1 entry.2

lemma mergeRankings_eq (sources : Dict String (List (RankItem K))) :
    mergeRankings sources = ((entries sources).foldl absorbEntry Dict.empty).items.map Prod.snd := by
  have hitem : ∀ (merged : Dict Code (MergedCandidate K)) (source : String) (it : RankItem K),
      mergeItem source merged it = absorbEntry merged (source, it) := by
    intro merged source it
    simp only [mergeItem, absorbEntry, absorb]
    cases merged.get? it.stockCode <;> rfl
  rw [entries, List.foldl_flatMap]
  simp only [mergeRankings, List.foldl_map, ← hitem]

/-- The entry of a code has the code and is merged from its occurrences. -/
lemma entry_spec {sources : Dict String (List (RankItem K))} {code : Code} {m : MergedCandidate K}
    (h : ((entries sources).foldl absorbEntry Dict.empty).get? code = some m) :
    m.stockCode = code ∧ MergedFrom (occurrences sources code) m := by
  rw [absorbEntry, get?_foldl_absorb, Dict.get?_empty] at h
  have hmerged : MergedFrom (occurrences sources code) m :=
    entry_induction (fun entry => mergedFrom_first entry) (fun occs entry m ih => ih.again entry) h
  obtain ⟨first, hfirst, hcode⟩ := Option.map_eq_some_iff.1 hmerged.stockCode
  have hmem := (List.mem_filter.1 (List.mem_of_mem_head? hfirst)).2
  exact ⟨hcode.symm.trans (by simpa using hmem), hmerged⟩

lemma mem_mergeRankings {sources : Dict String (List (RankItem K))} {m : MergedCandidate K} :
    m ∈ mergeRankings sources ↔ ((entries sources).foldl absorbEntry Dict.empty).get? m.stockCode = some m := by
  rw [mergeRankings_eq]
  constructor
  · intro hm
    obtain ⟨⟨code, m'⟩, hitem, rfl⟩ := List.mem_map.1 hm
    have hget := Dict.mem_items.1 hitem
    rwa [(entry_spec hget).1]
  · intro hget
    exact List.mem_map.2 ⟨(m.stockCode, m), Dict.mem_items.2 hget, rfl⟩

/-- The candidates are the codes of the rankings, each at its first place. -/
theorem stockCodes_mergeRankings (sources : Dict String (List (RankItem K))) :
    (mergeRankings sources).map MergedCandidate.stockCode = (codes sources).reverse.dedup.reverse := by
  have hkeys : (mergeRankings sources).map MergedCandidate.stockCode =
      keys ((entries sources).foldl absorbEntry Dict.empty) := by
    rw [mergeRankings_eq, List.map_map, keys]
    refine List.map_congr_left fun item hitem => ?_
    obtain ⟨code, m⟩ := item
    exact (entry_spec (Dict.mem_items.1 hitem)).1
  rw [hkeys, absorbEntry, keys_foldl_absorb]
  rfl

/-- What a merged ranking is announced to be. -/
structure MergesAsPromised (sources : Dict String (List (RankItem K))) : Prop where
  codes_once : (mergeRankings sources).map MergedCandidate.stockCode = (codes sources).reverse.dedup.reverse
  ranks : ∀ m ∈ mergeRankings sources, ∀ source, m.ranks.get? source =
    ((occurrences sources m.stockCode).filter fun entry => decide (entry.1 = source)).getLast?.map
      fun entry => entry.2.sourceRank
  name : ∀ m ∈ mergeRankings sources, ∀ name,
    ((occurrences sources m.stockCode).map fun entry => entry.2.stockName).find?
      (fun name => decide (Text.Visible name)) = some name → m.stockName = name
  price : ∀ m ∈ mergeRankings sources, ∀ price,
    ((occurrences sources m.stockCode).map fun entry => entry.2.currentPrice).find? (· ≠ 0) = some price →
      m.currentPrice = price
  volume : ∀ m ∈ mergeRankings sources, ∀ volume,
    ((occurrences sources m.stockCode).map fun entry => entry.2.volume).find? (· ≠ 0) = some volume →
      m.volume = volume
  marketCap : ∀ m ∈ mergeRankings sources, ∀ cap, m.marketCap = some cap →
    ∃ entry ∈ occurrences sources m.stockCode, entry.1 = "volume" ∧ entry.2.marketCap = some cap

/-- A code with a volume in some ranking has one in the first ranking it occurs in, and the first of
its names that is not empty is not blank unless all are. -/
structure FirstIsGiven (occs : List (String × RankItem K)) : Prop where
  volume : ∀ first ∈ occs.head?, first.2.volume = 0 → ∀ entry ∈ occs, entry.2.volume = 0
  name : ∀ name, (occs.map fun entry => entry.2.stockName).find? (· ≠ "") = some name → ¬Text.Visible name →
    ∀ entry ∈ occs, ¬Text.Visible entry.2.stockName

lemma find?_stronger {α : Type} {p q : α → Bool} (hpq : ∀ x, q x → p x) {xs : List α} {x : α}
    (h : xs.find? p = some x) (hx : q x) : xs.find? q = some x := by
  induction xs with
  | nil => cases h
  | cons y ys ih =>
      by_cases hy : p y
      · obtain rfl : y = x := by simpa [hy] using h
        simp [hx]
      · have hq : q y = false := by simpa using mt (hpq y) hy
        simpa [hq] using ih (by simpa [hy] using h)

section Candidate
variable {occs : List (String × RankItem K)} {m : MergedCandidate K}

/-- The volume of the first occurrence is the first volume exactly if it is given at all there. -/
lemma MergedFrom.volume_iff (h : MergedFrom occs m) :
    (∀ volume, (occs.map fun entry => entry.2.volume).find? (· ≠ 0) = some volume → m.volume = volume) ↔
      ∀ first ∈ occs.head?, first.2.volume = 0 → ∀ entry ∈ occs, entry.2.volume = 0 := by
  obtain ⟨first, hfirst, hvolume⟩ := Option.map_eq_some_iff.1 h.volume
  obtain ⟨rest, rfl⟩ : ∃ rest, occs = first::rest := by
    cases occs with
    | nil => cases hfirst
    | cons x xs => exact ⟨xs, by simpa using hfirst⟩
  constructor
  · intro hfind first' hfirst' hzero entry hentry
    obtain rfl : first = first' := by simpa using hfirst'
    by_contra hne
    have hsome : (((first::rest).map fun entry => entry.2.volume).find? (· ≠ 0)).isSome := by
      rw [List.find?_isSome]
      exact ⟨entry.2.volume, List.mem_map.2 ⟨entry, hentry, rfl⟩, by simpa using hne⟩
    obtain ⟨volume, hvol⟩ := Option.isSome_iff_exists.1 hsome
    have hgiven : volume ≠ 0 := by simpa using List.find?_some hvol
    exact hgiven ((hfind volume hvol).symm.trans (hvolume.symm.trans hzero))
  · intro hall volume hvol
    by_cases hzero : first.2.volume = 0
    · have hgiven : volume ≠ 0 := by simpa using List.find?_some hvol
      obtain ⟨entry, hentry, rfl⟩ := List.mem_map.1 (List.mem_of_find?_eq_some hvol)
      exact absurd (hall first (by simp) hzero entry hentry) hgiven
    · have hhead : first.2.volume = volume := by simpa [hzero] using hvol
      exact hvolume.symm.trans hhead

/-- The first name that is not empty is the first visible one exactly if it is visible at all. -/
lemma MergedFrom.name_iff (h : MergedFrom occs m) :
    (∀ name, (occs.map fun entry => entry.2.stockName).find? (fun name => decide (Text.Visible name)) = some name →
      m.stockName = name) ↔
      ∀ name, (occs.map fun entry => entry.2.stockName).find? (· ≠ "") = some name → ¬Text.Visible name →
        ∀ entry ∈ occs, ¬Text.Visible entry.2.stockName := by
  have hname := h.name
  constructor
  · intro hfind name hfirst hblank entry hentry hvisible
    have hsome : ((occs.map fun entry => entry.2.stockName).find? (fun name => decide (Text.Visible name))).isSome := by
      rw [List.find?_isSome]
      exact ⟨entry.2.stockName, List.mem_map.2 ⟨entry, hentry, rfl⟩, by simpa using hvisible⟩
    obtain ⟨seen, hseen⟩ := Option.isSome_iff_exists.1 hsome
    have hshown : Text.Visible seen := by simpa using List.find?_some hseen
    rw [hfind seen hseen, hfirst, Option.getD_some] at hname
    exact hblank (hname ▸ hshown)
  · intro hall name hseen
    have hshown : Text.Visible name := by simpa using List.find?_some hseen
    obtain ⟨entry, hentry, hentryname⟩ := List.mem_map.1 (List.mem_of_find?_eq_some hseen)
    have hsome : ((occs.map fun entry => entry.2.stockName).find? (· ≠ "")).isSome := by
      rw [List.find?_isSome]
      exact ⟨name, List.mem_of_find?_eq_some hseen, by simpa using Text.Visible.ne_empty hshown⟩
    obtain ⟨first, hfirst⟩ := Option.isSome_iff_exists.1 hsome
    have hvisible : Text.Visible first := by
      by_contra hblank
      exact hall first hfirst hblank entry hentry (hentryname ▸ hshown)
    have hsame := find?_stronger (fun name hvis => by simpa using Text.Visible.ne_empty (by simpa using hvis)) hfirst
      (q := fun name => decide (Text.Visible name)) (by simpa using hvisible)
    rw [hname, hfirst, Option.getD_some]
    exact Option.some.inj (hsame.symm.trans hseen)

end Candidate

/-- Merging keeps its promise exactly for sources whose codes have their volume and their name
where they first occur. -/
theorem mergesAsPromised_iff (sources : Dict String (List (RankItem K))) :
    MergesAsPromised sources ↔ ∀ code ∈ codes sources, FirstIsGiven (occurrences sources code) := by
  have hspec : ∀ m ∈ mergeRankings sources, MergedFrom (occurrences sources m.stockCode) m := by
    intro m hm
    exact (entry_spec (mem_mergeRankings.1 hm)).2
  constructor
  · intro h code hcode
    have hmem : code ∈ (mergeRankings sources).map MergedCandidate.stockCode := by
      rw [stockCodes_mergeRankings]
      simpa [List.mem_dedup] using hcode
    obtain ⟨m, hm, rfl⟩ := List.mem_map.1 hmem
    exact ⟨(hspec m hm).volume_iff.1 (h.volume m hm), (hspec m hm).name_iff.1 (h.name m hm)⟩
  · intro h
    have hgiven : ∀ m ∈ mergeRankings sources, FirstIsGiven (occurrences sources m.stockCode) := by
      intro m hm
      apply h
      have hcode : m.stockCode ∈ (mergeRankings sources).map MergedCandidate.stockCode := List.mem_map_of_mem hm
      rw [stockCodes_mergeRankings] at hcode
      simpa [List.mem_dedup] using hcode
    refine ⟨stockCodes_mergeRankings sources, fun m hm => (hspec m hm).ranks,
      fun m hm => (hspec m hm).name_iff.2 (hgiven m hm).name, ?_,
      fun m hm => (hspec m hm).volume_iff.2 (hgiven m hm).volume, ?_⟩
    · intro m hm price hprice
      rw [(hspec m hm).price, hprice, Option.getD_some]
    · intro m hm cap hcap
      rw [(hspec m hm).marketCap] at hcap
      obtain ⟨entry, hentry, hentrycap⟩ := List.mem_filterMap.1 (List.mem_of_getLast? hcap)
      obtain ⟨hocc, hsource⟩ := List.mem_filter.1 hentry
      exact ⟨entry, hocc, by simpa using hsource, hentrycap⟩

/-- A stock outside the volume ranking whose first ranking reports no volume. -/
def lateVolume : Dict String (List (RankItem ℚ)) :=
  fetchRankSources (some []) (some [⟨"005930", "삼성전자", 70000, 3, 0, 1, none, some 3⟩])
    (some [⟨"005930", "삼성전자", 70000, 3, 1000000, 2, none, some 120⟩]) (some [])

/-- Its candidate has no volume, although a later ranking reports one. -/
theorem lateVolume_not_filled :
    (mergeRankings lateVolume).map (fun m => (m.stockCode, m.volume)) = [("005930", 0)] ∧
      ¬MergesAsPromised lateVolume := by
  have hmerged : (mergeRankings lateVolume).map (fun m => (m.stockCode, m.volume)) = [("005930", 0)] := by
    decide +kernel
  refine ⟨hmerged, fun h => ?_⟩
  obtain ⟨m, hm, hpair⟩ := List.mem_map.1 (hmerged ▸ List.mem_singleton_self ("005930", (0 : ℤ)))
  obtain ⟨hcode, hvolume⟩ := Prod.mk.inj hpair
  have hlater := h.volume m hm 1000000 (by rw [hcode]; decide +kernel)
  omega

end KisAutotrader.MergeRankings
