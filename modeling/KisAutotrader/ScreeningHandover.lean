import KisAutotrader.ScreeningWorker

/-!
# The hand-over from the screening worker to the engine

The engine looks at the best-ranked row of a stock only, whichever round it comes
from.
-/
namespace KisAutotrader.ScreeningHandover
open Screening ScreeningWorker

variable {clock : MarketClock} {windowMin : ℤ} {now : Time} {today : ℕ} {watchlist : List Code}

/-- A row of today of the stock. -/
def RowOf (clock : MarketClock) (today : ℕ) (table : List ScreeningRow) (code : Code)
    (r : ScreeningRow) : Prop :=
  r ∈ table ∧ clock.date r.screenedAt = today ∧ r.stockCode = code

/-- The stock has been converted today, and its latest row of today lies within the window. -/
structure Fresh (clock : MarketClock) (windowMin : ℤ) (now : Time) (today : ℕ) (watchlist : List Code)
    (table : List ScreeningRow) (code : Code) : Prop where
  unwatched : code ∉ watchlist
  converted : ∃ r, RowOf clock today table code r ∧ r.convertedToTrade = true
  recent : ∃ r, RowOf clock today table code r ∧
    (∀ s, RowOf clock today table code s → s.screenedAt ≤ r.screenedAt) ∧
    (now : ℤ) - windowMin * minute ≤ r.screenedAt

/-- The row of the stock that stands first in rank order. -/
def leadingRow (code : Code) (results : List ScreeningRow) : Option ScreeningRow :=
  results.find? fun r => r.stockCode = code

/-- No converted row of a recent stock outside the watchlist stands behind a leading row of the stock
that is not converted. -/
def LeadingConverted (windowMin : ℤ) (now : Time) (watchlist : List Code) (results : List ScreeningRow) :
    Prop :=
  ∀ r ∈ results, r.convertedToTrade = true → r.stockCode ∉ watchlist →
    isStaleCode windowMin now results r.stockCode = false →
    ∃ s, leadingRow r.stockCode results = some s ∧ s.convertedToTrade = true

theorem mem_getByDate {table : List ScreeningRow} {r : ScreeningRow} :
    r ∈ getByDate clock today table ↔ r ∈ table ∧ clock.date r.screenedAt = today := by
  simp [getByDate, List.mem_insertionSort]

theorem rowOf_iff {table : List ScreeningRow} {code : Code} {r : ScreeningRow} :
    RowOf clock today table code r ↔ r ∈ getByDate clock today table ∧ r.stockCode = code := by
  rw [mem_getByDate, and_assoc]
  exact Iff.rfl

theorem latestAt_eq_none {code : Code} {rows : List ScreeningRow} (h : latestAt code rows = none) :
    ∀ r ∈ rows, r.stockCode ≠ code := by
  induction rows with
  | nil => simp
  | cons x xs ih =>
    unfold latestAt at h
    split at h
    · split at h
      · cases h
      · cases h
    · rename_i hne
      intro r hr
      rcases List.mem_cons.mp hr with rfl | hr
      · exact hne
      · exact ih h r hr

/-- The latest time is that of a row, and bounds them all. -/
theorem latestAt_eq_some {code : Code} {rows : List ScreeningRow} {t : Time}
    (h : latestAt code rows = some t) :
    (∃ r ∈ rows, r.stockCode = code ∧ r.screenedAt = t) ∧
      ∀ r ∈ rows, r.stockCode = code → r.screenedAt ≤ t := by
  induction rows generalizing t with
  | nil => cases h
  | cons x xs ih =>
    unfold latestAt at h
    split at h
    · rename_i hx
      split at h
      · rename_i hnone
        obtain rfl := Option.some.inj h
        refine ⟨⟨x, List.mem_cons_self, hx, rfl⟩, fun r hr hcode => ?_⟩
        rcases List.mem_cons.mp hr with rfl | hr
        · exact le_rfl
        · exact absurd hcode (latestAt_eq_none hnone r hr)
      · rename_i u hsome
        obtain rfl := Option.some.inj h
        obtain ⟨⟨s, hs, hscode, hstime⟩, hbound⟩ := ih hsome
        refine ⟨?_, fun r hr hcode => ?_⟩
        · rcases le_total u x.screenedAt with hle | hle
          · exact ⟨x, List.mem_cons_self, hx, (max_eq_left hle).symm⟩
          · exact ⟨s, List.mem_cons_of_mem x hs, hscode, hstime.trans (max_eq_right hle).symm⟩
        · rcases List.mem_cons.mp hr with rfl | hr
          · exact le_max_left _ _
          · exact (hbound r hr hcode).trans (le_max_right _ _)
    · rename_i hx
      obtain ⟨⟨s, hs, hscode, hstime⟩, hbound⟩ := ih h
      refine ⟨⟨s, List.mem_cons_of_mem x hs, hscode, hstime⟩, fun r hr hcode => ?_⟩
      rcases List.mem_cons.mp hr with rfl | hr
      · exact absurd hcode hx
      · exact hbound r hr hcode

theorem not_stale_iff {code : Code} {rows : List ScreeningRow} :
    isStaleCode windowMin now rows code = false ↔ ∃ r ∈ rows, r.stockCode = code ∧
      (∀ s ∈ rows, s.stockCode = code → s.screenedAt ≤ r.screenedAt) ∧
      (now : ℤ) - windowMin * minute ≤ r.screenedAt := by
  unfold isStaleCode
  cases hlatest : latestAt code rows with
  | none =>
    have hnone := latestAt_eq_none hlatest
    simp only [Bool.true_eq_false, false_iff]
    intro ⟨r, hr, hcode, _⟩
    exact hnone r hr hcode
  | some t =>
    obtain ⟨⟨r, hr, hcode, rfl⟩, hbound⟩ := latestAt_eq_some hlatest
    simp only [decide_eq_false_iff_not, not_lt]
    constructor
    · intro hrecent
      exact ⟨r, hr, hcode, hbound, hrecent⟩
    · intro ⟨s, hs, hscode, hlatest', hrecent⟩
      have hsame : s.screenedAt = r.screenedAt :=
        le_antisymm (hbound s hs hscode) (hlatest' r hr hcode)
      rw [← hsame]
      exact hrecent

/-- The pass takes a stock by its first row alone. -/
theorem mem_freshScan {stale : Code → Bool} {seen : List Code} {rows : List ScreeningRow} {code : Code} :
    code ∈ freshScan watchlist stale seen rows ↔ code ∉ seen ∧ code ∉ watchlist ∧ stale code = false ∧
      ∃ r, leadingRow code rows = some r ∧ r.convertedToTrade = true := by
  induction rows generalizing seen with
  | nil => simp [freshScan, leadingRow]
  | cons x xs ih =>
    have hrest : x.stockCode ≠ code → leadingRow code (x::xs) = leadingRow code xs := by
      intro hne
      simp [leadingRow, hne]
    have hfirst : x.stockCode = code → leadingRow code (x::xs) = some x := by
      intro heq
      simp [leadingRow, heq]
    unfold freshScan
    by_cases hcode : x.stockCode = code
    · subst hcode
      rw [hfirst rfl]
      split
      · rename_i hseen
        rw [ih]
        simp [hseen]
      · rename_i hseen
        split
        · rename_i htaken
          simp [hseen, htaken.1, htaken.2.1, htaken.2.2]
        · rename_i hpassed
          rw [ih]
          constructor
          · intro hmem
            exact absurd List.mem_cons_self hmem.1
          · intro ⟨_, hunwatched, hfresh, r, hr, hconverted⟩
            obtain rfl := Option.some.inj hr
            exact absurd ⟨hconverted, hunwatched, hfresh⟩ hpassed
    · rw [hrest hcode]
      have hseen : ∀ tail : List Code, code ∉ x.stockCode::tail ↔ code ∉ tail := by
        intro tail
        simp [Ne.symm hcode]
      split
      · exact ih
      · split
        · rw [List.mem_cons, ih, hseen]
          constructor
          · intro hmem
            exact hmem.resolve_left (Ne.symm hcode)
          · exact Or.inr
        · rw [ih, hseen]

theorem mem_freshCodes {results : List ScreeningRow} {code : Code} :
    code ∈ freshCodes windowMin now watchlist results ↔ code ∉ watchlist ∧
      isStaleCode windowMin now results code = false ∧
      ∃ r, leadingRow code results = some r ∧ r.convertedToTrade = true := by
  unfold freshCodes
  rw [mem_freshScan]
  simp

theorem leadingRow_mem {results : List ScreeningRow} {code : Code} {r : ScreeningRow}
    (h : leadingRow code results = some r) : r ∈ results ∧ r.stockCode = code := by
  have hcode := List.find?_some h
  exact ⟨List.mem_of_find?_eq_some h, by simpa using hcode⟩

/-- A stock the engine takes is fresh; a fresh one is taken if its leading row is converted. -/
theorem mem_freshCodes_iff {table : List ScreeningRow} {code : Code} :
    code ∈ freshCodes windowMin now watchlist (getByDate clock today table) ↔
      Fresh clock windowMin now today watchlist table code ∧
      ∃ r, leadingRow code (getByDate clock today table) = some r ∧ r.convertedToTrade = true := by
  rw [mem_freshCodes, not_stale_iff]
  constructor
  · intro ⟨hunwatched, ⟨r, hr, hcode, hlatest, hrecent⟩, s, hs, hconverted⟩
    refine ⟨⟨hunwatched, ⟨s, rowOf_iff.mpr (leadingRow_mem hs), hconverted⟩, r, rowOf_iff.mpr ⟨hr, hcode⟩,
      fun u hu => ?_, hrecent⟩, s, hs, hconverted⟩
    obtain ⟨hmem, hucode⟩ := rowOf_iff.mp hu
    exact hlatest u hmem hucode
  · intro ⟨hfresh, hleading⟩
    obtain ⟨r, hr, hlatest, hrecent⟩ := hfresh.recent
    obtain ⟨hmem, hcode⟩ := rowOf_iff.mp hr
    refine ⟨hfresh.unwatched, ⟨r, hmem, hcode, fun u hu hucode => ?_, hrecent⟩, hleading⟩
    exact hlatest u (rowOf_iff.mpr ⟨hu, hucode⟩)

theorem fresh_of_perm {table rows : List ScreeningRow} (hperm : table.Perm rows) {code : Code} :
    Fresh clock windowMin now today watchlist table code ↔
      Fresh clock windowMin now today watchlist rows code := by
  have hrow : ∀ r, RowOf clock today table code r ↔ RowOf clock today rows code r :=
    fun r => and_congr_left fun _ => hperm.mem_iff
  constructor <;> intro h
  · exact ⟨h.unwatched, by simpa only [hrow] using h.converted, by simpa only [hrow] using h.recent⟩
  · exact ⟨h.unwatched, by simpa only [hrow] using h.converted, by simpa only [hrow] using h.recent⟩

/-- After any rounds, and however the table orders rows of one rank: the engine's fresh set is the
worker's exactly if no converted row stands behind a leading row that is not. -/
theorem fresh_handover (clock : MarketClock) (windowMin : ℤ) (maxScreened : ℕ) (rounds : List Round)
    {table : List ScreeningRow} (htable : table.Perm (recordRounds clock windowMin maxScreened rounds))
    (watchlist : List Code) (now : Time) (today : ℕ) :
    (∀ code, code ∈ freshCodes windowMin now watchlist (getByDate clock today table) ↔
      Fresh clock windowMin now today watchlist (recordRounds clock windowMin maxScreened rounds) code) ↔
    LeadingConverted windowMin now watchlist (getByDate clock today table) := by
  simp only [← fresh_of_perm htable]
  constructor
  · intro hsame r hr hconverted hunwatched hstale
    obtain ⟨s, hs, hscode, hlatest, hrecent⟩ := not_stale_iff.mp hstale
    have hfresh : Fresh clock windowMin now today watchlist table r.stockCode := by
      refine ⟨hunwatched, ⟨r, rowOf_iff.mpr ⟨hr, rfl⟩, hconverted⟩, s, rowOf_iff.mpr ⟨hs, hscode⟩,
        fun u hu => ?_, hrecent⟩
      obtain ⟨hmem, hucode⟩ := rowOf_iff.mp hu
      exact hlatest u hmem hucode
    exact (mem_freshCodes_iff.mp ((hsame r.stockCode).mpr hfresh)).2
  · intro hleading code
    rw [mem_freshCodes_iff]
    constructor
    · exact fun h => h.1
    · intro hfresh
      obtain ⟨r, hr, hconverted⟩ := hfresh.converted
      obtain ⟨hmem, rfl⟩ := rowOf_iff.mp hr
      obtain ⟨s, hs, hlatest, hrecent⟩ := hfresh.recent
      obtain ⟨hsmem, hscode⟩ := rowOf_iff.mp hs
      have hstale : isStaleCode windowMin now (getByDate clock today table) r.stockCode = false := by
        refine not_stale_iff.mpr ⟨s, hsmem, hscode, fun u hu hucode => ?_, hrecent⟩
        exact hlatest u (rowOf_iff.mpr ⟨hu, hucode⟩)
      exact ⟨hfresh, hleading r hmem hconverted hfresh.unwatched hstale⟩

/-- Days of 24 hours. -/
def plainClock : MarketClock := ⟨(· / (1440 * minute)), (· / (60 * minute) % 24), (· / minute % 60)⟩

/-- A round at a time that ranks the codes and analyses some of them. -/
def roundAt (now : Time) (ranked scored : List Code) : Round :=
  ⟨now, true, [], ranked.map fun code => ⟨code, false, now⟩, scored, true⟩

theorem fresh_handover_single :
    (∀ code, code ∈ freshCodes 10 (545 * minute) [] (getByDate plainClock 0
        (recordRounds plainClock 10 40 [roundAt (540 * minute) ["005930", "000660"] ["000660"]])) ↔
      Fresh plainClock 10 (545 * minute) 0 []
        (recordRounds plainClock 10 40 [roundAt (540 * minute) ["005930", "000660"] ["000660"]]) code) ↔
    LeadingConverted 10 (545 * minute) [] (getByDate plainClock 0
      (recordRounds plainClock 10 40 [roundAt (540 * minute) ["005930", "000660"] ["000660"]])) :=
  fresh_handover plainClock 10 40 [roundAt (540 * minute) ["005930", "000660"] ["000660"]]
    (List.Perm.refl _) [] (545 * minute) 0

/-- A stock is converted at rank 3 and known already when it reaches rank 1 in the next round. -/
def climbingRounds : List Round :=
  [roundAt (540 * minute) ["005930", "000660", "035420"] ["035420"],
    roundAt (543 * minute) ["035420", "005930", "000660"] ["035420"]]

theorem climbing_dropped : ¬ ∀ (clock : MarketClock) (windowMin : ℤ) (maxScreened : ℕ) (rounds : List Round)
    (table : List ScreeningRow), table.Perm (recordRounds clock windowMin maxScreened rounds) →
    ∀ (watchlist : List Code) (now : Time) (today : ℕ) (code : Code),
      code ∈ freshCodes windowMin now watchlist (getByDate clock today table) ↔
        Fresh clock windowMin now today watchlist (recordRounds clock windowMin maxScreened rounds) code := by
  intro h
  have hsame := h plainClock 10 40 climbingRounds _ (List.Perm.refl _) [] (545 * minute) 0 "035420"
  have habsent : "035420" ∉ freshCodes 10 (545 * minute) []
      (getByDate plainClock 0 (recordRounds plainClock 10 40 climbingRounds)) := by decide +kernel
  refine habsent (hsame.mpr ⟨by simp, ⟨⟨"035420", 3, 540 * minute, true⟩, ?_, rfl⟩,
    ⟨"035420", 1, 543 * minute, false⟩, ?_, ?_, by decide⟩)
  · exact ⟨by decide +kernel, by decide +kernel, rfl⟩
  · exact ⟨by decide +kernel, by decide +kernel, rfl⟩
  · have hbound : ∀ r ∈ recordRounds plainClock 10 40 climbingRounds, r.screenedAt ≤ 543 * minute := by
      decide +kernel
    intro s hs
    exact hbound s hs.1

end KisAutotrader.ScreeningHandover
