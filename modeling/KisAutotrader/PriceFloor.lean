import KisAutotrader.OrderExecution
import KisAutotrader.RankSelection
import Mathlib.Algebra.Order.Archimedean.Real.Basic

/-!
# The price floor of the US market

The worker compares the rounded quote with the floor, the engine the quote itself. They agree
where neither the floor nor zero lies between a quote and its rounding.
-/
namespace KisAutotrader.PriceFloor
open Coroutine OrderExecution OrderedDict Screener RankSelection Rounding

structure OverseasRankItem (K : Type) where
  symbol : Code
  exchange : String
  last : K
  changeRate : K
  volume : ℤ
  rank : ℤ
  name : String

/-- What a round of the US worker gets from outside. -/
structure UsRound (K : Type) [Field K] [LinearOrder K] where
  fresh : Finset Code
  /-- the exchanges in their order with the answer about their ranking, none for an error -/
  rankings : List (String × Option (List (OverseasRankItem K)))
  /-- the code of an exchange in quotes -/
  quoteExchange : String → Option String
  /-- the signal on the daily bars of an item at a place on its exchange -/
  analysis : ℕ → Code → String → Option (Strategy.Signal K)

/-- The first record of each symbol, with its exchange. -/
def merged {K : Type} (rankings : List (String × Option (List (OverseasRankItem K)))) :
    Dict Code (OverseasRankItem K × String) :=
  rankings.foldl (fun merged ranking =>
    (ranking.2.getD []).foldl (fun merged r => merged.setDefault r.symbol (r, ranking.1)) merged) Dict.empty

lemma symbol_of_get?_merged {K : Type} {rankings : List (String × Option (List (OverseasRankItem K)))} {code : Code}
    {kept : OverseasRankItem K × String} (h : (merged rankings).get? code = some kept) : kept.1.symbol = code := by
  let Keyed (d : Dict Code (OverseasRankItem K × String)) : Prop :=
    ∀ code kept, d.get? code = some kept → kept.1.symbol = code
  have hinner : ∀ (exch : String) (rs : List (OverseasRankItem K)) d, Keyed d →
      Keyed (rs.foldl (fun merged r => merged.setDefault r.symbol (r, exch)) d) := by
    intro exch rs
    induction rs with
    | nil => exact fun d hd => hd
    | cons r rs ih =>
        intro d hd
        refine ih _ fun code kept hget => ?_
        rw [Dict.get?_setDefault] at hget
        split_ifs at hget with hcode
        · subst hcode
          obtain rfl := Option.some.inj hget
          cases hold : d.get? r.symbol with
          | none => rfl
          | some old => exact hd r.symbol old hold
        · exact hd code kept hget
  have hall : ∀ (rs : List (String × Option (List (OverseasRankItem K)))) d, Keyed d →
      Keyed (rs.foldl (fun merged ranking =>
        (ranking.2.getD []).foldl (fun merged r => merged.setDefault r.symbol (r, ranking.1)) merged) d) := by
    intro rs
    induction rs with
    | nil => exact fun d hd => hd
    | cons ranking rs ih => exact fun d hd => ih _ (hinner _ _ d hd)
  exact hall rankings Dict.empty (by simp [Keyed]) code kept h

section Model
variable {K : Type} [Field K] [LinearOrder K]

/-- The floor of `_execute_buy`. -/
def floorBlocks (minPrice price : K) : Bool := price ≤ 0 ∨ price < minPrice

/-- It stands before the engine's checks of the database. -/
theorem buyBlocked_eq (cfg : Settings) (code : Code) (price : ℚ) :
    buyBlocked cfg code price = (do
      let w ← get
      if code ∈ w.engine.untradableToday then pure true
      else if floorBlocks cfg.minPrice price then pure true
      else if ← checkMarketActionBlock code then pure true
      else checkDisclosureRiskBlock code) := by
  simp [buyBlocked, floorBlocks]

lemma passFilter_us {rules : EtfRules} {cfg : ScreeningConfig K} {item : Listing K} :
    passFilter rules cfg true item ↔
      isEtfEtn rules item.stockCode item.stockName true = false ∧ cfg.minPriceUs ≤ item.currentPrice ∧
        cfg.changeRateMin ≤ item.changeRate ∧ item.changeRate ≤ cfg.changeRateMax ∧ cfg.minVolume ≤ item.volume := by
  unfold passFilter
  by_cases hetf : isEtfEtn rules item.stockCode item.stockName true = true
  · simp [hetf]
  by_cases hprice : (item.currentPrice : K) < cfg.minPriceUs
  · simp [hetf, hprice]
  by_cases hlow : item.changeRate < cfg.changeRateMin
  · simp [hetf, hprice, hlow, not_le.2 hlow]
  by_cases hhigh : cfg.changeRateMax < item.changeRate
  · simp [hetf, hprice, hlow, hhigh, not_le.2 hhigh]
  · simp [hetf, hprice, hlow, hhigh, not_lt.1 hprice, not_lt.1 hlow, not_lt.1 hhigh]

variable [FloorRing K]

/-- A record as an item of the filter: its price is rounded to an integer. -/
def rankedItem (r : OverseasRankItem K) : VolumeRankItem K where
  stockCode := r.symbol
  stockName := if r.name = "" then r.symbol else r.name
  currentPrice := roundHalfEven r.last
  changeRate := r.changeRate
  volume := r.volume
  marketCap := 0

def allItems (rankings : List (String × Option (List (OverseasRankItem K)))) : List (VolumeRankItem K) :=
  (merged rankings).items.map fun entry => rankedItem entry.2.1

/-- The items that are scored. -/
def filtered (rules : EtfRules) (cfg : ScreeningConfig K) (round : UsRound K) : List (VolumeRankItem K) :=
  filterCandidates rules cfg true VolumeRankItem.listing (allItems round.rankings) round.fresh

/-- The exchange in quotes of a kept symbol; without one the item is skipped. -/
def excdOf (round : UsRound K) (code : Code) : Option String :=
  ((merged round.rankings).get? code).bind fun kept => (round.quoteExchange kept.2).filter (· ≠ "")

def scored (rules : EtfRules) (cfg : ScreeningConfig K) (round : UsRound K) : List (ScoredCandidate K) :=
  (filtered rules cfg round).zipIdx.filterMap fun (item, rankIdx) =>
    (excdOf round item.stockCode).bind fun excd =>
      (round.analysis rankIdx item.stockCode excd).map
        (scoreCandidate cfg item rankIdx (filtered rules cfg round).length)

/-- `new_codes` of a US round. -/
def newCodes (rules : EtfRules) (cfg : ScreeningConfig K) (round : UsRound K) : List Code :=
  select cfg round.fresh (scored rules cfg round)

/-- The price check of the filter for the US market. -/
def priceAccepted (cfg : ScreeningConfig K) (item : VolumeRankItem K) : Bool :=
  !decide ((item.currentPrice : K) < cfg.minPriceUs)

/-- The checks of the filter that are not about the price. -/
def otherwisePasses (rules : EtfRules) (cfg : ScreeningConfig K) (fresh : Finset Code) (item : VolumeRankItem K) :
    Prop :=
  item.stockCode ∉ fresh ∧ isEtfEtn rules item.stockCode item.stockName true = false ∧
    cfg.changeRateMin ≤ item.changeRate ∧ item.changeRate ≤ cfg.changeRateMax ∧ cfg.minVolume ≤ item.volume

/-- Worker and engine apply one floor in a round. -/
structure OneFloor (rules : EtfRules) (cfg : ScreeningConfig K) (round : UsRound K) : Prop where
  agree : ∀ code kept, (merged round.rankings).get? code = some kept →
    (priceAccepted cfg (rankedItem kept.1) ↔ ¬floorBlocks cfg.minPriceUs kept.1.last)
  converted : ∀ code ∈ newCodes rules cfg round, ∀ kept, (merged round.rankings).get? code = some kept →
    ¬floorBlocks cfg.minPriceUs kept.1.last
  undropped : ∀ code kept, (merged round.rankings).get? code = some kept →
    ¬floorBlocks cfg.minPriceUs kept.1.last → otherwisePasses rules cfg round.fresh (rankedItem kept.1) →
      rankedItem kept.1 ∈ filtered rules cfg round

/-- A positive quote has the floor on the same side as its rounding, one that is not positive is
rounded to less than the floor. -/
def Unseparated (floor last : K) : Prop :=
  (0 < last ∧ ¬(last < floor ∧ floor ≤ roundHalfEven last) ∧ ¬((roundHalfEven last : K) < floor ∧ floor ≤ last)) ∨
    (last ≤ 0 ∧ (roundHalfEven last : K) < floor)

lemma agree_iff (cfg : ScreeningConfig K) (r : OverseasRankItem K) :
    (priceAccepted cfg (rankedItem r) ↔ ¬floorBlocks cfg.minPriceUs r.last) ↔ Unseparated cfg.minPriceUs r.last := by
  have haccepted : priceAccepted cfg (rankedItem r) ↔ cfg.minPriceUs ≤ (roundHalfEven r.last : K) := by
    rw [priceAccepted, Bool.not_eq_true', decide_eq_false_iff_not, not_lt, rankedItem]
  have hfloor : ¬floorBlocks cfg.minPriceUs r.last ↔ 0 < r.last ∧ cfg.minPriceUs ≤ r.last := by
    simp [floorBlocks]
  rw [haccepted, hfloor, Unseparated]
  rcases lt_or_ge 0 r.last with hpos | hnonpos
  · simp only [hpos, true_and, not_le.2 hpos, false_and, or_false]
    rcases lt_or_ge r.last cfg.minPriceUs with hlow | hhigh
    · simp [hlow, not_le.2 hlow]
    · simp [hhigh, not_lt.2 hhigh]
  · simp [hnonpos, not_lt.2 hnonpos]

/-! ### A round -/

lemma mem_allItems {rankings : List (String × Option (List (OverseasRankItem K)))} {item : VolumeRankItem K} :
    item ∈ allItems rankings ↔
      ∃ kept, (merged rankings).get? item.stockCode = some kept ∧ rankedItem kept.1 = item := by
  constructor
  · intro hitem
    obtain ⟨⟨code, kept⟩, hentry, rfl⟩ := List.mem_map.1 hitem
    have hget := Dict.mem_items.1 hentry
    have hsymbol : (rankedItem kept.1).stockCode = code := symbol_of_get?_merged hget
    exact ⟨kept, hsymbol ▸ hget, rfl⟩
  · rintro ⟨kept, hget, rfl⟩
    exact List.mem_map.2 ⟨((rankedItem kept.1).stockCode, kept), Dict.mem_items.2 hget, rfl⟩

lemma mem_filtered {rules : EtfRules} {cfg : ScreeningConfig K} {round : UsRound K} {item : VolumeRankItem K} :
    item ∈ filtered rules cfg round ↔
      item ∈ allItems round.rankings ∧ priceAccepted cfg item ∧ otherwisePasses rules cfg round.fresh item := by
  rw [filtered, filterCandidates, List.mem_filter, Bool.and_eq_true, Bool.and_eq_true, passFilter_us, decide_eq_true_eq]
  simp only [priceAccepted, otherwisePasses, VolumeRankItem.listing, Bool.not_eq_true',
    decide_eq_false_iff_not, not_lt]
  tauto

lemma exists_filtered_of_mem_newCodes {rules : EtfRules} {cfg : ScreeningConfig K} {round : UsRound K} {code : Code}
    (h : code ∈ newCodes rules cfg round) : ∃ item ∈ filtered rules cfg round, item.stockCode = code := by
  obtain ⟨candidate, hcandidate, rfl⟩ := List.mem_map.1 h
  have hranked : candidate ∈ rankCandidates cfg (scored rules cfg round) := List.mem_of_mem_take hcandidate
  have hscored : candidate ∈ scored rules cfg round := by
    rw [rankCandidates, sortDescending, List.mem_insertionSort] at hranked
    exact (List.mem_filter.1 hranked).1
  obtain ⟨⟨item, rankIdx⟩, hitem, hscore⟩ := List.mem_filterMap.1 hscored
  obtain ⟨excd, -, hexcd⟩ := Option.bind_eq_some_iff.1 hscore
  obtain ⟨signal, -, rfl⟩ := Option.map_eq_some_iff.1 hexcd
  exact ⟨item, List.fst_mem_of_mem_zipIdx hitem, rfl⟩

/-- Worker and engine apply one floor in a round exactly when no quote of it is separated from its
rounding. -/
theorem oneFloor_iff (rules : EtfRules) (cfg : ScreeningConfig K) (round : UsRound K) :
    OneFloor rules cfg round ↔
      ∀ code kept, (merged round.rankings).get? code = some kept → Unseparated cfg.minPriceUs kept.1.last := by
  constructor
  · intro h code kept hkept
    exact (agree_iff cfg kept.1).1 (h.agree code kept hkept)
  · intro h
    have hagree : ∀ code kept, (merged round.rankings).get? code = some kept →
        (priceAccepted cfg (rankedItem kept.1) ↔ ¬floorBlocks cfg.minPriceUs kept.1.last) :=
      fun code kept hkept => (agree_iff cfg kept.1).2 (h code kept hkept)
    refine ⟨hagree, ?_, ?_⟩
    · intro code hcode kept hkept
      obtain ⟨item, hitem, rfl⟩ := exists_filtered_of_mem_newCodes hcode
      obtain ⟨hall, hprice, -⟩ := mem_filtered.1 hitem
      obtain ⟨kept', hkept', hitem'⟩ := mem_allItems.1 hall
      obtain rfl : kept = kept' := Option.some.inj (hkept.symm.trans hkept')
      exact (hagree _ kept hkept).1 (hitem' ▸ hprice)
    · intro code kept hkept hfloor hother
      have hsymbol : (rankedItem kept.1).stockCode = code := symbol_of_get?_merged hkept
      have hall : rankedItem kept.1 ∈ allItems round.rankings :=
        mem_allItems.2 ⟨kept, hsymbol.symm ▸ hkept, rfl⟩
      exact mem_filtered.2 ⟨hall, (hagree code kept hkept).2 hfloor, hother⟩

end Model

/-! ### Quotes below a dollar -/

/-- One exchange with one stock, quoted at 60 cents. -/
def pennyRound : UsRound ℚ where
  fresh := ∅
  rankings := [("NASD", some [⟨"SNDL", "NAS", 3 / 5, 3, 1000000, 1, "SNDL INC"⟩])]
  quoteExchange := fun _ => some "NAS"
  analysis := fun _ _ _ => some sureBuy

/-- With the default floor of one dollar it is converted, and the engine will not buy it. -/
theorem penny_converted :
    newCodes plainRules defaultConfig pennyRound = ["SNDL"] ∧
      floorBlocks defaultConfig.minPriceUs (3 / 5) = true ∧ ¬OneFloor plainRules defaultConfig pennyRound := by
  have hcodes : newCodes plainRules defaultConfig pennyRound = ["SNDL"] := by decide +kernel
  have hfloor : floorBlocks defaultConfig.minPriceUs (3 / 5) = true := by decide +kernel
  refine ⟨hcodes, hfloor, fun h => ?_⟩
  exact h.converted "SNDL" (by rw [hcodes]; simp) (⟨"SNDL", "NAS", 3 / 5, 3, 1000000, 1, "SNDL INC"⟩, "NASD") rfl
    hfloor

end KisAutotrader.PriceFloor
